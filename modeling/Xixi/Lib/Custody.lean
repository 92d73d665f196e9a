import Mathlib.Data.List.Nodup
import Mathlib.Data.List.Perm.Basic
import Mathlib.Logic.Function.Basic

/-!
# Custody

Things that go from place to place, each being in one place at a time.

1. `Custody all place content`: `content k` lists what is in the place `k`, and `place` says where a
   thing is.
2. `Custody.gather`: some things are brought to one place, from wherever they are.
3. `Custody.move`, `Custody.create`: one thing goes from a place to another, or is new.
-/

namespace Xixi.Lib

variable {α κ : Type}

/-- `all` are the things that there are. -/
structure Custody (all : α → Prop) (place : α → κ) (content : κ → List α) : Prop where
  mem_iff : ∀ k a, a ∈ content k ↔ all a ∧ place a = k
  nodup : ∀ k, (content k).Nodup

namespace Custody

variable {all : α → Prop} {place : α → κ} {content content' : κ → List α} {k d : κ} {a : α}

/-- Nothing is in two places. -/
theorem unique (h : Custody all place content) (ha : a ∈ content k) (ha' : a ∈ content d) :
    k = d :=
  ((h.mem_iff k a).mp ha).2.symm.trans ((h.mem_iff d a).mp ha').2

theorem exists_of_mem (h : Custody all place content) (ha : a ∈ content k) : all a :=
  ((h.mem_iff k a).mp ha).1

/-- Nothing is lost. -/
theorem mem_place (h : Custody all place content) (ha : all a) : a ∈ content (place a) :=
  (h.mem_iff _ a).mpr ⟨ha, rfl⟩

/-- What is `gone` is brought to `d`. -/
theorem gather (h : Custody all place content) (gone : α → Prop) [DecidablePred gone]
    (hrest : ∀ j, j ≠ d → ∀ b, b ∈ content' j ↔ b ∈ content j ∧ ¬ gone b)
    (hin : ∀ b, b ∈ content' d ↔ b ∈ content d ∨ all b ∧ gone b)
    (hnodup : ∀ j, (content' j).Nodup) :
    Custody all (fun b => if gone b then d else place b) content' := by
  refine ⟨fun j b => ?_, hnodup⟩
  by_cases hgone : gone b
  · rw [if_pos hgone]
    rcases eq_or_ne j d with rfl | hj
    · rw [hin]
      exact ⟨fun hb => ⟨hb.elim h.exists_of_mem And.left, rfl⟩, fun hb => .inr ⟨hb.1, hgone⟩⟩
    · rw [hrest j hj]
      exact ⟨fun hb => absurd hgone hb.2, fun hb => absurd hb.2.symm hj⟩
  · rw [if_neg hgone, ← h.mem_iff]
    rcases eq_or_ne j d with rfl | hj
    · rw [hin]
      exact ⟨fun hb => hb.resolve_right fun hb => hgone hb.2, .inl⟩
    · rw [hrest j hj]
      exact ⟨And.left, fun hb => ⟨hb, hgone⟩⟩

variable [DecidableEq κ]

/-- One thing goes from `k` to `d`. -/
theorem move (h : Custody all place content) (hne : k ≠ d) {l m : List α}
    (hout : (content k).Perm (a :: l)) (hin : m.Perm (a :: content d)) :
    ∃ place', Custody all place' (Function.update (Function.update content k l) d m) := by
  classical
  have ha : a ∈ content k := hout.mem_iff.mpr List.mem_cons_self
  obtain ⟨hal, hl⟩ := List.nodup_cons.mp (hout.nodup_iff.mp (h.nodup k))
  have ha' : a ∉ content d := fun hx => hne (h.unique ha hx)
  refine ⟨_, h.gather (d := d) (· = a) (fun j hj b => ?_) (fun b => ?_) fun j => ?_⟩
  · rw [Function.update_of_ne hj]
    rcases eq_or_ne j k with rfl | hjk
    · rw [Function.update_self, hout.mem_iff, List.mem_cons]
      refine ⟨fun hb => ⟨.inr hb, fun hx => hal (hx ▸ hb)⟩, fun hb => hb.1.resolve_left hb.2⟩
    · rw [Function.update_of_ne hjk]
      exact ⟨fun hb => ⟨hb, fun hx => hjk (h.unique (hx ▸ hb) ha)⟩, And.left⟩
  · rw [Function.update_self, hin.mem_iff, List.mem_cons]
    refine ⟨fun hb => hb.elim (fun hx => .inr ⟨hx ▸ h.exists_of_mem ha, hx⟩) .inl, fun hb => ?_⟩
    exact hb.elim .inr fun hx => .inl hx.2
  · rcases eq_or_ne j d with rfl | hj
    · rw [Function.update_self]
      exact hin.nodup_iff.mpr (List.nodup_cons.mpr ⟨ha', h.nodup j⟩)
    · rw [Function.update_of_ne hj]
      rcases eq_or_ne j k with rfl | hjk
      · rw [Function.update_self]
        exact hl
      · rw [Function.update_of_ne hjk]
        exact h.nodup j

/-- A new thing comes to `k`. -/
theorem create (h : Custody all place content) {alm : α → Prop} (hnew : ¬ all a)
    (hall : ∀ b, alm b ↔ b = a ∨ all b) {l : List α} (hin : l.Perm (a :: content k)) :
    ∃ place', Custody alm place' (Function.update content k l) := by
  classical
  refine ⟨fun b => if b = a then k else place b, fun j b => ?_, fun j => ?_⟩
  · rw [hall]
    by_cases hb : b = a
    · subst hb
      rw [if_pos rfl]
      rcases eq_or_ne j k with rfl | hj
      · rw [Function.update_self]
        exact ⟨fun _ => ⟨.inl rfl, rfl⟩, fun _ => hin.mem_iff.mpr List.mem_cons_self⟩
      · rw [Function.update_of_ne hj]
        exact ⟨fun hx => absurd (h.exists_of_mem hx) hnew, fun hx => absurd hx.2.symm hj⟩
    · rw [if_neg hb, or_iff_right hb, ← h.mem_iff]
      rcases eq_or_ne j k with rfl | hj
      · rw [Function.update_self, hin.mem_iff, List.mem_cons, or_iff_right hb]
      · rw [Function.update_of_ne hj]
  · rcases eq_or_ne j k with rfl | hj
    · rw [Function.update_self]
      exact hin.nodup_iff.mpr
        (List.nodup_cons.mpr ⟨fun hx => hnew (h.exists_of_mem hx), h.nodup j⟩)
    · rw [Function.update_of_ne hj]
      exact h.nodup j

end Custody
end Xixi.Lib
