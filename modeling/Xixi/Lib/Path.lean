import Mathlib.Data.List.Infix
import Mathlib.Data.List.Basic

/-!
# Paths

A path is walked from a place in a tree of names: one element stays, one goes up, the others go
down. What a counter of the levels tells about a path is compared with the places on the way.

1. `Place`, `walk`: a place relative to the start, and the way along a path.
2. `rises`: the path leads above its start, told by counting.
3. `rises_iff`: some prefix has more elements up than down.
4. `below_walk_iff`: a path that does not rise stays below its start all the way.
-/

namespace Xixi.Lib

variable {ν : Type}

inductive Element (ν : Type)
  | stay
  | up
  | down (name : ν)
deriving DecidableEq

/-- The levels above the start, and the names down from there, the last one first. -/
structure Place (ν : Type) where
  above : Nat
  names : List ν
deriving DecidableEq

namespace Place

/-- At the root there is no way up. -/
def move (root : Bool) (p : Place ν) : Element ν → Place ν
  | .stay => p
  | .up =>
    match p.names with
    | [] => if root then p else { p with above := p.above + 1 }
    | _ :: names => { p with names }
  | .down name => { p with names := name :: p.names }

def walk (root : Bool) (p : Place ν) (es : List (Element ν)) : Place ν := es.foldl (move root) p

/-- The place is `base`, or in it. -/
def Below (base p : Place ν) : Prop := p.above = base.above ∧ base.names <:+ p.names

instance [DecidableEq ν] (base p : Place ν) : Decidable (Below base p) :=
  inferInstanceAs (Decidable (_ ∧ _))

theorem walk_append (root : Bool) (p : Place ν) (es es' : List (Element ν)) :
    p.walk root (es ++ es') = (p.walk root es).walk root es' := List.foldl_append

end Place

namespace Element

def ups : List (Element ν) → Nat := List.countP fun e => match e with
  | up => true
  | _ => false

def downs : List (Element ν) → Nat := List.countP fun e => match e with
  | down _ => true
  | _ => false

/-- From `n` levels down, the path leads above the start. -/
def rises : Nat → List (Element ν) → Bool
  | _, [] => false
  | n, stay :: es => rises n es
  | n, up :: es => n == 0 || rises (n - 1) es
  | n, down _ :: es => rises (n + 1) es

variable {e : Element ν} {es es' : List (Element ν)} {n : Nat}

theorem forall_prefix_cons {P : List (Element ν) → Prop} :
    (∀ pre, pre <+: e :: es → P pre) ↔ P [] ∧ ∀ pre, pre <+: es → P (e :: pre) := by
  constructor
  · intro h
    exact ⟨h [] (List.nil_prefix), fun pre hpre => h _ (List.cons_prefix_cons.mpr ⟨rfl, hpre⟩)⟩
  · rintro ⟨hnil, hcons⟩ pre hpre
    cases pre with
    | nil => exact hnil
    | cons e' pre =>
      obtain ⟨rfl, hpre'⟩ := List.cons_prefix_cons.mp hpre
      exact hcons pre hpre'

theorem not_rises_iff : rises n es = false ↔ ∀ pre, pre <+: es → ups pre ≤ n + downs pre := by
  induction es generalizing n with
  | nil =>
    refine iff_of_true rfl fun pre hpre => ?_
    rw [List.prefix_nil.mp hpre]
    exact Nat.zero_le _
  | cons e es ih =>
    have hnil : ups ([] : List (Element ν)) ≤ n + downs ([] : List (Element ν)) := Nat.zero_le _
    rw [forall_prefix_cons, and_iff_right hnil]
    cases e with
    | stay => exact ih
    | down name =>
      refine ih.trans (forall₂_congr fun pre _ => ?_)
      simp only [ups, downs, List.countP_cons]
      simp only [Bool.false_eq_true, if_false, if_true]
      omega
    | up =>
      rw [rises, Bool.or_eq_false_iff, ih, beq_eq_false_iff_ne]
      simp only [ups, downs, List.countP_cons]
      simp only [Bool.false_eq_true, if_false, if_true]
      constructor
      · rintro ⟨hn, h⟩ pre hpre
        have hle := h pre hpre
        omega
      · intro h
        have hnil := h [] List.nil_prefix
        simp only [List.countP_nil] at hnil
        refine ⟨by omega, fun pre hpre => ?_⟩
        have hle := h pre hpre
        omega

theorem rises_iff : rises n es = true ↔ ∃ pre, pre <+: es ∧ n + downs pre < ups pre := by
  rw [← Bool.not_eq_false, not_rises_iff]
  simp only [not_forall, Nat.not_le, exists_prop]

/-- The path as a whole stays below, if its parts do. -/
theorem not_rises_append (h : rises 0 es = false) (h' : rises 0 es' = false) :
    rises 0 (es ++ es') = false := by
  rw [not_rises_iff] at *
  intro pre hpre
  rcases List.prefix_or_prefix_of_prefix hpre (List.prefix_append es es') with hle | ⟨rest, rfl⟩
  · exact h pre hle
  · have hrest := h' rest ((List.prefix_append_right_inj es).mp hpre)
    have hes := h es (List.prefix_refl es)
    rw [ups, downs, List.countP_append, List.countP_append]
    rw [ups, downs] at hrest hes
    omega

theorem not_rises_of_append (h : rises n (es ++ es') = false) : rises n es = false :=
  not_rises_iff.mpr fun pre hpre => not_rises_iff.mp h pre (hpre.trans (List.prefix_append es es'))

theorem rises_append_stay (n : Nat) (es : List (Element ν)) :
    rises n (es ++ [stay]) = rises n es := by
  induction es generalizing n with
  | nil => rfl
  | cons e es ih =>
    cases e with
    | stay => exact ih n
    | up => exact congrArg (n == 0 || ·) (ih (n - 1))
    | down name => exact ih (n + 1)

end Element

open Element Place

theorem below_walk_iff_aux {root : Bool} {above : Nat} {xs names : List ν} {es : List (Element ν)}
    (hne : names ≠ []) :
    (∀ pre, pre <+: es → Below ⟨above, names⟩ (walk root ⟨above, xs ++ names⟩ pre)) ↔
      rises xs.length es = false := by
  have hstart : Below ⟨above, names⟩ (⟨above, xs ++ names⟩ : Place ν) :=
    ⟨rfl, List.suffix_append xs names⟩
  induction es generalizing xs with
  | nil =>
    refine iff_of_true (fun pre hpre => ?_) rfl
    rw [List.prefix_nil.mp hpre]
    exact hstart
  | cons e es ih =>
    have hnil : Below ⟨above, names⟩ (walk root ⟨above, xs ++ names⟩ []) := hstart
    rw [forall_prefix_cons, and_iff_right hnil]
    cases e with
    | stay => exact ih hstart
    | down name => exact ih ⟨rfl, List.suffix_append (name :: xs) names⟩
    | up =>
      cases xs with
      | cons x xs => exact ih ⟨rfl, List.suffix_append xs names⟩
      | nil =>
        refine iff_of_false (fun h => ?_) fun h => Bool.noConfusion (h : true = false)
        obtain ⟨x, names, rfl⟩ := List.exists_cons_of_ne_nil hne
        have hlen := (h [] List.nil_prefix).2.length_le
        exact absurd hlen (Nat.not_succ_le_self _)

/-- Below a place that is not the start, the path stays below all the way if it does not rise. -/
theorem below_walk_iff {root : Bool} {base : Place ν} {es : List (Element ν)}
    (hne : base.names ≠ []) :
    (∀ pre, pre <+: es → Below base (base.walk root pre)) ↔ rises 0 es = false :=
  @below_walk_iff_aux _ root base.above [] base.names es hne

end Xixi.Lib
