import Mathlib.Data.List.Induction
import Mathlib.Logic.Function.Basic

/-!
# Absorbing a list in blocks

A state takes in a list `w` elements at a time, as long as more than `w` of them are left. The last
block, which may be shorter, is left over.

1. `absorb w f s xs`: the state, and the last block.
2. `absorb_block`: a whole block in front of more is one step.
3. `absorb_flatMap`: blocks of codes are the codes of blocks.
4. `absorb_front`: whole blocks in front of more only move the state.
5. `absorb_injective`: when no step forgets anything about the state, neither does a list.
-/

namespace Xixi.Lib

variable {σ α β : Type} {w : Nat} {f : σ → List α → σ} {s s' : σ} {xs ys : List α}

def absorb (w : Nat) (f : σ → List α → σ) (s : σ) (xs : List α) : σ × List α :=
  if 0 < w ∧ w < xs.length then absorb w f (f s (xs.take w)) (xs.drop w) else (s, xs)
termination_by xs.length
decreasing_by
  rw [List.length_drop]
  omega

theorem absorb_short (h : xs.length ≤ w) : absorb w f s xs = (s, xs) := by
  rw [absorb, if_neg fun hw => absurd hw.2 (Nat.not_lt_of_le h)]

theorem absorb_long (hpos : 0 < w) (h : w < xs.length) :
    absorb w f s xs = absorb w f (f s (xs.take w)) (xs.drop w) := by
  rw [absorb, if_pos ⟨hpos, h⟩]

theorem absorb_block {b : List α} (hb : b.length = w) (hpos : 0 < w) (hxs : xs ≠ []) :
    absorb w f s (b ++ xs) = absorb w f (f s b) xs := by
  have hlong : w < (b ++ xs).length := by
    rw [List.length_append, hb]
    exact Nat.lt_add_of_pos_right (List.length_pos_iff.mpr hxs)
  rw [absorb_long hpos hlong, ← hb, List.take_left, List.drop_left]

/-- Induction along the blocks. -/
theorem blocks_induction {P : List α → Prop} (hpos : 0 < w) (hshort : ∀ xs, xs.length ≤ w → P xs)
    (hlong : ∀ b xs, b.length = w → xs ≠ [] → P xs → P (b ++ xs)) (xs : List α) : P xs := by
  induction hn : xs.length using Nat.strongRecOn generalizing xs with
  | _ n ih =>
    rcases Nat.lt_or_ge w xs.length with hlt | hge
    · have hrest : xs.drop w ≠ [] := by
        rw [ne_eq, List.drop_eq_nil_iff]
        exact Nat.not_le_of_lt hlt
      have hless : (xs.drop w).length < n := by
        rw [List.length_drop]
        omega
      have h := hlong (xs.take w) (xs.drop w) (List.length_take_of_le (Nat.le_of_lt hlt)) hrest
        (ih _ hless _ rfl)
      rwa [List.take_append_drop] at h
    · exact hshort xs hge

theorem length_absorb (hpos : 0 < w) : (absorb w f s xs).2.length ≤ w := by
  induction xs using blocks_induction hpos generalizing s with
  | hshort xs h => rw [absorb_short h]; exact h
  | hlong b xs hb hxs ih => rw [absorb_block hb hpos hxs]; exact ih

/-- The last block does not depend on the state. -/
theorem absorb_rest (xs : List α) (s s' : σ) :
    (absorb w f s xs).2 = (absorb w f s' xs).2 := by
  fun_induction absorb w f s xs generalizing s' with
  | case1 s xs hw ih => rw [ih, absorb_long hw.1 hw.2]
  | case2 s xs hw => rw [absorb, if_neg hw]

/-- Every element has a code of `k` elements. -/
theorem absorb_flatMap {c : β → List α} {k : Nat} (hcode : ∀ y, (c y).length = k) (hk : 0 < k)
    {g : σ → List β → σ} (hstep : ∀ s b, b.length = w → g s b = f s (b.flatMap c))
    (hpos : 0 < w) (ys : List β) :
    absorb (w * k) f s (ys.flatMap c) =
      ((absorb w g s ys).1, (absorb w g s ys).2.flatMap c) := by
  have hlen (l : List β) : (l.flatMap c).length = l.length * k := by
    induction l with
    | nil => rw [List.flatMap_nil, List.length_nil, List.length_nil, Nat.zero_mul]
    | cons y l ih =>
      rw [List.flatMap_cons, List.length_append, hcode, ih, List.length_cons,
        Nat.succ_mul, Nat.add_comm]
  induction ys using blocks_induction hpos generalizing s with
  | hshort ys h =>
    rw [absorb_short h, absorb_short]
    rw [hlen]
    exact Nat.mul_le_mul_right k h
  | hlong b ys hb hys ih =>
    have hmore : ys.flatMap c ≠ [] := by
      rw [← List.length_pos_iff, hlen]
      exact Nat.mul_pos (List.length_pos_iff.mpr hys) hk
    rw [List.flatMap_append, absorb_block (by rw [hlen, hb]) (Nat.mul_pos hpos hk) hmore, ih,
      absorb_block hb hpos hys, hstep s b hb]

/-- What is in front of a block only moves the state. -/
theorem absorb_front {p : List α} (hpos : 0 < w) (hp : w ∣ p.length) (s : σ) :
    ∃ s₁, ∀ xs, xs ≠ [] → absorb w f s (p ++ xs) = absorb w f s₁ xs := by
  obtain ⟨n, hn⟩ := hp
  induction n generalizing s p with
  | zero =>
    rw [Nat.mul_zero, List.length_eq_zero_iff] at hn
    exact ⟨s, fun xs _ => by rw [hn, List.nil_append]⟩
  | succ n ih =>
    have hle : w ≤ p.length := hn ▸ Nat.le_mul_of_pos_right w (Nat.succ_pos n)
    have hrest : (p.drop w).length = w * n := by
      rw [List.length_drop, hn, Nat.mul_succ, Nat.add_sub_cancel]
    obtain ⟨s₁, hs₁⟩ := ih (f s (p.take w)) hrest
    refine ⟨s₁, fun xs hxs => ?_⟩
    have hne : p.drop w ++ xs ≠ [] := List.append_ne_nil_of_right_ne_nil _ hxs
    calc absorb w f s (p ++ xs)
        = absorb w f s (p.take w ++ (p.drop w ++ xs)) := by
          rw [← List.append_assoc, List.take_append_drop]
      _ = absorb w f (f s (p.take w)) (p.drop w ++ xs) :=
          absorb_block (List.length_take_of_le hle) hpos hne
      _ = absorb w f s₁ xs := hs₁ xs hxs

/-- When no step forgets anything about the state, a list takes different states to different
states. -/
theorem absorb_injective (hinj : ∀ b, Function.Injective fun s => f s b) (hpos : 0 < w)
    (xs : List α) : Function.Injective fun s => (absorb w f s xs).1 := by
  induction xs using blocks_induction hpos with
  | hshort xs h =>
    intro s s' heq
    simpa only [absorb_short h] using heq
  | hlong b xs hb hxs ih =>
    intro s s' heq
    simp only [absorb_block hb hpos hxs] at heq
    exact hinj b (ih heq)

end Xixi.Lib
