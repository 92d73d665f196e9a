import Mathlib.Data.List.Basic

/-!
# Computations on a buffer

A computation that reads and writes a buffer in place, and has no result once it leaves the buffer.
What it does is told on the buffer as a list, cut where it reads or writes.

1. `Buffer`: return a value and a buffer, or leave the buffer.
2. `peek`, `poke`, `find`, `skip`, `copy`: the operations.
3. The rules: what an operation does between what stands in front of a position and behind it.
-/

namespace Xixi.Lib

variable {α β γ : Type}

def Buffer (α β : Type) : Type := List α → Option (β × List α)

namespace Buffer

instance : Monad (Buffer α) where
  pure b := fun m => some (b, m)
  bind x f := fun m => (x m).bind fun r => f r.1 r.2

/-- The buffer has been left. -/
def out : Buffer α β := fun _ => none

/-- What stands at a position. -/
def peek (i : Nat) : Buffer α α := fun m => m[i]?.map fun c => (c, m)

def poke (i : Nat) (c : α) : Buffer α Unit := fun m => if i < m.length then some ((), m.set i c) else none

/-- `memchr`: the first `x` in the `n` elements from a position on. -/
def find [DecidableEq α] (x : α) : Nat → Nat → Buffer α (Option Nat)
  | 0, _ => pure none
  | n + 1, i => do
    if (← peek i) = x then pure (some i) else find x n (i + 1)

/-- The first position where there is no `x`; `fuel` is a bound on the way there. -/
def skip [DecidableEq α] (x : α) : Nat → Nat → Buffer α Nat
  | 0, _ => out
  | fuel + 1, i => do
    if (← peek i) = x then skip x fuel (i + 1) else pure i

/-- The `n` elements from a position on. -/
def copy : Nat → Nat → Buffer α (List α)
  | 0, _ => pure []
  | n + 1, i => do
    let c ← peek i
    let l ← copy n (i + 1)
    pure (c :: l)

theorem bind_apply {x : Buffer α β} {m m' : List α} {b : β} (h : x m = some (b, m'))
    (f : β → Buffer α γ) : (x >>= f) m = f b m' :=
  congrArg (Option.bind · fun r => f r.1 r.2) h

variable {m l a b : List α} {c : α} {i n : Nat}

theorem peek_apply (hm : m = a ++ c :: b) (hi : i = a.length) : peek i m = some (c, m) := by
  subst hm hi
  rw [peek, List.getElem?_append_right (Nat.le_refl _), Nat.sub_self]
  rfl

theorem poke_apply (hm : m = a ++ c :: b) (hi : i = a.length) (d : α) :
    poke i d m = some ((), a ++ d :: b) := by
  subst hm hi
  have hlt : a.length < (a ++ c :: b).length := by
    rw [List.length_append, List.length_cons]
    omega
  rw [poke, if_pos hlt, List.set_append_right _ _ (Nat.le_refl _), Nat.sub_self]
  rfl

/-- One element further. -/
theorem shift (hm : m = a ++ (c :: l ++ b)) : m = (a ++ [c]) ++ (l ++ b) := by
  rw [hm, List.append_assoc]
  rfl

theorem length_shift (hi : i = a.length) (c : α) : i + 1 = (a ++ [c]).length := by
  rw [hi, List.length_append, List.length_singleton]

section Search

variable [DecidableEq α] {x : α}

/-- The elements in front of the first `x` are passed. -/
theorem find_apply (hm : m = a ++ (l ++ x :: b)) (hi : i = a.length) (hl : x ∉ l)
    (hn : l.length < n) : find x n i m = some (some (i + l.length), m) := by
  induction l generalizing a i n with
  | nil =>
    obtain ⟨n, rfl⟩ := Nat.exists_eq_add_one_of_ne_zero (Nat.ne_of_gt hn)
    rw [find, bind_apply (peek_apply hm hi), if_pos rfl]
    rfl
  | cons c l ih =>
    obtain ⟨n, rfl⟩ := Nat.exists_eq_add_one_of_ne_zero (Nat.ne_of_gt (Nat.lt_of_le_of_lt (Nat.zero_le _) hn))
    have hc : ¬ c = x := fun h => hl (h ▸ List.mem_cons_self)
    have hl' : x ∉ l := fun h => hl (List.mem_cons_of_mem c h)
    rw [find, bind_apply (peek_apply hm hi), if_neg hc,
      ih (shift hm) (length_shift hi c) hl' (Nat.lt_of_succ_lt_succ hn), List.length_cons]
    congr 3
    omega

theorem find_none (hm : m = a ++ (l ++ b)) (hi : i = a.length) (hl : x ∉ l) (hn : n = l.length) :
    find x n i m = some (none, m) := by
  subst hn
  induction l generalizing a i with
  | nil => rfl
  | cons c l ih =>
    have hc : ¬ c = x := fun h => hl (h ▸ List.mem_cons_self)
    have hl' : x ∉ l := fun h => hl (List.mem_cons_of_mem c h)
    rw [List.length_cons, find, bind_apply (peek_apply hm hi), if_neg hc]
    exact ih (shift hm) (length_shift hi c) hl'

theorem skip_apply (hm : m = a ++ (l ++ c :: b)) (hi : i = a.length) (hl : ∀ y ∈ l, y = x)
    (hc : c ≠ x) (hn : l.length < n) : skip x n i m = some (i + l.length, m) := by
  induction l generalizing a i n with
  | nil =>
    obtain ⟨n, rfl⟩ := Nat.exists_eq_add_one_of_ne_zero (Nat.ne_of_gt hn)
    rw [skip, bind_apply (peek_apply hm hi), if_neg hc]
    rfl
  | cons d l ih =>
    obtain ⟨n, rfl⟩ := Nat.exists_eq_add_one_of_ne_zero (Nat.ne_of_gt (Nat.lt_of_le_of_lt (Nat.zero_le _) hn))
    rw [skip, bind_apply (peek_apply hm hi), if_pos (hl d List.mem_cons_self),
      ih (shift hm) (length_shift hi d) (fun y hy => hl y (List.mem_cons_of_mem d hy))
        (Nat.lt_of_succ_lt_succ hn), List.length_cons]
    congr 2
    omega

end Search

theorem copy_apply (hm : m = a ++ (l ++ b)) (hi : i = a.length) (hn : n = l.length) :
    copy n i m = some (l, m) := by
  subst hn
  induction l generalizing a i with
  | nil => rfl
  | cons c l ih =>
    rw [List.length_cons, copy, bind_apply (peek_apply hm hi),
      bind_apply (ih (shift hm) (length_shift hi c))]
    rfl

end Buffer
end Xixi.Lib
