import Mathlib.Data.List.Infix
import Mathlib.Data.List.Basic

/-!
# The first occurrence of a list in another

1. `cut sub l`: `l` cut at the first occurrence of `sub`.
2. `cut_eq_none_iff`, `eq_of_cut`: what it finds.
3. `cut_append`: more elements behind do not change what has been found.
4. `cut_append_of_notMem`: elements that cannot begin an occurrence are skipped.
5. `First sub a`: the first occurrence stands behind `a`. `first_replicate`: equal elements in front
   of a list that has others.
-/

namespace Xixi.Lib

variable {α : Type} [DecidableEq α] {sub l a b : List α}

/-- What stands before the first occurrence of `sub`, and what stands behind it. -/
def cut (sub : List α) : List α → Option (List α × List α)
  | [] => if sub = [] then some ([], []) else none
  | x :: l =>
    if sub <+: x :: l then some ([], (x :: l).drop sub.length)
    else (cut sub l).map fun r => (x :: r.1, r.2)

theorem cut_cons_of_not {x : α} (h : ¬ sub <+: x :: l) :
    cut sub (x :: l) = (cut sub l).map fun r => (x :: r.1, r.2) := if_neg h

/-- The occurrence stands at the front. -/
theorem cut_front (sub l : List α) : cut sub (sub ++ l) = some ([], l) := by
  cases hl : sub ++ l with
  | nil =>
    obtain ⟨rfl, rfl⟩ := List.append_eq_nil_iff.mp hl
    rfl
  | cons x l' =>
    rw [← hl]
    have hfront : sub <+: sub ++ l := List.prefix_append sub l
    rw [hl] at hfront
    rw [hl, cut, if_pos hfront, ← hl, List.drop_left]

theorem eq_of_cut (h : cut sub l = some (a, b)) : l = a ++ (sub ++ b) := by
  induction l generalizing a with
  | nil =>
    rw [cut] at h
    split at h
    · next hsub =>
      cases h
      rw [hsub]
      rfl
    · cases h
  | cons x l ih =>
    rw [cut] at h
    split at h
    · next hfront =>
      cases h
      obtain ⟨r, hr⟩ := hfront
      rw [← hr, List.drop_left]
      rfl
    · obtain ⟨⟨a', b'⟩, hcut, heq⟩ := Option.map_eq_some_iff.mp h
      cases heq
      rw [ih hcut]
      rfl

theorem cut_eq_none_iff : cut sub l = none ↔ ¬ sub <:+: l := by
  induction l with
  | nil =>
    rw [cut]
    split
    · next hsub =>
      rw [hsub]
      exact iff_of_false nofun (not_not_intro List.nil_infix)
    · next hsub => exact iff_of_true rfl fun h => hsub (List.infix_nil.mp h)
  | cons x l ih =>
    rw [cut, List.infix_cons_iff, not_or]
    split
    · next hfront => exact iff_of_false nofun fun h => h.1 hfront
    · next hfront => rw [Option.map_eq_none_iff, ih, and_iff_right hfront]

theorem isSome_cut_iff : (cut sub l).isSome ↔ sub <:+: l := by
  rw [Option.isSome_iff_ne_none, Ne, cut_eq_none_iff, not_not]

/-- The occurrence that was found does not reach into what follows. -/
theorem cut_append (h : cut sub l = some (a, b)) (r : List α) :
    cut sub (l ++ r) = some (a, b ++ r) := by
  induction l generalizing a with
  | nil =>
    rw [cut] at h
    split at h
    · next hsub =>
      cases h
      rw [hsub]
      exact cut_front [] r
    · cases h
  | cons x l ih =>
    rw [cut] at h
    split at h
    · next hfront =>
      cases h
      obtain ⟨t, ht⟩ := hfront
      rw [← ht, List.append_assoc, cut_front, List.drop_left]
    · next hnot =>
      obtain ⟨⟨a', b'⟩, hcut, heq⟩ := Option.map_eq_some_iff.mp h
      cases heq
      -- an occurrence at the front of the longer list would be one of the shorter list
      have hlen : sub.length ≤ (x :: l).length := by
        rw [eq_of_cut hcut, List.length_cons, List.length_append, List.length_append]
        omega
      have hnot' : ¬ sub <+: x :: (l ++ r) := fun hx =>
        hnot (List.prefix_of_prefix_length_le hx (List.prefix_append (x :: l) r) hlen)
      rw [List.cons_append, cut_cons_of_not hnot', ih hcut]
      rfl

/-- Nothing is found before there is enough. -/
theorem length_le_of_cut (h : cut sub l = some (a, b)) : a.length + sub.length ≤ l.length := by
  rw [eq_of_cut h, List.length_append, List.length_append]
  omega

/-- Elements that do not begin an occurrence. -/
theorem cut_append_of_notMem {x : α} (h : x ∉ a) (sub l : List α) :
    cut (x :: sub) (a ++ l) = (cut (x :: sub) l).map fun r => (a ++ r.1, r.2) := by
  induction a with
  | nil =>
    rw [List.nil_append]
    exact Option.map_id_apply.symm
  | cons y a ih =>
    have hy : ¬ x :: sub <+: y :: (a ++ l) := by
      intro hx
      rw [List.cons_prefix_cons] at hx
      exact h (hx.1 ▸ List.mem_cons_self)
    rw [List.cons_append, cut_cons_of_not hy, ih fun hx => h (List.mem_cons_of_mem _ hx),
      Option.map_map]
    rfl

/-- An element that `sub` does not have ends a part without `sub`. -/
theorem cut_append_cons {x : α} (h : ¬ sub <:+: a) (hx : x ∉ sub) (l : List α) :
    cut sub (a ++ x :: l) = (cut sub l).map fun r => (a ++ x :: r.1, r.2) := by
  have hfront (a : List α) (ha : ¬ sub <+: a) : ¬ sub <+: a ++ x :: l := by
    intro hsub
    have ha' : a <+: a ++ x :: l := List.prefix_append a _
    rcases List.prefix_or_prefix_of_prefix hsub ha' with h' | ⟨t, ht⟩
    · exact ha h'
    · rw [← ht, List.prefix_append_right_inj] at hsub
      cases t with
      | nil => exact ha ⟨[], by rw [← ht, List.append_nil, List.append_nil]⟩
      | cons y t =>
        have hy := (List.cons_prefix_cons.mp hsub).1
        exact hx (ht ▸ List.mem_append_right a (hy ▸ List.mem_cons_self))
  induction a with
  | nil =>
    have hnil : ¬ sub <+: [] := fun h' => h h'.isInfix
    rw [List.nil_append, cut_cons_of_not (hfront [] hnil)]
    rfl
  | cons y a ih =>
    have hya : ¬ sub <+: y :: a := fun h' => h h'.isInfix
    have hfront' : ¬ sub <+: y :: (a ++ x :: l) := hfront (y :: a) hya
    rw [List.cons_append, cut_cons_of_not hfront',
      ih fun h' => h (h'.trans (List.suffix_cons y a).isInfix), Option.map_map]
    rfl

/-- One element, as `memchr` looks for it. -/
theorem cut_singleton {x : α} (h : x ∉ a) (l : List α) :
    cut [x] (a ++ x :: l) = some (a, l) := by
  rw [cut_append_of_notMem h, show x :: l = [x] ++ l from rfl, cut_front, Option.map_some,
    List.append_nil]

theorem of_cut_singleton {x : α} (h : cut [x] l = some (a, b)) : l = a ++ x :: b ∧ x ∉ a := by
  have hl : l = a ++ x :: b := eq_of_cut h
  refine ⟨hl, fun hx => ?_⟩
  -- an earlier one would have been found
  obtain ⟨a', b', rfl, hnot⟩ := List.eq_append_cons_of_mem hx
  rw [hl, List.append_assoc, List.cons_append, cut_singleton hnot] at h
  have hlen := congrArg List.length (Prod.mk.inj (Option.some.inj h)).1
  rw [List.length_append, List.length_cons] at hlen
  omega

theorem cut_singleton_none {x : α} : cut [x] l = none ↔ x ∉ l := by
  rw [cut_eq_none_iff, not_iff_not]
  constructor
  · intro h
    exact h.subset List.mem_cons_self
  · intro h
    obtain ⟨s, t, rfl⟩ := List.append_of_mem h
    exact ⟨s, t, by rw [List.append_assoc]; rfl⟩

/-! ## The first occurrence -/

/-- The first occurrence of `sub` stands behind `a`. -/
def First (sub a : List α) : Prop := cut sub (a ++ sub) = some (a, [])

instance (sub a : List α) : Decidable (First sub a) := inferInstanceAs (Decidable (_ = _))

/-- What stands behind the first occurrence does not matter. -/
theorem cut_eq_some_iff : cut sub l = some (a, b) ↔ l = a ++ (sub ++ b) ∧ First sub a := by
  constructor
  · intro h
    have hl := eq_of_cut h
    refine ⟨hl, ?_⟩
    have hsome : (cut sub (a ++ sub)).isSome :=
      isSome_cut_iff.mpr (List.suffix_append a sub).isInfix
    obtain ⟨⟨a', b'⟩, hcut⟩ := Option.isSome_iff_exists.mp hsome
    -- the same occurrence is found in the longer list
    have hlong := cut_append hcut b
    rw [List.append_assoc, ← hl, h] at hlong
    obtain ⟨rfl, -⟩ := Prod.mk.inj (Option.some.inj hlong)
    have hb' : sub ++ b' = sub := (List.append_cancel_left (eq_of_cut hcut)).symm
    rw [First, hcut, List.append_right_eq_self.mp hb']
  · rintro ⟨rfl, h⟩
    have hlong := cut_append h b
    rwa [List.append_assoc, List.nil_append] at hlong

theorem cut_of_first (h : First sub a) (b : List α) : cut sub (a ++ (sub ++ b)) = some (a, b) :=
  cut_eq_some_iff.mpr ⟨rfl, h⟩

theorem first_of_notMem {x : α} (h : x ∉ a) (sub : List α) : First (x :: sub) a := by
  have hfront := cut_front (x :: sub) []
  rw [List.append_nil] at hfront
  rw [First, cut_append_of_notMem h, hfront, Option.map_some, List.append_nil]

omit [DecidableEq α] in
/-- A list that stands in front of itself, with some `x` between, has no other elements. -/
theorem eq_of_prefix_replicate {x : α} {n : Nat}
    (h : sub <+: List.replicate (n + 1) x ++ (sub ++ l)) : ∀ y ∈ sub, y = x := by
  obtain ⟨t, ht⟩ := h
  have hall (i : Nat) (y : α) (hy : sub[i]? = some y) : y = x := by
    induction i using Nat.strongRecOn generalizing y with
    | ind i ih =>
      have hi : i < sub.length := (List.getElem?_eq_some_iff.mp hy).1
      have heq : (List.replicate (n + 1) x ++ (sub ++ l))[i]? = some y := by
        rw [← ht, List.getElem?_append_left hi, hy]
      rcases Nat.lt_or_ge i (n + 1) with hlt | hge
      · rw [List.getElem?_append_left (by rwa [List.length_replicate]),
          List.getElem?_replicate_of_lt hlt] at heq
        exact (Option.some.inj heq).symm
      · rw [List.getElem?_append_right (by rwa [List.length_replicate]), List.length_replicate,
          List.getElem?_append_left (by omega)] at heq
        exact ih (i - (n + 1)) (by omega) y heq
  intro y hy
  obtain ⟨i, hi⟩ := List.mem_iff_getElem?.mp hy
  exact hall i y hi

/-- Equal elements in front of an occurrence are no part of an earlier one, unless `sub` consists of
them. -/
theorem first_replicate {x : α} (h : ∃ y ∈ sub, y ≠ x) (n : Nat) : First sub (List.replicate n x) := by
  obtain ⟨y, hy, hne⟩ := h
  induction n with
  | zero =>
    have hfront := cut_front sub []
    rwa [List.append_nil] at hfront
  | succ n ih =>
    have hnot : ¬ sub <+: x :: (List.replicate n x ++ sub) := by
      intro hx
      have hx' : sub <+: List.replicate (n + 1) x ++ (sub ++ []) := by
        rwa [List.append_nil]
      exact hne (eq_of_prefix_replicate hx' y hy)
    rw [First] at ih
    rw [First, List.replicate_succ, List.cons_append, cut_cons_of_not hnot, ih]
    rfl

end Xixi.Lib
