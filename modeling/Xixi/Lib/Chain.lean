import Mathlib.Logic.Function.Basic
import Mathlib.Data.List.Nodup

/-!
# Pointer chains

A linked structure in memory is a partial successor function `nxt : P → Option P`
and some entry pointers. `Seg nxt o xs o'` says that following `nxt` from the
pointer `o` visits exactly the nodes `xs`, in order, and arrives at `o'`. A
complete chain is a segment that ends at `none`.

1. `seg_append`, `seg_snoc`: segments split and join.
2. `seg_congr`, `seg_update`: a segment only depends on the successors of its nodes.
3. `seg_unique`: a complete chain is determined by its entry pointer.
4. `seg_unlink`: redirecting the predecessor of a node takes it out of the chain.
-/

namespace Xixi.Lib

variable {P : Type}

/-- Following `nxt` from `o` visits exactly `xs` and arrives at `o'`. -/
def Seg (nxt : P → Option P) : Option P → List P → Option P → Prop
  | o, [], o' => o = o'
  | o, p :: ps, o' => o = some p ∧ Seg nxt (nxt p) ps o'

@[simp] theorem seg_nil {nxt : P → Option P} {o o' : Option P} :
    Seg nxt o [] o' ↔ o = o' := Iff.rfl

@[simp] theorem seg_cons {nxt : P → Option P} {o o' : Option P} {p : P} {ps : List P} :
    Seg nxt o (p :: ps) o' ↔ o = some p ∧ Seg nxt (nxt p) ps o' := Iff.rfl

/-! ## Splitting and joining -/

theorem seg_append {nxt : P → Option P} {o o' : Option P} {xs ys : List P} :
    Seg nxt o (xs ++ ys) o' ↔ ∃ m, Seg nxt o xs m ∧ Seg nxt m ys o' := by
  induction xs generalizing o with
  | nil => simp
  | cons p ps ih =>
    simp only [List.cons_append, seg_cons, ih]
    constructor
    · rintro ⟨ho, m, h1, h2⟩
      exact ⟨m, ⟨ho, h1⟩, h2⟩
    · rintro ⟨m, ⟨ho, h1⟩, h2⟩
      exact ⟨ho, m, h1, h2⟩

theorem seg_snoc {nxt : P → Option P} {o o' : Option P} {xs : List P} {p : P} :
    Seg nxt o (xs ++ [p]) o' ↔ Seg nxt o xs (some p) ∧ nxt p = o' := by
  rw [seg_append]
  constructor
  · rintro ⟨m, h, hm, he⟩
    exact ⟨hm ▸ h, he⟩
  · rintro ⟨h, he⟩
    exact ⟨some p, h, rfl, he⟩

theorem seg_mid {nxt : P → Option P} {o o' : Option P} {xs ys : List P} {p : P} :
    Seg nxt o (xs ++ p :: ys) o' ↔ Seg nxt o xs (some p) ∧ Seg nxt (nxt p) ys o' := by
  rw [seg_append]
  constructor
  · rintro ⟨m, h, hm, hy⟩
    exact ⟨hm ▸ h, hy⟩
  · rintro ⟨h, hy⟩
    exact ⟨some p, h, rfl, hy⟩

/-! ## Dependence on the successor function -/

theorem seg_congr {f g : P → Option P} {o o' : Option P} {xs : List P}
    (h : Seg f o xs o') (he : ∀ p ∈ xs, g p = f p) : Seg g o xs o' := by
  induction xs generalizing o with
  | nil => exact h
  | cons p ps ih =>
    obtain ⟨ho, hs⟩ := h
    refine ⟨ho, ?_⟩
    rw [he p (List.mem_cons_self)]
    exact ih hs (fun q hq => he q (List.mem_cons_of_mem p hq))

theorem seg_update [DecidableEq P] {nxt : P → Option P} {o o' v : Option P} {xs : List P} {p : P}
    (h : Seg nxt o xs o') (hp : p ∉ xs) : Seg (Function.update nxt p v) o xs o' := by
  refine seg_congr h fun q hq => ?_
  have hne : q ≠ p := fun he => hp (he ▸ hq)
  exact Function.update_of_ne hne v nxt

/-! ## Complete chains -/

theorem seg_head {nxt : P → Option P} {o : Option P} {xs : List P}
    (h : Seg nxt o xs none) : o = xs.head? := by
  cases xs with
  | nil => exact h
  | cons p ps => exact h.1

theorem seg_unique {nxt : P → Option P} {o : Option P} {xs ys : List P}
    (hx : Seg nxt o xs none) (hy : Seg nxt o ys none) : xs = ys := by
  induction xs generalizing o ys with
  | nil =>
    cases ys with
    | nil => rfl
    | cons q qs => exact nomatch hx.symm.trans hy.1
  | cons p ps ih =>
    cases ys with
    | nil => exact nomatch hx.1.symm.trans hy
    | cons q qs =>
      have hpq : p = q := Option.some.inj (hx.1.symm.trans hy.1)
      subst hpq
      rw [ih hx.2 hy.2]

/-- Whatever is visited from the entry of a complete chain is a beginning of it. -/
theorem prefix_of_seg {nxt : P → Option P} {o o' : Option P} {xs ys : List P}
    (hx : Seg nxt o xs o') (hy : Seg nxt o ys none) : xs <+: ys := by
  induction xs generalizing o ys with
  | nil => exact List.nil_prefix
  | cons p ps ih =>
    cases ys with
    | nil => exact nomatch hx.1.symm.trans hy
    | cons q qs =>
      have hpq : p = q := Option.some.inj (hx.1.symm.trans hy.1)
      subst hpq
      exact List.cons_prefix_cons.mpr ⟨rfl, ih hx.2 hy.2⟩

/-- The successor of a node of a chain is the node behind it. -/
theorem seg_next {nxt : P → Option P} {o : Option P} {xs ys : List P} {p : P}
    (h : Seg nxt o (xs ++ p :: ys) none) : nxt p = ys.head? :=
  seg_head (seg_mid.mp h).2

/-! ## Taking a node out -/

/-- The store `q->link = v` through a pointer `q` that may be null. -/
def setAt [DecidableEq P] (f : P → Option P) (q v : Option P) : P → Option P :=
  match q with
  | none => f
  | some a => Function.update f a v

theorem setAt_of_ne [DecidableEq P] {f : P → Option P} {q v : Option P} {p : P}
    (h : q ≠ some p) : setAt f q v p = f p := by
  cases q with
  | none => rfl
  | some a =>
    have hne : p ≠ a := fun he => h (by rw [he])
    exact Function.update_of_ne hne v f

theorem seg_setAt [DecidableEq P] {nxt : P → Option P} {o o' q v : Option P} {xs : List P}
    (h : Seg nxt o xs o') (hq : ∀ a, q = some a → a ∉ xs) : Seg (setAt nxt q v) o xs o' := by
  cases q with
  | none => exact h
  | some a => exact seg_update h (hq a rfl)

/-- Redirecting the predecessor of `p` (or the entry pointer, if `p` is first) to
the successor of `p` leaves the chain without `p`. -/
theorem seg_unlink [DecidableEq P] {nxt : P → Option P} {o v : Option P} {as bs : List P} {p : P}
    (h : Seg nxt o (as ++ p :: bs) none) (hnd : (as ++ p :: bs).Nodup) :
    Seg (Function.update (setAt nxt as.getLast? (nxt p)) p v)
      (if o = some p then nxt p else o) (as ++ bs) none := by
  have hp : p ∉ as ++ bs := (List.nodup_cons.mp (List.nodup_middle.mp hnd)).1
  obtain ⟨ha, hb⟩ := seg_mid.mp h
  refine seg_update ?_ hp
  rw [seg_append]
  refine ⟨nxt p, ?_, seg_setAt hb ?_⟩
  · rcases List.eq_nil_or_concat' as with rfl | ⟨as', a, rfl⟩
    · have ho : o = some p := ha
      simp [ho]
    · have hne : o ≠ some p := by
        intro ho
        cases hxs : as' ++ [a] with
        | nil => simp at hxs
        | cons x xs =>
          rw [hxs] at ha hp
          have hpx : p = x := Option.some.inj (ho.symm.trans ha.1)
          exact hp (by simp [hpx])
      rw [seg_snoc] at ha
      simp only [if_neg hne, List.getLast?_append, List.getLast?_singleton, Option.some_or, setAt,
        seg_snoc, Function.update_self, and_true]
      refine seg_update ha.1 ?_
      rw [List.append_assoc, List.nodup_append] at hnd
      exact fun hm => hnd.2.2 a hm a (by simp) rfl
  · intro a ha' hm
    have : a ∈ as := List.mem_of_getLast? ha'
    exact (List.nodup_append.mp hnd).2.2 a this a (List.mem_cons_of_mem p hm) rfl

end Xixi.Lib
