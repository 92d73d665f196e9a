import Mathlib.Algebra.Order.Group.Nat
import Xixi.Lib.Chain

/-!
# Intrusive lists (`xixi_list.hpp`)

`xixi::list<T, INDEX>` keeps `head_`, `tail_` and `size_`; the links `next_` and
`prev_` live inside the nodes, so all lists of one index share them. `Lists ι P`
is such a family of list objects, named by `ι`, together with the links of every
node. The asserts of the source are collected in `ok`.

1. `Rep F L`: every list of the family `F` is the sequence `L i`, forwards and
   backwards, and the nodes in no list have null links.
2. `rep_pushFront`, `rep_pushBack`, `rep_popFront`, `rep_remove`: the operations
   are the sequence operations, and their asserts hold.
3. `isLinked_of_mem`, `isLinked_of_not_mem`: what `is_linked` answers.
4. `seq`, `Rep.seq_eq`: the sequences a well-formed family stands for.
-/

namespace Xixi

open Lib

/-- The fields of one `xixi::list` object. -/
structure ListHead (P : Type) where
  head : Option P
  tail : Option P
  size : Nat
deriving DecidableEq, Repr

/-- A family of list objects of one index, with the links of the nodes. -/
structure Lists (ι P : Type) where
  list : ι → ListHead P
  next : P → Option P
  prev : P → Option P
  ok : Bool

namespace Lists

variable {ι P : Type} [DecidableEq ι] [DecidableEq P]

/-- All lists empty, all links null. -/
def empty : Lists ι P where
  list := fun _ => ⟨none, none, 0⟩
  next := fun _ => none
  prev := fun _ => none
  ok := true

def front (F : Lists ι P) (i : ι) : Option P := (F.list i).head

def size (F : Lists ι P) (i : ι) : Nat := (F.list i).size

/-- `next_`/`prev_` set, or the only node of the list. -/
def isLinked (F : Lists ι P) (i : ι) (p : P) : Bool :=
  (F.next p).isSome || (F.prev p).isSome ||
    ((F.list i).head == some p && (F.list i).tail == some p)

def pushFront (F : Lists ι P) (i : ι) (p : P) : Lists ι P :=
  let l := F.list i
  { list := Function.update F.list i
      { head := some p, tail := if l.tail.isNone then some p else l.tail
        size := (l.size + 1) % 2 ^ 32 }
    next := Function.update F.next p l.head
    prev := Function.update (setAt F.prev l.head (some p)) p none
    ok := F.ok && F.prev p == none && F.next p == none }

def pushBack (F : Lists ι P) (i : ι) (p : P) : Lists ι P :=
  let l := F.list i
  { list := Function.update F.list i
      { head := if l.head.isNone then some p else l.head, tail := some p
        size := (l.size + 1) % 2 ^ 32 }
    next := Function.update (setAt F.next l.tail (some p)) p none
    prev := Function.update F.prev p l.tail
    ok := F.ok && F.prev p == none && F.next p == none }

def popFront (F : Lists ι P) (i : ι) : Option P × Lists ι P :=
  match (F.list i).head with
  | none => (none, F)
  | some p =>
    let l := F.list i
    let head := F.next p
    (some p,
      { list := Function.update F.list i
          { head := head, tail := if l.tail = some p then none else l.tail
            size := (l.size + (2 ^ 32 - 1)) % 2 ^ 32 }
        next := Function.update F.next p none
        prev := setAt F.prev head none
        ok := F.ok })

def remove (F : Lists ι P) (i : ι) (p : P) : Lists ι P :=
  let l := F.list i
  { list := Function.update F.list i
      { head := if l.head = some p then F.next p else l.head
        tail := if l.tail = some p then F.prev p else l.tail
        size := (l.size + (2 ^ 32 - 1)) % 2 ^ 32 }
    next := Function.update (setAt F.next (F.prev p) (F.next p)) p none
    prev := Function.update (setAt F.prev (F.next p) (F.prev p)) p none
    ok := F.ok && F.next p != some p && F.prev p != some p &&
      (l.head != some p || F.prev p == none) && (l.tail != some p || F.next p == none) }

/-! ## The sequences a family stands for -/

/-- Every list of `F` is the sequence `L i`; the lists are disjoint, the other
nodes have null links, and no assert has failed. -/
structure Rep (F : Lists ι P) (L : ι → List P) : Prop where
  fwd : ∀ i, Seg F.next (F.list i).head (L i) none
  bwd : ∀ i, Seg F.prev (F.list i).tail (L i).reverse none
  nodup : ∀ i, (L i).Nodup
  disj : ∀ i j p, p ∈ L i → p ∈ L j → i = j
  null : ∀ p, (∀ i, p ∉ L i) → F.next p = none ∧ F.prev p = none
  size : ∀ i, (F.list i).size = (L i).length % 2 ^ 32
  ok : F.ok = true

/-- The mirror image: heads and tails, `next_` and `prev_` exchanged. -/
def flip (F : Lists ι P) : Lists ι P where
  list := fun i => ⟨(F.list i).tail, (F.list i).head, (F.list i).size⟩
  next := F.prev
  prev := F.next
  ok := F.ok

namespace ListLemmas

omit [DecidableEq ι] [DecidableEq P] in
theorem rep_flip {F : Lists ι P} {L : ι → List P} (h : F.Rep L) :
    F.flip.Rep fun i => (L i).reverse where
  fwd i := h.bwd i
  bwd i := by
    rw [List.reverse_reverse]
    exact h.fwd i
  nodup i := List.nodup_reverse.mpr (h.nodup i)
  disj i j p hi hj := h.disj i j p (List.mem_reverse.mp hi) (List.mem_reverse.mp hj)
  null p hp := (h.null p (fun i hi => hp i (List.mem_reverse.mpr hi))).symm
  size i := by simpa [flip] using h.size i
  ok := h.ok

theorem pushBack_flip (F : Lists ι P) (i : ι) (p : P) :
    F.pushBack i p = (F.flip.pushFront i p).flip := by
  have hl : (fun j => (⟨((F.flip.pushFront i p).list j).tail, ((F.flip.pushFront i p).list j).head,
      ((F.flip.pushFront i p).list j).size⟩ : ListHead P)) = (F.pushBack i p).list := by
    funext j
    by_cases hj : j = i
    · subst hj; simp [flip, pushFront, pushBack]
    · simp [flip, pushFront, pushBack, Function.update_of_ne hj]
  have hok : (F.flip.pushFront i p).ok = (F.pushBack i p).ok := by
    simp only [flip, pushFront, pushBack, Bool.and_right_comm]
  simp only [flip] at hl hok ⊢
  rw [hl, hok]
  rfl

end ListLemmas

open ListLemmas

/-! ## Pushing -/

omit [DecidableEq ι] [DecidableEq P] in
theorem head_ne_of_not_mem {F : Lists ι P} {L : ι → List P} {i : ι} {q : P} (h : F.Rep L)
    (hq : q ∉ L i) : (F.list i).head ≠ some q := by
  intro he
  have hhead := seg_head (h.fwd i)
  rw [he] at hhead
  exact hq (List.mem_of_mem_head? hhead.symm)

/-- Backwards, the list ends in the new node: the old head, if any, now has it before it. -/
theorem bwd_pushFront_self {F : Lists ι P} {L : ι → List P} {p : P} (h : F.Rep L) (i : ι)
    (hp : p ∉ L i) : Seg (F.pushFront i p).prev ((F.pushFront i p).list i).tail
      (L i).reverse (some p) := by
  simp only [pushFront, Function.update_self]
  have hb := h.bwd i
  have hf := seg_head (h.fwd i)
  have hnd := h.nodup i
  cases hxs : L i with
  | nil =>
    rw [hxs] at hb
    have ht : (F.list i).tail = none := hb
    simp [ht]
  | cons q qs =>
    rw [hxs] at hb hf hnd hp
    simp only [List.reverse_cons, seg_snoc] at hb
    obtain ⟨hb, hq⟩ := hb
    have ht : ¬ (F.list i).tail.isNone = true := by
      intro ht
      rw [Option.isNone_iff_eq_none] at ht
      rw [ht] at hb
      cases hr : qs.reverse with
      | nil => rw [hr] at hb; cases hb
      | cons a as => rw [hr] at hb; cases hb.1
    have hqp : q ≠ p := fun he => hp (he ▸ List.mem_cons_self)
    simp only [List.head?_cons] at hf
    simp only [if_neg ht, List.reverse_cons, seg_snoc, hf, setAt]
    refine ⟨?_, by simp [Function.update_of_ne hqp]⟩
    refine seg_update (seg_update hb ?_) ?_
    · simpa using (List.nodup_cons.mp hnd).1
    · simpa using fun hm => hp (List.mem_cons_of_mem q hm)

/-- The other lists stay as they are, backwards too. -/
theorem bwd_pushFront_of_ne {F : Lists ι P} {L : ι → List P} {p : P} {i j : ι} (h : F.Rep L)
    (hp : p ∉ L j) (hj : j ≠ i) : Seg (F.pushFront i p).prev ((F.pushFront i p).list j).tail
      (L j).reverse none := by
  simp only [pushFront, Function.update_of_ne hj]
  refine seg_update (seg_setAt (h.bwd j) fun a ha hm => ?_) (by simpa using hp)
  have hhead := seg_head (h.fwd i)
  rw [ha] at hhead
  exact hj (h.disj j i a (List.mem_reverse.mp hm) (List.mem_of_mem_head? hhead.symm))

/-- Pushing a node of no list puts it first, and the asserts hold. -/
theorem rep_pushFront {F : Lists ι P} {L : ι → List P} {p : P} (h : F.Rep L) (i : ι)
    (hp : ∀ j, p ∉ L j) : (F.pushFront i p).Rep (Function.update L i (p :: L i)) := by
  have hnull := h.null p hp
  refine ⟨fun j => ?_, fun j => ?_, fun j => ?_, fun j k q hj hk => ?_, fun q hq => ?_, fun j => ?_, ?_⟩
  · by_cases hj : j = i
    · subst hj
      simp only [pushFront, Function.update_self, seg_cons, true_and]
      exact seg_update (h.fwd j) (hp j)
    · simp only [pushFront, Function.update_of_ne hj]
      exact seg_update (h.fwd j) (hp j)
  · by_cases hj : j = i
    · subst hj
      rw [Function.update_self, List.reverse_cons, seg_snoc]
      exact ⟨bwd_pushFront_self h j (hp j), Function.update_self ..⟩
    · rw [Function.update_of_ne hj]
      exact bwd_pushFront_of_ne h (hp j) hj
  · by_cases hj : j = i
    · subst hj
      simp only [Function.update_self, List.nodup_cons]
      exact ⟨hp j, h.nodup j⟩
    · simp only [Function.update_of_ne hj]
      exact h.nodup j
  · have key : ∀ j, q ∈ Function.update L i (p :: L i) j → (q = p ∧ j = i) ∨ (q ∈ L j) := by
      intro j hj
      by_cases hji : j = i
      · subst hji
        simp only [Function.update_self, List.mem_cons] at hj
        exact hj.imp (fun e => ⟨e, rfl⟩) id
      · simp only [Function.update_of_ne hji] at hj
        exact .inr hj
    rcases key j hj with ⟨rfl, rfl⟩ | hj'
    · rcases key k hk with ⟨_, rfl⟩ | hk'
      · rfl
      · exact absurd hk' (hp k)
    · rcases key k hk with ⟨rfl, rfl⟩ | hk'
      · exact absurd hj' (hp j)
      · exact h.disj j k q hj' hk'
  · have hqi := hq i
    simp only [Function.update_self, List.mem_cons, not_or] at hqi
    have hqL : ∀ j, q ∉ L j := by
      intro j
      by_cases hj : j = i
      · exact hj ▸ hqi.2
      · have := hq j
        rwa [Function.update_of_ne hj] at this
    simp only [pushFront, Function.update_of_ne hqi.1, setAt_of_ne (head_ne_of_not_mem h hqi.2)]
    exact h.null q hqL
  · by_cases hj : j = i
    · subst hj
      simp only [pushFront, Function.update_self, List.length_cons, h.size j]
      omega
    · simp only [pushFront, Function.update_of_ne hj]
      exact h.size j
  · simp [pushFront, h.ok, hnull.1, hnull.2]

/-- Pushing a node of no list puts it last, and the asserts hold. -/
theorem rep_pushBack {F : Lists ι P} {L : ι → List P} {p : P} (h : F.Rep L) (i : ι)
    (hp : ∀ j, p ∉ L j) : (F.pushBack i p).Rep (Function.update L i (L i ++ [p])) := by
  have hf := rep_flip (rep_pushFront (rep_flip h) i (p := p) (fun j hj => hp j (by simpa using hj)))
  rw [← pushBack_flip] at hf
  convert hf using 1
  funext j
  by_cases hj : j = i
  · subst hj; simp
  · simp [Function.update_of_ne hj]

/-! ## The links of a node of a list -/

namespace ListLemmas

omit [DecidableEq ι] [DecidableEq P]

theorem head_eq {F : Lists ι P} {L : ι → List P} (h : F.Rep L) (i : ι) :
    (F.list i).head = (L i).head? := seg_head (h.fwd i)

theorem tail_eq {F : Lists ι P} {L : ι → List P} (h : F.Rep L) (i : ι) :
    (F.list i).tail = (L i).getLast? := by
  rw [seg_head (h.bwd i), List.head?_reverse]

theorem next_eq {F : Lists ι P} {L : ι → List P} (h : F.Rep L) {i : ι} {as bs : List P} {p : P}
    (hi : L i = as ++ p :: bs) : F.next p = bs.head? :=
  seg_next (hi ▸ h.fwd i)

theorem prev_eq {F : Lists ι P} {L : ι → List P} (h : F.Rep L) {i : ι} {as bs : List P} {p : P}
    (hi : L i = as ++ p :: bs) : F.prev p = as.getLast? := by
  have hb := h.bwd i
  rw [hi, List.reverse_append, List.reverse_cons, List.append_assoc, List.singleton_append] at hb
  rw [seg_next hb, List.head?_reverse]

end ListLemmas

/-! ## Removing -/

/-- Removing a node of the list takes it out of the sequence, and the asserts hold. -/
theorem rep_remove {F : Lists ι P} {L : ι → List P} {i : ι} {p : P} (h : F.Rep L)
    (hp : p ∈ L i) : (F.remove i p).Rep (Function.update L i ((L i).erase p)) := by
  obtain ⟨as, bs, hi⟩ := List.append_of_mem hp
  have hnd : (as ++ p :: bs).Nodup := hi ▸ h.nodup i
  have hpab : p ∉ as ++ bs := (List.nodup_cons.mp (List.nodup_middle.mp hnd)).1
  have hpa : p ∉ as := fun hm => hpab (List.mem_append_left bs hm)
  have herase : (L i).erase p = as ++ bs := by
    rw [hi, List.erase_append_right _ hpa, List.erase_cons_head]
  have hnext := next_eq h hi
  have hprev := prev_eq h hi
  have hnextMem : ∀ a, F.next p = some a → a ∈ L i ∧ a ≠ p := by
    intro a ha
    have hm : a ∈ bs := List.mem_of_mem_head? (hnext ▸ ha)
    exact ⟨by simp [hi, hm], fun he => hpab (by simp [← he, hm])⟩
  have hprevMem : ∀ a, F.prev p = some a → a ∈ L i ∧ a ≠ p := by
    intro a ha
    have hm : a ∈ as := List.mem_of_getLast? (hprev ▸ ha)
    exact ⟨by simp [hi, hm], fun he => hpab (by simp [← he, hm])⟩
  refine ⟨fun j => ?_, fun j => ?_, fun j => ?_, fun j k q hj hk => ?_, fun q hq => ?_, fun j => ?_, ?_⟩
  · by_cases hj : j = i
    · subst hj
      simp only [remove, Function.update_self, herase, hprev]
      exact seg_unlink (hi ▸ h.fwd j) hnd
    · simp only [remove, Function.update_of_ne hj]
      refine seg_update (seg_setAt (h.fwd j) fun a ha hm => ?_) fun hm => hj (h.disj j i p hm hp)
      exact hj (h.disj j i a hm (hprevMem a ha).1)
  · by_cases hj : j = i
    · subst hj
      have hb := h.bwd j
      rw [hi, List.reverse_append, List.reverse_cons, List.append_assoc] at hb
      have hnd' : (bs.reverse ++ ([p] ++ as.reverse)).Nodup := by
        simpa [List.reverse_append] using List.nodup_reverse.mpr hnd
      have hgl : F.next p = bs.reverse.getLast? := by rw [hnext, List.getLast?_reverse]
      simp only [remove, Function.update_self, herase, List.reverse_append, hgl]
      exact seg_unlink hb hnd'
    · simp only [remove, Function.update_of_ne hj]
      refine seg_update (seg_setAt (h.bwd j) fun a ha hm => ?_) fun hm =>
        hj (h.disj j i p (List.mem_reverse.mp hm) hp)
      exact hj (h.disj j i a (List.mem_reverse.mp hm) (hnextMem a ha).1)
  · by_cases hj : j = i
    · subst hj
      simpa using (h.nodup j).erase p
    · simpa [Function.update_of_ne hj] using h.nodup j
  · have key : ∀ j, q ∈ Function.update L i ((L i).erase p) j → q ∈ L j := by
      intro j hj
      by_cases hji : j = i
      · subst hji
        exact List.mem_of_mem_erase (by simpa using hj)
      · simpa [Function.update_of_ne hji] using hj
    exact h.disj j k q (key j hj) (key k hk)
  · by_cases hqp : q = p
    · subst hqp
      simp [remove]
    · have hqL : ∀ j, q ∉ L j := by
        intro j hm
        refine hq j ?_
        by_cases hj : j = i
        · subst hj
          simpa using (List.mem_erase_of_ne hqp).mpr hm
        · simpa [Function.update_of_ne hj] using hm
      have h1 : F.prev p ≠ some q := fun he => hqL i (hprevMem q he).1
      have h2 : F.next p ≠ some q := fun he => hqL i (hnextMem q he).1
      simp only [remove, Function.update_of_ne hqp, setAt_of_ne h1, setAt_of_ne h2]
      exact h.null q hqL
  · by_cases hj : j = i
    · subst hj
      have hlen : (L j).length = ((L j).erase p).length + 1 := by
        rw [herase, hi]
        simp only [List.length_append, List.length_cons]
        omega
      simp only [remove, Function.update_self, h.size j, hlen]
      omega
    · simpa [remove, Function.update_of_ne hj] using h.size j
  · have h1 : F.next p ≠ some p := fun he => (hnextMem p he).2 rfl
    have h2 : F.prev p ≠ some p := fun he => (hprevMem p he).2 rfl
    have h3 : (F.list i).head ≠ some p ∨ F.prev p = none := by
      rw [head_eq h i, hi, hprev]
      cases as with
      | nil => exact .inr rfl
      | cons a as' =>
        refine .inl fun he => hpa ?_
        have : a = p := by simpa using he
        simp [this]
    have h4 : (F.list i).tail ≠ some p ∨ F.next p = none := by
      rw [tail_eq h i, hi, hnext]
      cases bs with
      | nil => exact .inr rfl
      | cons b bs' =>
        refine .inl fun he => hpab ?_
        rw [List.getLast?_append, List.getLast?_cons_cons, Option.or_of_isSome (by simp)] at he
        exact List.mem_append_right as (List.mem_of_getLast? he)
    simp only [remove, h.ok, Bool.true_and, Bool.and_eq_true, Bool.or_eq_true, bne_iff_ne,
      beq_iff_eq]
    exact ⟨⟨⟨h1, h2⟩, h3⟩, h4⟩

/-- The same, with the node erased wherever it occurs: it occurs nowhere else. -/
theorem rep_remove_erase {F : Lists ι P} {L : ι → List P} {i : ι} {p : P} (h : F.Rep L)
    (hp : p ∈ L i) : (F.remove i p).Rep fun j => (L j).erase p := by
  convert rep_remove h hp using 1
  funext j
  by_cases hj : j = i
  · subst hj
    simp
  · rw [Function.update_of_ne hj, List.erase_of_not_mem fun hm => hj (h.disj j i p hm hp)]

/-- `pop_front` of a non-empty list removes its first node. -/
theorem popFront_cons {F : Lists ι P} {L : ι → List P} {i : ι} {p : P} {ps : List P}
    (h : F.Rep L) (hi : L i = p :: ps) : F.popFront i = (some p, F.remove i p) := by
  have hhead : (F.list i).head = some p := by rw [head_eq h i, hi]; rfl
  have hi' : L i = [] ++ p :: ps := hi
  have hprev : F.prev p = none := prev_eq h hi'
  have hok : (F.remove i p).ok = true := (rep_remove h (i := i) (by simp [hi])).ok
  have hprev' : Function.update (setAt F.prev (F.next p) none) p none = setAt F.prev (F.next p) none := by
    rw [Function.update_eq_self_iff]
    have hne : F.next p ≠ some p := by
      rw [next_eq h hi']
      intro he
      have hnd := h.nodup i
      rw [hi, List.nodup_cons] at hnd
      exact hnd.1 (List.mem_of_mem_head? he)
    rw [setAt_of_ne hne, hprev]
  simp only [remove, hprev, hhead, hprev'] at hok ⊢
  simp only [popFront, hhead, if_true, setAt]
  rw [hok, h.ok]

theorem popFront_nil {F : Lists ι P} {L : ι → List P} {i : ι} (h : F.Rep L) (hi : L i = []) :
    F.popFront i = (none, F) := by
  have hhead : (F.list i).head = none := by rw [head_eq h i, hi]; rfl
  simp [popFront, hhead]

/-! ## Membership -/

omit [DecidableEq ι] in
theorem isLinked_of_mem {F : Lists ι P} {L : ι → List P} {i : ι} {p : P} (h : F.Rep L)
    (hp : p ∈ L i) : F.isLinked i p = true := by
  obtain ⟨as, bs, hi⟩ := List.append_of_mem hp
  simp only [isLinked, next_eq h hi, prev_eq h hi, head_eq h i, tail_eq h i, hi]
  cases as with
  | nil => cases bs <;> simp
  | cons a as' => simp [List.getLast?_cons]

omit [DecidableEq ι] in
theorem isLinked_of_not_mem {F : Lists ι P} {L : ι → List P} {p : P} (h : F.Rep L) (i : ι)
    (hp : ∀ j, p ∉ L j) : F.isLinked i p = false := by
  have hnull := h.null p hp
  have hh : (F.list i).head ≠ some p := by
    rw [head_eq h i]
    exact fun he => hp i (List.mem_of_mem_head? he)
  simp [isLinked, hnull.1, hnull.2, hh]

/-- `p` is met when `next_` is followed from `head_`. -/
def Mem (F : Lists ι P) (i : ι) (p : P) : Prop :=
  ∃ xs o, Seg F.next (F.list i).head (xs ++ [p]) o

omit [DecidableEq ι] [DecidableEq P] in
theorem mem_iff {F : Lists ι P} {L : ι → List P} (h : F.Rep L) (i : ι) (p : P) :
    F.Mem i p ↔ p ∈ L i := by
  constructor
  · rintro ⟨xs, o, hs⟩
    exact (prefix_of_seg hs (h.fwd i)).subset (by simp)
  · intro hp
    obtain ⟨as, bs, hi⟩ := List.append_of_mem hp
    have hf := h.fwd i
    rw [hi, seg_mid] at hf
    exact ⟨as, _, seg_snoc.mpr ⟨hf.1, rfl⟩⟩

/-! ## The sequences of a well-formed family -/

open Classical in
/-- The sequences a well-formed family stands for. -/
noncomputable def seq (F : Lists ι P) : ι → List P :=
  if h : ∃ L, F.Rep L then h.choose else fun _ => []

omit [DecidableEq ι] [DecidableEq P] in
theorem Rep.seq_eq {F : Lists ι P} {L : ι → List P} (h : F.Rep L) : F.seq = L := by
  have hex : ∃ L, F.Rep L := ⟨L, h⟩
  have hc : F.Rep F.seq := by
    rw [seq, dif_pos hex]
    exact hex.choose_spec
  funext i
  exact seg_unique (hc.fwd i) (h.fwd i)

omit [DecidableEq ι] [DecidableEq P] in
theorem rep_empty : (empty : Lists ι P).Rep fun _ => [] where
  fwd _ := rfl
  bwd _ := rfl
  nodup _ := List.nodup_nil
  disj _ _ _ h _ := absurd h List.not_mem_nil
  null _ _ := ⟨rfl, rfl⟩
  size _ := rfl
  ok := rfl

end Lists
end Xixi
