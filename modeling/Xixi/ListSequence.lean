import Xixi.IntrusiveList
import Xixi.Lib.Run

/-!
# Intrusive lists are sequences (`xixi_list.hpp`)

The operations of `xixi::list` that the manager does not use, and what any sequence of operations
does to a family of lists of one index.

1. `Lists.popBack`, `Lists.moveToFront`, `Lists.moveToBack`: the code. `rep_popBack`,
   `rep_moveToFront`, `rep_moveToBack`: what they do to the sequences.
2. `Traced.Step`: an operation on the lists, beside the operation on the sequences.
3. `sequence_of_run`: after any run the two agree, and no assert has failed.
4. `not_length`: `size_` is not the length of a list of 2^32 nodes.
-/

namespace Xixi

open Lib

namespace Lists

variable {ι P : Type} [DecidableEq ι] [DecidableEq P]

def popBack (F : Lists ι P) (i : ι) : Option P × Lists ι P :=
  match (F.list i).tail with
  | none => (none, F)
  | some p =>
    let l := F.list i
    let tail := F.prev p
    (some p,
      { list := Function.update F.list i
          { head := if l.head = some p then none else l.head, tail := tail
            size := (l.size + (2 ^ 32 - 1)) % 2 ^ 32 }
        next := setAt F.next tail none
        prev := Function.update F.prev p none
        ok := F.ok })

/-- Behind the asserts, `ok` also tells that `head_` is not null where it is followed. -/
def moveToFront (F : Lists ι P) (i : ι) (p : P) : Lists ι P :=
  let l := F.list i
  let ok := F.ok && F.next p != some p && F.prev p != some p
  if l.head = some p then { F with ok := ok }
  else
    let prev := if l.tail = some p then F.prev else setAt F.prev (F.next p) (F.prev p)
    let next := setAt F.next (F.prev p) (F.next p)
    { list := Function.update F.list i
        { l with head := some p, tail := if l.tail = some p then F.prev p else l.tail }
      next := Function.update next p l.head
      prev := setAt (Function.update prev p none) l.head (some p)
      ok := ok && (if l.tail = some p then F.next p == none else F.next p != none) &&
        F.prev p != none && l.head != none }

/-- The same, with `tail_`. -/
def moveToBack (F : Lists ι P) (i : ι) (p : P) : Lists ι P :=
  let l := F.list i
  let ok := F.ok && F.next p != some p && F.prev p != some p
  if l.tail = some p then { F with ok := ok }
  else
    let next := if l.head = some p then F.next else setAt F.next (F.prev p) (F.next p)
    let prev := setAt F.prev (F.next p) (F.prev p)
    { list := Function.update F.list i
        { l with head := if l.head = some p then F.next p else l.head, tail := some p }
      next := setAt (Function.update next p none) l.tail (some p)
      prev := Function.update prev p l.tail
      ok := ok && (if l.head = some p then F.prev p == none else F.prev p != none) &&
        F.next p != none && l.tail != none }

namespace ListLemmas

/-! ## The mirror image -/

omit [DecidableEq P] in
theorem flip_update (F : Lists ι P) (i : ι) (l : ListHead P) (next prev : P → Option P) (ok : Bool) :
    flip ⟨Function.update F.flip.list i l, next, prev, ok⟩ =
      ⟨Function.update F.list i ⟨l.tail, l.head, l.size⟩, prev, next, ok⟩ := by
  have hlist : (fun j => (⟨(Function.update F.flip.list i l j).tail,
      (Function.update F.flip.list i l j).head, (Function.update F.flip.list i l j).size⟩ :
        ListHead P)) = Function.update F.list i ⟨l.tail, l.head, l.size⟩ := by
    funext j
    by_cases hj : j = i
    · subst hj
      simp only [Function.update_self]
    · simp only [Function.update_of_ne hj]
      rfl
  unfold flip at hlist ⊢
  rw [hlist]

theorem popBack_flip (F : Lists ι P) (i : ι) :
    F.popBack i = ((F.flip.popFront i).1, (F.flip.popFront i).2.flip) := by
  have hhead : (F.flip.list i).head = (F.list i).tail := rfl
  unfold popBack popFront
  rw [hhead]
  cases (F.list i).tail with
  | none => rfl
  | some p =>
    dsimp only
    rw [flip_update]
    rfl

theorem moveToBack_flip (F : Lists ι P) (i : ι) (p : P) :
    F.moveToBack i p = (F.flip.moveToFront i p).flip := by
  have hhead : (F.flip.list i).head = (F.list i).tail := rfl
  have hok : (F.flip.ok && F.flip.next p != some p && F.flip.prev p != some p) =
      (F.ok && F.next p != some p && F.prev p != some p) := Bool.and_right_comm _ _ _
  unfold moveToBack moveToFront
  dsimp only
  rw [hhead, hok]
  split
  · rfl
  · rw [flip_update]
    rfl

/-! ## Taking a node to the front -/

omit [DecidableEq ι] [DecidableEq P] in
/-- A node of a list that is neither first nor last has neighbours. -/
theorem neighbours {F : Lists ι P} {L : ι → List P} {i : ι} {p : P} (h : F.Rep L) (hp : p ∈ L i) :
    ((F.list i).head = some p ↔ F.prev p = none) ∧ ((F.list i).tail = some p ↔ F.next p = none) := by
  obtain ⟨as, bs, hi⟩ := List.append_of_mem hp
  have hpab : p ∉ as ++ bs := (List.nodup_cons.mp (List.nodup_middle.mp (hi ▸ h.nodup i))).1
  rw [head_eq h i, tail_eq h i, next_eq h hi, prev_eq h hi, hi]
  constructor
  · cases as with
    | nil => exact iff_of_true rfl rfl
    | cons a as =>
      refine iff_of_false (fun he => hpab ?_) (by simp)
      have hap : a = p := Option.some.inj he
      exact hap ▸ List.mem_append_left _ List.mem_cons_self
  · cases bs with
    | nil => exact iff_of_true (by simp) rfl
    | cons b bs =>
      refine iff_of_false (fun he => hpab ?_) nofun
      rw [List.getLast?_append, List.getLast?_cons_cons, Option.or_of_isSome (by simp)] at he
      exact List.mem_append_right _ (List.mem_of_getLast? he)

theorem not_mem_removed {F : Lists ι P} {L : ι → List P} {i : ι} {p : P} (h : F.Rep L)
    (hp : p ∈ L i) (j : ι) : p ∉ Function.update L i ((L i).erase p) j := by
  intro hm
  by_cases hj : j = i
  · subst hj
    rw [Function.update_self] at hm
    exact (h.nodup j).not_mem_erase hm
  · rw [Function.update_of_ne hj] at hm
    exact hj (h.disj j i p hm hp)

/-- A node that is not first is taken out and pushed. -/
theorem moveToFront_eq {F : Lists ι P} {L : ι → List P} {i : ι} {p : P} (h : F.Rep L) (hp : p ∈ L i)
    (hfirst : (F.list i).head ≠ some p) : F.moveToFront i p = (F.remove i p).pushFront i p := by
  obtain ⟨hhead, htail⟩ := neighbours h hp
  have hprev : F.prev p ≠ none := mt hhead.mpr hfirst
  have hrest := rep_remove h hp
  have hok := (rep_pushFront hrest i (not_mem_removed h hp)).ok
  have hremoved := hrest.ok
  simp only [remove, Bool.and_eq_true] at hremoved
  obtain ⟨⟨⟨⟨hF, hnextne⟩, hprevne⟩, -⟩, -⟩ := hremoved
  have hnil : L i ≠ [] := List.ne_nil_of_mem hp
  have hhead' : (F.list i).head = some ((L i).head hnil) := (head_eq h i).trans (List.head?_eq_some_head hnil)
  have hlast : (F.list i).tail = some ((L i).getLast hnil) :=
    (tail_eq h i).trans (List.getLast?_eq_some_getLast hnil)
  have htail' : (if (F.list i).tail = some p then F.prev p else (F.list i).tail).isNone = false := by
    split
    · exact Option.isNone_eq_false_iff.mpr (Option.isSome_iff_ne_none.mpr hprev)
    · rw [hlast]
      rfl
  have hlist : ((F.remove i p).pushFront i p).list = Function.update F.list i
      { F.list i with
        head := some p
        tail := if (F.list i).tail = some p then F.prev p else (F.list i).tail } := by
    have hsize : (((F.list i).size + (2 ^ 32 - 1)) % 2 ^ 32 + 1) % 2 ^ 32 = (F.list i).size := by
      rw [h.size i]
      omega
    simp only [pushFront, remove, Function.update_self, Function.update_idem, htail', hsize,
      Bool.false_eq_true, if_false]
  have hnext : ((F.remove i p).pushFront i p).next =
      Function.update (setAt F.next (F.prev p) (F.next p)) p (F.list i).head := by
    simp only [pushFront, remove, Function.update_self, Function.update_idem, if_neg hfirst]
  have hprev' : ((F.remove i p).pushFront i p).prev = setAt (Function.update
      (if (F.list i).tail = some p then F.prev else setAt F.prev (F.next p) (F.prev p)) p none)
        (F.list i).head (some p) := by
    have hqp : p ≠ (L i).head hnil := fun he => hfirst (he ▸ hhead')
    have hlast' : (if (F.list i).tail = some p then F.prev
        else setAt F.prev (F.next p) (F.prev p)) = setAt F.prev (F.next p) (F.prev p) := by
      split
      · next hl => rw [htail.mp hl, setAt]
      · rfl
    rw [hlast']
    have hset (f : P → Option P) (a : P) (v : Option P) :
        setAt f (some a) v = Function.update f a v := rfl
    simp only [pushFront, remove, Function.update_self, if_neg hfirst]
    rw [hhead', hset, Function.update_comm hqp.symm, Function.update_idem]
  have hok' : (F.ok && F.next p != some p && F.prev p != some p &&
      (if (F.list i).tail = some p then F.next p == none else F.next p != none) &&
        F.prev p != none && (F.list i).head != none) = true := by
    have hend : (if (F.list i).tail = some p then F.next p == none else F.next p != none) = true := by
      split
      · next hl => exact beq_iff_eq.mpr (htail.mp hl)
      · next hl => exact bne_iff_ne.mpr (mt htail.mpr hl)
    have hstart : (F.list i).head ≠ none := by
      rw [hhead']
      rintro ⟨⟩
    rw [hF, hnextne, hprevne, hend, bne_iff_ne.mpr hprev, bne_iff_ne.mpr hstart]
    rfl
  unfold moveToFront
  dsimp only
  rw [if_neg hfirst, hok', ← hlist, ← hnext, ← hprev', ← hok]

theorem moveToFront_first {F : Lists ι P} {L : ι → List P} {i : ι} {p : P} (h : F.Rep L)
    (hp : p ∈ L i) (hfirst : (F.list i).head = some p) : F.moveToFront i p = F := by
  have hok := (rep_remove h hp).ok
  simp only [remove, Bool.and_eq_true] at hok
  obtain ⟨⟨⟨⟨hF, hnext⟩, hprev⟩, -⟩, -⟩ := hok
  rw [moveToFront, if_pos hfirst, hF, hnext, hprev]
  exact congrArg (Lists.mk F.list F.next F.prev) h.ok.symm

end ListLemmas

open ListLemmas

/-- The node comes first, and the others keep their order. -/
theorem rep_moveToFront {F : Lists ι P} {L : ι → List P} {i : ι} {p : P} (h : F.Rep L)
    (hp : p ∈ L i) : (F.moveToFront i p).Rep (Function.update L i (p :: (L i).erase p)) := by
  by_cases hfirst : (F.list i).head = some p
  · have hcons : p :: (L i).erase p = L i := by
      rw [head_eq h i] at hfirst
      obtain ⟨rest, hi⟩ := List.head?_eq_some_iff.mp hfirst
      rw [hi, List.erase_cons_head]
    rw [moveToFront_first h hp hfirst, hcons, Function.update_eq_self]
    exact h
  · rw [moveToFront_eq h hp hfirst]
    have hrep := rep_pushFront (rep_remove h hp) i (not_mem_removed h hp)
    rwa [Function.update_self, Function.update_idem] at hrep

/-- The node comes last, and the others keep their order. -/
theorem rep_moveToBack {F : Lists ι P} {L : ι → List P} {i : ι} {p : P} (h : F.Rep L)
    (hp : p ∈ L i) : (F.moveToBack i p).Rep (Function.update L i ((L i).erase p ++ [p])) := by
  have hmirror := rep_flip (rep_moveToFront (rep_flip h) (i := i) (List.mem_reverse.mpr hp))
  rw [← moveToBack_flip] at hmirror
  convert hmirror using 1
  funext j
  by_cases hj : j = i
  · subst hj
    have herase : (L j).reverse.erase p = ((L j).erase p).reverse := by
      rw [(h.nodup j).erase_eq_filter, (List.nodup_reverse.mpr (h.nodup j)).erase_eq_filter,
        List.filter_reverse]
    rw [Function.update_self, Function.update_self, herase, List.reverse_cons, List.reverse_reverse]
  · rw [Function.update_of_ne hj, Function.update_of_ne hj, List.reverse_reverse]

theorem popBack_nil {F : Lists ι P} {L : ι → List P} {i : ι} (h : F.Rep L) (hi : L i = []) :
    F.popBack i = (none, F) := by
  have hmirror : (L i).reverse = [] := by rw [hi, List.reverse_nil]
  rw [popBack_flip, popFront_nil (rep_flip h) hmirror]
  rfl

/-- `pop_back` of a non-empty list removes its last node. -/
theorem popBack_snoc {F : Lists ι P} {L : ι → List P} {i : ι} {p : P} {ps : List P}
    (h : F.Rep L) (hi : L i = ps ++ [p]) :
    (F.popBack i).1 = some p ∧ (F.popBack i).2.Rep (Function.update L i ps) := by
  have hmirror : (L i).reverse = p :: ps.reverse := by
    rw [hi, List.reverse_append]
    rfl
  have hpop := popFront_cons (rep_flip h) hmirror
  rw [popBack_flip, hpop]
  refine ⟨rfl, ?_⟩
  have hrep := rep_flip (rep_remove (rep_flip h) (i := i) (hmirror ▸ List.mem_cons_self))
  convert hrep using 1
  funext j
  by_cases hj : j = i
  · subst hj
    rw [Function.update_self, Function.update_self, hmirror, List.erase_cons_head, List.reverse_reverse]
  · rw [Function.update_of_ne hj, Function.update_of_ne hj, List.reverse_reverse]

/-! ## Runs -/

inductive ListOp (ι P : Type)
  | pushFront (i : ι) (p : P)
  | pushBack (i : ι) (p : P)
  | popFront (i : ι)
  | popBack (i : ι)
  | remove (i : ι) (p : P)
  | moveToFront (i : ι) (p : P)
  | moveToBack (i : ι) (p : P)

/-- What an operation does to the lists, and the node it returns. -/
def exec (F : Lists ι P) : ListOp ι P → Option P × Lists ι P
  | .pushFront i p => (none, F.pushFront i p)
  | .pushBack i p => (none, F.pushBack i p)
  | .popFront i => F.popFront i
  | .popBack i => F.popBack i
  | .remove i p => (none, F.remove i p)
  | .moveToFront i p => (none, F.moveToFront i p)
  | .moveToBack i p => (none, F.moveToBack i p)

/-- What an operation does to the sequences, and the element it returns. -/
def specify (L : ι → List P) : ListOp ι P → Option P × (ι → List P)
  | .pushFront i p => (none, Function.update L i (p :: L i))
  | .pushBack i p => (none, Function.update L i (L i ++ [p]))
  | .popFront i => ((L i).head?, Function.update L i (L i).tail)
  | .popBack i => ((L i).getLast?, Function.update L i (L i).dropLast)
  | .remove i p => (none, Function.update L i ((L i).erase p))
  | .moveToFront i p => (none, Function.update L i (p :: (L i).erase p))
  | .moveToBack i p => (none, Function.update L i ((L i).erase p ++ [p]))

/-- A node that is pushed is in no list; one that is removed or moved is in the list. -/
def Allowed (L : ι → List P) : ListOp ι P → Prop
  | .pushFront _ p | .pushBack _ p => ∀ j, p ∉ L j
  | .popFront _ | .popBack _ => True
  | .remove i p | .moveToFront i p | .moveToBack i p => p ∈ L i

/-- An operation on the lists, beside the operation on the sequences. -/
def Step (x : Lists ι P × (ι → List P)) (op : ListOp ι P) (y : Lists ι P × (ι → List P)) : Prop :=
  Allowed x.2 op ∧ y = ((x.1.exec op).2, (specify x.2 op).2)

/-- The constructors of the lists and of the nodes. -/
def start : Lists ι P × (ι → List P) := (empty, fun _ => [])

/-- The lists are the sequences, both ways, and the nodes in no list have no neighbours. -/
structure IsSequence (F : Lists ι P) (L : ι → List P) : Prop where
  forwards : ∀ i, Seg F.next (F.list i).head (L i) none
  backwards : ∀ i, Seg F.prev (F.list i).tail (L i).reverse none
  size : ∀ i, (F.list i).size = (L i).length % 2 ^ 32
  unlinked : ∀ p, (∀ i, p ∉ L i) → F.next p = none ∧ F.prev p = none
  isLinked : ∀ i p, (p ∈ L i → F.isLinked i p = true) ∧ ((∀ j, p ∉ L j) → F.isLinked i p = false)
  asserts : F.ok = true

namespace ListLemmas

/-- One operation. -/
theorem exec_spec {F : Lists ι P} {L : ι → List P} {op : ListOp ι P} (h : F.Rep L)
    (hop : Allowed L op) :
    (F.exec op).1 = (specify L op).1 ∧ (F.exec op).2.Rep (specify L op).2 := by
  cases op with
  | pushFront i p => exact ⟨rfl, rep_pushFront h i hop⟩
  | pushBack i p => exact ⟨rfl, rep_pushBack h i hop⟩
  | popFront i =>
    simp only [exec, specify]
    cases hi : L i with
    | nil =>
      rw [popFront_nil h hi, List.tail_nil, ← hi, Function.update_eq_self, hi]
      exact ⟨rfl, h⟩
    | cons p ps =>
      have hrep := rep_remove h (i := i) (hi ▸ List.mem_cons_self)
      rw [hi, List.erase_cons_head] at hrep
      rw [popFront_cons h hi]
      exact ⟨rfl, hrep⟩
  | popBack i =>
    simp only [exec, specify]
    rcases List.eq_nil_or_concat' (L i) with hi | ⟨ps, p, hi⟩
    · rw [popBack_nil h hi]
      refine ⟨by rw [hi]; rfl, ?_⟩
      rw [hi, List.dropLast_nil, ← hi, Function.update_eq_self]
      exact h
    · obtain ⟨hpop, hrep⟩ := popBack_snoc h hi
      rw [hi, List.getLast?_concat, List.dropLast_concat]
      exact ⟨hpop, hrep⟩
  | remove i p => exact ⟨rfl, rep_remove h hop⟩
  | moveToFront i p => exact ⟨rfl, rep_moveToFront h hop⟩
  | moveToBack i p => exact ⟨rfl, rep_moveToBack h hop⟩

theorem rep_run {x : Lists ι P × (ι → List P)} {t : List ((Lists ι P × (ι → List P)) × ListOp ι P)}
    (h : Run Step start t x) : x.1.Rep x.2 := by
  refine h.invariant (I := fun x => x.1.Rep x.2) (fun x op y hx hstep => ?_) rep_empty
  obtain ⟨hop, rfl⟩ := hstep
  exact (exec_spec hx hop).2

omit [DecidableEq ι] in
theorem isSequence_of_rep {F : Lists ι P} {L : ι → List P} (h : F.Rep L) : F.IsSequence L where
  forwards := h.fwd
  backwards := h.bwd
  size := h.size
  unlinked := h.null
  isLinked i _ := ⟨fun hp => isLinked_of_mem h hp, fun hp => isLinked_of_not_mem h i hp⟩
  asserts := h.ok

/-- `n` nodes in a list. -/
theorem run_pushes (n : Nat) : ∃ t x, Run (Step (ι := Unit) (P := Nat)) start t x ∧
    x.2 () = List.range n ∧ ∀ j, ∀ p ∈ x.2 j, p < n := by
  induction n with
  | zero => exact ⟨[], start, .nil _, rfl, fun _ _ hp => nomatch hp⟩
  | succ n ih =>
    obtain ⟨t, x, hrun, hlist, hless⟩ := ih
    have hnew : Allowed x.2 (.pushBack () n) := fun j hj => Nat.lt_irrefl n (hless j n hj)
    refine ⟨_, _, hrun.snoc ⟨hnew, rfl⟩, ?_, fun j p hp => ?_⟩
    · show Function.update x.2 () (x.2 () ++ [n]) () = _
      rw [Function.update_self, hlist, List.range_succ]
    · have hmem : p ∈ Function.update x.2 () (x.2 () ++ [n]) () := hp
      rw [Function.update_self, List.mem_append, List.mem_singleton] at hmem
      rcases hmem with hp | rfl
      · exact Nat.lt_succ_of_lt (hless () p hp)
      · exact Nat.lt_succ_self _

end ListLemmas

/-- After any run every list is its sequence, and an operation returns what it returns of the
sequence. `size_` is the length of the sequence modulo 2^32. -/
theorem sequence_of_run {x : Lists ι P × (ι → List P)}
    {t : List ((Lists ι P × (ι → List P)) × ListOp ι P)} (h : Run Step start t x) :
    x.1.IsSequence x.2 ∧
      ∀ op, Allowed x.2 op → (x.1.exec op).1 = (specify x.2 op).1 ∧ (x.1.exec op).2.ok = true := by
  have hrep := rep_run h
  refine ⟨isSequence_of_rep hrep, fun op hop => ?_⟩
  obtain ⟨hresult, hnext⟩ := exec_spec hrep hop
  exact ⟨hresult, hnext.ok⟩

/-- A node is moved to the back of a list of two, and taken from there. -/
theorem sequence_small :
    let F : Lists Bool Nat := ((empty.pushBack true 1).pushBack true 2).moveToBack true 1
    (F.popBack true).1 = some 1 ∧ F.ok = true ∧ F.isLinked true 2 = true ∧ F.isLinked false 3 = false := by
  intro F
  let L₁ : Bool → List Nat := Function.update (fun _ => []) true ([] ++ [1])
  let L₂ : Bool → List Nat := Function.update L₁ true (L₁ true ++ [2])
  let L₃ : Bool → List Nat := Function.update L₂ true ((L₂ true).erase 1 ++ [1])
  have hnew₁ : ∀ j : Bool, 1 ∉ ([] : List Nat) := by decide
  have hnew₂ : ∀ j : Bool, 2 ∉ L₁ j := by decide
  have hin₃ : 1 ∈ L₂ true := by decide
  have hstep₁ : Step start (.pushBack true 1) (empty.pushBack true 1, L₁) := ⟨hnew₁, rfl⟩
  have hstep₂ : Step (empty.pushBack true 1, L₁) (.pushBack true 2)
      ((empty.pushBack true 1).pushBack true 2, L₂) := ⟨hnew₂, rfl⟩
  have hstep₃ : Step ((empty.pushBack true 1).pushBack true 2, L₂) (.moveToBack true 1) (F, L₃) :=
    ⟨hin₃, rfl⟩
  obtain ⟨hseq, hresult⟩ := sequence_of_run (((Run.single hstep₁).snoc hstep₂).snoc hstep₃)
  exact ⟨(hresult (.popBack true) trivial).1, hseq.asserts, (hseq.isLinked true 2).1 (by decide),
    (hseq.isLinked false 3).2 (by decide)⟩

/-- 2^32 nodes in a list: `size_` is 0. -/
theorem not_length : ∃ t x, Run (Step (ι := Unit) (P := Nat)) start t x ∧
    (x.1.list ()).size = 0 ∧ (x.2 ()).length = 2 ^ 32 := by
  obtain ⟨t, x, hrun, hlist, -⟩ := run_pushes (2 ^ 32)
  have hlen : (x.2 ()).length = 2 ^ 32 := by rw [hlist, List.length_range]
  refine ⟨t, x, hrun, ?_, hlen⟩
  rw [(rep_run hrun).size (), hlen, Nat.mod_self]

end Lists
end Xixi
