import Xixi.HashMap
import Xixi.Lib.Run

/-!
# The hash map is a finite map (`xixi_hash_map.hpp`)

What any sequence of operations does to a `xixi::hash_map`, whatever the hash function is, and
whether or not there is memory for a larger table. The fuel of the loops over a chain can be anything
from 2^30 on.

1. `removeNode`: `remove` by node.
2. `Traced.Step`: an operation on the map, beside the operation on a partial function from keys to
   nodes.
3. `Tables`: how the number of buckets and the number of nodes at which the table is enlarged
   belong together while there are fewer than 2^30 nodes.
4. `finiteMap_of_run`: after any run the two agree, and every node is in the one chain it
   belongs to.
-/

namespace Xixi

open Lib

namespace HashMap

variable {P K : Type} [DecidableEq P] [DecidableEq K]

/-- `remove(const T* t)`: the loop of `remove` by key, which compares nodes. -/
def removeNode (m : HashMap P) (n : Nat) (t : P) : Option P × HashMap P :=
  m.remove n (fun curr => curr == t) (m.hashValue t)

namespace HashMapLemmas

omit [DecidableEq P] in
theorem removeLoop_none {isKey : P → Bool} {nxt : P → Option P} {o prev : Option P} {xs : List P}
    {n : Nat} (h : Seg nxt o xs none) (hkey : ∀ p ∈ xs, isKey p = false) :
    removeLoop isKey nxt n prev o = none := by
  induction xs generalizing o prev n with
  | nil =>
    have ho : o = none := h
    subst ho
    cases n with
    | zero => rfl
    | succ n => rfl
  | cons p ps ih =>
    obtain ⟨ho, hs⟩ := h
    subst ho
    cases n with
    | zero => rfl
    | succ n =>
      rw [removeLoop, hkey p List.mem_cons_self]
      exact ih hs fun q hq => hkey q (List.mem_cons_of_mem p hq)

/-- Without a node that matches, nothing is removed. -/
theorem remove_none {m : HashMap P} {S : Finset P} {n h : Nat} {isKey : P → Bool} (hm : m.Rep S)
    (hkey : ∀ p ∈ S, isKey p = false) : m.remove n isKey h = (none, m) := by
  obtain ⟨C, hC⟩ := hm
  have hb := bucket_lt hC h
  have hloop : removeLoop isKey m.hashNext n none (m.hashTable (h % m.bucketSize)) = none :=
    removeLoop_none (hC.chain _ hb) fun p hp => hkey p (mem_of_chain hC hb hp)
  rw [remove, hloop]

theorem remove_sizes (m : HashMap P) (n : Nat) (isKey : P → Bool) (h : Nat) :
    (m.remove n isKey h).2.bucketSize = m.bucketSize ∧
      (m.remove n isKey h).2.expandSize = m.expandSize := by
  unfold remove
  dsimp only
  split <;> exact ⟨rfl, rfl⟩

theorem insert_sizes (m : HashMap P) (n : Nat) (mallocOk : Bool) (p : P) (h : Nat) :
    ((m.insert n mallocOk p h).bucketSize = m.bucketSize ∧
        (m.insert n mallocOk p h).expandSize = m.expandSize) ∨
      (m.expandSize < (m.size + 1) % 2 ^ 32 ∧
        (m.insert n mallocOk p h).bucketSize = nextBucketSize m.bucketSize ∧
        (m.insert n mallocOk p h).expandSize = expandSizeOf (nextBucketSize m.bucketSize)) := by
  unfold insert
  dsimp only
  split
  · next hmore =>
    cases mallocOk with
    | true => exact .inr ⟨hmore, rfl, rfl⟩
    | false => exact .inl ⟨rfl, rfl⟩
  · exact .inl ⟨rfl, rfl⟩

end HashMapLemmas

open HashMapLemmas

/-! ## The sizes of the table -/

/-- The sum of the buckets and half of them does not wrap. -/
structure Tables (m : HashMap P) : Prop where
  pos : 0 < m.bucketSize
  word : m.bucketSize * 3 < 2 ^ 32
  expandSize : m.expandSize = m.bucketSize * 3 / 2

namespace HashMapLemmas

theorem nextBucketSize_cases (size : Nat) :
    (0 < nextBucketSize size ∧ nextBucketSize size ≤ 25165843) ∨
      nextBucketSize size = size * 2 % 2 ^ 32 := by
  unfold nextBucketSize
  split
  · next b hb =>
    have hbounds : ∀ b ∈ sizes, 0 < b ∧ b ≤ 25165843 := by decide
    exact .inl (hbounds b (List.mem_of_find?_eq_some hb))
  · exact .inr rfl

omit [DecidableEq P] in
theorem tables_pos {m : HashMap P} (h : m.Tables) : 0 < nextBucketSize m.bucketSize := by
  have hpos := h.pos
  have hword := h.word
  rcases nextBucketSize_cases m.bucketSize with ⟨hlist, -⟩ | hdouble
  · exact hlist
  · rw [hdouble]
    omega

omit [DecidableEq P] in
theorem tables_new {bucketSize : Nat} (hpos : 0 < bucketSize) (hless : bucketSize ≤ 2 ^ 28) :
    (new bucketSize : HashMap P).Tables where
  pos := hpos
  word := by
    show bucketSize * 3 < 2 ^ 32
    omega
  expandSize := by
    show bucketSize * 3 % 2 ^ 32 / 2 = bucketSize * 3 / 2
    rw [Nat.mod_eq_of_lt (by omega)]

/-- The table is only enlarged while there is room for it. -/
theorem tables_insert {m : HashMap P} (h : m.Tables) (hsize : m.size + 1 < 2 ^ 30) (n : Nat)
    (mallocOk : Bool) (p : P) (hv : Nat) : (m.insert n mallocOk p hv).Tables := by
  have hpos := h.pos
  have hword := h.word
  have hexpand := h.expandSize
  rcases insert_sizes m n mallocOk p hv with ⟨hb, he⟩ | ⟨hmore, hb, he⟩
  · exact ⟨hb ▸ hpos, hb ▸ hword, by rw [he, hb, hexpand]⟩
  · rw [Nat.mod_eq_of_lt (by omega)] at hmore
    have hnext : nextBucketSize m.bucketSize * 3 < 2 ^ 32 := by
      rcases nextBucketSize_cases m.bucketSize with ⟨-, hlist⟩ | hdouble
      · omega
      · rw [hdouble, Nat.mod_eq_of_lt (by omega)]
        omega
    refine ⟨hb ▸ tables_pos h, hb ▸ hnext, ?_⟩
    rw [he, hb, expandSizeOf, Nat.mod_eq_of_lt hnext]

end HashMapLemmas

/-! ## Runs -/

inductive MapOp (P K : Type)
  | insert (p : P) (mallocOk : Bool)
  | find (k : K)
  | removeKey (k : K)
  | removeNode (t : P)

/-- The map, the nodes under their keys, and the nodes. -/
structure Traced (P K : Type) where
  map : HashMap P
  entries : K → Option P
  nodes : Finset P

namespace Traced

variable (key : P → K) (hash : K → Nat) (fuel : Nat)

def new (bucketSize : Nat) : Traced P K := ⟨.new bucketSize, fun _ => none, ∅⟩

/-- The result and the map; the results of `insert` and `find` are the node and the unchanged map. -/
def exec (m : HashMap P) : MapOp P K → Option P × HashMap P
  | .insert p mallocOk => (some p, m.insert fuel mallocOk p (hash (key p)))
  | .find k => (m.find fuel (fun p => key p == k) (hash k), m)
  | .removeKey k => m.remove fuel (fun p => key p == k) (hash k)
  | .removeNode t => m.removeNode fuel t

/-- The same for the nodes under their keys. -/
def specify (x : Traced P K) : MapOp P K → Option P × (K → Option P) × Finset P
  | .insert p _ => (some p, Function.update x.entries (key p) (some p), Insert.insert p x.nodes)
  | .find k => (x.entries k, x.entries, x.nodes)
  | .removeKey k =>
    match x.entries k with
    | some p => (some p, Function.update x.entries k none, x.nodes.erase p)
    | none => (none, x.entries, x.nodes)
  | .removeNode t =>
    if t ∈ x.nodes then (some t, Function.update x.entries (key t) none, x.nodes.erase t)
    else (none, x.entries, x.nodes)

/-- A node is inserted if neither it nor its key is in the map, and there are fewer than 2^30 nodes
with it. -/
def Allowed (x : Traced P K) : MapOp P K → Prop
  | .insert p _ => p ∉ x.nodes ∧ x.entries (key p) = none ∧ x.nodes.card + 1 < 2 ^ 30
  | _ => True

def Step (x : Traced P K) (op : MapOp P K) (y : Traced P K) : Prop :=
  Allowed key x op ∧
    y = ⟨(exec key hash fuel x.map op).2, (specify key x op).2.1, (specify key x op).2.2⟩

/-- The map has the nodes, in chains, and finds them under their keys. -/
structure Agrees (x : Traced P K) : Prop where
  rep : x.map.Rep x.nodes
  tables : x.map.Tables
  entries : ∀ k p, x.entries k = some p ↔ p ∈ x.nodes ∧ key p = k
  hashValue : ∀ p ∈ x.nodes, x.map.hashValue p = hash (key p)
  few : x.nodes.card < 2 ^ 30

end Traced

open Traced

variable {key : P → K} {hash : K → Nat} {fuel : Nat} {x y : Traced P K}

namespace HashMapLemmas

omit [DecidableEq P] [DecidableEq K] in
theorem agrees_new {bucketSize : Nat} (hpos : 0 < bucketSize) (hless : bucketSize ≤ 2 ^ 28) :
    Agrees key hash (Traced.new bucketSize) where
  rep := rep_new hpos
  tables := tables_new hpos hless
  entries k p := iff_of_false nofun fun h => absurd h.1 (Finset.notMem_empty p)
  hashValue p hp := absurd hp (Finset.notMem_empty p)
  few := by
    show (∅ : Finset P).card < 2 ^ 30
    rw [Finset.card_empty]
    exact Nat.two_pow_pos 30

theorem find_eq (h : Agrees key hash x) (hfuel : 2 ^ 30 ≤ fuel) (k : K) :
    x.map.find fuel (fun p => key p == k) (hash k) = x.entries k := by
  have hn : x.nodes.card ≤ fuel := h.few.le.trans hfuel
  cases hf : x.map.find fuel (fun p => key p == k) (hash k) with
  | some p =>
    obtain ⟨hp, hk⟩ := find_some h.rep hn hf
    exact ((h.entries k p).mpr ⟨hp, beq_iff_eq.mp hk⟩).symm
  | none =>
    cases he : x.entries k with
    | none => rfl
    | some p =>
      obtain ⟨hp, rfl⟩ := (h.entries k p).mp he
      have hkey := find_none h.rep hn hf hp (h.hashValue p hp)
      rw [beq_self_eq_true] at hkey
      exact nomatch hkey

/-- A node of the map is taken out, found by a test that only it passes. -/
theorem agrees_remove (h : Agrees key hash x) (hfuel : 2 ^ 30 ≤ fuel) {p : P} (hp : p ∈ x.nodes)
    {isKey : P → Bool} (hk : isKey p = true) (huniq : ∀ q ∈ x.nodes, isKey q = true → q = p) :
    (x.map.remove fuel isKey (x.map.hashValue p)).1 = some p ∧
      Agrees key hash ⟨(x.map.remove fuel isKey (x.map.hashValue p)).2,
        Function.update x.entries (key p) none, x.nodes.erase p⟩ := by
  obtain ⟨hresult, hrep, hvalue, hbucket⟩ :=
    remove_eq h.rep (h.few.le.trans hfuel) hp rfl hk huniq
  obtain ⟨-, hexpand⟩ := remove_sizes x.map fuel isKey (x.map.hashValue p)
  refine ⟨hresult, hrep, ⟨?_, ?_, ?_⟩, fun k q => ?_, fun q hq => ?_, ?_⟩
  · exact hbucket ▸ h.tables.pos
  · exact hbucket ▸ h.tables.word
  · exact hexpand.trans (hbucket ▸ h.tables.expandSize)
  · show Function.update x.entries (key p) none k = some q ↔ q ∈ x.nodes.erase p ∧ key q = k
    rw [Finset.mem_erase]
    by_cases hkp : k = key p
    · subst hkp
      rw [Function.update_self]
      -- the keys of the nodes are different
      refine iff_of_false nofun fun hq => hq.1.1 ?_
      have hself := (h.entries (key p) p).mpr ⟨hp, rfl⟩
      have hother := (h.entries (key p) q).mpr ⟨hq.1.2, hq.2⟩
      exact Option.some.inj (hother.symm.trans hself)
    · rw [Function.update_of_ne hkp, h.entries]
      constructor
      · rintro ⟨hq, rfl⟩
        exact ⟨⟨fun he => hkp (he ▸ rfl), hq⟩, rfl⟩
      · exact fun hq => ⟨hq.1.2, hq.2⟩
  · show (x.map.remove fuel isKey (x.map.hashValue p)).2.hashValue q = hash (key q)
    rw [hvalue]
    exact h.hashValue q (Finset.mem_of_mem_erase hq)
  · exact (Finset.card_le_card (Finset.erase_subset p x.nodes)).trans_lt h.few

theorem agrees_insert (h : Agrees key hash x) (hfuel : 2 ^ 30 ≤ fuel) {p : P} (hp : p ∉ x.nodes)
    (hkey : x.entries (key p) = none) (hfew : x.nodes.card + 1 < 2 ^ 30) (mallocOk : Bool) :
    Agrees key hash ⟨x.map.insert fuel mallocOk p (hash (key p)),
      Function.update x.entries (key p) (some p), Insert.insert p x.nodes⟩ := by
  have hsize : x.map.size + 1 < 2 ^ 30 := by
    obtain ⟨C, hC⟩ := h.rep
    have hless := h.few
    rw [hC.size, Nat.mod_eq_of_lt (by omega)]
    exact hfew
  refine ⟨rep_insert h.rep hp (h.few.trans_le hfuel) (tables_pos h.tables),
    tables_insert h.tables hsize _ _ _ _, fun k q => ?_, fun q hq => ?_, ?_⟩
  · show Function.update x.entries (key p) (some p) k = some q ↔ q ∈ Insert.insert p x.nodes ∧ key q = k
    rw [Finset.mem_insert]
    by_cases hk : k = key p
    · subst hk
      rw [Function.update_self]
      constructor
      · rintro hq
        obtain rfl := Option.some.inj hq
        exact ⟨.inl rfl, rfl⟩
      · rintro ⟨rfl | hq, hqk⟩
        · rfl
        · have hother := (h.entries (key p) q).mpr ⟨hq, hqk⟩
          exact nomatch hkey.symm.trans hother
    · rw [Function.update_of_ne hk, h.entries]
      constructor
      · exact fun hq => ⟨.inr hq.1, hq.2⟩
      · rintro ⟨rfl | hq, hqk⟩
        · exact absurd hqk.symm hk
        · exact ⟨hq, hqk⟩
  · show (x.map.insert fuel mallocOk p (hash (key p))).hashValue q = hash (key q)
    rw [insert_hashValue]
    by_cases hqp : q = p
    · subst hqp
      rw [Function.update_self]
    · rw [Function.update_of_ne hqp]
      exact h.hashValue q ((Finset.mem_insert.mp hq).resolve_left hqp)
  · show (Insert.insert p x.nodes).card < 2 ^ 30
    rw [Finset.card_insert_of_notMem hp]
    exact hfew

/-- One operation. -/
theorem agrees_exec (h : Agrees key hash x) (hfuel : 2 ^ 30 ≤ fuel) {op : MapOp P K}
    (hop : Allowed key x op) :
    (exec key hash fuel x.map op).1 = (specify key x op).1 ∧
      Agrees key hash ⟨(exec key hash fuel x.map op).2, (specify key x op).2.1,
        (specify key x op).2.2⟩ := by
  cases op with
  | insert p mallocOk =>
    obtain ⟨hp, hkey, hfew⟩ := hop
    exact ⟨rfl, agrees_insert h hfuel hp hkey hfew mallocOk⟩
  | find k => exact ⟨find_eq h hfuel k, h⟩
  | removeKey k =>
    simp only [exec, specify]
    cases he : x.entries k with
    | some p =>
      obtain ⟨hp, rfl⟩ := (h.entries k p).mp he
      rw [← h.hashValue p hp]
      refine agrees_remove h hfuel hp (beq_self_eq_true _) fun q hq hkq => ?_
      have hq' := (h.entries (key p) q).mpr ⟨hq, beq_iff_eq.mp hkq⟩
      exact Option.some.inj (hq'.symm.trans he)
    | none =>
      have hkey : ∀ p ∈ x.nodes, (key p == k) = false := by
        intro p hp
        refine beq_eq_false_iff_ne.mpr fun hk => ?_
        exact nomatch he.symm.trans ((h.entries k p).mpr ⟨hp, hk⟩)
      rw [remove_none h.rep hkey]
      exact ⟨rfl, h⟩
  | removeNode t =>
    simp only [exec, specify, removeNode]
    by_cases ht : t ∈ x.nodes
    · rw [if_pos ht]
      exact agrees_remove h hfuel ht (beq_self_eq_true t) fun q _ hq => beq_iff_eq.mp hq
    · have hkey : ∀ p ∈ x.nodes, (p == t) = false := fun p hp =>
        beq_eq_false_iff_ne.mpr fun he => ht (he ▸ hp)
      rw [if_neg ht, remove_none h.rep hkey]
      exact ⟨rfl, h⟩

end HashMapLemmas

/-- After any run the map finds under a key what has been inserted under it and not been removed,
`remove` returns what it takes out, `size_` is the number of nodes, and every node is in one chain
only, that of its hash value; the chains end. -/
theorem finiteMap_of_run {bucketSize : Nat} {t : List (Traced P K × MapOp P K)}
    (hpos : 1 ≤ bucketSize) (hless : bucketSize ≤ 2 ^ 28) (hfuel : 2 ^ 30 ≤ fuel)
    (h : Run (Traced.Step key hash fuel) (Traced.new bucketSize) t x) :
    (∀ op, Allowed key x op → (exec key hash fuel x.map op).1 = (specify key x op).1) ∧
      (∀ k p, x.entries k = some p ↔ p ∈ x.nodes ∧ key p = k) ∧
      x.map.size = x.nodes.card ∧
      ∃ C : Nat → List P,
        (∀ b < x.map.bucketSize, Seg x.map.hashNext (x.map.hashTable b) (C b) none ∧ (C b).Nodup) ∧
        ∀ b < x.map.bucketSize, ∀ p,
          p ∈ C b ↔ p ∈ x.nodes ∧ x.map.hashValue p % x.map.bucketSize = b := by
  have hx : Agrees key hash x := by
    refine h.invariant (fun x op y hx hstep => ?_) (agrees_new hpos hless)
    obtain ⟨hop, rfl⟩ := hstep
    exact (agrees_exec hx hfuel hop).2
  obtain ⟨C, hC⟩ := hx.rep
  have hfew := hx.few
  refine ⟨fun op hop => (agrees_exec hx hfuel hop).1, hx.entries, ?_, C,
    fun b hb => ⟨hC.chain b hb, hC.nodup b hb⟩, fun b hb p => ?_⟩
  · rw [hC.size, Nat.mod_eq_of_lt (by omega)]
  · constructor
    · intro hp
      have hbucket := hC.hash b hb p hp
      exact ⟨(hC.mem p).mpr (hbucket.symm ▸ hp), hbucket⟩
    · rintro ⟨hp, rfl⟩
      exact (hC.mem p).mp hp

/-- Three nodes under their own numbers, with a table of one bucket that is enlarged once and once
not, and one hash value for all of them. -/
theorem finiteMap_small :
    let exec := Traced.exec (P := Nat) (K := Nat) id (fun _ => 5) (2 ^ 30)
    let m₁ := (exec (.new 1) (.insert 7 true)).2
    let m₂ := (exec m₁ (.insert 8 true)).2
    let m₃ := (exec m₂ (.insert 9 false)).2
    (exec m₃ (.find 8)).1 = some 8 ∧ (exec m₃ (.find 6)).1 = none ∧
      (exec m₃ (.removeNode 9)).1 = some 9 ∧ m₃.size = 3 := by
  intro exec m₁ m₂ m₃
  let e₁ : Nat → Option Nat := Function.update (fun _ => none) 7 (some 7)
  let e₂ : Nat → Option Nat := Function.update e₁ 8 (some 8)
  let e₃ : Nat → Option Nat := Function.update e₂ 9 (some 9)
  have hnew₁ : 7 ∉ (∅ : Finset Nat) ∧ (none : Option Nat) = none ∧ (∅ : Finset Nat).card + 1 < 2 ^ 30 := by
    decide
  have hnew₂ : 8 ∉ ({7} : Finset Nat) ∧ e₁ 8 = none ∧ ({7} : Finset Nat).card + 1 < 2 ^ 30 := by decide
  have hnew₃ : 9 ∉ ({8, 7} : Finset Nat) ∧ e₂ 9 = none ∧ ({8, 7} : Finset Nat).card + 1 < 2 ^ 30 := by
    decide
  let step := Traced.Step (P := Nat) (K := Nat) id (fun _ => 5) (2 ^ 30)
  have hstep₁ : step (Traced.new 1) (.insert 7 true) ⟨m₁, e₁, {7}⟩ := ⟨hnew₁, rfl⟩
  have hstep₂ : step ⟨m₁, e₁, {7}⟩ (.insert 8 true) ⟨m₂, e₂, {8, 7}⟩ := ⟨hnew₂, rfl⟩
  have hstep₃ : step ⟨m₂, e₂, {8, 7}⟩ (.insert 9 false) ⟨m₃, e₃, {9, 8, 7}⟩ := ⟨hnew₃, rfl⟩
  obtain ⟨hexec, -, hsize, -⟩ := finiteMap_of_run (by decide) (by decide) (Nat.le_refl _)
    (((Run.single hstep₁).snoc hstep₂).snoc hstep₃)
  exact ⟨hexec (.find 8) trivial, hexec (.find 6) trivial, hexec (.removeNode 9) trivial, hsize⟩

end HashMap
end Xixi
