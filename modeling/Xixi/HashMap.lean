import Mathlib.Algebra.Ring.Int.Defs
import Mathlib.Algebra.Ring.Nat
import Mathlib.Data.Finset.Card
import Xixi.Lib.Chain

/-!
# The chained hash map (`xixi_hash_map.hpp`)

`xixi::hash_map` is intrusive: the chain link `hash_next_` and the stored
`hash_value_` live in the nodes. The loops over a chain take a fuel `n`; every
result below only needs `n` to reach the number of nodes in the map.

1. `Rep m S`: the nodes of `m` are exactly `S`, each one in the chain of
   `hash_value_ % bucket_size_`, and `size_` counts them modulo `2 ^ 32`.
2. `find_some`, `find_none`: what `find` answers.
3. `rep_insert`: `insert`, with or without an expansion, with or without the
   memory for it, adds the node.
4. `remove_eq`: `remove` by key takes out the node that has the key.
5. `Mem`, `mem_iff`: the nodes that a walk over the chains meets.
-/

namespace Xixi

open Lib

/-- `hash_map` with the fields `hash_next_` and `hash_value_` of the nodes. -/
structure HashMap (P : Type) where
  bucketSize : Nat
  expandSize : Nat
  hashTable : Nat → Option P
  size : Nat
  hashNext : P → Option P
  hashValue : P → Nat

namespace HashMap

variable {P : Type} [DecidableEq P]

/-- `bucket_size_ * 3 / 2` in `uint32_t` arithmetic. -/
def expandSizeOf (bucketSize : Nat) : Nat := bucketSize * 3 % 2 ^ 32 / 2

def new (bucketSize : Nat) : HashMap P where
  bucketSize := bucketSize
  expandSize := expandSizeOf bucketSize
  hashTable := fun _ => none
  size := 0
  hashNext := fun _ => none
  hashValue := fun _ => 0

/-- The table `sizes` of `next_bucket_size`, without the terminating 0. -/
def sizes : List Nat :=
  [3, 7, 13, 23, 53, 97, 193, 389, 769, 1543, 3079, 6151, 12289, 24593, 49157, 98317, 196613,
    393241, 786433, 1572869, 3145739, 6291469, 12582917, 25165843]

def nextBucketSize (size : Nat) : Nat :=
  match sizes.find? (fun n => size < n) with
  | some n => n
  | none => size * 2 % 2 ^ 32

/-- The `while` loop of `find`, from the pointer `curr`. -/
def findLoop (isKey : P → Bool) (hashNext : P → Option P) : Nat → Option P → Option P
  | 0, _ => none
  | _ + 1, none => none
  | n + 1, some p => if isKey p then some p else findLoop isKey hashNext n (hashNext p)

def find (m : HashMap P) (n : Nat) (isKey : P → Bool) (hashValue : Nat) : Option P :=
  findLoop isKey m.hashNext n (m.hashTable (hashValue % m.bucketSize))

/-- The inner loop of `expand`: moves one old chain into the new table. -/
def rehashChain (hashValue : P → Nat) (newBucketSize : Nat) :
    Nat → Option P → (P → Option P) × (Nat → Option P) → (P → Option P) × (Nat → Option P)
  | 0, _, t => t
  | _ + 1, none, t => t
  | n + 1, some p, (hashNext, newTable) =>
    let bucket := hashValue p % newBucketSize
    rehashChain hashValue newBucketSize n (hashNext p)
      (Function.update hashNext p (newTable bucket), Function.update newTable bucket (some p))

/-- `expand`; `mallocOk` tells whether the new table could be allocated. -/
def expand (m : HashMap P) (n : Nat) (mallocOk : Bool) : HashMap P :=
  if mallocOk then
    let newBucketSize := nextBucketSize m.bucketSize
    let t := (List.range m.bucketSize).foldl
      (fun t i => rehashChain m.hashValue newBucketSize n (m.hashTable i) t)
      (m.hashNext, fun _ => none)
    { m with
      bucketSize := newBucketSize
      expandSize := expandSizeOf newBucketSize
      hashTable := t.2
      hashNext := t.1 }
  else m

def insert (m : HashMap P) (n : Nat) (mallocOk : Bool) (p : P) (hashValue : Nat) : HashMap P :=
  let bucket := hashValue % m.bucketSize
  let m' := { m with
    hashValue := Function.update m.hashValue p hashValue
    hashNext := Function.update m.hashNext p (m.hashTable bucket)
    hashTable := Function.update m.hashTable bucket (some p)
    size := (m.size + 1) % 2 ^ 32 }
  if m'.expandSize < m'.size then m'.expand n mallocOk else m'

/-- The `while` loop of `remove`: the node with the key, and the node before it. -/
def removeLoop (isKey : P → Bool) (hashNext : P → Option P) :
    Nat → Option P → Option P → Option (Option P × P)
  | 0, _, _ => none
  | _ + 1, _, none => none
  | n + 1, prev, some curr =>
    if isKey curr then some (prev, curr)
    else removeLoop isKey hashNext n (some curr) (hashNext curr)

def remove (m : HashMap P) (n : Nat) (isKey : P → Bool) (hashValue : Nat) :
    Option P × HashMap P :=
  let bucket := hashValue % m.bucketSize
  match removeLoop isKey m.hashNext n none (m.hashTable bucket) with
  | none => (none, m)
  | some (prev, curr) =>
    (some curr,
      { m with
        hashTable := if prev.isNone then
            Function.update m.hashTable bucket (m.hashNext curr) else m.hashTable
        hashNext := Function.update (setAt m.hashNext prev (m.hashNext curr)) curr none
        size := (m.size + (2 ^ 32 - 1)) % 2 ^ 32 })

/-! ## The nodes of a map -/

/-- The chains of `m` are `C`, and its nodes are `S`. -/
structure RepC (m : HashMap P) (C : Nat → List P) (S : Finset P) : Prop where
  pos : 0 < m.bucketSize
  chain : ∀ b < m.bucketSize, Seg m.hashNext (m.hashTable b) (C b) none
  nodup : ∀ b < m.bucketSize, (C b).Nodup
  hash : ∀ b < m.bucketSize, ∀ p ∈ C b, m.hashValue p % m.bucketSize = b
  mem : ∀ p, p ∈ S ↔ p ∈ C (m.hashValue p % m.bucketSize)
  size : m.size = S.card % 2 ^ 32

def Rep (m : HashMap P) (S : Finset P) : Prop := ∃ C, m.RepC C S

omit [DecidableEq P] in
theorem rep_new {bucketSize : Nat} (h : 0 < bucketSize) :
    (new bucketSize : HashMap P).Rep ∅ :=
  ⟨fun _ => [], h, fun _ _ => rfl, fun _ _ => List.nodup_nil,
    fun _ _ _ hp => absurd hp List.not_mem_nil, fun _ => by simp, rfl⟩

namespace HashMapLemmas

omit [DecidableEq P] in
theorem bucket_lt {m : HashMap P} {C : Nat → List P} {S : Finset P} (h : m.RepC C S) (k : Nat) :
    k % m.bucketSize < m.bucketSize := Nat.mod_lt k h.pos

omit [DecidableEq P] in
theorem mem_of_chain {m : HashMap P} {C : Nat → List P} {S : Finset P} (h : m.RepC C S)
    {b : Nat} (hb : b < m.bucketSize) {p : P} (hp : p ∈ C b) : p ∈ S := by
  rw [h.mem, h.hash b hb p hp]
  exact hp

theorem chain_length_le {m : HashMap P} {C : Nat → List P} {S : Finset P} (h : m.RepC C S)
    {b : Nat} (hb : b < m.bucketSize) : (C b).length ≤ S.card := by
  rw [← List.toFinset_card_of_nodup (h.nodup b hb)]
  exact Finset.card_le_card fun p hp => mem_of_chain h hb (List.mem_toFinset.mp hp)

omit [DecidableEq P] in
theorem findLoop_eq {isKey : P → Bool} {nxt : P → Option P} {o : Option P} {xs : List P} {n : Nat}
    (h : Seg nxt o xs none) (hn : xs.length ≤ n) : findLoop isKey nxt n o = xs.find? isKey := by
  induction xs generalizing o n with
  | nil =>
    have ho : o = none := h
    subst ho
    cases n <;> rfl
  | cons p ps ih =>
    obtain ⟨ho, hs⟩ := h
    subst ho
    cases n with
    | zero => simp at hn
    | succ n =>
      simp only [List.length_cons, Nat.add_le_add_iff_right] at hn
      simp only [findLoop, List.find?_cons, ih hs hn]
      cases isKey p <;> rfl

end HashMapLemmas

open HashMapLemmas

/-! ## Finding -/

theorem find_some {m : HashMap P} {S : Finset P} {n h : Nat} {isKey : P → Bool} {p : P}
    (hm : m.Rep S) (hn : S.card ≤ n) (hf : m.find n isKey h = some p) :
    p ∈ S ∧ isKey p = true := by
  obtain ⟨C, hC⟩ := hm
  have hb := bucket_lt hC h
  rw [find, findLoop_eq (hC.chain _ hb) ((chain_length_le hC hb).trans hn)] at hf
  exact ⟨mem_of_chain hC hb (List.mem_of_find?_eq_some hf), List.find?_some hf⟩

theorem find_none {m : HashMap P} {S : Finset P} {n h : Nat} {isKey : P → Bool} {p : P}
    (hm : m.Rep S) (hn : S.card ≤ n) (hf : m.find n isKey h = none) (hp : p ∈ S)
    (hh : m.hashValue p = h) : isKey p = false := by
  obtain ⟨C, hC⟩ := hm
  have hb := bucket_lt hC h
  rw [find, findLoop_eq (hC.chain _ hb) ((chain_length_le hC hb).trans hn)] at hf
  have hpc : p ∈ C (h % m.bucketSize) := hh ▸ (hC.mem p).mp hp
  simpa using List.find?_eq_none.mp hf p hpc

/-! ## Expanding -/

namespace HashMapLemmas

/-- Moving one chain `xs` to the new chains `D`: the nodes of `xs` are added to
the chain of their hash value, everything else keeps its link. -/
theorem rehashChain_spec {hv : P → Nat} {k n : Nat} {cur : Option P} {xs : List P}
    {nxt : P → Option P} {tbl : Nat → Option P} {D : Nat → List P}
    (hs : Seg nxt cur xs none) (hn : xs.length ≤ n) (hnd : xs.Nodup)
    (hD : ∀ b, Seg nxt (tbl b) (D b) none) (hDnd : ∀ b, (D b).Nodup)
    (hdis : ∀ b, ∀ p ∈ xs, p ∉ D b) :
    ∃ D' : Nat → List P,
      (∀ b, Seg (rehashChain hv k n cur (nxt, tbl)).1 ((rehashChain hv k n cur (nxt, tbl)).2 b)
        (D' b) none) ∧
      (∀ b, (D' b).Nodup) ∧
      (∀ b p, p ∈ D' b ↔ p ∈ D b ∨ (p ∈ xs ∧ hv p % k = b)) ∧
      (∀ q, q ∉ xs → (rehashChain hv k n cur (nxt, tbl)).1 q = nxt q) := by
  induction xs generalizing cur n nxt tbl D with
  | nil =>
    have hc : cur = none := hs
    subst hc
    have he : rehashChain hv k n none (nxt, tbl) = (nxt, tbl) := by cases n <;> rfl
    rw [he]
    exact ⟨D, hD, hDnd, by simp, by simp⟩
  | cons p ps ih =>
    obtain ⟨hc, hs⟩ := hs
    subst hc
    obtain ⟨hpps, hndps⟩ := List.nodup_cons.mp hnd
    cases n with
    | zero => simp at hn
    | succ n =>
      simp only [List.length_cons, Nat.add_le_add_iff_right] at hn
      simp only [rehashChain]
      -- the new chains after `p` has been put in front of its bucket
      have hpD : ∀ b, p ∉ D b := fun b => hdis b p List.mem_cons_self
      obtain ⟨D', h1, h2, h3, h4⟩ := @ih n (nxt p) (Function.update nxt p (tbl (hv p % k)))
        (Function.update tbl (hv p % k) (some p))
        (Function.update D (hv p % k) (p :: D (hv p % k)))
        (seg_update hs hpps) hn hndps
        (fun b => by
          by_cases hb : b = hv p % k
          · subst hb
            simp only [Function.update_self, seg_cons, true_and]
            exact seg_update (hD _) (hpD _)
          · simp only [Function.update_of_ne hb]
            exact seg_update (hD b) (hpD b))
        (fun b => by
          by_cases hb : b = hv p % k
          · subst hb
            simpa using ⟨hpD _, hDnd _⟩
          · simpa [Function.update_of_ne hb] using hDnd b)
        (fun b q hq => by
          have hqD := hdis b q (List.mem_cons_of_mem p hq)
          have hqp : q ≠ p := fun he => hpps (he ▸ hq)
          by_cases hb : b = hv p % k
          · subst hb
            simpa using ⟨hqp, hqD⟩
          · simpa [Function.update_of_ne hb] using hqD)
      refine ⟨D', h1, h2, fun b q => ?_, fun q hq => ?_⟩
      · rw [h3]
        by_cases hb : b = hv p % k
        · subst hb
          simp only [Function.update_self, List.mem_cons]
          constructor
          · rintro ((rfl | h) | ⟨h, he⟩)
            · exact .inr ⟨.inl rfl, rfl⟩
            · exact .inl h
            · exact .inr ⟨.inr h, he⟩
          · rintro (h | ⟨rfl | h, he⟩)
            · exact .inl (.inr h)
            · exact .inl (.inl rfl)
            · exact .inr ⟨h, he⟩
        · simp only [Function.update_of_ne hb, List.mem_cons]
          constructor
          · rintro (h | ⟨h, he⟩)
            · exact .inl h
            · exact .inr ⟨.inr h, he⟩
          · rintro (h | ⟨rfl | h, he⟩)
            · exact .inl h
            · exact absurd he.symm hb
            · exact .inr ⟨h, he⟩
      · simp only [List.mem_cons, not_or] at hq
        rw [h4 q hq.2, Function.update_of_ne hq.1]

/-- The outer loop of `expand` over the buckets `is`. -/
theorem rehash_spec {hv : P → Nat} {k n : Nat} {old : Nat → Option P} {C : Nat → List P}
    {is : List Nat} {nxt : P → Option P} {tbl : Nat → Option P} {D : Nat → List P}
    (hs : ∀ i ∈ is, Seg nxt (old i) (C i) none) (hn : ∀ i ∈ is, (C i).length ≤ n)
    (hnd : ∀ i ∈ is, (C i).Nodup) (his : is.Nodup)
    (hC : ∀ i ∈ is, ∀ j ∈ is, ∀ p ∈ C i, p ∈ C j → i = j)
    (hD : ∀ b, Seg nxt (tbl b) (D b) none) (hDnd : ∀ b, (D b).Nodup)
    (hdis : ∀ i ∈ is, ∀ b, ∀ p ∈ C i, p ∉ D b) :
    ∃ D' : Nat → List P,
      (∀ b, Seg (is.foldl (fun t i => rehashChain hv k n (old i) t) (nxt, tbl)).1
        ((is.foldl (fun t i => rehashChain hv k n (old i) t) (nxt, tbl)).2 b) (D' b) none) ∧
      (∀ b, (D' b).Nodup) ∧
      (∀ b p, p ∈ D' b ↔ p ∈ D b ∨ (∃ i ∈ is, p ∈ C i) ∧ hv p % k = b) := by
  induction is generalizing nxt tbl D with
  | nil => exact ⟨D, hD, hDnd, by simp⟩
  | cons i is ih =>
    obtain ⟨hi, hisnd⟩ := List.nodup_cons.mp his
    have mi : i ∈ i :: is := List.mem_cons_self
    have mj : ∀ {j}, j ∈ is → j ∈ i :: is := fun h => List.mem_cons_of_mem i h
    have hsep : ∀ j ∈ is, ∀ p ∈ C j, p ∉ C i := by
      intro j hj p hp hpi
      have : i = j := hC i mi j (mj hj) p hpi hp
      exact hi (this ▸ hj)
    obtain ⟨D1, h1, h2, h3, h4⟩ := rehashChain_spec
      (hs i mi) (hn i mi) (hnd i mi) hD hDnd (hdis i mi)
    obtain ⟨D', g1, g2, g3⟩ := @ih (rehashChain hv k n (old i) (nxt, tbl)).1
      (rehashChain hv k n (old i) (nxt, tbl)).2 D1
      (fun j hj => seg_congr (hs j (mj hj)) fun p hp => h4 p (hsep j hj p hp))
      (fun j hj => hn j (mj hj)) (fun j hj => hnd j (mj hj)) hisnd
      (fun a ha b hb => hC a (mj ha) b (mj hb)) h1 h2
      (fun j hj b p hp => by
        rw [h3]
        rintro (hm | ⟨hm, -⟩)
        · exact hdis j (mj hj) b p hp hm
        · exact hsep j hj p hp hm)
    refine ⟨D', g1, g2, fun b p => ?_⟩
    rw [g3, h3]
    simp only [List.mem_cons, exists_eq_or_imp]
    tauto

end HashMapLemmas

/-- An expansion, or a failed one, keeps the nodes. -/
theorem rep_expand {m : HashMap P} {S : Finset P} {n : Nat} {mallocOk : Bool} (hm : m.Rep S)
    (hn : S.card ≤ n) (hpos : 0 < nextBucketSize m.bucketSize) : (m.expand n mallocOk).Rep S := by
  unfold expand
  split
  · obtain ⟨C, hC⟩ := hm
    have hlt : ∀ {i}, i ∈ List.range m.bucketSize → i < m.bucketSize := List.mem_range.mp
    obtain ⟨D, h1, h2, h3⟩ := @rehash_spec P _ m.hashValue
      (nextBucketSize m.bucketSize) n m.hashTable C (List.range m.bucketSize) m.hashNext
      (fun _ => none) (fun _ => []) (fun i hi => hC.chain i (hlt hi))
      (fun i hi => (chain_length_le hC (hlt hi)).trans hn) (fun i hi => hC.nodup i (hlt hi))
      List.nodup_range
      (fun i hi j hj p hpi hpj => (hC.hash i (hlt hi) p hpi).symm.trans (hC.hash j (hlt hj) p hpj))
      (fun _ => rfl) (fun _ => List.nodup_nil) (fun _ _ _ _ _ h => absurd h List.not_mem_nil)
    have hmem : ∀ p, (∃ i ∈ List.range m.bucketSize, p ∈ C i) ↔ p ∈ S := by
      intro p
      rw [hC.mem]
      constructor
      · rintro ⟨i, hi, hp⟩
        rw [hC.hash i (hlt hi) p hp]
        exact hp
      · intro hp
        exact ⟨_, List.mem_range.mpr (bucket_lt hC _), hp⟩
    refine ⟨D, hpos, fun b _ => h1 b, fun b _ => h2 b, fun b _ p hp => ?_, fun p => ?_, hC.size⟩
    · simpa using ((h3 b p).mp hp).resolve_left List.not_mem_nil |>.2
    · rw [h3, hmem]
      simp
  · exact hm

theorem expand_hashValue (m : HashMap P) (n : Nat) (mallocOk : Bool) :
    (m.expand n mallocOk).hashValue = m.hashValue := by
  unfold expand
  split <;> rfl

/-! ## Inserting -/

/-- Inserting a node that is not in the map adds it. -/
theorem rep_insert {m : HashMap P} {S : Finset P} {n h : Nat} {mallocOk : Bool} {p : P}
    (hm : m.Rep S) (hp : p ∉ S) (hn : S.card < n) (hpos : 0 < nextBucketSize m.bucketSize) :
    (m.insert n mallocOk p h).Rep (Insert.insert p S) := by
  obtain ⟨C, hC⟩ := hm
  have hhv : ∀ q, q ≠ p → Function.update m.hashValue p h q = m.hashValue q :=
    fun q hq => Function.update_of_ne hq h m.hashValue
  have hpC : ∀ b < m.bucketSize, p ∉ C b := fun b hb hm => hp (mem_of_chain hC hb hm)
  have hb := bucket_lt hC h
  have hm' : Rep { m with
      hashValue := Function.update m.hashValue p h
      hashNext := Function.update m.hashNext p (m.hashTable (h % m.bucketSize))
      hashTable := Function.update m.hashTable (h % m.bucketSize) (some p)
      size := (m.size + 1) % 2 ^ 32 } (Insert.insert p S) := by
    refine ⟨Function.update C (h % m.bucketSize) (p :: C (h % m.bucketSize)), hC.pos,
      fun b hlt => ?_, fun b hlt => ?_, fun b hlt q hq => ?_, fun q => ?_, ?_⟩
    · by_cases he : b = h % m.bucketSize
      · subst he
        simp only [Function.update_self, seg_cons, true_and]
        exact seg_update (hC.chain _ hlt) (hpC _ hlt)
      · simp only [Function.update_of_ne he]
        exact seg_update (hC.chain b hlt) (hpC b hlt)
    · by_cases he : b = h % m.bucketSize
      · subst he
        simpa using ⟨hpC _ hlt, hC.nodup _ hlt⟩
      · simpa [Function.update_of_ne he] using hC.nodup b hlt
    · by_cases he : b = h % m.bucketSize
      · subst he
        simp only [Function.update_self, List.mem_cons] at hq ⊢
        rcases hq with rfl | hq
        · simp
        · have hqp : q ≠ p := fun e => hpC _ hlt (e ▸ hq)
          rw [hhv q hqp]
          exact hC.hash _ hlt q hq
      · simp only [Function.update_of_ne he] at hq
        have hqp : q ≠ p := fun e => hpC _ hlt (e ▸ hq)
        simp only [hhv q hqp]
        exact hC.hash b hlt q hq
    · by_cases hqp : q = p
      · subst hqp
        simp
      · simp only [Finset.mem_insert, hqp, false_or, hhv q hqp, hC.mem q]
        by_cases he : m.hashValue q % m.bucketSize = h % m.bucketSize
        · simp [he, hqp]
        · simp [Function.update_of_ne he]
    · rw [Finset.card_insert_of_notMem hp]
      simp only [hC.size]
      omega
  unfold insert
  dsimp only
  split
  · exact rep_expand hm' (by rw [Finset.card_insert_of_notMem hp]; exact hn) hpos
  · exact hm'

theorem insert_hashValue (m : HashMap P) (n : Nat) (mallocOk : Bool) (p : P) (h : Nat) :
    (m.insert n mallocOk p h).hashValue = Function.update m.hashValue p h := by
  unfold insert
  dsimp only
  split
  · rw [expand_hashValue]
  · rfl

theorem insert_bucketSize (m : HashMap P) (n : Nat) (mallocOk : Bool) (p : P) (h : Nat) :
    (m.insert n mallocOk p h).bucketSize = m.bucketSize ∨
      (m.insert n mallocOk p h).bucketSize = nextBucketSize m.bucketSize := by
  unfold insert expand
  dsimp only
  split
  · split
    · exact .inr rfl
    · exact .inl rfl
  · exact .inl rfl

/-! ## Removing -/

namespace HashMapLemmas

omit [DecidableEq P] in
theorem removeLoop_eq {isKey : P → Bool} {nxt : P → Option P} {o prev : Option P}
    {as bs : List P} {p : P} {n : Nat} (h : Seg nxt o (as ++ p :: bs) none)
    (hn : (as ++ p :: bs).length ≤ n) (has : ∀ a ∈ as, isKey a = false) (hp : isKey p = true) :
    removeLoop isKey nxt n prev o = some (as.getLast?.or prev, p) := by
  induction as generalizing o prev n with
  | nil =>
    obtain ⟨ho, -⟩ := h
    subst ho
    cases n with
    | zero => simp at hn
    | succ n => simp [removeLoop, hp]
  | cons a as ih =>
    obtain ⟨ho, hs⟩ := h
    subst ho
    cases n with
    | zero => simp at hn
    | succ n =>
      simp only [List.cons_append, List.length_cons, Nat.add_le_add_iff_right] at hn
      have ha := has a List.mem_cons_self
      simp only [removeLoop, ha, Bool.false_eq_true, if_false]
      rw [ih hs hn (fun b hb => has b (List.mem_cons_of_mem a hb))]
      rw [List.getLast?_cons]
      cases as.getLast? <;> rfl

end HashMapLemmas

/-- Removing by a key that exactly one node has takes out that node. -/
theorem remove_eq {m : HashMap P} {S : Finset P} {n h : Nat} {isKey : P → Bool} {p : P}
    (hm : m.Rep S) (hn : S.card ≤ n) (hp : p ∈ S) (hh : m.hashValue p = h)
    (hk : isKey p = true) (huniq : ∀ q ∈ S, isKey q = true → q = p) :
    (m.remove n isKey h).1 = some p ∧ (m.remove n isKey h).2.Rep (S.erase p) ∧
      (m.remove n isKey h).2.hashValue = m.hashValue ∧
      (m.remove n isKey h).2.bucketSize = m.bucketSize := by
  obtain ⟨C, hC⟩ := hm
  have hb := bucket_lt hC h
  have hpc : p ∈ C (h % m.bucketSize) := hh ▸ (hC.mem p).mp hp
  obtain ⟨as, bs, hi⟩ := List.append_of_mem hpc
  have hchain := hC.chain _ hb
  have hnd := hC.nodup _ hb
  have hlen := (chain_length_le hC hb).trans hn
  rw [hi] at hchain hnd hlen
  have hpab : p ∉ as ++ bs := (List.nodup_cons.mp (List.nodup_middle.mp hnd)).1
  have has : ∀ a ∈ as, isKey a = false := by
    intro a ha
    have haS : a ∈ S := mem_of_chain hC hb (hi ▸ List.mem_append_left _ ha)
    by_contra hka
    exact hpab (List.mem_append_left bs (huniq a haS (by simpa using hka) ▸ ha))
  have hloop := @removeLoop_eq P isKey m.hashNext _ none as bs p n hchain hlen has hk
  rw [Option.or_none] at hloop
  have hrem : m.remove n isKey h = (some p, { m with
      hashTable := if as.getLast?.isNone then
          Function.update m.hashTable (h % m.bucketSize) (m.hashNext p) else m.hashTable
      hashNext := Function.update (setAt m.hashNext as.getLast? (m.hashNext p)) p none
      size := (m.size + (2 ^ 32 - 1)) % 2 ^ 32 }) := by
    simp only [remove, hloop]
  rw [hrem]
  refine ⟨rfl, ?_, rfl, rfl⟩
  have hentry : m.hashTable (h % m.bucketSize) = some p ↔ as = [] := by
    rw [seg_head hchain]
    cases as with
    | nil => simp
    | cons a as' =>
      simp only [List.cons_append, List.head?_cons, Option.some.injEq, reduceCtorEq, iff_false]
      exact fun he => hpab (by simp [he])
  have hother : ∀ b < m.bucketSize, b ≠ h % m.bucketSize → ∀ q ∈ C b, q ∉ C (h % m.bucketSize) := by
    intro b hlt hne q hq hq'
    exact hne ((hC.hash b hlt q hq).symm.trans (hC.hash _ hb q hq'))
  have hupd : ∀ b, b ≠ h % m.bucketSize → Function.update C (h % m.bucketSize) (as ++ bs) b = C b :=
    fun b hne => Function.update_of_ne hne _ C
  refine ⟨Function.update C (h % m.bucketSize) (as ++ bs), hC.pos, fun b hlt => ?_, fun b hlt => ?_,
    fun b hlt q hq => ?_, fun q => ?_, ?_⟩
  · by_cases he : b = h % m.bucketSize
    · subst he
      have hs := seg_unlink (v := none) hchain hnd
      simp only [Function.update_self]
      by_cases hnil : as = []
      · rw [if_pos (hentry.mpr hnil)] at hs
        simpa [hnil] using hs
      · rw [if_neg (fun e => hnil (hentry.mp e))] at hs
        simpa [hnil] using hs
    · have htab : (if as.getLast?.isNone then
          Function.update m.hashTable (h % m.bucketSize) (m.hashNext p) else m.hashTable) b =
          m.hashTable b := by
        split
        · exact Function.update_of_ne he _ _
        · rfl
      simp only [hupd b he, htab]
      refine seg_update (seg_setAt (hC.chain b hlt) fun a ha hm => ?_) fun hm => ?_
      · exact hother b hlt he a hm (hi ▸ List.mem_append_left _ (List.mem_of_getLast? ha))
      · exact hother b hlt he p hm hpc
  · by_cases he : b = h % m.bucketSize
    · subst he
      simpa using (List.nodup_cons.mp (List.nodup_middle.mp hnd)).2
    · simpa [hupd b he] using hC.nodup b hlt
  · refine hC.hash b hlt q ?_
    by_cases he : b = h % m.bucketSize
    · subst he
      simp only [Function.update_self, List.mem_append] at hq
      rw [hi]
      rcases hq with hq | hq
      · exact List.mem_append_left _ hq
      · exact List.mem_append_right _ (List.mem_cons_of_mem p hq)
    · simpa [hupd b he] using hq
  · rw [Finset.mem_erase, hC.mem q]
    by_cases he : m.hashValue q % m.bucketSize = h % m.bucketSize
    · simp only [he, hi, Function.update_self, List.mem_append, List.mem_cons]
      constructor
      · rintro ⟨hne, h1 | h1 | h1⟩
        · exact .inl h1
        · exact absurd h1 hne
        · exact .inr h1
      · intro hq
        refine ⟨fun hqp => hpab (by simpa [← hqp] using hq), ?_⟩
        rcases hq with hq | hq
        · exact .inl hq
        · exact .inr (.inr hq)
    · rw [hupd _ he]
      have hne : m.hashValue q % m.bucketSize = h % m.bucketSize → False := he
      constructor
      · exact fun hq => hq.2
      · intro hq
        exact ⟨fun hqp => hne (by rw [hqp, hh]), hq⟩
  · rw [Finset.card_erase_of_mem hp]
    have hcard : 0 < S.card := Finset.card_pos.mpr ⟨p, hp⟩
    simp only [hC.size]
    omega

theorem remove_hashValue (m : HashMap P) (n : Nat) (isKey : P → Bool) (h : Nat) :
    (m.remove n isKey h).2.hashValue = m.hashValue := by
  unfold remove
  dsimp only
  split <;> rfl

omit [DecidableEq P] in
/-- The hash values of the nodes outside the map do not matter. -/
theorem rep_hashValue {m : HashMap P} {S : Finset P} {hv : P → Nat} (hm : m.Rep S)
    (hv_eq : ∀ p ∈ S, hv p = m.hashValue p) : Rep { m with hashValue := hv } S := by
  obtain ⟨C, hC⟩ := hm
  have hin : ∀ b < m.bucketSize, ∀ p ∈ C b, hv p = m.hashValue p :=
    fun b hb p hp => hv_eq p (mem_of_chain hC hb hp)
  refine ⟨C, hC.pos, hC.chain, hC.nodup, fun b hb p hp => ?_, fun p => ?_, hC.size⟩
  · show hv p % m.bucketSize = b
    rw [hin b hb p hp]
    exact hC.hash b hb p hp
  · show p ∈ S ↔ p ∈ C (hv p % m.bucketSize)
    constructor
    · intro hp
      rw [hv_eq p hp]
      exact (hC.mem p).mp hp
    · exact fun hp => mem_of_chain hC (bucket_lt hC _) hp

/-! ## Membership -/

/-- `p` is met when `hash_next_` is followed from the bucket `b`. -/
def MemBucket (m : HashMap P) (b : Nat) (p : P) : Prop :=
  ∃ xs o, Seg m.hashNext (m.hashTable b) (xs ++ [p]) o

/-- `p` is in one of the chains. -/
def Mem (m : HashMap P) (p : P) : Prop := ∃ b < m.bucketSize, m.MemBucket b p

omit [DecidableEq P] in
theorem memBucket_iff {m : HashMap P} {S : Finset P} (h : m.Rep S) {b : Nat}
    (hb : b < m.bucketSize) (p : P) :
    m.MemBucket b p ↔ p ∈ S ∧ m.hashValue p % m.bucketSize = b := by
  obtain ⟨C, h⟩ := h
  constructor
  · rintro ⟨xs, o, hs⟩
    have hp : p ∈ C b := (prefix_of_seg hs (h.chain b hb)).subset (by simp)
    have hh := h.hash b hb p hp
    exact ⟨(h.mem p).mpr (hh.symm ▸ hp), hh⟩
  · rintro ⟨hp, rfl⟩
    obtain ⟨as, bs, hi⟩ := List.append_of_mem ((h.mem p).mp hp)
    have hf := h.chain _ hb
    rw [hi, seg_mid] at hf
    exact ⟨as, _, seg_snoc.mpr ⟨hf.1, rfl⟩⟩

omit [DecidableEq P] in
theorem mem_iff {m : HashMap P} {S : Finset P} (h : m.Rep S) (p : P) : m.Mem p ↔ p ∈ S := by
  constructor
  · rintro ⟨b, hb, hp⟩
    exact ((memBucket_iff h hb p).mp hp).1
  · intro hp
    have hb : m.hashValue p % m.bucketSize < m.bucketSize := by
      obtain ⟨C, h⟩ := h
      exact Nat.mod_lt _ h.pos
    exact ⟨_, hb, (memBucket_iff h hb p).mpr ⟨hp, rfl⟩⟩

end HashMap
end Xixi
