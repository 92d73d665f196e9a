import Mathlib.Data.BitVec
import Xixi.Lib.Ring
import Xixi.Lib.Table

/-!
# Which server a key belongs to (`XixiWeightMap.java`)

With `consistentFlag` the servers share a ring of 32-bit numbers: a key belongs to the server of the
first node behind its hash. The nodes are spaced evenly, and how far apart they are depends on the
sum of all weights, so that another server moves the nodes of all others.

1. `XixiWeightMap.set`, `XixiWeightMap.get`: the two kinds of buckets.
2. `ringSlot`: the number of the node that a hash finds.
3. `get_set`: the server of a key is read off the list of buckets.
4. `get_append_iff`: when a key stays at its server, or moves to the new one.
5. `not_stays_aaaaa`: a key that moves between two servers that were there before.
-/

namespace Xixi.Weight

open Lib

/-- The UTF-16 characters of a Java string. -/
abbrev Chars := List (BitVec 16)

inductive HashingAlg
  | native
  | crc32
  | md5
deriving DecidableEq, Repr

/-- `String.getBytes`, `CRC32.getValue` and `MessageDigest.digest` of the Java library. -/
structure Digests where
  getBytes : Chars → List (BitVec 8)
  crc32 : List (BitVec 8) → BitVec 64
  md5 : List (BitVec 8) → Fin 16 → BitVec 8

/-- `String.hashCode`. -/
def hashCode (key : Chars) : BitVec 32 :=
  key.foldl (fun h c => 31 * h + c.setWidth 32) 0

def crc32Hash (d : Digests) (key : List (BitVec 8)) : BitVec 32 := (d.crc32 key).setWidth 32

def md5HashingAlg (d : Digests) (key : List (BitVec 8)) : BitVec 32 :=
  let bKey := d.md5 key
  ((bKey 3).setWidth 32 <<< 24) ||| ((bKey 2).setWidth 32 <<< 16) |||
    ((bKey 1).setWidth 32 <<< 8) ||| (bKey 0).setWidth 32

def getHash (d : Digests) (hashingAlg : HashingAlg) (key : Chars) : BitVec 32 :=
  match hashingAlg with
  | .native => hashCode key
  | .crc32 => crc32Hash d (d.getBytes key)
  | .md5 => md5HashingAlg d (d.getBytes key)

structure XixiWeightMap (V : Type) where
  consistentFlag : Bool
  hashingAlg : HashingAlg
  values : List V
  weights : List Nat
  buckets : Option (List V)
  consistentBuckets : Option (Table Int V)

/-- The weight that `set` takes for the one it is given, if any. -/
def weightOf : Option Int → Nat
  | some w => if w ≤ 0 then 1 else if w ≤ 100 then w.toNat else 100
  | none => 1

/-- `initBuckets`: a server has as many buckets as it has weight. -/
def initBuckets {V : Type} (servers : List (V × Nat)) : List V :=
  servers.flatMap fun s => List.replicate s.2 s.1

/-- `while (totalWeight * multi < 100) multi++`; the first argument bounds the rounds. -/
def multiLoop (totalWeight : BitVec 32) : Nat → BitVec 32 → Option (BitVec 32)
  | 0, _ => none
  | n + 1, multi =>
    if (totalWeight * multi).slt 100 then multiLoop totalWeight n (multi + 1) else some multi

/-- `consistentBuckets.put((int)offset, value); offset += interval`. -/
def putNode {V : Type} (interval : Int) (value : V) (r : Int × Table Int V) : Int × Table Int V :=
  (r.1 + interval, r.2.insert (BitVec.ofInt 32 r.1).toInt value)

/-- `initConsistentBuckets`; without a result if the loop of `multi` does not end, which then comes
back to where it was after 2^32 rounds. -/
def initConsistentBuckets {V : Type} (servers : List (V × Nat)) : Option (Table Int V) := do
  let totalWeight := servers.foldl (fun t s => t + BitVec.ofNat 32 s.2) 0
  let multi ← multiLoop totalWeight (2 ^ 32) 1
  let interval := (Int.tdiv 0xFFFFFFFF totalWeight.toInt).tdiv multi.toInt
  let round (r : Int × Table Int V) : Int × Table Int V :=
    servers.foldl (fun r s => Nat.repeat (putNode interval s.1) s.2 r) r
  return (Nat.repeat round multi.toInt.toNat (0, ∅)).2

namespace XixiWeightMap

variable {V : Type}

/-- The constructor. -/
def new (consistentFlag : Bool) (hashingAlg : HashingAlg) : XixiWeightMap V :=
  ⟨consistentFlag, hashingAlg, [], [], none, none⟩

/-- `set`; weights that are not given are `none`, and so are those behind the end of the array. -/
def set (values : List V) (weights : List (Option Int)) (x : XixiWeightMap V) :
    Option (XixiWeightMap V) :=
  if values.length = 0 then some x
  else
    let x := { x with
      values := x.values ++ values
      weights := x.weights ++ (List.range values.length).map fun i => weightOf (weights[i]?.join) }
    if x.consistentFlag then do
      let m ← initConsistentBuckets (x.values.zip x.weights)
      return { x with consistentBuckets := some m }
    else some { x with buckets := some (initBuckets (x.values.zip x.weights)) }

/-- `get`; without a result if there are no buckets. -/
def get (d : Digests) (k : Chars) (x : XixiWeightMap V) : Option V :=
  let hashCode := getHash d x.hashingAlg k
  if x.consistentFlag then do
    let m ← x.consistentBuckets
    let bucket ← ceilingOrFirst m.keys hashCode.toInt
    m.lookup bucket
  else do
    let l ← x.buckets
    l[(Int.tmod hashCode.toInt l.length).natAbs]?

end XixiWeightMap

/-! ## The ring -/

section Statement

variable {V : Type}

/-- The servers with the weights that `set` takes. -/
def weighted (servers : List (V × Int)) : List (V × Nat) :=
  servers.map fun s => (s.1, weightOf (some s.2))

/-- The buckets of a list of servers, one after the other. -/
def bucketsOf (servers : List (V × Int)) : List V := initBuckets (weighted servers)

/-- How often the ring runs through all buckets. -/
def ringMulti (totalWeight : Nat) : Nat := 100 ⌈/⌉ totalWeight

/-- The distance of two nodes. -/
def ringInterval (totalWeight : Nat) : Nat := 0xFFFFFFFF / totalWeight / ringMulti totalWeight

/-- The number of the node that a hash finds. -/
def ringSlot (totalWeight : Nat) (hash : BitVec 32) : Nat :=
  evenSlot (ringInterval totalWeight) (ringMulti totalWeight * totalWeight) hash.toNat

/-- The server of a key, in a new map with these servers. -/
def serverOf (d : Digests) (hashingAlg : HashingAlg) (k : Chars) (servers : List (V × Int)) :
    Option V := do
  let x ← (XixiWeightMap.new true hashingAlg).set (servers.map Prod.fst)
    (servers.map fun s => some s.2)
  x.get d k

end Statement

namespace WeightLemmas

variable {V : Type} {l : List V} {interval : Nat}

/-! ## The nodes of a list of buckets -/

/-- The place of a node. -/
def node (interval p : Nat) : Int := (BitVec.ofNat 32 (p * interval)).toInt

/-- The nodes of a list of buckets. -/
def putAll (interval : Int) (l : List V) (r : Int × Table Int V) : Int × Table Int V :=
  l.foldl (fun r v => putNode interval v r) r

theorem repeat_putNode (interval : Int) (v : V) (n : Nat) (r : Int × Table Int V) :
    Nat.repeat (putNode interval v) n r = putAll interval (List.replicate n v) r := by
  induction n with
  | zero => rfl
  | succ n ih =>
    rw [List.replicate_succ', putAll, List.foldl_append]
    exact congrArg (putNode interval v) ih

theorem foldl_repeat (interval : Int) (servers : List (V × Nat)) (r : Int × Table Int V) :
    servers.foldl (fun r s => Nat.repeat (putNode interval s.1) s.2 r) r =
      putAll interval (initBuckets servers) r := by
  rw [initBuckets, putAll, List.foldl_flatMap]
  simp only [repeat_putNode]
  rfl

theorem repeat_putAll (interval : Int) (l : List V) (n : Nat) (r : Int × Table Int V) :
    Nat.repeat (putAll interval l) n r = putAll interval (List.replicate n l).flatten r := by
  induction n with
  | zero => rfl
  | succ n ih =>
    rw [List.replicate_succ', List.flatten_append, putAll, List.foldl_append]
    rw [List.flatten_singleton]
    exact congrArg (putAll interval l) ih

theorem fst_putAll (interval : Nat) (l : List V) :
    (putAll interval l (0, ∅)).1 = (l.length * interval : Nat) := by
  induction l using List.reverseRecOn with
  | nil => rw [List.length_nil, Nat.zero_mul]; rfl
  | append_singleton l v ih =>
    rw [putAll, List.foldl_append, List.length_append, Nat.add_mul, Nat.cast_add]
    show (putAll interval l (0, ∅)).1 + (interval : Int) = _
    rw [ih, List.length_singleton, Nat.one_mul]

/-- The last bucket gets the node at the end. -/
theorem putAll_snoc (interval : Nat) (l : List V) (v : V) :
    (putAll interval (l ++ [v]) (0, ∅)).2 =
      (putAll interval l (0, ∅)).2.insert (node interval l.length) v := by
  rw [putAll, List.foldl_append]
  show (putAll interval l (0, ∅)).2.insert (BitVec.ofInt 32 (putAll interval l (0, ∅)).1).toInt v = _
  rw [fst_putAll, BitVec.ofInt_natCast]
  rfl

theorem mem_keys_putAll {k : Int} (hk : k ∈ (putAll interval l (0, ∅)).2.keys) :
    ∃ p < l.length, k = node interval p := by
  induction l using List.reverseRecOn with
  | nil => exact absurd hk List.not_mem_nil
  | append_singleton l v ih =>
    rw [putAll_snoc, ← AList.mem_keys, AList.mem_insert] at hk
    rw [List.length_append, List.length_singleton]
    rcases hk with rfl | hk
    · exact ⟨l.length, Nat.lt_succ_self _, rfl⟩
    · obtain ⟨p, hp, heq⟩ := ih (AList.mem_keys.mp hk)
      exact ⟨p, Nat.lt_succ_of_lt hp, heq⟩

/-- Nodes that fit into the ring are different. -/
theorem node_inj {n p q : Nat} (hinterval : 0 < interval) (hn : n * interval ≤ 2 ^ 32) (hp : p < n)
    (hq : q < n) (h : node interval p = node interval q) : p = q := by
  have hlt {p : Nat} (hp : p < n) : p * interval < 2 ^ 32 :=
    lt_of_lt_of_le (Nat.mul_lt_mul_of_pos_right hp hinterval) hn
  have heq := congrArg BitVec.toNat (BitVec.toInt_inj.mp h)
  rw [BitVec.toNat_ofNat, BitVec.toNat_ofNat, Nat.mod_eq_of_lt (hlt hp),
    Nat.mod_eq_of_lt (hlt hq)] at heq
  exact Nat.eq_of_mul_eq_mul_right hinterval heq

theorem lookup_putAll (hinterval : 0 < interval) (hn : l.length * interval ≤ 2 ^ 32) {p : Nat}
    (hp : p < l.length) : (putAll interval l (0, ∅)).2.lookup (node interval p) = l[p]? := by
  induction l using List.reverseRecOn generalizing p with
  | nil => exact absurd hp (Nat.not_lt_zero p)
  | append_singleton l v ih =>
    rw [putAll_snoc, Table.lookup_insert_eq]
    rw [List.length_append, List.length_singleton] at hp hn
    rcases Nat.lt_succ_iff_lt_or_eq.mp hp with hlt | rfl
    · have hne : node interval p ≠ node interval l.length :=
        fun heq => absurd (node_inj hinterval hn hp (Nat.lt_succ_self _) heq) (Nat.ne_of_lt hlt)
      rw [if_neg hne, List.getElem?_append_left hlt]
      exact ih (le_trans (Nat.mul_le_mul_right _ (Nat.le_succ _)) hn) hlt
    · rw [if_pos rfl, List.getElem?_concat_length]

theorem node_mem_keys (hinterval : 0 < interval) (hn : l.length * interval ≤ 2 ^ 32) {p : Nat}
    (hp : p < l.length) : node interval p ∈ (putAll interval l (0, ∅)).2.keys := by
  rw [← AList.mem_keys, ← AList.lookup_isSome, lookup_putAll hinterval hn hp]
  rw [List.getElem?_eq_getElem hp]
  rfl

/-! ## The node that a hash finds -/

theorem toInt_emod (x : BitVec 32) : x.toInt % (2 ^ 32 : Nat) = x.toNat := by
  rw [BitVec.toInt_eq_toNat_bmod, Int.bmod_emod]
  exact Int.emod_eq_of_lt (Int.natCast_nonneg _) (by exact_mod_cast x.isLt)

theorem toInt_range (x : BitVec 32) : -2 ^ 31 ≤ x.toInt ∧ x.toInt < 2 ^ 31 :=
  ⟨BitVec.le_toInt x, BitVec.toInt_lt⟩

/-- A distance of numbers with signs is one of numbers without. -/
theorem distance_node {n p : Nat} (hinterval : 0 < interval) (hn : n * interval ≤ 2 ^ 32)
    (hp : p < n) (hash : BitVec 32) : (node interval p - hash.toInt) % (2 * 2 ^ 31) =
      ((p * interval : Nat) - hash.toNat : Int) % (2 ^ 32 : Nat) := by
  have hlt : p * interval < 2 ^ 32 :=
    lt_of_lt_of_le (Nat.mul_lt_mul_of_pos_right hp hinterval) hn
  have hnode : node interval p % (2 ^ 32 : Nat) = (p * interval : Nat) := by
    rw [node, toInt_emod, BitVec.toNat_ofNat, Nat.mod_eq_of_lt hlt]
  show (node interval p - hash.toInt) % (2 ^ 32 : Nat) = _
  rw [Int.sub_emod, hnode, toInt_emod]

/-- A hash finds the server of the next slot. -/
theorem find_putAll (hinterval : 0 < interval) (hn : l.length * interval ≤ 2 ^ 32)
    (hl : 0 < l.length) (hash : BitVec 32) :
    (ceilingOrFirst (putAll interval l (0, ∅)).2.keys hash.toInt).bind
      (fun bucket => (putAll interval l (0, ∅)).2.lookup bucket) =
        l[evenSlot interval l.length hash.toNat]? := by
  have hslot : evenSlot interval l.length hash.toNat < l.length := evenSlot_lt hl
  have hfound : ceilingOrFirst (putAll interval l (0, ∅)).2.keys hash.toInt =
      some (node interval (evenSlot interval l.length hash.toNat)) := by
    refine ceilingOrFirst_eq (toInt_range hash) (fun k hk => ?_) (node_mem_keys hinterval hn hslot)
      (fun k hk => ?_)
    · obtain ⟨p, -, rfl⟩ := mem_keys_putAll hk
      exact toInt_range _
    · obtain ⟨p, hp, rfl⟩ := mem_keys_putAll hk
      rw [distance_node hinterval hn hslot, distance_node hinterval hn hp]
      exact even_next hinterval hn hash.isLt hp
  rw [hfound]
  exact lookup_putAll hinterval hn hslot

/-! ## The ring of a list of servers -/

variable {servers : List (V × Nat)} {W : Nat}

theorem sum_eq_length (servers : List (V × Nat)) :
    (servers.map Prod.snd).sum = (initBuckets servers).length := by
  rw [initBuckets, List.length_flatMap]
  simp only [List.length_replicate]

theorem foldl_weights (servers : List (V × Nat)) (t : BitVec 32) :
    servers.foldl (fun t s => t + BitVec.ofNat 32 s.2) t =
      t + BitVec.ofNat 32 (servers.map Prod.snd).sum := by
  induction servers generalizing t with
  | nil => simp
  | cons s servers ih =>
    rw [List.foldl_cons, ih, List.map_cons, List.sum_cons, BitVec.ofNat_add, BitVec.add_assoc]

theorem ringMulti_le_iff (hW : 0 < W) (m : Nat) : ringMulti W ≤ m ↔ 100 ≤ W * m :=
  ceilDiv_le_iff_le_mul hW

theorem ringMulti_pos (hW : 0 < W) : 0 < ringMulti W := by
  by_contra hzero
  have h := (ringMulti_le_iff hW 0).mp (Nat.le_of_not_lt hzero)
  omega

theorem ringMulti_le (hW : 0 < W) : ringMulti W ≤ 100 :=
  (ringMulti_le_iff hW 100).mpr (Nat.le_mul_of_pos_left 100 hW)

/-- The nodes are no more than 2^31. -/
theorem ringMulti_mul_lt (hW : 0 < W) (hfit : W < 2 ^ 31) : ringMulti W * W < 2 ^ 31 := by
  have hmulti := ringMulti_pos hW
  by_cases hone : ringMulti W = 1
  · rw [hone, Nat.one_mul]
    exact hfit
  · -- one round less is not enough for 100 nodes
    have hless := mt (ringMulti_le_iff hW (ringMulti W - 1)).mpr (by omega)
    have hmul : W * ringMulti W = W * (ringMulti W - 1) + W := by
      rw [← Nat.mul_succ]
      congr 1
      omega
    have hsmall : W ≤ W * (ringMulti W - 1) := Nat.le_mul_of_pos_right W (by omega)
    rw [Nat.mul_comm]
    omega

theorem toInt_ofNat_of_lt {n : Nat} (h : n < 2 ^ 31) : (BitVec.ofNat 32 n).toInt = n := by
  rw [BitVec.toInt_ofNat']
  exact Int.bmod_eq_of_le (by omega) (by omega)

theorem multiLoop_eq (hW : 0 < W) (hfit : W < 2 ^ 31) (n m : Nat) (hm : m ≤ ringMulti W)
    (hn : ringMulti W < m + n) :
    multiLoop (BitVec.ofNat 32 W) n (BitVec.ofNat 32 m) = some (BitVec.ofNat 32 (ringMulti W)) := by
  induction n generalizing m with
  | zero => omega
  | succ n ih =>
    have hlt : W * m < 2 ^ 31 := by
      have hmul := Nat.mul_le_mul_left W hm
      have hbound := ringMulti_mul_lt hW hfit
      rw [Nat.mul_comm] at hbound
      omega
    have hslt : (BitVec.ofNat 32 W * BitVec.ofNat 32 m).slt 100 ↔ W * m < 100 := by
      rw [BitVec.slt_iff_toInt_lt, ← BitVec.ofNat_mul, toInt_ofNat_of_lt hlt]
      exact Int.ofNat_lt
    rw [multiLoop]
    rcases Nat.lt_or_eq_of_le hm with hless | rfl
    · have hmore := mt (ringMulti_le_iff hW m).mpr (Nat.not_le_of_lt hless)
      rw [if_pos (hslt.mpr (by omega))]
      have hrest := ih (m + 1) hless (by omega)
      rw [BitVec.ofNat_add] at hrest
      exact hrest
    · have henough := (ringMulti_le_iff hW _).mp le_rfl
      rw [if_neg (fun h => absurd (hslt.mp h) (by omega))]

theorem interval_eq (hW : 0 < W) (hfit : W < 2 ^ 31) :
    (Int.tdiv 0xFFFFFFFF (BitVec.ofNat 32 W).toInt).tdiv
      (BitVec.ofNat 32 (ringMulti W)).toInt = ringInterval W := by
  have hmulti := ringMulti_le hW
  rw [toInt_ofNat_of_lt hfit, toInt_ofNat_of_lt (by omega)]
  rfl

theorem ring_fits (W : Nat) : ringMulti W * W * ringInterval W ≤ 2 ^ 32 := by
  rw [ringInterval, Nat.div_div_eq_div_mul, Nat.mul_comm (ringMulti W) W]
  exact le_trans (Nat.mul_div_le _ _) (by decide)

theorem ringInterval_pos (hW : 0 < W) (hfit : W < 2 ^ 31) : 0 < ringInterval W := by
  rw [ringInterval, Nat.div_div_eq_div_mul, Nat.mul_comm]
  refine Nat.div_pos ?_ (Nat.mul_pos (ringMulti_pos hW) hW)
  have := ringMulti_mul_lt hW hfit
  omega

theorem initConsistentBuckets_eq (hW : 0 < (initBuckets servers).length)
    (hfit : (initBuckets servers).length < 2 ^ 31) : initConsistentBuckets servers =
      some (putAll (ringInterval (initBuckets servers).length)
        (List.replicate (ringMulti (initBuckets servers).length) (initBuckets servers)).flatten
        (0, ∅)).2 := by
  have hmulti := ringMulti_le hW
  have hround (interval : Int) : (fun r : Int × Table Int V =>
      servers.foldl (fun r s => Nat.repeat (putNode interval s.1) s.2 r) r) =
      putAll interval (initBuckets servers) := funext (foldl_repeat interval servers)
  have hloop := multiLoop_eq hW hfit (2 ^ 32) 1 (ringMulti_pos hW) (by omega)
  unfold initConsistentBuckets
  dsimp only
  rw [foldl_weights, zero_add, sum_eq_length]
  rw [show (1 : BitVec 32) = BitVec.ofNat 32 1 from rfl, hloop, Option.bind_eq_bind, Option.bind_some,
    interval_eq hW hfit, hround, repeat_putAll, toInt_ofNat_of_lt (by omega)]
  rfl

theorem getElem?_flatten_replicate (l : List V) (n p : Nat) (hp : p < n * l.length) :
    (List.replicate n l).flatten[p]? = l[p % l.length]? := by
  induction n generalizing p with
  | zero => omega
  | succ n ih =>
    rw [List.replicate_succ, List.flatten_cons]
    by_cases hlt : p < l.length
    · rw [List.getElem?_append_left hlt, Nat.mod_eq_of_lt hlt]
    · rw [List.getElem?_append_right (by omega), ih _ (by rw [Nat.succ_mul] at hp; omega),
        ← Nat.mod_eq_sub_mod (by omega)]

theorem zip_weights (servers : List (V × Int)) :
    (servers.map Prod.fst).zip ((List.range (servers.map Prod.fst).length).map fun i =>
      weightOf ((servers.map fun s => some s.2)[i]?.join)) = weighted servers := by
  refine List.ext_getElem (by simp [weighted]) fun i hi hi' => ?_
  have hlt : i < servers.length := by
    rw [weighted, List.length_map] at hi'
    exact hi'
  simp [weighted, hlt]

theorem weightOf_pos (w : Option Int) : 0 < weightOf w := by
  unfold weightOf
  split
  · split
    · exact Nat.one_pos
    · split
      · omega
      · decide
  · exact Nat.one_pos

theorem bucketsOf_append (servers servers' : List (V × Int)) :
    bucketsOf (servers ++ servers') = bucketsOf servers ++ bucketsOf servers' := by
  rw [bucketsOf, weighted, List.map_append, initBuckets, List.flatMap_append]
  rfl

theorem bucketsOf_singleton (s : V × Int) :
    bucketsOf [s] = List.replicate (weightOf (some s.2)) s.1 := List.flatMap_singleton _ _

theorem bucketsOf_pos {servers : List (V × Int)} (h : servers ≠ []) :
    0 < (bucketsOf servers).length := by
  cases servers with
  | nil => exact absurd rfl h
  | cons s servers =>
    rw [← List.singleton_append, bucketsOf_append, bucketsOf_singleton, List.length_append,
      List.length_replicate]
    exact Nat.add_pos_left (weightOf_pos _) _

end WeightLemmas

open WeightLemmas

variable {V : Type} (d : Digests) (hashingAlg : HashingAlg) (k : Chars)

/-- The server of a key is that of the next slot; the ring runs through the buckets several
times. -/
theorem serverOf_eq (servers : List (V × Int)) (hfit : (bucketsOf servers).length < 2 ^ 31) :
    serverOf d hashingAlg k servers = (bucketsOf servers)[
      ringSlot (bucketsOf servers).length (getHash d hashingAlg k) % (bucketsOf servers).length]? := by
  cases servers with
  | nil => rfl
  | cons s servers =>
    have hW : 0 < (bucketsOf (s :: servers)).length := bucketsOf_pos (List.cons_ne_nil _ _)
    have hbuckets := initConsistentBuckets_eq hW hfit
    unfold serverOf XixiWeightMap.set
    rw [if_neg (by simp)]
    dsimp only [XixiWeightMap.new]
    rw [List.nil_append, List.nil_append, zip_weights, if_pos rfl, hbuckets]
    have hlength : ((List.replicate (ringMulti (bucketsOf (s :: servers)).length)
        (bucketsOf (s :: servers))).flatten).length =
        ringMulti (bucketsOf (s :: servers)).length * (bucketsOf (s :: servers)).length := by
      rw [List.length_flatten, List.map_replicate, List.sum_replicate, smul_eq_mul]
    have hpos := Nat.mul_pos (ringMulti_pos hW) hW
    have hfind := find_putAll (ringInterval_pos hW hfit) (hlength ▸ ring_fits _) (hlength ▸ hpos)
      (getHash d hashingAlg k)
    rw [hlength, getElem?_flatten_replicate _ _ _ (evenSlot_lt hpos)] at hfind
    exact hfind

/-- When a server is added, a key stays where it is, or moves to the added server, exactly if its
new slot lies behind the buckets of the other servers, or is one of its old server. -/
theorem get_append_iff (servers : List (V × Int)) (added : V × Int)
    (hfit : (bucketsOf (servers ++ [added])).length < 2 ^ 31) :
    let W := (bucketsOf servers).length
    let W' := (bucketsOf (servers ++ [added])).length
    let slot := ringSlot W (getHash d hashingAlg k) % W
    let slot' := ringSlot W' (getHash d hashingAlg k) % W'
    (serverOf d hashingAlg k (servers ++ [added]) = serverOf d hashingAlg k servers ∨
        serverOf d hashingAlg k (servers ++ [added]) = some added.1 ↔
      W ≤ slot' ∨ (bucketsOf servers)[slot']? = (bucketsOf servers)[slot]? ∨
        (bucketsOf servers)[slot']? = some added.1) ∧
    (servers.length ≤ 1 →
      serverOf d hashingAlg k (servers ++ [added]) = serverOf d hashingAlg k servers ∨
        serverOf d hashingAlg k (servers ++ [added]) = some added.1) := by
  intro W W' slot slot'
  have hW' : 0 < W' := bucketsOf_pos (by simp)
  have hslot' : slot' < W' := Nat.mod_lt _ hW'
  have happend : bucketsOf (servers ++ [added]) =
      bucketsOf servers ++ List.replicate (weightOf (some added.2)) added.1 := by
    rw [bucketsOf_append, bucketsOf_singleton]
  have hbefore := serverOf_eq d hashingAlg k servers (by
    rw [happend, List.length_append] at hfit
    omega)
  have hafter := serverOf_eq d hashingAlg k (servers ++ [added]) hfit
  have hbefore : serverOf d hashingAlg k servers = (bucketsOf servers)[slot]? := hbefore
  have hafter : serverOf d hashingAlg k (servers ++ [added]) =
      (bucketsOf (servers ++ [added]))[slot']? := hafter
  have hnew (h : W ≤ slot') : serverOf d hashingAlg k (servers ++ [added]) = some added.1 := by
    rw [hafter, happend, List.getElem?_append_right h]
    have hlt : slot' - W < weightOf (some added.2) := by
      have hlength := congrArg List.length happend
      rw [List.length_append, List.length_replicate] at hlength
      omega
    exact List.getElem?_replicate_of_lt hlt
  have hold (h : slot' < W) : serverOf d hashingAlg k (servers ++ [added]) =
      (bucketsOf servers)[slot']? := by
    rw [hafter, happend, List.getElem?_append_left h]
  constructor
  · rcases Nat.lt_or_ge slot' W with hlt | hge
    · rw [hold hlt, hbefore]
      exact ⟨.inr, fun h => h.resolve_left (Nat.not_le_of_lt hlt)⟩
    · exact ⟨fun _ => .inl hge, fun _ => .inr (hnew hge)⟩
  · intro hlen
    rcases Nat.lt_or_ge slot' W with hlt | hge
    · -- there is only one server that the key can be at
      left
      cases servers with
      | nil => exact absurd hlt (Nat.not_lt_zero _)
      | cons s rest =>
        obtain rfl : rest = [] := List.eq_nil_of_length_eq_zero (by
          rw [List.length_cons] at hlen
          omega)
        have hslot : slot < W := Nat.mod_lt _ (by omega)
        have hsame {p : Nat} (hp : p < W) : (bucketsOf [s])[p]? = some s.1 := by
          have hW : W = weightOf (some s.2) := by
            show (bucketsOf [s]).length = _
            rw [bucketsOf_singleton, List.length_replicate]
          rw [bucketsOf_singleton]
          exact List.getElem?_replicate_of_lt (hW ▸ hp)
        rw [hold hlt, hbefore, hsame hlt, hsame hslot]
    · exact .inr (hnew hge)

/-- The empty key stays at the first of two servers. -/
theorem get_append_small :
    let d : Digests := ⟨fun _ => [], fun _ => 0, fun _ _ => 0⟩
    let servers : List (Nat × Int) := [(0, 1), (1, 8)]
    (bucketsOf (servers ++ [(2, 3)])).length < 2 ^ 31 ∧
      (serverOf d .native [] (servers ++ [(2, 3)]) = serverOf d .native [] servers ∨
        serverOf d .native [] (servers ++ [(2, 3)]) = some 2) := by
  intro d servers
  have hfit : (bucketsOf (servers ++ [(2, 3)])).length < 2 ^ 31 := by decide
  exact ⟨hfit, (get_append_iff d .native [] servers (2, 3) hfit).1.mpr
    (.inr (.inl (by decide +kernel)))⟩

/-- The key "aaaaa" moves from the second of two servers to the first one when a third is added. -/
theorem not_stays_aaaaa :
    let d : Digests := ⟨fun _ => [], fun _ => 0, fun _ _ => 0⟩
    let servers : List (Nat × Int) := [(0, 1), (1, 1)]
    let k : Chars := [97, 97, 97, 97, 97]
    ¬ (serverOf d .native k (servers ++ [(2, 1)]) = serverOf d .native k servers ∨
      serverOf d .native k (servers ++ [(2, 1)]) = some 2) := by
  decide +kernel

end Xixi.Weight
