import Mathlib.Data.Set.Card
import Xixi.Client.WeightMap

/-!
# The share of a server (`XixiWeightMap.java`)

The servers are counted by their place in the list, so that a server that is given twice has two
shares: the buckets are made for the list of the places, and a server is found where its place is.

1. `ConsistentShares`: on the ring every server has a share by its weight, and the first one the
   places that are left over.
2. `PlainShares`: in the list of buckets every server has as many as its weight.
3. `weights_honoured`: `set` makes such buckets of every list of servers, and `get` finds a server
   for every key.
-/

namespace Xixi.Weight

open Lib WeightLemmas

/-- The weight that `set` stores for the server at a place. -/
def weightAt (weights : List (Option Int)) (i : Nat) : Nat := weightOf weights[i]?.join

/-- The sum of the weights of `n` servers. -/
def totalWeight (n : Nat) (weights : List (Option Int)) : Nat :=
  ((List.range n).map (weightAt weights)).sum

/-- The server of a hash. -/
def XixiWeightMap.atHash {V : Type} (hashCode : BitVec 32) (x : XixiWeightMap V) : Option V :=
  if x.consistentFlag then do
    let m ← x.consistentBuckets
    let bucket ← ceilingOrFirst m.keys hashCode.toInt
    m.lookup bucket
  else do
    let l ← x.buckets
    l[(Int.tmod hashCode.toInt l.length).natAbs]?

theorem get_eq_atHash {V : Type} (d : Digests) (k : Chars) (x : XixiWeightMap V) :
    x.get d k = x.atHash (getHash d x.hashingAlg k) := rfl

/-- The nodes of the ring for a sum of weights. -/
def ringNodes (W : Nat) : Nat := W * ringMulti W

/-- The ring of `n` servers. -/
structure ConsistentShares (n : Nat) (weights : List (Option Int)) (x : XixiWeightMap Nat) :
    Prop where
  enough : 100 ≤ ringNodes (totalWeight n weights)
  nodes : ∃ m, x.consistentBuckets = some m ∧ m.keys.Nodup ∧
    m.keys.length = ringNodes (totalWeight n weights) ∧
    ∀ i < n, (m.keys.filter fun k => m.lookup k = some i).length =
      weightAt weights i * ringMulti (totalWeight n weights)
  hashes : ∀ i < n, {hash : BitVec 32 | x.atHash hash = some i}.ncard =
    weightAt weights i * ringMulti (totalWeight n weights) *
        ((2 ^ 32 - 1) / ringNodes (totalWeight n weights)) +
      if i = 0 then 2 ^ 32 - ringNodes (totalWeight n weights) *
        ((2 ^ 32 - 1) / ringNodes (totalWeight n weights)) else 0
  rest : 2 ^ 32 - ringNodes (totalWeight n weights) *
    ((2 ^ 32 - 1) / ringNodes (totalWeight n weights)) ≤ ringNodes (totalWeight n weights)

/-- The list of the buckets of `n` servers. -/
structure PlainShares (n : Nat) (weights : List (Option Int)) (x : XixiWeightMap Nat) : Prop where
  buckets : ∃ l, x.buckets = some l ∧ l.length = totalWeight n weights ∧
    (∀ hash : BitVec 32, (Int.tmod hash.toInt l.length).natAbs < l.length) ∧
    ∀ i < n, l.count i = weightAt weights i

/-- In `y` a hash belongs to the server at the place that it has in `x`, and every key has a
server. -/
structure Follows {V : Type} (values : List V) (x : XixiWeightMap Nat) (y : XixiWeightMap V) :
    Prop where
  server : ∀ hash, y.atHash hash = (x.atHash hash).bind fun i => values[i]?
  found : ∀ d k, ∃ v, y.get d k = some v

namespace WeightsLemmas

variable {V : Type} {n W : Nat} {weights : List (Option Int)} {interval : Nat} {l : List V}

/-! ## The buckets of the places -/

/-- The buckets for the places of `n` servers. -/
def placeBuckets (n : Nat) (weights : List (Option Int)) : List Nat :=
  initBuckets ((List.range n).zip ((List.range n).map (weightAt weights)))

theorem placeBuckets_eq (n : Nat) (weights : List (Option Int)) : placeBuckets n weights =
    (List.range n).flatMap fun i => List.replicate (weightAt weights i) i := by
  have hzip : (List.range n).zip ((List.range n).map (weightAt weights)) =
      (List.range n).map fun i => (i, weightAt weights i) :=
    List.ext_getElem (by simp) fun i hi hi' => by simp
  rw [placeBuckets, hzip, initBuckets, List.flatMap_map]

theorem count_placeBuckets (n : Nat) (weights : List (Option Int)) (i : Nat) :
    (placeBuckets n weights).count i = if i < n then weightAt weights i else 0 := by
  rw [placeBuckets_eq]
  induction n with
  | zero => rfl
  | succ n ih =>
    rw [List.range_succ, List.flatMap_append, List.count_append, ih, List.flatMap_singleton,
      List.count_replicate]
    rcases lt_trichotomy i n with hlt | rfl | hgt
    · rw [if_pos hlt, if_neg (by simpa using hlt.ne'), if_pos (hlt.trans (Nat.lt_succ_self n))]
      rfl
    · rw [if_neg (Nat.lt_irrefl i), if_pos (beq_self_eq_true i), if_pos (Nat.lt_succ_self i),
        Nat.zero_add]
    · rw [if_neg (Nat.not_lt_of_lt hgt), if_neg (by simpa using hgt.ne), if_neg (by omega)]

theorem length_placeBuckets (n : Nat) (weights : List (Option Int)) :
    (placeBuckets n weights).length = totalWeight n weights := by
  rw [placeBuckets_eq, List.length_flatMap]
  simp only [List.length_replicate]
  rfl

theorem weightAt_pos (weights : List (Option Int)) (i : Nat) : 0 < weightAt weights i :=
  weightOf_pos _

theorem totalWeight_pos (weights : List (Option Int)) (hn : 0 < n) : 0 < totalWeight n weights := by
  obtain ⟨m, rfl⟩ : ∃ m, n = m + 1 := ⟨n - 1, by omega⟩
  have hlast := weightAt_pos weights m
  rw [totalWeight, List.range_succ, List.map_append, List.sum_append, List.map_singleton,
    List.sum_singleton]
  omega

/-- The first bucket is that of the first server. -/
theorem placeBuckets_zero (weights : List (Option Int)) (hn : 0 < n) :
    (placeBuckets n weights)[0]? = some 0 := by
  obtain ⟨m, rfl⟩ : ∃ m, n = m + 1 := ⟨n - 1, by omega⟩
  have hfirst := weightAt_pos weights 0
  rw [placeBuckets_eq, List.range_succ_eq_map, List.flatMap_cons,
    List.getElem?_append_left (by rwa [List.length_replicate]), List.getElem?_replicate_of_lt hfirst]

theorem initBuckets_map {V' : Type} (f : V → V') (servers : List (V × Nat)) :
    initBuckets (servers.map (Prod.map f id)) = (initBuckets servers).map f := by
  unfold initBuckets
  rw [List.flatMap_map, List.map_flatMap]
  simp only [List.map_replicate, Prod.map_fst, Prod.map_snd, id_eq]

/-- The buckets of a list of servers are those of the places, with the servers in their places. -/
theorem initBuckets_zip (values : List V) (ws : List Nat) : (initBuckets (values.zip ws)).map some =
    (initBuckets ((List.range values.length).zip ws)).map fun i => values[i]? := by
  have hvalues : values.map some = (List.range values.length).map fun i => values[i]? :=
    List.ext_getElem (by simp) fun i hi hi' => by simp
  rw [← initBuckets_map, ← initBuckets_map, ← List.zip_map_left, ← List.zip_map_left, hvalues]

theorem bind_of_map {V' : Type} {a : Option V} {b : Option V'} {f : V' → Option V}
    (h : a.map some = b.map f) : a = b.bind f := by
  cases b with
  | none => exact Option.map_eq_none_iff.mp h
  | some b =>
    cases a with
    | none => exact nomatch h
    | some a => exact Option.some.inj h

/-! ## The nodes of the ring -/

theorem node_notMem (hinterval : 0 < interval) (hn : (l.length + 1) * interval ≤ 2 ^ 32) :
    node interval l.length ∉ (putAll interval l (0, ∅)).2.keys := by
  intro hmem
  obtain ⟨p, hp, heq⟩ := mem_keys_putAll hmem
  exact absurd (node_inj hinterval hn (Nat.lt_succ_self _) (hp.trans (Nat.lt_succ_self _)) heq)
    (Nat.ne_of_gt hp)

/-- There is one node for each bucket. -/
theorem nodes_putAll [DecidableEq V] (hinterval : 0 < interval)
    (hn : l.length * interval ≤ 2 ^ 32) :
    (putAll interval l (0, ∅)).2.keys.length = l.length ∧
      ∀ a, ((putAll interval l (0, ∅)).2.keys.filter fun k =>
        (putAll interval l (0, ∅)).2.lookup k = some a).length = l.count a := by
  induction l using List.reverseRecOn with
  | nil => exact ⟨rfl, fun a => rfl⟩
  | append_singleton l v ih =>
    rw [List.length_append, List.length_singleton] at hn ⊢
    obtain ⟨hlength, hcount⟩ := ih (le_trans (Nat.mul_le_mul_right _ (Nat.le_succ _)) hn)
    have hnew := node_notMem hinterval hn
    rw [putAll_snoc]
    generalize (putAll interval l (0, ∅)).2 = m at hlength hcount hnew ⊢
    rw [AList.keys_insert, List.erase_of_not_mem hnew]
    refine ⟨by rw [List.length_cons, hlength], fun a => ?_⟩
    have hother : (m.keys.filter fun k => (m.insert (node interval l.length) v).lookup k = some a) =
        m.keys.filter fun k => m.lookup k = some a := by
      refine List.filter_congr fun k hk => ?_
      have hne : k ≠ node interval l.length := fun heq => hnew (heq ▸ hk)
      rw [AList.lookup_insert_ne hne]
    rw [List.filter_cons, AList.lookup_insert, List.count_append, List.count_singleton, hother,
      ← hcount a]
    by_cases hv : v = a
    · rw [if_pos (decide_eq_true (congrArg some hv)), if_pos (beq_iff_eq.mpr hv), List.length_cons]
    · rw [if_neg (by simpa using hv), if_neg (by simpa using hv), Nat.add_zero]

/-! ## The hashes of a server -/

/-- The hashes are counted as numbers without sign. -/
theorem ncard_hashes (P : Nat → Prop) [DecidablePred P] :
    {hash : BitVec 32 | P hash.toNat}.ncard = ((Finset.range (2 ^ 32)).filter P).card := by
  have himage : Set.image BitVec.toNat {hash : BitVec 32 | P hash.toNat} =
      ((Finset.range (2 ^ 32)).filter P : Finset Nat) := by
    ext u
    simp only [Set.mem_image, Set.mem_ofPred_eq, Finset.coe_filter, Finset.mem_range]
    constructor
    · rintro ⟨hash, hP, rfl⟩
      exact ⟨hash.isLt, hP⟩
    · rintro ⟨hlt, hP⟩
      have hself : (BitVec.ofNat 32 u).toNat = u := by
        rw [BitVec.toNat_ofNat]
        exact Nat.mod_eq_of_lt hlt
      exact ⟨BitVec.ofNat 32 u, hself.symm ▸ hP, hself⟩
  rw [← Set.ncard_image_of_injective _ fun a b h => BitVec.eq_of_toNat_eq h, himage,
    Set.ncard_coe_finset]

theorem ringInterval_eq (W : Nat) : ringInterval W = (2 ^ 32 - 1) / ringNodes W := by
  unfold ringInterval ringNodes
  exact Nat.div_div_eq_div_mul _ _ _

/-- What is left over after a division is less than the divisor. -/
theorem rest_le {N : Nat} (hN : 0 < N) : 2 ^ 32 - N * ((2 ^ 32 - 1) / N) ≤ N := by
  have hdiv := Nat.div_add_mod (2 ^ 32 - 1) N
  have hmod := Nat.mod_lt (2 ^ 32 - 1) hN
  omega

theorem ringNodes_pos (hW : 0 < W) : 0 < ringNodes W := Nat.mul_pos hW (ringMulti_pos hW)

/-! ## The two kinds of buckets -/

/-- The buckets that `set` makes, one after the other. -/
def bucketsFor (values : List V) (weights : List (Option Int)) : List V :=
  initBuckets (values.zip ((List.range values.length).map (weightAt weights)))

/-- The nodes of the ring, one after the other. -/
def ringFor (values : List V) (weights : List (Option Int)) : List V :=
  (List.replicate (ringMulti (totalWeight values.length weights))
    (bucketsFor values weights)).flatten

theorem bucketsFor_range (n : Nat) (weights : List (Option Int)) :
    bucketsFor (List.range n) weights = placeBuckets n weights := by
  rw [bucketsFor, List.length_range, placeBuckets]

theorem bucketsFor_map (values : List V) (weights : List (Option Int)) :
    (bucketsFor values weights).map some =
      (bucketsFor (List.range values.length) weights).map fun i => values[i]? := by
  rw [bucketsFor_range]
  exact initBuckets_zip values _

theorem length_bucketsFor (values : List V) (weights : List (Option Int)) :
    (bucketsFor values weights).length = totalWeight values.length weights := by
  have hlength := congrArg List.length (bucketsFor_map values weights)
  rwa [List.length_map, List.length_map, bucketsFor_range, length_placeBuckets] at hlength

theorem ringFor_map (values : List V) (weights : List (Option Int)) :
    (ringFor values weights).map some =
      (ringFor (List.range values.length) weights).map fun i => values[i]? := by
  rw [ringFor, ringFor, List.map_flatten, List.map_flatten, List.map_replicate, List.map_replicate,
    bucketsFor_map, List.length_range]

theorem length_ringFor (values : List V) (weights : List (Option Int)) :
    (ringFor values weights).length = ringNodes (totalWeight values.length weights) := by
  rw [ringFor, List.length_flatten, List.map_replicate, List.sum_replicate, smul_eq_mul,
    length_bucketsFor, Nat.mul_comm, ringNodes]

theorem count_ringFor (n : Nat) (weights : List (Option Int)) {i : Nat} (hi : i < n) :
    (ringFor (List.range n) weights).count i =
      weightAt weights i * ringMulti (totalWeight n weights) := by
  rw [ringFor, List.count_flatten, List.map_replicate, List.sum_replicate, smul_eq_mul,
    bucketsFor_range, count_placeBuckets, if_pos hi, List.length_range, Nat.mul_comm]

theorem ringFor_zero {n : Nat} (hn : 0 < n) (weights : List (Option Int)) :
    (ringFor (List.range n) weights)[0]? = some 0 := by
  have hfirst := placeBuckets_zero weights hn
  have hpos := ringMulti_pos (totalWeight_pos weights hn)
  obtain ⟨m, hm⟩ : ∃ m, ringMulti (totalWeight n weights) = m + 1 :=
    ⟨ringMulti (totalWeight n weights) - 1, by omega⟩
  rw [ringFor, List.length_range, hm, List.replicate_succ, List.flatten_cons, bucketsFor_range,
    List.getElem?_append_left (List.getElem?_eq_some_iff.mp hfirst).1]
  exact hfirst

theorem set_consistent {values : List V} (alg : HashingAlg) (hne : values ≠ [])
    (hW : totalWeight values.length weights < 2 ^ 24) :
    (XixiWeightMap.new true alg).set values weights = some
      { XixiWeightMap.new true alg with
        values := values
        weights := (List.range values.length).map (weightAt weights)
        consistentBuckets := some (putAll (ringInterval (totalWeight values.length weights))
          (ringFor values weights) (0, ∅)).2 } := by
  have hlength := length_bucketsFor values weights
  have hpos : 0 < totalWeight values.length weights :=
    totalWeight_pos weights (List.length_pos_iff.mpr hne)
  have hbuckets : initConsistentBuckets
      (values.zip ((List.range values.length).map (weightAt weights))) = some
        (putAll (ringInterval (totalWeight values.length weights)) (ringFor values weights)
          (0, ∅)).2 := by
    rw [initConsistentBuckets_eq (hlength ▸ hpos) (hlength ▸ hW.trans (by decide)), ringFor,
      ← hlength]
    rfl
  unfold XixiWeightMap.set
  rw [if_neg (by simpa using hne)]
  dsimp only [XixiWeightMap.new]
  rw [List.nil_append, List.nil_append, if_pos rfl]
  exact Option.bind_eq_some_iff.mpr ⟨_, hbuckets, rfl⟩

theorem set_plain {values : List V} (weights : List (Option Int)) (alg : HashingAlg)
    (hne : values ≠ []) :
    (XixiWeightMap.new false alg).set values weights = some
      { XixiWeightMap.new false alg with
        values := values
        weights := (List.range values.length).map (weightAt weights)
        buckets := some (bucketsFor values weights) } := by
  unfold XixiWeightMap.set
  rw [if_neg (by simpa using hne)]
  dsimp only [XixiWeightMap.new]
  rw [List.nil_append, List.nil_append, if_neg Bool.false_ne_true]
  rfl

/-- On the ring a hash belongs to the node of the next slot. -/
theorem atHash_ring {values : List V} (weights : List (Option Int)) {x : XixiWeightMap V}
    (hne : values ≠ [])
    (hW : totalWeight values.length weights < 2 ^ 24) (hflag : x.consistentFlag = true)
    (hx : x.consistentBuckets = some (putAll (ringInterval (totalWeight values.length weights))
      (ringFor values weights) (0, ∅)).2) (hash : BitVec 32) :
    x.atHash hash = (ringFor values weights)[evenSlot
      (ringInterval (totalWeight values.length weights))
      (ringNodes (totalWeight values.length weights)) hash.toNat]? := by
  have hpos : 0 < totalWeight values.length weights :=
    totalWeight_pos weights (List.length_pos_iff.mpr hne)
  have hlength := length_ringFor values weights
  have hfits := ring_fits (totalWeight values.length weights)
  rw [Nat.mul_comm (ringMulti _)] at hfits
  have hfind := find_putAll (ringInterval_pos hpos (hW.trans (by decide))) (hlength ▸ hfits)
    (hlength ▸ ringNodes_pos hpos) hash
  rw [hlength] at hfind
  rw [XixiWeightMap.atHash, if_pos hflag, hx]
  exact hfind

theorem atHash_places {x : XixiWeightMap Nat} (hn : 0 < n) (hW : totalWeight n weights < 2 ^ 24)
    (hflag : x.consistentFlag = true)
    (hx : x.consistentBuckets = some (putAll (ringInterval (totalWeight n weights))
      (ringFor (List.range n) weights) (0, ∅)).2) (hash : BitVec 32) :
    x.atHash hash = (ringFor (List.range n) weights)[evenSlot
      (ringInterval (totalWeight n weights)) (ringNodes (totalWeight n weights)) hash.toNat]? := by
  have hne : List.range n ≠ [] := by simpa using hn.ne'
  have hat := atHash_ring weights hne (by rwa [List.length_range]) hflag
    (by rwa [List.length_range]) hash
  rwa [List.length_range] at hat

theorem atHash_plain {values : List V} {x : XixiWeightMap V} (hflag : x.consistentFlag = false)
    (hx : x.buckets = some (bucketsFor values weights)) (hash : BitVec 32) :
    x.atHash hash = (bucketsFor values weights)[
      (Int.tmod hash.toInt (bucketsFor values weights).length).natAbs]? := by
  rw [XixiWeightMap.atHash, hflag, hx, if_neg Bool.false_ne_true]
  rfl

/-- The remainder is smaller than the divisor, whatever the sign of the hash. -/
theorem natAbs_tmod_lt {n : Nat} (hn : 0 < n) (hash : BitVec 32) :
    (Int.tmod hash.toInt n).natAbs < n := by
  rw [Int.natAbs_tmod, Int.natAbs_natCast]
  exact Nat.mod_lt _ hn

/-- A list of buckets for the places, and the same for the servers. -/
theorem follows_of_lists {values : List V} {x : XixiWeightMap Nat} {y : XixiWeightMap V}
    {l₀ : List Nat} {l : List V} {slot : BitVec 32 → Nat}
    (hmap : l.map some = l₀.map fun i => values[i]?)
    (hx : ∀ hash, x.atHash hash = l₀[slot hash]?) (hy : ∀ hash, y.atHash hash = l[slot hash]?)
    (hslot : ∀ hash, slot hash < l.length) : Follows values x y where
  server hash := by
    rw [hx, hy]
    refine bind_of_map ?_
    rw [← List.getElem?_map, ← List.getElem?_map, hmap]
  found d k := ⟨_, by rw [get_eq_atHash, hy, List.getElem?_eq_getElem (hslot _)]⟩

theorem consistentShares {x : XixiWeightMap Nat} (hn : 0 < n)
    (hW : totalWeight n weights < 2 ^ 24) (hflag : x.consistentFlag = true)
    (hx : x.consistentBuckets = some (putAll (ringInterval (totalWeight n weights))
      (ringFor (List.range n) weights) (0, ∅)).2) : ConsistentShares n weights x := by
  have hpos : 0 < totalWeight n weights := totalWeight_pos weights hn
  have hlength := length_ringFor (List.range n) weights
  rw [List.length_range] at hlength
  have hfits := ring_fits (totalWeight n weights)
  rw [Nat.mul_comm (ringMulti _)] at hfits
  have hinterval := ringInterval_pos hpos (hW.trans (by decide))
  have hnodes := nodes_putAll hinterval (l := ringFor (List.range n) weights) (hlength ▸ hfits)
  refine ⟨(ringMulti_le_iff hpos _).mp le_rfl, ⟨_, hx, AList.keys_nodup _,
    hnodes.1.trans hlength, fun i hi => (hnodes.2 i).trans (count_ringFor n weights hi)⟩,
    fun i hi => ?_, rest_le (ringNodes_pos hpos)⟩
  have hserver : {hash : BitVec 32 | x.atHash hash = some i} =
      {hash : BitVec 32 | (ringFor (List.range n) weights)[evenSlot
        (ringInterval (totalWeight n weights)) (ringFor (List.range n) weights).length
        hash.toNat]? = some i} := by
    ext hash
    rw [hlength]
    exact iff_of_eq (congrArg (· = some i) (atHash_places hn hW hflag hx hash))
  rw [hserver, ncard_hashes fun u => (ringFor (List.range n) weights)[evenSlot
    (ringInterval (totalWeight n weights)) (ringFor (List.range n) weights).length u]? = some i,
    card_found hinterval (hlength ▸ ringNodes_pos hpos) (hlength ▸ hfits), count_ringFor n weights hi,
    hlength, ringFor_zero hn, ringInterval_eq]
  simp only [Option.some.injEq, eq_comm]

end WeightsLemmas

open WeightsLemmas

/-- The weights are honoured, on the ring and in the list of buckets. -/
theorem weights_honoured {V : Type} (alg : HashingAlg) (values : List V)
    (weights : List (Option Int)) (hne : values ≠ [])
    (hW : totalWeight values.length weights < 2 ^ 24) :
    (∃ x y, (XixiWeightMap.new true alg).set (List.range values.length) weights = some x ∧
      (XixiWeightMap.new true alg).set values weights = some y ∧
      ConsistentShares values.length weights x ∧ Follows values x y) ∧
    ∃ x y, (XixiWeightMap.new false alg).set (List.range values.length) weights = some x ∧
      (XixiWeightMap.new false alg).set values weights = some y ∧
      PlainShares values.length weights x ∧ Follows values x y := by
  have hn : 0 < values.length := List.length_pos_iff.mpr hne
  have hpos : 0 < totalWeight values.length weights := totalWeight_pos weights hn
  have hrange : List.range values.length ≠ [] := by simpa using hne
  have hWrange : totalWeight (List.range values.length).length weights < 2 ^ 24 := by
    rwa [List.length_range]
  constructor
  · have hx := set_consistent alg hrange hWrange
    have hy := set_consistent alg hne hW
    rw [List.length_range] at hx
    refine ⟨_, _, hx, hy, consistentShares hn hW rfl rfl, ?_⟩
    refine follows_of_lists (ringFor_map values weights) (atHash_places hn hW rfl rfl)
      (atHash_ring weights hne hW rfl rfl) fun hash => ?_
    rw [length_ringFor]
    exact evenSlot_lt (ringNodes_pos hpos)
  · have hx := set_plain weights alg hrange
    have hy := set_plain weights alg hne
    have hlength : (bucketsFor (List.range values.length) weights).length =
        (bucketsFor values weights).length := by
      rw [length_bucketsFor, length_bucketsFor, List.length_range]
    refine ⟨_, _, hx, hy, ⟨_, rfl, ?_, fun hash => ?_, fun i hi => ?_⟩,
      follows_of_lists (bucketsFor_map values weights) (fun hash => ?_) (atHash_plain rfl rfl)
        fun hash => ?_⟩
    · rw [length_bucketsFor, List.length_range]
    · rw [length_bucketsFor, List.length_range]
      exact natAbs_tmod_lt hpos hash
    · rw [bucketsFor_range, count_placeBuckets, if_pos hi]
    · rw [atHash_plain rfl rfl, hlength]
    · rw [length_bucketsFor]
      exact natAbs_tmod_lt hpos hash

/-- Two servers, the second one without a weight. -/
theorem weights_honoured_small :
    ∃ x y, (XixiWeightMap.new true .native).set (List.range 2) [some 3] = some x ∧
      (XixiWeightMap.new true .native).set [10, 20] [some 3] = some y ∧
      ConsistentShares 2 [some 3] x ∧ Follows [10, 20] x y :=
  (weights_honoured .native [10, 20] [some 3] (by decide) (by decide)).1

end Xixi.Weight
