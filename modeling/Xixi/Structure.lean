import Mathlib.Algebra.BigOperators.Group.Finset.Basic
import Mathlib.Algebra.BigOperators.Intervals
import Xixi.System

/-!
# The structure of the store

The invariant of the manager in terms of the pointers a walk over its lists and
chains meets, for every state that a run can reach.

1. `Structured env s`: hash map, expire lists and free lists fit together, and no
   assert has failed.
2. `structured_of_run`: every reachable state is so.
-/

namespace Xixi

open Xixi.Lists StepLemmas Lib

/-- Hash map, expire lists and free lists fit together. -/
structure Structured (env : Env) (s : CacheMgr) : Prop where
  oneList : ∀ p, s.cacheHashMap.Mem p ↔ ∃! i, s.lists.Mem (.expire i) p
  expirationId : ∀ i p, s.lists.Mem (.expire i) p → i < 34 ∧ i = (s.item p).expirationId
  distinct : ∀ p q, s.cacheHashMap.Mem p → s.cacheHashMap.Mem q →
    (s.item p).groupId = (s.item q).groupId → (s.item p).key = (s.item q).key → p = q
  bucket : ∀ p, s.cacheHashMap.Mem p →
    s.cacheHashMap.MemBucket (s.cacheHashMap.hashValue p % s.cacheHashMap.bucketSize) p ∧
    s.cacheHashMap.hashValue p = env.hash32 (s.item p).key (s.item p).groupId
  size : s.cacheHashMap.size = (∑ i ∈ Finset.range 34, s.lists.size (.expire i)) % 2 ^ 32
  notFree : ∀ p, s.cacheHashMap.Mem p → ∀ i, ¬ s.lists.Mem (.freeCache i) p
  asserts : s.ok = true ∧ s.lists.ok = true

variable {env : Env} {held : Ptr → Nat} {L : ListId → List Ptr} {s : CacheMgr} {p : Ptr}

namespace StructureLemmas

theorem mem_expire (h : Core env held L s) (i : Nat) (p : Ptr) :
    s.lists.Mem (.expire i) p ↔ p ∈ L (.expire i) := Lists.mem_iff h.rep _ p

theorem mem_hashMap (h : Core env held L s) (p : Ptr) : s.cacheHashMap.Mem p ↔ Linked L p := by
  obtain ⟨S, hS, hrep⟩ := h.table
  rw [HashMap.mem_iff hrep, hS]

theorem one_list (h : Core env held L s) (p : Ptr) :
    Linked L p ↔ ∃! i, s.lists.Mem (.expire i) p := by
  constructor
  · rintro ⟨i, hi⟩
    refine ⟨i, (mem_expire h i p).mpr hi, fun j hj => ?_⟩
    exact ListId.expire.inj (h.rep.disj _ _ p ((mem_expire h j p).mp hj) hi)
  · rintro ⟨i, hi, -⟩
    exact ⟨i, (mem_expire h i p).mp hi⟩

/-- The linked items are the disjoint union of the 34 lists. -/
theorem card_eq_sum (h : Core env held L s) {S : Finset Ptr} (hS : ∀ p, p ∈ S ↔ Linked L p) :
    S.card = ∑ i ∈ Finset.range 34, (L (.expire i)).length := by
  have hunion : S = (Finset.range 34).biUnion fun i => (L (.expire i)).toFinset := by
    ext p
    simp only [hS, Finset.mem_biUnion, Finset.mem_range, List.mem_toFinset]
    exact ⟨fun ⟨i, hi⟩ => ⟨i, h.inRange hi, hi⟩, fun ⟨i, _, hi⟩ => ⟨i, hi⟩⟩
  rw [hunion, Finset.card_biUnion]
  · refine Finset.sum_congr rfl fun i _ => ?_
    exact List.toFinset_card_of_nodup (h.rep.nodup _)
  · intro i _ j _ hij
    refine Finset.disjoint_left.mpr fun p hi hj => hij ?_
    rw [List.mem_toFinset] at hi hj
    exact ListId.expire.inj (h.rep.disj _ _ p hi hj)

theorem size_eq (h : Core env held L s) :
    s.cacheHashMap.size = (∑ i ∈ Finset.range 34, s.lists.size (.expire i)) % 2 ^ 32 := by
  obtain ⟨S, hS, C, hC⟩ := h.table
  have hlist : ∀ i, s.lists.size (.expire i) = (L (.expire i)).length % 2 ^ 32 :=
    fun i => h.rep.size _
  simp only [hlist]
  rw [hC.size, card_eq_sum h hS, Finset.sum_nat_mod]

theorem structured_of_core (h : Core env held L s) : Structured env s where
  oneList p := (mem_hashMap h p).trans (one_list h p)
  expirationId i p hp := by
    have hi := (mem_expire h i p).mp hp
    exact ⟨h.inRange hi, (h.expirationId hi).symm⟩
  distinct p q hp hq hg hk :=
    h.inj ((mem_hashMap h p).mp hp) ((mem_hashMap h q).mp hq) (Prod.ext hg hk)
  bucket p hp := by
    have hl := (mem_hashMap h p).mp hp
    obtain ⟨S, hS, hrep⟩ := h.table
    obtain ⟨C, hC⟩ := hrep
    have hb : s.cacheHashMap.hashValue p % s.cacheHashMap.bucketSize < s.cacheHashMap.bucketSize :=
      Nat.mod_lt _ hC.pos
    exact ⟨(HashMap.memBucket_iff ⟨C, hC⟩ hb p).mpr ⟨(hS p).mpr hl, rfl⟩, h.hash hl⟩
  size := size_eq h
  notFree p hp i hm := by
    have hl := (mem_hashMap h p).mp hp
    exact (h.used (h.pos_of_linked hl)).2.1 i ((Lists.mem_iff h.rep _ p).mp hm)
  asserts := ⟨h.ok, h.rep.ok⟩

end StructureLemmas

open StructureLemmas

/-- Every state that a run of permitted operations reaches is structured. -/
theorem structured_of_run {lastTime limit itemSizeMax itemSizeMin : Nat} {factor : Rat} {x : Sys}
    {t : List (Sys × (Op × Outcome))} (hw : env.refWidth = .unbounded)
    (h : Run (Sys.Step env) (Sys.start env lastTime limit itemSizeMax itemSizeMin factor) t x) :
    Structured env x.mgr := by
  obtain ⟨lost, hx⟩ := SysInv.run hw h ⟨_, sysInv_start⟩
  obtain ⟨L, hL⟩ := hx.inv
  exact structured_of_core hL

/-- Two keys with one hash value are linked, one of them with an expiration, and the
clock moves on to a sweep. -/
theorem structured_after_sweep :
    Structured (.colliding .unbounded) ((Sys.small .unbounded).execAll (.colliding .unbounded)
      [.alloc .zeros 1 1 0 0 2 0, .fill 0 ⟨[107], [55, 56], [], 0⟩, .update .set .zeros 0 0,
        .alloc .zeros 1 1 0 5 1 0, .fill 1 ⟨[108], [57], [], 0⟩, .update .add .zeros 1 0,
        .releaseReference 1, .setCurrentTime 10, .checkExpired, .get 1 [107] 0 false]).mgr :=
  structured_of_run rfl (Sys.run_execAll (by decide +kernel))

end Xixi
