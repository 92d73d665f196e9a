import Mathlib.Algebra.Order.BigOperators.Group.Finset
import Xixi.Moves.Operation

/-!
# The account of memory

A chunk is obtained from `malloc` with the size of a class. Until it is given back it is referenced
(linked, held by someone, or kept by a reference that `update_flags` has taken and not released) or
parked in a free list, and `reset` erases `class_id` on the way: in the free lists the class is the
number of the list.

1. `Account s`: what every move keeps.
2. `account_move`: one move.
3. `Accounted s`: what follows for the state.
4. `accounted_of_run`: every state that a run reaches is accounted for, if `malloc` gives out no
   more than there are addresses.
-/

namespace Xixi

open Xixi.Lists StepLemmas MoveLemmas Lib

/-- The size of the chunks that have been obtained from `malloc` and not been given back. -/
def CacheMgr.heapBytes (s : CacheMgr) : Nat :=
  ∑ p ∈ (Finset.range s.nextPtr).filter fun p => s.allocated p = true, s.chunkSize p

/-- The invariant of the account. -/
structure Account (s : CacheMgr) : Prop where
  lastClassId : s.lastClassId ≤ s.classIdMax
  classIdMax : s.classIdMax ≤ 200
  freeMax : ∀ i, s.freeCacheMaxCount i < 2 ^ 32
  used : s.memUsed = s.heapBytes
  fits : s.memUsed < 2 ^ 64
  limit : s.memUsed ≤ s.memLimit
  underflow : s.underflow = false
  referenced : ∀ p, s.Referenced p → s.chunkSize p = s.maxSize (s.item p).classId
  free : ∀ i, ∀ p ∈ s.freeList i, s.chunkSize p = s.maxSize i
  length : ∀ i, (s.freeList i).length ≤ s.freeCacheMaxCount i

/-- `mem_used_`, the classes of the chunks, and the lengths of the free lists. -/
structure Accounted (s : CacheMgr) : Prop where
  used : s.memUsed = s.heapBytes
  limit : s.memUsed ≤ s.memLimit
  noUnderflow : s.underflow = false
  chunk : ∀ p, s.allocated p = true →
    (0 < (s.item p).refCount ∧ s.chunkSize p = s.maxSize (s.item p).classId) ∨
      ∃ i, s.lists.Mem (.freeCache i) p
  parked : ∀ i p, s.lists.Mem (.freeCache i) p →
    s.allocated p = true ∧ (s.item p).refCount = 0 ∧ s.chunkSize p = s.maxSize i
  size : ∀ i, s.lists.size (.freeCache i) ≤ s.freeCacheMaxCount i

variable {env : Env} {A : Scope} {held : Ptr → Nat} {L : ListId → List Ptr} {s s' : CacheMgr} {p : Ptr}

/-! ## Moves -/

namespace MemoryLemmas

theorem heapBytes_congr (h : s'.chunks = s.chunks) : s'.heapBytes = s.heapBytes := by
  have h1 : s'.allocated = s.allocated := congrArg (·.1) h
  have h2 : s'.chunkSize = s.chunkSize := congrArg (·.2.1) h
  have h3 : s'.nextPtr = s.nextPtr := congrArg (·.2.2.1) h
  rw [CacheMgr.heapBytes, CacheMgr.heapBytes, h1, h2, h3]

/-- A new chunk of `n` bytes. -/
theorem heapBytes_malloc {n : Nat} (h1 : s'.allocated = Function.update s.allocated s.nextPtr true)
    (h2 : s'.chunkSize = Function.update s.chunkSize s.nextPtr n) (h3 : s'.nextPtr = s.nextPtr + 1) :
    s'.heapBytes = s.heapBytes + n := by
  have hold : ∀ q ∈ Finset.range s.nextPtr, q ≠ s.nextPtr := by
    intro q hq
    exact Nat.ne_of_lt (Finset.mem_range.mp hq)
  have hfilter : (Finset.range s.nextPtr).filter
      (fun p => Function.update s.allocated s.nextPtr true p = true) =
      (Finset.range s.nextPtr).filter fun p => s.allocated p = true := by
    refine Finset.filter_congr fun q hq => ?_
    rw [Function.update_of_ne (hold q hq)]
  have hsum : ∑ p ∈ (Finset.range s.nextPtr).filter (fun p => s.allocated p = true),
      Function.update s.chunkSize s.nextPtr n p = s.heapBytes := by
    refine Finset.sum_congr rfl fun q hq => ?_
    exact Function.update_of_ne (hold q (Finset.mem_filter.mp hq).1) ..
  have hnew : s.nextPtr ∉ (Finset.range s.nextPtr).filter
      (fun p => Function.update s.allocated s.nextPtr true p = true) := by
    simp
  rw [CacheMgr.heapBytes, h1, h2, h3, Finset.range_add_one, Finset.filter_insert,
    if_pos (Function.update_self ..), Finset.sum_insert hnew, Function.update_self, hfilter, hsum,
    Nat.add_comm]

/-- A chunk is given back. -/
theorem heapBytes_free (hlt : p < s.nextPtr) (hp : s.allocated p = true)
    (h1 : s'.allocated = Function.update s.allocated p false) (h2 : s'.chunkSize = s.chunkSize)
    (h3 : s'.nextPtr = s.nextPtr) : s'.heapBytes + s.chunkSize p = s.heapBytes := by
  have hmem : p ∈ (Finset.range s.nextPtr).filter fun p => s.allocated p = true :=
    Finset.mem_filter.mpr ⟨Finset.mem_range.mpr hlt, hp⟩
  have herase : (Finset.range s.nextPtr).filter
      (fun q => Function.update s.allocated p false q = true) =
      ((Finset.range s.nextPtr).filter fun q => s.allocated q = true).erase p := by
    ext q
    rw [Finset.mem_erase, Finset.mem_filter, Finset.mem_filter]
    by_cases hq : q = p
    · simp [hq]
    · rw [Function.update_of_ne hq]
      simp [hq]
  rw [CacheMgr.heapBytes, h1, h2, h3, herase]
  exact Finset.sum_erase_add _ _ hmem

theorem account_same (h : Account s) (hs : SameChunks s s') : Account s' := by
  have hsize : s'.chunkSize = s.chunkSize := congrArg (·.2.1) hs.chunks
  have hmem : s'.memUsed = s.memUsed := congrArg (·.2.2.2.1) hs.chunks
  have hunder : s'.underflow = s.underflow := congrArg (·.2.2.2.2) hs.chunks
  have hmax : s'.maxSize = s.maxSize := congrArg (·.1) hs.classTable
  have hid : s'.classIdMax = s.classIdMax := congrArg (·.2.1) hs.classTable
  have hfree : s'.freeCacheMaxCount = s.freeCacheMaxCount := congrArg (·.2.2.1) hs.classTable
  have hlimit : s'.memLimit = s.memLimit := congrArg (·.2.2.2) hs.classTable
  refine ⟨?_, hid ▸ h.classIdMax, hfree ▸ h.freeMax, ?_, hmem ▸ h.fits, ?_, hunder.trans h.underflow,
    fun p hp => ?_, fun i p hp => ?_, fun i => ?_⟩
  · rw [hid]
    exact hs.lastClassId.trans (max_le h.lastClassId (Nat.le_refl _))
  · rw [hmem, heapBytes_congr hs.chunks, h.used]
  · rw [hmem, hlimit]
    exact h.limit
  · have hclass : (s'.item p).classId = (s.item p).classId := congrArg (·.1) (hs.shape p)
    rw [hsize, hmax, hclass]
    exact h.referenced p ((hs.referenced p).mp hp)
  · rw [hs.freeList] at hp
    rw [hsize, hmax]
    exact h.free i p hp
  · rw [hs.freeList, hfree]
    exact h.length i

/-- An item out of a free list, or in a new chunk. -/
theorem account_alloc {id : Nat} (h : Account s) (hm : AllocMove A s p id s')
    (hinv : ∃ held, Inv env held s)
    (hA : A.malloc s → ∀ c ≤ s.classIdMax, s.heapBytes + s.maxSize c < 2 ^ 64) : Account s' := by
  obtain ⟨held, L, hcore⟩ := hinv
  have hmax : s'.maxSize = s.maxSize := congrArg (·.1) hm.classTable
  have hidm : s'.classIdMax = s.classIdMax := congrArg (·.2.1) hm.classTable
  have hfreem : s'.freeCacheMaxCount = s.freeCacheMaxCount := congrArg (·.2.2.1) hm.classTable
  have hlimit : s'.memLimit = s.memLimit := congrArg (·.2.2.2) hm.classTable
  have hlast : s'.lastClassId ≤ s'.classIdMax := by
    rw [hidm]
    exact hm.lastClassId.trans (max_le h.lastClassId (Nat.le_refl _))
  have hle := hm.bound.trans (max_le h.lastClassId (Nat.le_refl _))
  have hid : (s'.item p).classId = id := by
    have h200 := h.classIdMax
    rw [hm.classId]
    exact Nat.mod_eq_of_lt (by omega)
  have hother : ∀ q, q ≠ p → s'.Referenced q → s.chunkSize q = s.maxSize (s'.item q).classId := by
    intro q hq hr
    rw [hm.item q hq]
    refine h.referenced q ?_
    rw [CacheMgr.Referenced, hm.item q hq] at hr
    exact hr
  rcases hm.chunk with ⟨hmem, hchunks, hlists⟩ | ⟨hgrant, rfl, hlim, hchunks, hlists⟩
  · have hsize : s'.chunkSize = s.chunkSize := congrArg (·.2.1) hchunks
    have hused : s'.memUsed = s.memUsed := congrArg (·.2.2.2.1) hchunks
    have hunder : s'.underflow = s.underflow := congrArg (·.2.2.2.2) hchunks
    refine ⟨hlast, hidm ▸ h.classIdMax, hfreem ▸ h.freeMax, ?_, hused ▸ h.fits, ?_,
      hunder.trans h.underflow, fun q hq => ?_, fun i q hq => ?_, fun i => ?_⟩
    · rw [hused, heapBytes_congr hchunks, h.used]
    · rw [hused, hlimit]
      exact h.limit
    · rw [hsize, hmax]
      by_cases hqp : q = p
      · subst hqp
        rw [hid]
        exact h.free id q hmem
      · exact hother q hqp hq
    · rw [hlists] at hq
      rw [hsize, hmax]
      exact h.free i q (List.mem_of_mem_erase hq)
    · rw [hlists, hfreem]
      exact List.length_erase_le.trans (h.length i)
  · have hbound := hA hgrant id hle
    rw [← h.used] at hbound
    have hmod : (s.memUsed + s.maxSize id) % 2 ^ 64 = s.memUsed + s.maxSize id :=
      Nat.mod_eq_of_lt hbound
    rw [hmod] at hchunks hlim
    have hsize : s'.chunkSize = Function.update s.chunkSize s.nextPtr (s.maxSize id) :=
      congrArg (·.2.1) hchunks
    have hused : s'.memUsed = s.memUsed + s.maxSize id := congrArg (·.2.2.2.1) hchunks
    have hunder : s'.underflow = s.underflow := congrArg (·.2.2.2.2) hchunks
    refine ⟨hlast, hidm ▸ h.classIdMax, hfreem ▸ h.freeMax, ?_, hused ▸ hbound, ?_,
      hunder.trans h.underflow, fun q hq => ?_, fun i q hq => ?_, fun i => ?_⟩
    · rw [hused, h.used]
      exact (heapBytes_malloc (congrArg (·.1) hchunks) hsize (congrArg (·.2.2.1) hchunks)).symm
    · rw [hused, hlimit]
      exact hlim
    · rw [hsize, hmax]
      by_cases hqp : q = s.nextPtr
      · subst hqp
        rw [Function.update_self, hid]
      · rw [Function.update_of_ne hqp]
        exact hother q hqp hq
    · rw [hlists] at hq
      have hlt : q < s.nextPtr := by
        rw [freeList_eq hcore] at hq
        exact hcore.bound (hcore.free hq)
      rw [hsize, hmax, Function.update_of_ne (Nat.ne_of_lt hlt)]
      exact h.free i q hq
    · rw [hlists, hfreem]
      exact h.length i

theorem account_free (h : Account s) (hm : FreeMove s p s') (hinv : ∃ held, Inv env held s) :
    Account s' := by
  obtain ⟨held, L, hcore⟩ := hinv
  have hmax : s'.maxSize = s.maxSize := congrArg (·.1) hm.classTable
  have hidm : s'.classIdMax = s.classIdMax := congrArg (·.2.1) hm.classTable
  have hfreem : s'.freeCacheMaxCount = s.freeCacheMaxCount := congrArg (·.2.2.1) hm.classTable
  have hlimit : s'.memLimit = s.memLimit := congrArg (·.2.2.2) hm.classTable
  have hlast : s'.lastClassId ≤ s'.classIdMax := by
    rw [hidm]
    exact hm.lastClassId.trans (max_le h.lastClassId (Nat.le_refl _))
  have hclass := h.referenced p hm.used
  have hother : ∀ q, s'.Referenced q → s.chunkSize q = s.maxSize (s'.item q).classId := by
    intro q hq
    have hqp : q ≠ p := fun he => hm.idle (he ▸ hq)
    rw [hm.item q hqp]
    refine h.referenced q ?_
    rw [CacheMgr.Referenced, hm.item q hqp] at hq
    exact hq
  rcases hm.chunk with ⟨hroom, hchunks, hself, hlists⟩ | ⟨hchunks, hlists⟩
  · have hsize : s'.chunkSize = s.chunkSize := congrArg (·.2.1) hchunks
    have hused : s'.memUsed = s.memUsed := congrArg (·.2.2.2.1) hchunks
    have hunder : s'.underflow = s.underflow := congrArg (·.2.2.2.2) hchunks
    refine ⟨hlast, hidm ▸ h.classIdMax, hfreem ▸ h.freeMax, ?_, hused ▸ h.fits, ?_,
      hunder.trans h.underflow, fun q hq => ?_, fun i q hq => ?_, fun i => ?_⟩
    · rw [hused, heapBytes_congr hchunks, h.used]
    · rw [hused, hlimit]
      exact h.limit
    · rw [hsize, hmax]
      exact hother q hq
    · rw [hsize, hmax]
      by_cases hi : i = (s.item p).classId
      · subst hi
        rw [hself] at hq
        rcases List.mem_cons.mp hq with rfl | hq
        · exact hclass
        · exact h.free _ q hq
      · rw [hlists i hi] at hq
        exact h.free i q hq
    · rw [hfreem]
      by_cases hi : i = (s.item p).classId
      · subst hi
        have hlen := h.length (s.item p).classId
        have hbig := h.freeMax (s.item p).classId
        rw [Nat.mod_eq_of_lt (Nat.lt_of_le_of_lt hlen hbig)] at hroom
        rw [hself, List.length_cons]
        exact hroom
      · rw [hlists i hi]
        exact h.length i
  · have halloc := (hcore.used hm.used).1
    have hbytes := heapBytes_free (hcore.lt_nextPtr hm.used) halloc (congrArg (·.1) hchunks)
      (congrArg (·.2.1) hchunks) (congrArg (·.2.2.1) hchunks)
    rw [← h.used, hclass] at hbytes
    have hsize : s'.chunkSize = s.chunkSize := congrArg (·.2.1) hchunks
    have hused : s'.memUsed = (s.memUsed + (2 ^ 64 - s.maxSize (s.item p).classId)) % 2 ^ 64 :=
      congrArg (·.2.2.2.1) hchunks
    have hunder : s'.underflow =
        (s.underflow || decide (s.memUsed < s.maxSize (s.item p).classId)) :=
      congrArg (·.2.2.2.2) hchunks
    have hfits := h.fits
    have heq : s'.memUsed = s'.heapBytes := by
      rw [hused]
      omega
    have hle : s'.memUsed ≤ s.memUsed := by omega
    refine ⟨hlast, hidm ▸ h.classIdMax, hfreem ▸ h.freeMax, heq, by omega, ?_, ?_, fun q hq => ?_,
      fun i q hq => ?_, fun i => ?_⟩
    · rw [hlimit]
      exact hle.trans h.limit
    · rw [hunder, h.underflow, Bool.false_or]
      exact decide_eq_false (by omega)
    · rw [hsize, hmax]
      exact hother q hq
    · rw [hlists] at hq
      rw [hsize, hmax]
      exact h.free i q hq
    · rw [hlists, hfreem]
      exact h.length i

end MemoryLemmas

open MemoryLemmas

/-- What one move does to the account. -/
theorem account_move (h : Account s) (hinv : ∃ held, Inv env held s) (m : Move env A s s')
    (hA : A.malloc s → ∀ c ≤ s.classIdMax, s.heapBytes + s.maxSize c < 2 ^ 64) : Account s' := by
  cases m with
  | quiet hm => exact account_same h hm.toSameChunks
  | link p hm => exact account_same h hm.toSameChunks
  | detach p hm => exact account_same h hm.toSameChunks
  | alloc p id hm => exact account_alloc h hm hinv hA
  | free p hm => exact account_free h hm hinv

/-! ## Runs -/

/-- `malloc` returns a chunk only if the chunks that are in use and the new one have distinct
addresses, of which there are `2 ^ 64`. -/
def Sys.FitsAddresses (x : Sys) (op : Op) : Prop :=
  op.mallocs = true → ∀ c ≤ x.mgr.classIdMax, x.mgr.heapBytes + x.mgr.maxSize c < 2 ^ 64

instance (x : Sys) (op : Op) : Decidable (x.FitsAddresses op) :=
  inferInstanceAs (Decidable (_ → ∀ c ≤ _, _))

/-- What one operation does to the account. -/
theorem account_step {x y : Sys} {l : Op × Outcome} (hx : ∃ lost, SysInv env lost x)
    (hfits : x.FitsAddresses l.1) (h : x.RoomStep env l y) (ha : Account x.mgr) :
    Account y.mgr := by
  have hkeep : ∀ s s', (∃ held, Inv env held s) → Move env (l.1.scope env x.mgr) s s' →
      Account s ∧ s.classTable = x.mgr.classTable →
      Account s' ∧ s'.classTable = x.mgr.classTable := by
    rintro s s' hinv m ⟨hs, htab⟩
    refine ⟨account_move hs hinv m ?_, m.sameTable.classTable.trans htab⟩
    rintro ⟨hgrant, hchunks⟩ c hc
    have hmax : s.maxSize = x.mgr.maxSize := congrArg (·.1) htab
    have hid : s.classIdMax = x.mgr.classIdMax := congrArg (·.2.1) htab
    rw [heapBytes_congr hchunks, hmax]
    exact hfits hgrant c (hid ▸ hc)
  exact ((moves_step hx h).invariant hkeep ⟨ha, rfl⟩).1

namespace MemoryLemmas

theorem initLoop_bounds (limit factor : Rat) (n : Nat) :
    ∀ (c size : Nat) (s : CacheMgr), s.classIdMax = c → 1 ≤ c → c ≤ 200 →
      (∀ i, s.freeCacheMaxCount i < 2 ^ 32) →
      1 ≤ (CacheMgr.initLoop limit factor n c size s).classIdMax ∧
      (CacheMgr.initLoop limit factor n c size s).classIdMax ≤ 200 ∧
      ∀ i, (CacheMgr.initLoop limit factor n c size s).freeCacheMaxCount i < 2 ^ 32 := by
  induction n with
  | zero =>
    intro c size s hc h1 h200 hf
    exact ⟨hc ▸ h1, hc ▸ h200, hf⟩
  | succ n ih =>
    intro c size s hc h1 h200 hf
    unfold CacheMgr.initLoop
    split
    · next hlt =>
      refine ih (c + 1) _ _ rfl (by omega) hlt.1 fun i => ?_
      by_cases hi : i = c
      · subst hi
        simp only [Function.update_self]
        omega
      · simp only [Function.update_of_ne hi]
        exact hf i
    · exact ⟨hc ▸ h1, hc ▸ h200, hf⟩

variable {lastTime limit itemSizeMax itemSizeMin : Nat} {factor : Rat}

theorem init_bounds (hs : s = (Sys.start env lastTime limit itemSizeMax itemSizeMin factor).mgr) :
    1 ≤ s.classIdMax ∧ s.classIdMax ≤ 200 ∧ ∀ i, s.freeCacheMaxCount i < 2 ^ 32 := by
  subst hs
  unfold Sys.start CacheMgr.init
  dsimp only
  refine initLoop_bounds _ _ _ 1 _ _ rfl (Nat.le_refl 1) (by omega) fun i => ?_
  simp [CacheMgr.new]

theorem account_start :
    Account (Sys.start env lastTime limit itemSizeMax itemSizeMin factor).mgr := by
  obtain ⟨h1, h200, hf⟩ := init_bounds
    (rfl : (Sys.start env lastTime limit itemSizeMax itemSizeMin factor).mgr = _)
  obtain ⟨m, i, f, he⟩ :=
    SystemLemmas.init_eq env (CacheMgr.new lastTime) limit itemSizeMax itemSizeMin factor
  have hmgr : (Sys.start env lastTime limit itemSizeMax itemSizeMin factor).mgr =
      { CacheMgr.new lastTime with
        maxSize := m, classIdMax := i, freeCacheMaxCount := f, memLimit := limit } := he
  rw [hmgr] at h1 h200 hf ⊢
  have hseq : (CacheMgr.new lastTime).lists.seq = fun _ => [] := rep_empty.seq_eq
  exact {
    lastClassId := h1
    classIdMax := h200
    freeMax := hf
    used := rfl
    fits := Nat.two_pow_pos 64
    limit := Nat.zero_le _
    underflow := rfl
    referenced := fun p hp => by cases hp
    free := fun j p hp => by
      rw [CacheMgr.freeList, hseq] at hp
      cases hp
    length := fun j => by
      rw [CacheMgr.freeList, hseq]
      exact Nat.zero_le _ }

theorem accounted_of_account (h : Account s) (hcore : Core env held L s) : Accounted s where
  used := h.used
  limit := h.limit
  noUnderflow := h.underflow
  chunk p hp := by
    rcases Nat.eq_zero_or_pos (s.item p).refCount with h0 | hpos
    · obtain ⟨i, hi⟩ := hcore.kept h0 hp
      exact .inr ⟨i, (mem_iff hcore.rep _ p).mpr hi⟩
    · exact .inl ⟨hpos, h.referenced p hpos⟩
  parked i p hp := by
    have hm := (mem_iff hcore.rep _ p).mp hp
    have hfree : p ∈ s.freeList i := by
      rw [freeList_eq hcore]
      exact hm
    refine ⟨hcore.free hm, ?_, h.free i p hfree⟩
    by_contra hne
    exact (hcore.used (Nat.pos_of_ne_zero hne)).2.1 i hm
  size i := by
    have hlen := h.length i
    rw [freeList_eq hcore] at hlen
    have hsize : s.lists.size (.freeCache i) = (L (.freeCache i)).length % 2 ^ 32 :=
      hcore.rep.size _
    rw [hsize]
    exact (Nat.mod_le _ _).trans hlen

end MemoryLemmas

/-- Every state that a run reaches is accounted for. -/
theorem accounted_of_run {lastTime limit itemSizeMax itemSizeMin : Nat} {factor : Rat} {y : Sys}
    {t : List (Sys × (Op × Outcome))} (hw : env.refWidth = .unbounded)
    (h : Run (Sys.Step env) (Sys.start env lastTime limit itemSizeMax itemSizeMin factor) t y)
    (hfits : ∀ z ∈ t, z.1.FitsAddresses z.2.1) : Accounted y.mgr := by
  have hrun := h.restrict (P := fun x l => x.FitsAddresses l.1) hfits
  obtain ⟨⟨lost, hy⟩, ha⟩ := hrun.invariant
    (I := fun x => (∃ lost, SysInv env lost x) ∧ Account x.mgr)
    (fun x l z hx hs => by
      have hstep : x.RoomStep env l z := ⟨.inl hw, hs.2⟩
      exact ⟨(SysInv.act hx.1 hstep).1, account_step hx.1 hs.1 hstep hx.2⟩)
    ⟨⟨_, sysInv_start⟩, account_start⟩
  obtain ⟨L, hL⟩ := hy.inv
  exact accounted_of_account ha hL

/-- The chunk of a removed item is parked, and is handed out again. -/
theorem accounted_after_reuse :
    Accounted ((Sys.small .unbounded).execAll (.colliding .unbounded)
      [.alloc .zeros 1 1 0 0 2 0, .fill 0 ⟨[107], [55, 56], [], 0⟩, .update .set .zeros 0 0,
        .releaseReference 0, .remove 1 [107] 0, .alloc .zeros 1 1 0 0 2 0,
        .alloc .zeros 1 1 0 0 2 0]).mgr :=
  accounted_of_run rfl (Sys.run_execAll (by decide +kernel)) (by decide +kernel)

end Xixi
