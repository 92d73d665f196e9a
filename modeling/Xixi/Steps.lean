import Xixi.Invariant

/-!
# The steps of the cache manager

Every operation is made of a few steps on the heap of items. Each of them keeps
the invariant, with one reference more or less, and is a step of the abstract
store.

1. `Core.release`: `do_release_reference`, which frees the item in the end.
2. `Core.doAlloc_some`, `Core.doAlloc_none`: `do_alloc`.
3. `notifyWatch_spec`: `notify_watch`.
4. `Core.unlink`, `Core.link`: `do_unlink` and `do_link`.
5. `Core.move`: the change from one expire list to another.
6. `CacheMgr.slot_modify`, `CacheMgr.slot_unlink`, ...: the items a step leaves alone.
-/

namespace Xixi

open Xixi.Lists

variable {env : Env} {held : Ptr → Nat} {L L' : ListId → List Ptr} {s s' : CacheMgr} {p q : Ptr}

/-! ## Releasing -/

namespace StepLemmas

theorem decRef_eq {n : Nat} (hst : env.refWidth.store n = n) (hn : 0 < n) :
    CacheMgr.decRef env n = n - 1 := by
  cases hw : env.refWidth with
  | unbounded => simp [CacheMgr.decRef, hw]
  | uint16 =>
    simp only [hw, RefWidth.store] at hst
    simp only [CacheMgr.decRef, hw]
    omega

theorem stored_sub {n : Nat} (hst : env.refWidth.store n = n) :
    env.refWidth.store (n - 1) = n - 1 := by
  cases hw : env.refWidth with
  | unbounded => rfl
  | uint16 =>
    simp only [hw, RefWidth.store] at hst ⊢
    omega

/-- The chunk at `p`, which is not linked, now holds `it`: it has been taken out of
a free list, put into one, obtained or given back. -/
structure ChunkStep (env : Env) (L : ListId → List Ptr) (s : CacheMgr) (p : Ptr) (it : CacheItem)
    (L' : ListId → List Ptr) (s' : CacheMgr) : Prop where
  rep : s'.lists.Rep L'
  expire : ∀ i, L' (.expire i) = L (.expire i)
  flushCache : L' .flushCache = L .flushCache
  item : s'.item = Function.update s.item p it
  hashMap : s'.cacheHashMap = s.cacheHashMap
  stored : env.refWidth.store it.refCount = it.refCount
  used : 0 < it.refCount →
    s'.allocated p = true ∧ (∀ i, p ∉ L' (.freeCache i)) ∧ it.expirationId < 34
  idle : it.refCount = 0 → it.watchItem = none ∧ it.cacheId = 0
  free : ∀ i, p ∈ L' (.freeCache i) → s'.allocated p = true
  kept : it.refCount = 0 → s'.allocated p = true → ∃ i, p ∈ L' (.freeCache i)
  bound : s'.allocated p = true → p < s'.nextPtr
  freeCache : ∀ i q, q ≠ p → (q ∈ L' (.freeCache i) ↔ q ∈ L (.freeCache i))
  allocated : ∀ q, q ≠ p → s'.allocated q = s.allocated q
  nextPtr : s.nextPtr ≤ s'.nextPtr
  ok : s'.ok = true

theorem core_chunkStep {it : CacheItem} (h : Core env held L s) (hn : ¬ Linked L p)
    (hc : ChunkStep env L s p it L' s') : Core env (Function.update held p it.refCount) L' s' := by
  have hL := linked_congr hc.expire
  have hself : s'.item p = it := by rw [hc.item, Function.update_self]
  have hne : ∀ q, q ≠ p → s'.item q = s.item q := by
    intro q hq
    rw [hc.item, Function.update_of_ne hq]
  have hlink : ∀ q, Linked L' q → Linked L q ∧ s'.item q = s.item q := by
    intro q hq
    have hq' := (hL q).mp hq
    exact ⟨hq', hne q fun he => hn (he ▸ hq')⟩
  refine ⟨hc.rep, ?_, hc.flushCache.trans h.noFlushed, ?_, ?_, hc.hashMap ▸ h.bucket, ?_, ?_, ?_, ?_,
    ?_, ?_, ?_, ?_, ?_, hc.ok⟩
  · intro i q hq
    exact h.inRange (hc.expire i ▸ hq)
  · intro i q hq
    rw [(hlink q ⟨i, hq⟩).2]
    exact h.expirationId (hc.expire i ▸ hq)
  · obtain ⟨S, hS, hrep⟩ := h.table
    exact ⟨S, fun q => (hS q).trans (hL q).symm, hc.hashMap ▸ hrep⟩
  · intro q hq
    rw [hc.hashMap, (hlink q hq).2]
    exact h.hash (hlink q hq).1
  · intro a b ha hb hid
    rw [(hlink a ha).2, (hlink b hb).2] at hid
    exact h.inj (hlink a ha).1 (hlink b hb).1 hid
  · intro q
    by_cases hq : q = p
    · subst hq
      rw [hself, linkCount_of_not (fun hl => hn ((hL q).mp hl)), Function.update_self, Nat.zero_add]
    · rw [hne q hq, h.refCount q, Function.update_of_ne hq, linkCount_congr (hL q)]
  · intro q
    by_cases hq : q = p
    · subst hq
      rw [hself]
      exact hc.stored
    · rw [hne q hq]
      exact h.stored q
  · intro q hq
    by_cases hqp : q = p
    · subst hqp
      rw [hself] at hq ⊢
      exact hc.used hq
    · rw [hne q hqp] at hq ⊢
      obtain ⟨h1, h2, h3⟩ := h.used hq
      exact ⟨(hc.allocated q hqp).trans h1, fun i hm => h2 i ((hc.freeCache i q hqp).mp hm), h3⟩
  · intro q hq
    by_cases hqp : q = p
    · subst hqp
      rw [hself] at hq ⊢
      exact hc.idle hq
    · rw [hne q hqp] at hq ⊢
      exact h.idle hq
  · intro i q hq
    by_cases hqp : q = p
    · exact hqp ▸ hc.free i (hqp ▸ hq)
    · rw [hc.allocated q hqp]
      exact h.free ((hc.freeCache i q hqp).mp hq)
  · intro q hz hq
    by_cases hqp : q = p
    · subst hqp
      rw [hself] at hz
      exact hc.kept hz hq
    · rw [hne q hqp] at hz
      rw [hc.allocated q hqp] at hq
      obtain ⟨i, hi⟩ := h.kept hz hq
      exact ⟨i, (hc.freeCache i q hqp).mpr hi⟩
  · intro q hq
    by_cases hqp : q = p
    · exact hqp ▸ hc.bound (hqp ▸ hq)
    · exact Nat.lt_of_lt_of_le (h.bound (hc.allocated q hqp ▸ hq)) hc.nextPtr

/-- Giving back an item that is not linked. -/
theorem chunkStep_freeItem (h : Core env held L s) (hu : 0 < (s.item p).refCount)
    (hn : ¬ Linked L p) :
    ∃ L', ChunkStep env L s p (s.item p).reset L'
      ((s.modify p fun it => { it with refCount := 0 }).freeItem p) := by
  have hno := h.not_mem hu hn
  have hlk : ∀ i, s.lists.isLinked i p = false := fun i => isLinked_of_not_mem h.rep i hno
  have hok : s.ok = true := h.ok
  have hstored : env.refWidth.store (s.item p).reset.refCount = (s.item p).reset.refCount := by
    cases env.refWidth <;> rfl
  have halloc := (h.used hu).1
  unfold CacheMgr.freeItem
  simp only [CacheMgr.assert, CacheMgr.modify, hlk, Function.update_self, Function.update_idem]
  split
  · refine ⟨Function.update L (.freeCache (s.item p).classId)
      (p :: L (.freeCache (s.item p).classId)), ?_⟩
    refine ⟨rep_pushFront h.rep _ hno, fun i => Function.update_of_ne (by simp) ..,
      Function.update_of_ne (by simp) .., rfl, rfl, hstored, fun hp => absurd hp (Nat.lt_irrefl 0),
      fun _ => ⟨rfl, rfl⟩, fun _ _ => halloc,
      fun _ _ => ⟨(s.item p).classId, by rw [Function.update_self]; exact List.mem_cons_self ..⟩,
      fun _ => h.bound halloc, fun i q hqp => ?_, fun _ _ => rfl, Nat.le_refl _, by simp [hok]⟩
    by_cases hi : i = (s.item p).classId
    · subst hi
      rw [Function.update_self, List.mem_cons, or_iff_right hqp]
    · rw [Function.update_of_ne (by simpa using hi)]
  · exact ⟨L, h.rep, fun _ => rfl, rfl, rfl, rfl, hstored, fun hp => absurd hp (Nat.lt_irrefl 0),
      fun _ => ⟨rfl, rfl⟩, fun i hm => absurd hm (hno _), fun _ hf => by simp at hf,
      fun _ => h.bound halloc, fun _ _ _ => Iff.rfl, fun q hq => Function.update_of_ne hq ..,
      Nat.le_refl _, by simp [hok]⟩

end StepLemmas

open StepLemmas

namespace CacheMgr

theorem rest_release (env : Env) (s : CacheMgr) (p : Ptr) :
    (s.doReleaseReference env p).rest = s.rest := by
  unfold doReleaseReference freeItem
  dsimp only [CacheMgr.assert, modify]
  split
  · split <;> rfl
  · rfl

theorem item_release_of_ne (env : Env) (s : CacheMgr) (h : q ≠ p) :
    (s.doReleaseReference env p).item q = s.item q := by
  unfold doReleaseReference freeItem
  dsimp only [CacheMgr.assert, modify]
  split
  · split <;> simp [Function.update_of_ne h]
  · simp [Function.update_of_ne h]

end CacheMgr

namespace Core

theorem release_eq (h : Core env held L s) (hu : 0 < (s.item p).refCount) :
    s.doReleaseReference env p =
      if (s.item p).refCount = 1 then
        (s.modify p fun it => { it with refCount := 0 }).freeItem p
      else s.modify p fun it => { it with refCount := it.refCount - 1 } := by
  have hdec : CacheMgr.decRef env (s.item p).refCount = (s.item p).refCount - 1 :=
    decRef_eq (h.stored p) hu
  have hassert : s.assert (decide (0 < (s.item p).refCount)) = s := by simp [hu]
  unfold CacheMgr.doReleaseReference
  simp only [hassert, hdec, CacheMgr.modify]
  by_cases h1 : (s.item p).refCount = 1
  · simp [h1]
  · have hne : (s.item p).refCount - 1 ≠ 0 := by omega
    simp [h1, hne]

/-- Releasing a reference: the item is given back when it was the last one. -/
theorem release (h : Core env (bump held p) L s) :
    ∃ L', Core env held L' (s.doReleaseReference env p) ∧
      (∀ i, L' (.expire i) = L (.expire i)) ∧
      abs env (s.doReleaseReference env p) = abs env s := by
  have hrc := h.refCount p
  rw [bump_self] at hrc
  have hpos : 0 < (s.item p).refCount := by omega
  have key : ∃ L', Core env held L' (s.doReleaseReference env p) ∧
      (∀ i, L' (.expire i) = L (.expire i)) ∧
      (Linked L p → ((s.doReleaseReference env p).item p).ident = (s.item p).ident ∧
        ((s.doReleaseReference env p).item p).entry p = (s.item p).entry p) := by
    rw [h.release_eq hpos]
    split
    · have hn : ¬ Linked L p := by
        intro hl
        rw [linkCount_of_linked hl] at hrc
        omega
      obtain ⟨L', hc⟩ := chunkStep_freeItem h hpos hn
      have hcore := core_chunkStep h hn hc
      have hzero : held p = (s.item p).reset.refCount := by
        show held p = 0
        omega
      rw [← hzero, bump, Function.update_idem, Function.update_eq_self] at hcore
      exact ⟨L', hcore, hc.expire, fun hl => absurd hl hn⟩
    · refine ⟨L, ?_, fun _ => rfl, fun _ => ?_⟩
      · have hm := h.modifyTo (f := fun it => { it with refCount := it.refCount - 1 }) (n := held p)
          (show (s.item p).refCount - 1 = _ by omega) (stored_sub (h.stored p)) hpos rfl
          (fun _ => rfl) (show 0 < (s.item p).refCount - 1 by omega)
        rwa [bump, Function.update_idem, Function.update_eq_self] at hm
      · rw [CacheMgr.item_modify_self]
        exact ⟨rfl, rfl⟩
  obtain ⟨L', hc, hL, hp⟩ := key
  refine ⟨L', hc, hL, ?_⟩
  have hent := abs_entry_congr h hc (linked_congr hL) fun q hq => by
    by_cases hqp : q = p
    · exact hqp ▸ hp (hqp ▸ hq)
    · rw [CacheMgr.item_release_of_ne env s hqp]
      exact ⟨rfl, rfl⟩
  exact abs_eq hent (CacheMgr.rest_release env s p)

end Core

/-! ## Allocating -/

namespace StepLemmas

theorem getExpirationIdLoop_le (x n i : Nat) : CacheMgr.getExpirationIdLoop x n i ≤ i + n := by
  induction n generalizing i with
  | zero => exact Nat.le_refl i
  | succ n ih =>
    unfold CacheMgr.getExpirationIdLoop
    split
    · omega
    · exact (ih (i + 1)).trans (by omega)

theorem getExpirationId_lt (now t : Nat) : CacheMgr.getExpirationId now t < 34 := by
  unfold CacheMgr.getExpirationId
  split
  · omega
  · split
    · have := getExpirationIdLoop_le (t - now) 32 1
      omega
    · omega

theorem store_one : env.refWidth.store 1 = 1 := by
  cases env.refWidth <;> rfl

theorem getClassId_snd (s : CacheMgr) (size : Nat) :
    ∃ c, (s.getClassId size).2 = { s with lastClassId := c } := by
  unfold CacheMgr.getClassId
  dsimp only
  split
  · split
    · exact ⟨s.lastClassId, rfl⟩
    · exact ⟨_, rfl⟩
  · split
    · exact ⟨_, rfl⟩
    · exact ⟨s.lastClassId, rfl⟩

end StepLemmas

/-- What `do_alloc` leaves in the item it returns. -/
structure FreshItem (it : CacheItem) (groupId keyLength flags expireTime dataSize extSize : Nat) :
    Prop where
  watchItem : it.watchItem = none
  cacheId : it.cacheId = 0
  refCount : it.refCount = 1
  groupId : it.groupId = groupId
  keyLength : it.keyLength = keyLength % 2 ^ 16
  flags : it.flags = flags
  expireTime : it.expireTime = expireTime
  dataSize : it.dataSize = dataSize
  extSize : it.extSize = extSize % 2 ^ 8

/-- `do_alloc` returns an item that was not in use, with one reference to it. -/
structure AllocSpec (env : Env) (held : Ptr → Nat) (L : ListId → List Ptr) (s : CacheMgr) (p : Ptr)
    (groupId keyLength flags expireTime dataSize extSize : Nat) (s' : CacheMgr) : Prop where
  idle : (s.item p).refCount = 0
  core : ∃ L', Core env (bump held p) L' s' ∧ ∀ i, L' (.expire i) = L (.expire i)
  abs : abs env s' = abs env s
  item_of_ne : ∀ q, q ≠ p → s'.item q = s.item q
  fresh : FreshItem (s'.item p) groupId keyLength flags expireTime dataSize extSize
  hashMap : s'.cacheHashMap = s.cacheHashMap

namespace StepLemmas

theorem allocSpec_of_chunkStep {g kl fl et ds es : Nat} (it : CacheItem) (h : Core env held L s)
    (hz : (s.item p).refCount = 0) (hc : ChunkStep env L s p it L' s') (hr : s'.rest = s.rest)
    (hf : FreshItem it g kl fl et ds es) : AllocSpec env held L s p g kl fl et ds es s' := by
  have hn : ¬ Linked L p := by
    intro hl
    have := h.pos_of_linked hl
    omega
  have hheld : it.refCount = held p + 1 := by
    have := h.refCount p
    have := hf.refCount
    omega
  have hne : ∀ q, q ≠ p → s'.item q = s.item q := by
    intro q hq
    rw [hc.item, Function.update_of_ne hq]
  have hcore := core_chunkStep h hn hc
  rw [hheld] at hcore
  refine ⟨hz, ⟨L', hcore, hc.expire⟩, ?_, hne, ?_, hc.hashMap⟩
  · refine abs_eq (abs_entry_congr h hcore (linked_congr hc.expire) fun q hq => ?_) hr
    rw [hne q fun he => hn (he ▸ hq)]
    exact ⟨rfl, rfl⟩
  · rw [hc.item, Function.update_self]
    exact hf

end StepLemmas

theorem Core.doAlloc_none {o : Malloc} {g kl fl et ds es : Nat}
    (ha : s.doAlloc env o g kl fl et ds es = (none, s')) : ∃ c, s' = { s with lastClassId := c } := by
  obtain ⟨c, hc⟩ := getClassId_snd s (CacheMgr.calcItemSize env kl ds es)
  unfold CacheMgr.doAlloc at ha
  dsimp only at ha
  rw [hc] at ha
  split at ha
  · exact ⟨c, (Prod.mk.inj ha).2.symm⟩
  · split at ha
    · exact nomatch (Prod.mk.inj ha).1
    · split at ha
      · split at ha
        · exact nomatch (Prod.mk.inj ha).1
        · exact ⟨c, (Prod.mk.inj ha).2.symm⟩
      · exact ⟨c, (Prod.mk.inj ha).2.symm⟩

theorem Core.doAlloc_some {o : Malloc} {g kl fl et ds es : Nat} (h : Core env held L s)
    (ha : s.doAlloc env o g kl fl et ds es = (some p, s')) :
    AllocSpec env held L s p g kl fl et ds es s' := by
  obtain ⟨c, hc⟩ := getClassId_snd s (CacheMgr.calcItemSize env kl ds es)
  have hmod : ∀ n, CacheMgr.getExpirationId n et % 2 ^ 8 < 34 := by
    intro n
    have := getExpirationId_lt n et
    omega
  unfold CacheMgr.doAlloc at ha
  dsimp only at ha
  rw [hc] at ha
  generalize (s.getClassId (CacheMgr.calcItemSize env kl ds es)).1 = id at ha
  split at ha
  · exact nomatch (Prod.mk.inj ha).1
  · split at ha
    · next q lists hpop =>
      -- a chunk of the free list
      obtain ⟨hp, hs'⟩ := Prod.mk.inj ha
      obtain rfl := Option.some.inj hp
      subst hs'
      dsimp only at hpop
      cases hfree : L (.freeCache id) with
      | nil =>
        rw [popFront_nil h.rep hfree] at hpop
        exact nomatch (Prod.mk.inj hpop).1
      | cons a as =>
        rw [popFront_cons h.rep hfree] at hpop
        obtain ⟨hq, hl⟩ := Prod.mk.inj hpop
        obtain rfl := Option.some.inj hq
        subst hl
        have hmem : a ∈ L (.freeCache id) := by
          simp [hfree]
        have hz : (s.item a).refCount = 0 := by
          by_contra hne
          exact (h.used (Nat.pos_of_ne_zero hne)).2.1 _ hmem
        have hidle := h.idle hz
        have hother : ∀ i, a ∈ L (.freeCache i) → i = id := by
          intro i hi
          exact ListId.freeCache.inj (h.rep.disj _ _ a hi hmem)
        have hmem' : ∀ i q, q ∈ Function.update L (.freeCache id) ((L (.freeCache id)).erase a)
            (.freeCache i) ↔ q ∈ L (.freeCache i) ∧ q ≠ a := by
          intro i q
          by_cases hi : i = id
          · subst hi
            rw [Function.update_self, (h.rep.nodup _).mem_erase_iff, and_comm]
          · rw [Function.update_of_ne (by simpa using hi)]
            exact ⟨fun hq => ⟨hq, fun he => hi (hother i (he ▸ hq))⟩, fun hq => hq.1⟩
        have halloc := h.free hmem
        exact allocSpec_of_chunkStep _ h hz ⟨rep_remove h.rep hmem,
          fun i => Function.update_of_ne (by simp) .., Function.update_of_ne (by simp) .., rfl, rfl,
          store_one, fun _ => ⟨halloc, fun i hm => ((hmem' i a).mp hm).2 rfl, hmod _⟩,
          fun h0 => absurd h0 Nat.one_ne_zero, fun i hm => halloc,
          fun h0 => absurd h0 Nat.one_ne_zero, fun _ => h.bound halloc,
          fun i q hq => (hmem' i q).trans (and_iff_left hq), fun _ _ => rfl, Nat.le_refl _, h.ok⟩ rfl
          ⟨hidle.1, hidle.2, rfl, rfl, rfl, rfl, rfl, rfl, rfl⟩
    · split at ha
      · split at ha
        · -- a new chunk
          obtain ⟨hp, hs'⟩ := Prod.mk.inj ha
          obtain rfl := Option.some.inj hp
          subst hs'
          have hnot : s.allocated s.nextPtr ≠ true := fun he => Nat.lt_irrefl _ (h.bound he)
          have hz : (s.item s.nextPtr).refCount = 0 := by
            by_contra hne
            exact hnot (h.used (Nat.pos_of_ne_zero hne)).1
          have hupd : ∀ q, q ≠ s.nextPtr →
              Function.update s.allocated s.nextPtr true q = s.allocated q :=
            fun q hq => Function.update_of_ne hq ..
          refine allocSpec_of_chunkStep (CacheMgr.initFields s.currTime id g kl fl et ds es
              (.new o.memory)) h hz ⟨h.rep, fun _ => rfl, rfl, ?_, rfl, store_one,
            fun _ => ⟨Function.update_self .., fun i hm => hnot (h.free hm), hmod _⟩,
            fun h0 => absurd h0 Nat.one_ne_zero, fun _ _ => Function.update_self ..,
            fun h0 => absurd h0 Nat.one_ne_zero, fun _ => Nat.lt_succ_self _,
            fun _ _ _ => Iff.rfl, hupd, Nat.le_succ _, h.ok⟩ rfl
            ⟨rfl, rfl, rfl, rfl, rfl, rfl, rfl, rfl, rfl⟩
          simp [CacheMgr.initItem, CacheMgr.modify]
        · exact nomatch (Prod.mk.inj ha).1
      · exact nomatch (Prod.mk.inj ha).1

/-! ## Notifying -/

namespace StepLemmas

/-- The part of a watch that the abstract store keeps. -/
def pend (watch : CacheWatch) : List Nat × List NotifyType :=
  (watch.updatedList, watch.updatedTypeList)

theorem pend_notifyWatch (watch : CacheWatch) (alive : Sink → Bool) (x : Nat) (t : NotifyType) :
    pend (watch.notifyWatch alive x t).1 = Store.push x t (pend watch) := by
  unfold CacheWatch.notifyWatch
  dsimp only
  split <;> rfl

/-- The loop of `notify_watch` gives each live watch of the list one notification. -/
theorem notifyIds_spec (s : CacheMgr) (x : Nat) (t : NotifyType) {ids : List Nat}
    (hnd : ids.Nodup) :
    ∃ wm sc, s.notifyIds x t ids = { s with watchMap := wm, sinkCalls := sc } ∧
      ∀ w, (wm w).map pend =
        if w ∈ ids then ((s.watchMap w).map pend).map (Store.push x t)
        else (s.watchMap w).map pend := by
  induction ids generalizing s with
  | nil => exact ⟨s.watchMap, s.sinkCalls, rfl, fun w => by simp⟩
  | cons a as ih =>
    obtain ⟨ha, has⟩ := List.nodup_cons.mp hnd
    unfold CacheMgr.notifyIds
    split
    · next watch hw =>
      obtain ⟨wm, sc, he, hwm⟩ := ih
        { s with
          watchMap := Function.update s.watchMap a
            (some (watch.notifyWatch s.sinkAlive x t).1)
          sinkCalls := s.sinkCalls ++
            ((watch.notifyWatch s.sinkAlive x t).2.map fun p => (p, watch.watchId)).toList } has
      refine ⟨wm, sc, he, fun w => ?_⟩
      rw [hwm w]
      by_cases hwa : w = a
      · subst hwa
        simp [ha, hw, pend_notifyWatch]
      · simp [hwa]
    · next hw =>
      obtain ⟨wm, sc, he, hwm⟩ := ih s has
      refine ⟨wm, sc, he, fun w => ?_⟩
      rw [hwm w]
      by_cases hwa : w = a
      · subst hwa
        simp [ha, hw]
      · simp [hwa]

theorem live_eq (s : CacheMgr) : (abs env s).live = s.isValidWatchId := by
  funext w
  simp [Store.live, abs, CacheMgr.isValidWatchId]

end StepLemmas

/-- `notify_watch`, on an item with a watch set: the watches get the notification,
and the item keeps the live ones. -/
theorem notifyWatch_spec (env : Env) {ws : WatchSet} (hw : (s.item p).watchItem = some ws)
    (t : NotifyType) :
    ∃ s₁ : CacheMgr, s.notifyWatch p t =
        s₁.modify p (fun it => { it with watchItem := some (ws.keep (abs env s).live) }) ∧
      s₁ = { s with watchMap := s₁.watchMap, sinkCalls := s₁.sinkCalls } ∧
      abs env s₁ = (abs env s).notify ws.ids (s.item p).cacheId t := by
  obtain ⟨wm, sc, he, hwm⟩ := notifyIds_spec s (s.item p).cacheId t ws.nodup
  have hlive : CacheMgr.isValidWatchId { s with watchMap := wm, sinkCalls := sc } =
      (abs env s).live := by
    funext w
    have := congrArg Option.isSome (hwm w)
    rw [live_eq]
    simp only [CacheMgr.isValidWatchId]
    rw [← Option.isSome_map (f := pend), this]
    split <;> simp
  refine ⟨{ s with watchMap := wm, sinkCalls := sc }, ?_, rfl, ?_⟩
  · simp only [CacheMgr.notifyWatch, hw, he, hlive]
  · refine Store.ext rfl (funext fun w => ?_) rfl rfl
    exact hwm w

/-! ## Unlinking -/

theorem linked_erase (h : s.lists.Rep L) (q : Ptr) :
    Linked (fun j => (L j).erase p) q ↔ Linked L q ∧ q ≠ p := by
  constructor
  · rintro ⟨i, hi⟩
    have := (h.nodup _).mem_erase_iff.mp hi
    exact ⟨⟨i, this.2⟩, this.1⟩
  · rintro ⟨⟨i, hi⟩, hne⟩
    exact ⟨i, (h.nodup _).mem_erase_iff.mpr ⟨hne, hi⟩⟩

namespace StepLemmas

/-- Detaching turns the link into a reference that is still to be released. -/
theorem core_detach (h : Core env held L s) (hp : Linked L p) :
    Core env (bump held p) (fun j => (L j).erase p) (s.detach env p) := by
  obtain ⟨S, hS, hrep⟩ := h.table
  have hmem := h.mem_of_linked hp
  have hL : ∀ q, Linked (fun j => (L j).erase p) q ↔ Linked L q ∧ q ≠ p := linked_erase h.rep
  have hsub : ∀ {i q}, q ∈ (L i).erase p → q ∈ L i := List.mem_of_mem_erase
  obtain ⟨-, hrem, hhv, hbs⟩ := @HashMap.remove_eq _ _ _ _ _ _
    (fun q => (s.item q).isKey (s.item p).groupId (s.item p).key) _ hrep (h.card_le hS)
    ((hS p).mpr hp) rfl (CacheItem.isKey_iff.mpr ⟨rfl, rfl⟩) fun q hq hk => by
      obtain ⟨hg, hkey⟩ := CacheItem.isKey_iff.mp hk
      exact h.inj ((hS q).mp hq) hp (Prod.ext hg hkey)
  refine ⟨rep_remove_erase h.rep hmem, fun hq => h.inRange (hsub hq), ?_,
    fun hq => h.expirationId (hsub hq), ⟨S.erase p, fun q => ?_, hrem⟩, ?_, fun hq => ?_,
    fun ha hb hid => h.inj ((hL _).mp ha).1 ((hL _).mp hb).1 hid, fun q => ?_, h.stored,
    fun hu => ?_, h.idle, fun hq => h.free (hsub hq), fun {q} hz hq => ?_, h.bound, ?_⟩
  · simp [h.noFlushed]
  · rw [Finset.mem_erase, hS, hL, and_comm]
  · rw [CacheMgr.detach, hbs]
    exact h.bucket
  · rw [CacheMgr.detach, hhv]
    exact h.hash ((hL _).mp hq).1
  · by_cases hq : q = p
    · subst hq
      rw [bump_self, linkCount_of_not (fun hl => ((hL q).mp hl).2 rfl)]
      exact (h.refCount q).trans (by rw [linkCount_of_linked hp]; omega)
    · have hsame : Linked (fun j => (L j).erase p) q ↔ Linked L q := by simp [hL, hq]
      rw [bump_of_ne hq, linkCount_congr hsame]
      exact h.refCount q
  · obtain ⟨h1, h2, h3⟩ := h.used hu
    exact ⟨h1, fun i hm => h2 i (hsub hm), h3⟩
  · have hqp : q ≠ p := by
      intro he
      have := h.pos_of_linked hp
      have hz' : (s.item q).refCount = 0 := hz
      rw [he] at hz'
      omega
    obtain ⟨i, hi⟩ := h.kept hz hq
    exact ⟨i, (h.rep.nodup _).mem_erase_iff.mpr ⟨hqp, hi⟩⟩
  · simp only [CacheMgr.detach, isLinked_of_mem h.rep hmem, Bool.and_true]
    exact h.ok

theorem abs_detach (h : Core env held L s) (hp : Linked L p) :
    abs env (s.detach env p) = (abs env s).put (s.item p).ident none := by
  have hnd : ¬ Linked (fun j => (L j).erase p) p := fun hl => ((linked_erase h.rep p).mp hl).2 rfl
  refine Store.ext (abs_entry_update h (core_detach h hp) (fun q hq => ?_) (fun q _ => ⟨rfl, rfl⟩)
    (.inr hnd) (fun q hq hid => h.inj hq hp hid) fun e => ?_) rfl rfl rfl
  · rw [linked_erase h.rep]
    simp [hq]
  · exact ⟨nofun, fun he => absurd he.1 hnd⟩

/-- The watches of an item that is not linked any more are told and forgotten. -/
theorem core_dropWatch (h : Core env held L s) (hu : 0 < (s.item p).refCount) (hn : ¬ Linked L p)
    (t : NotifyType) :
    Core env held L (s.dropWatch p t) ∧
      abs env (s.dropWatch p t) =
        (abs env s).notify ((s.item p).entry p).watchIds (s.item p).cacheId t := by
  unfold CacheMgr.dropWatch
  cases hw : (s.item p).watchItem with
  | none =>
    refine ⟨h, ?_⟩
    simp [Entry.watchIds, CacheItem.entry, hw]
  | some ws =>
    obtain ⟨s₁, he, hs₁, ha⟩ := notifyWatch_spec env hw t
    have hi : s₁.item = s.item := by rw [hs₁]
    have h₁ : Core env held L s₁ := by
      rw [hs₁]
      exact h
    have hu₁ : 0 < (s₁.item p).refCount := by
      rw [hi]
      exact hu
    rw [Option.isSome_some, if_pos rfl, he]
    have h₂ := h₁.modify (f := fun it => { it with watchItem := some (ws.keep (abs env s).live) })
      hu₁ rfl rfl (fun _ => rfl)
    have h₃ := h₂.modify (p := p) (f := fun it => { it with watchItem := none })
      (by rw [CacheMgr.item_modify_self]; exact hu₁) rfl rfl (fun _ => rfl)
    refine ⟨h₃, ?_⟩
    rw [abs_modify_of_not_linked h₂ h₃ hn, abs_modify_of_not_linked h₁ h₂ hn, ha]
    simp [Entry.watchIds, CacheItem.entry, hw]

end StepLemmas

theorem CacheMgr.item_dropWatch_of_ne (s : CacheMgr) (t : NotifyType) (h : q ≠ p) :
    (s.dropWatch p t).item q = s.item q := by
  unfold dropWatch
  cases hw : (s.item p).watchItem with
  | none => rfl
  | some ws =>
    obtain ⟨s₁, he, hs₁, -⟩ := notifyWatch_spec ⟨fun _ _ => 0, 0, .unbounded⟩ hw t
    rw [Option.isSome_some, if_pos rfl, item_modify_of_ne _ _ h, he, item_modify_of_ne _ _ h, hs₁]

theorem CacheMgr.item_unlink_of_ne (env : Env) (s : CacheMgr) (t : NotifyType) (h : q ≠ p) :
    (s.doUnlink env p t).item q = s.item q := by
  rw [doUnlink, item_release_of_ne env _ h, item_dropWatch_of_ne _ t h]
  rfl

/-- `do_unlink` of a linked item. -/
theorem Core.unlink (h : Core env held L s) (hp : Linked L p) (t : NotifyType) :
    ∃ L', Core env held L' (s.doUnlink env p t) ∧
      (∀ i, L' (.expire i) = (L (.expire i)).erase p) ∧
      abs env (s.doUnlink env p t) = (abs env s).unlink (s.item p).ident t := by
  have hnd : ¬ Linked (fun j => (L j).erase p) p := fun hl => ((linked_erase h.rep p).mp hl).2 rfl
  obtain ⟨hc, ha⟩ := core_dropWatch (core_detach h hp) (h.pos_of_linked hp) hnd t
  obtain ⟨L', hc', hL', ha'⟩ := hc.release
  refine ⟨L', hc', hL', ?_⟩
  rw [CacheMgr.doUnlink, ha', ha, abs_detach h hp, Store.unlink, abs_entry_of_linked h hp]
  rfl

/-! ## Linking -/

namespace StepLemmas

theorem nextId_abs (env : Env) (s : CacheMgr) : s.getCacheId = ((abs env s).nextId,
    { s with lastCacheId := (abs env s).nextId }) := rfl

/-- The item that `do_link` leaves. -/
def linkedItem (env : Env) (s : CacheMgr) (p : Ptr) : CacheItem :=
  { s.item p with
    cacheId := (abs env s).nextId
    lastUpdateTime := s.currTime
    refCount := env.refWidth.store ((s.item p).refCount + 1) }

theorem doLink_eq (s : CacheMgr) (o : Malloc) (p : Ptr) :
    s.doLink env o p =
      { s with
        cacheHashMap := s.cacheHashMap.insert s.nextPtr o.table p (s.cacheHashMap.hashValue p)
        stats := s.stats ++ [.itemLink (s.item p).groupId (s.item p).classId (s.totalSize env p)]
        lastCacheId := (abs env s).nextId
        item := Function.update s.item p (linkedItem env s p)
        lists := s.lists.pushBack (.expire (s.item p).expirationId) p } := by
  simp only [CacheMgr.doLink, nextId_abs env, CacheMgr.stat, CacheMgr.addReference,
    CacheMgr.modify, Function.update_self, Function.update_idem]
  rfl

theorem linked_push (L : ListId → List Ptr) (i : Nat) (xs : List Ptr) (p q : Ptr)
    (hx : ∀ q, q ∈ xs ↔ q ∈ L (.expire i) ∨ q = p) :
    Linked (Function.update L (.expire i) xs) q ↔ Linked L q ∨ q = p := by
  constructor
  · rintro ⟨j, hj⟩
    by_cases hji : j = i
    · subst hji
      rw [Function.update_self, hx] at hj
      exact hj.imp (fun hm => ⟨j, hm⟩) fun he => he
    · rw [Function.update_of_ne (by simpa using hji)] at hj
      exact .inl ⟨j, hj⟩
  · intro hq
    rcases hq with ⟨j, hj⟩ | he
    · by_cases hji : j = i
      · subst hji
        exact ⟨j, by rw [Function.update_self, hx]; exact .inl hj⟩
      · exact ⟨j, by rwa [Function.update_of_ne (by simpa using hji)]⟩
    · exact ⟨i, by rw [Function.update_self, hx]; exact .inr he⟩

/-- The lists after `do_link`. -/
def linkedLists (L : ListId → List Ptr) (s : CacheMgr) (p : Ptr) : ListId → List Ptr :=
  Function.update L (.expire (s.item p).expirationId) (L (.expire (s.item p).expirationId) ++ [p])

theorem linked_linkedLists (q : Ptr) : Linked (linkedLists L s p) q ↔ Linked L q ∨ q = p :=
  linked_push L _ _ p q fun q => by simp

theorem linkedLists_freeCache (j : Nat) : linkedLists L s p (.freeCache j) = L (.freeCache j) :=
  Function.update_of_ne (show ListId.freeCache j ≠ .expire (s.item p).expirationId by simp) ..

theorem expirationId_linkedLists {j : Nat} (h : Core env held L s)
    (hq : q ∈ linkedLists L s p (.expire j)) : (s.item q).expirationId = j := by
  unfold linkedLists at hq
  by_cases hj : j = (s.item p).expirationId
  · subst hj
    rw [Function.update_self, List.mem_append, List.mem_singleton] at hq
    rcases hq with hq | rfl
    · exact h.expirationId hq
    · rfl
  · rw [Function.update_of_ne (by simpa using hj)] at hq
    exact h.expirationId hq

section DoLink

variable {o : Malloc}

theorem item_doLink_self : (s.doLink env o p).item p = linkedItem env s p := by
  rw [doLink_eq]
  exact Function.update_self ..

theorem item_doLink_of_ne (h : q ≠ p) : (s.doLink env o p).item q = s.item q := by
  rw [doLink_eq]
  exact Function.update_of_ne h ..

/-- No item changes its key or its expire list. -/
theorem ident_doLink (q : Ptr) : ((s.doLink env o p).item q).ident = (s.item q).ident ∧
    ((s.doLink env o p).item q).expirationId = (s.item q).expirationId := by
  by_cases hq : q = p
  · subst hq
    rw [item_doLink_self]
    exact ⟨rfl, rfl⟩
  · rw [item_doLink_of_ne hq]
    exact ⟨rfl, rfl⟩

theorem hashValue_doLink :
    (s.doLink env o p).cacheHashMap.hashValue = s.cacheHashMap.hashValue := by
  rw [doLink_eq]
  simp [HashMap.insert_hashValue]

/-- An item that is not in use is another one. -/
theorem ne_of_refCount_doLink
    (hroom : env.refWidth.store ((s.item p).refCount + 1) = (s.item p).refCount + 1)
    (hq : ((s.doLink env o p).item q).refCount = 0) : q ≠ p := by
  intro he
  rw [he, item_doLink_self] at hq
  have hzero : env.refWidth.store ((s.item p).refCount + 1) = 0 := hq
  omega

/-- There is room in the table for one more item. -/
theorem card_lt_nextPtr {S : Finset Ptr} (h : Core env held L s) (hpos : 0 < (s.item p).refCount)
    (hS : ∀ q, q ∈ S ↔ Linked L q) (hp : p ∉ S) : S.card < s.nextPtr := by
  have hsub : insert p S ⊆ Finset.range s.nextPtr := by
    intro q hq
    rw [Finset.mem_range]
    rcases Finset.mem_insert.mp hq with rfl | hq
    · exact h.lt_nextPtr hpos
    · exact h.lt_nextPtr (h.pos_of_linked ((hS q).mp hq))
  have hcard := Finset.card_le_card hsub
  rw [Finset.card_insert_of_notMem hp, Finset.card_range] at hcard
  omega

theorem table_doLink (h : Core env held L s) (hpos : 0 < (s.item p).refCount) (hn : ¬ Linked L p) :
    ∃ S : Finset Ptr, (∀ q, q ∈ S ↔ Linked (linkedLists L s p) q) ∧
      (s.doLink env o p).cacheHashMap.Rep S := by
  obtain ⟨S, hS, hrep⟩ := h.table
  have hpS : p ∉ S := fun hm => hn ((hS p).mp hm)
  refine ⟨insert p S, fun q => ?_, ?_⟩
  · rw [Finset.mem_insert, hS, linked_linkedLists, or_comm]
  · rw [doLink_eq]
    exact HashMap.rep_insert hrep hpS (card_lt_nextPtr h hpos hS hpS)
      (bucketSizes_pos (nextBucketSize_mem h.bucket))

theorem inj_doLink (h : Core env held L s)
    (hfree : ∀ q, Linked L q → (s.item q).ident ≠ (s.item p).ident) {a b : Ptr}
    (ha : Linked (linkedLists L s p) a) (hb : Linked (linkedLists L s p) b)
    (hab : ((s.doLink env o p).item a).ident = ((s.doLink env o p).item b).ident) : a = b := by
  rw [(ident_doLink a).1, (ident_doLink b).1] at hab
  rcases (linked_linkedLists a).mp ha with la | ea
  · rcases (linked_linkedLists b).mp hb with lb | eb
    · exact h.inj la lb hab
    · exact absurd (eb ▸ hab) (hfree a la)
  · rcases (linked_linkedLists b).mp hb with lb | eb
    · exact absurd (ea ▸ hab).symm (hfree b lb)
    · rw [ea, eb]

theorem refCount_doLink (h : Core env held L s) (hn : ¬ Linked L p)
    (hroom : env.refWidth.store ((s.item p).refCount + 1) = (s.item p).refCount + 1) (q : Ptr) :
    ((s.doLink env o p).item q).refCount = linkCount (linkedLists L s p) q + held q := by
  by_cases hq : q = p
  · subst hq
    rw [item_doLink_self, linkCount_of_linked ((linked_linkedLists q).mpr (.inr rfl))]
    show env.refWidth.store _ = _
    rw [hroom, h.refCount q, linkCount_of_not hn]
    omega
  · have hsame : Linked (linkedLists L s p) q ↔ Linked L q := by
      rw [linked_linkedLists, or_iff_left hq]
    rw [item_doLink_of_ne hq, h.refCount q, linkCount_congr hsame]

theorem stored_doLink (h : Core env held L s)
    (hroom : env.refWidth.store ((s.item p).refCount + 1) = (s.item p).refCount + 1) (q : Ptr) :
    env.refWidth.store ((s.doLink env o p).item q).refCount =
      ((s.doLink env o p).item q).refCount := by
  by_cases hq : q = p
  · subst hq
    rw [item_doLink_self]
    show env.refWidth.store (env.refWidth.store _) = env.refWidth.store _
    rw [hroom, hroom]
  · rw [item_doLink_of_ne hq]
    exact h.stored q

theorem core_doLink (h : Core env held L s) (hpos : 0 < (s.item p).refCount) (hn : ¬ Linked L p)
    (hh : s.cacheHashMap.hashValue p = env.hash32 (s.item p).key (s.item p).groupId)
    (hfree : ∀ q, Linked L q → (s.item q).ident ≠ (s.item p).ident)
    (hroom : env.refWidth.store ((s.item p).refCount + 1) = (s.item p).refCount + 1) :
    Core env held (linkedLists L s p) (s.doLink env o p) where
  rep := by
    rw [doLink_eq]
    exact rep_pushBack h.rep _ (h.not_mem hpos hn)
  inRange := fun {j q} hq => by
    rw [← expirationId_linkedLists h hq]
    rcases (linked_linkedLists q).mp ⟨j, hq⟩ with hl | rfl
    · exact (h.used (h.pos_of_linked hl)).2.2
    · exact (h.used hpos).2.2
  noFlushed := (Function.update_of_ne (by simp) ..).trans h.noFlushed
  expirationId := fun {j q} hq => (ident_doLink q).2.trans (expirationId_linkedLists h hq)
  table := table_doLink h hpos hn
  bucket := by
    rw [doLink_eq]
    rcases HashMap.insert_bucketSize s.cacheHashMap s.nextPtr o.table p
      (s.cacheHashMap.hashValue p) with hb | hb
    · exact hb ▸ h.bucket
    · exact hb ▸ nextBucketSize_mem h.bucket
  hash := fun {q} hq => by
    have hident : ((s.doLink env o p).item q).ident = (s.item q).ident := (ident_doLink q).1
    obtain ⟨hg, hk⟩ := Prod.mk.inj hident
    rw [hashValue_doLink, hg, hk]
    rcases (linked_linkedLists q).mp hq with hl | rfl
    · exact h.hash hl
    · exact hh
  inj := inj_doLink h hfree
  refCount := refCount_doLink h hn hroom
  stored := stored_doLink h hroom
  used := fun {q} hq => by
    have hq' : 0 < (s.item q).refCount := by
      by_cases hqp : q = p
      · exact hqp ▸ hpos
      · rwa [item_doLink_of_ne hqp] at hq
    obtain ⟨h1, h2, h3⟩ := h.used hq'
    refine ⟨?_, fun j => ?_, by rw [(ident_doLink q).2]; exact h3⟩
    · rw [doLink_eq]
      exact h1
    · rw [linkedLists_freeCache]
      exact h2 j
  idle := fun {q} hq => by
    have hqp := ne_of_refCount_doLink hroom hq
    rw [item_doLink_of_ne hqp] at hq ⊢
    exact h.idle hq
  free := fun {j q} hq => by
    rw [doLink_eq]
    rw [linkedLists_freeCache] at hq
    exact h.free hq
  kept := fun {q} hz hq => by
    rw [item_doLink_of_ne (ne_of_refCount_doLink hroom hz)] at hz
    rw [doLink_eq] at hq
    obtain ⟨j, hj⟩ := h.kept hz hq
    exact ⟨j, by rwa [linkedLists_freeCache]⟩
  bound := by
    rw [doLink_eq]
    exact h.bound
  ok := by
    rw [doLink_eq]
    exact h.ok

end DoLink

end StepLemmas

/-- `do_link` of an item that is held and not linked, under a key that is free. -/
theorem Core.link {o : Malloc} (h : Core env held L s) (hu : 0 < held p) (hn : ¬ Linked L p)
    (hh : s.cacheHashMap.hashValue p = env.hash32 (s.item p).key (s.item p).groupId)
    (hfree : ∀ q, Linked L q → (s.item q).ident ≠ (s.item p).ident)
    (hroom : env.refWidth.store ((s.item p).refCount + 1) = (s.item p).refCount + 1) :
    ∃ L', Core env held L' (s.doLink env o p) ∧ (∀ q, Linked L' q ↔ Linked L q ∨ q = p) ∧
      abs env (s.doLink env o p) = (abs env s).link (s.item p).ident ((s.item p).entry p) := by
  have hcore : Core env held (linkedLists L s p) (s.doLink env o p) :=
    core_doLink h (h.pos_of_held hu) hn hh hfree hroom
  refine ⟨linkedLists L s p, hcore, linked_linkedLists, Store.ext (abs_entry_update h hcore
    (fun q hq => ?_) (fun q hq => ?_) (.inl (ident_doLink p).1)
    (fun q hq hk => absurd hk (hfree q hq)) fun e => ?_) ?_ ?_ ?_⟩
  · rw [linked_linkedLists, or_iff_left hq]
  · rw [item_doLink_of_ne hq]
    exact ⟨rfl, rfl⟩
  · rw [item_doLink_self]
    exact ⟨fun he => ⟨(linked_linkedLists p).mpr (.inr rfl), (Option.some.inj he).symm⟩,
      fun he => he.2 ▸ rfl⟩
  · rw [doLink_eq]
    rfl
  · rw [doLink_eq]
    rfl
  · rw [doLink_eq]
    rfl

/-! ## Moving between expire lists -/

theorem CacheMgr.item_moveExpire_self (s : CacheMgr) (p : Ptr) (i j : Nat) :
    (s.moveExpire p i j).item p = { s.item p with expirationId := j % 2 ^ 8 } :=
  Function.update_self ..

theorem linked_move {i : Nat} (h : s.lists.Rep L) (hp : Linked L p) (q : Ptr) :
    Linked (Function.update (fun k => (L k).erase p) (.expire i) (p :: (L (.expire i)).erase p)) q ↔
      Linked L q := by
  rw [linked_push (fun k => (L k).erase p) i _ p q fun q => by simp [or_comm], linked_erase h]
  by_cases hq : q = p
  · simp [hq, hp]
  · simp [hq]

/-- An item changes from the list `i` to the front of the list `j`. -/
theorem Core.move {i j : Nat} (h : Core env held L s) (hp : p ∈ L (.expire i)) (hj : j < 34) :
    Core env held
        (Function.update (fun k => (L k).erase p) (.expire j) (p :: (L (.expire j)).erase p))
        (s.moveExpire p i j) ∧
      abs env (s.moveExpire p i j) = abs env s := by
  have hmod : j % 2 ^ 8 = j := by omega
  have hmove : s.moveExpire p i j = { s.modify p (fun it => { it with expirationId := j }) with
      lists := (s.lists.remove (.expire i) p).pushFront (.expire j) p } := by
    rw [CacheMgr.moveExpire, hmod]
  rw [hmove]
  have hlp : Linked L p := ⟨i, hp⟩
  have hpos := h.pos_of_linked hlp
  have hrem := rep_remove_erase h.rep hp
  have hnot : ∀ k, p ∉ (L k).erase p := fun k hm => ((h.rep.nodup k).mem_erase_iff.mp hm).1 rfl
  have hsub : ∀ {k q}, q ∈ (L k).erase p → q ∈ L k := List.mem_of_mem_erase
  let L' : ListId → List Ptr :=
    Function.update (fun k => (L k).erase p) (.expire j) (p :: (L (.expire j)).erase p)
  have hL' : ∀ q, Linked L' q ↔ Linked L q := linked_move h.rep hlp
  have hmem : ∀ {k q}, q ∈ L' (.expire k) → (q = p ∧ k = j) ∨ (q ≠ p ∧ q ∈ L (.expire k)) := by
    intro k q hq
    by_cases hk : k = j
    · subst hk
      simp only [L', Function.update_self, List.mem_cons] at hq
      rcases hq with hq | hq
      · exact .inl ⟨hq, rfl⟩
      · exact .inr ((h.rep.nodup _).mem_erase_iff.mp hq)
    · simp only [L', Function.update_of_ne (show ListId.expire k ≠ .expire j by simpa using hk)] at hq
      exact .inr ((h.rep.nodup _).mem_erase_iff.mp hq)
  have hfree : ∀ k, L' (.freeCache k) = (L (.freeCache k)).erase p := fun k =>
    Function.update_of_ne (by simp) ..
  have hitem : ∀ P : Ptr → CacheItem → Prop, P p { s.item p with expirationId := j } →
      (∀ q, q ≠ p → P q (s.item q)) →
      ∀ q, P q ((s.modify p fun it => { it with expirationId := j }).item q) := by
    intro P h1 h2 q
    by_cases hq : q = p
    · subst hq
      rw [CacheMgr.item_modify_self]
      exact h1
    · rw [CacheMgr.item_modify_of_ne s _ hq]
      exact h2 q hq
  have hid : ∀ q, ((s.modify p fun it => { it with expirationId := j }).item q).ident =
      (s.item q).ident := hitem (fun q it => it.ident = (s.item q).ident) rfl fun _ _ => rfl
  have hrc : ∀ q, ((s.modify p fun it => { it with expirationId := j }).item q).refCount =
      (s.item q).refCount := hitem (fun q it => it.refCount = (s.item q).refCount) rfl fun _ _ => rfl
  have hcore : Core env held L'
      { s.modify p (fun it => { it with expirationId := j }) with
        lists := (s.lists.remove (.expire i) p).pushFront (.expire j) p } := by
    refine ⟨rep_pushFront hrem _ hnot, fun hq => ?_, ?_, fun hq => ?_, ?_, h.bucket, fun {q} hq => ?_,
      fun {a b} ha hb hab => ?_, fun q => ?_, fun q => ?_, fun {q} hq => ?_, fun {q} hq => ?_,
      fun hq => ?_, fun {q} hz hq => ?_, h.bound, h.ok⟩
    · rcases hmem hq with ⟨-, rfl⟩ | ⟨-, hq⟩
      · exact hj
      · exact h.inRange hq
    · show Function.update _ _ _ _ = _
      rw [Function.update_of_ne (by simp), h.noFlushed]
      rfl
    · rcases hmem hq with ⟨rfl, rfl⟩ | ⟨hne, hq⟩
      · rw [CacheMgr.item_modify_self]
      · rw [CacheMgr.item_modify_of_ne s _ hne]
        exact h.expirationId hq
    · obtain ⟨S, hS, hrep⟩ := h.table
      exact ⟨S, fun q => (hS q).trans (hL' q).symm, hrep⟩
    · obtain ⟨hg, hk⟩ := Prod.mk.inj (hid q)
      rw [hg, hk]
      exact h.hash ((hL' q).mp hq)
    · rw [hid, hid] at hab
      exact h.inj ((hL' a).mp ha) ((hL' b).mp hb) hab
    · rw [hrc, linkCount_congr (hL' q)]
      exact h.refCount q
    · rw [hrc]
      exact h.stored q
    · rw [hrc] at hq
      obtain ⟨h1, h2, h3⟩ := h.used hq
      refine ⟨h1, fun k hm => h2 k (hsub (hfree k ▸ hm)), ?_⟩
      exact hitem (fun q it => (s.item q).expirationId < 34 → it.expirationId < 34)
        (fun _ => hj) (fun _ _ hlt => hlt) q h3
    · rw [hrc] at hq
      exact hitem (fun q it => (s.item q).watchItem = none ∧ (s.item q).cacheId = 0 →
        it.watchItem = none ∧ it.cacheId = 0) (fun hz => hz) (fun _ _ hz => hz) q (h.idle hq)
    · exact h.free (hsub (hfree _ ▸ hq))
    · rw [hrc] at hz
      obtain ⟨k, hk⟩ := h.kept hz hq
      have hqp : q ≠ p := by
        intro he
        rw [he] at hz
        omega
      refine ⟨k, ?_⟩
      rw [hfree, (h.rep.nodup _).mem_erase_iff]
      exact ⟨hqp, hk⟩
  refine ⟨hcore, abs_eq (abs_entry_congr h hcore hL' fun q _ => ⟨hid q, ?_⟩) rfl⟩
  exact hitem (fun q it => it.entry q = (s.item q).entry q) rfl (fun _ _ => rfl) q

/-! ## Hash values of items outside the map -/

/-- The holder of an item that is not linked may set its hash value. -/
theorem Core.setHash {x : Nat} (h : Core env held L s) (hn : ¬ Linked L p) :
    Core env held L { s with
      cacheHashMap := { s.cacheHashMap with
        hashValue := Function.update s.cacheHashMap.hashValue p x } } := by
  obtain ⟨S, hS, hrep⟩ := h.table
  have hne : ∀ q, Linked L q → Function.update s.cacheHashMap.hashValue p x q =
      s.cacheHashMap.hashValue q := by
    intro q hq
    have hqp : q ≠ p := fun he => hn (he ▸ hq)
    exact Function.update_of_ne hqp ..
  refine ⟨h.rep, h.inRange, h.noFlushed, h.expirationId, ⟨S, hS, ?_⟩, h.bucket, fun hq => ?_, h.inj,
    h.refCount, h.stored, h.used, h.idle, h.free, h.kept, h.bound, h.ok⟩
  · exact HashMap.rep_hashValue hrep fun q hq => hne q ((hS q).mp hq)
  · exact (hne _ hq).trans (h.hash hq)

namespace CacheMgr

theorem cacheHashMap_release (env : Env) (s : CacheMgr) (p : Ptr) :
    (s.doReleaseReference env p).cacheHashMap = s.cacheHashMap := by
  unfold doReleaseReference freeItem
  dsimp only [CacheMgr.assert, modify]
  split
  · split <;> rfl
  · rfl

theorem cacheHashMap_dropWatch (s : CacheMgr) (p : Ptr) (t : NotifyType) :
    (s.dropWatch p t).cacheHashMap = s.cacheHashMap := by
  unfold dropWatch
  cases hw : (s.item p).watchItem with
  | none => rfl
  | some ws =>
    obtain ⟨s₁, he, hs₁, -⟩ := notifyWatch_spec ⟨fun _ _ => 0, 0, .unbounded⟩ hw t
    rw [Option.isSome_some, if_pos rfl, he, hs₁]
    rfl

theorem hashValue_unlink (env : Env) (s : CacheMgr) (p : Ptr) (t : NotifyType) :
    (s.doUnlink env p t).cacheHashMap.hashValue = s.cacheHashMap.hashValue := by
  rw [doUnlink, cacheHashMap_release, cacheHashMap_dropWatch]
  exact HashMap.remove_hashValue ..

end CacheMgr

/-! ## Items that a step does not touch -/

namespace CacheMgr

/-- The item at an address together with the hash value in it. -/
def slot (s : CacheMgr) (q : Ptr) : CacheItem × Nat := (s.item q, s.cacheHashMap.hashValue q)

@[simp] theorem slot_stat (s : CacheMgr) (c : StatCall) (q : Ptr) : (s.stat c).slot q = s.slot q :=
  rfl

theorem slot_modify (s : CacheMgr) (f : CacheItem → CacheItem) (h : q ≠ p) :
    (s.modify p f).slot q = s.slot q :=
  Prod.ext (item_modify_of_ne s f h) rfl

theorem slot_addReference (env : Env) (s : CacheMgr) (h : q ≠ p) :
    (s.addReference env p).slot q = s.slot q := slot_modify s _ h

theorem slot_release (env : Env) (s : CacheMgr) (h : q ≠ p) :
    (s.doReleaseReference env p).slot q = s.slot q :=
  Prod.ext (item_release_of_ne env s h) (by simp only [slot, cacheHashMap_release])

theorem slot_unlink (env : Env) (s : CacheMgr) (t : NotifyType) (h : q ≠ p) :
    (s.doUnlink env p t).slot q = s.slot q :=
  Prod.ext (item_unlink_of_ne env s t h) (by simp only [slot, hashValue_unlink])

theorem slot_link (env : Env) (s : CacheMgr) (o : Malloc) (h : q ≠ p) :
    (s.doLink env o p).slot q = s.slot q := by
  rw [doLink_eq]
  refine Prod.ext (Function.update_of_ne h ..) ?_
  simp only [slot, HashMap.insert_hashValue, Function.update_of_ne h]

theorem slot_replace (env : Env) (s : CacheMgr) (o : Malloc) {n : Ptr} (h : q ≠ p) (hn : q ≠ n) :
    (s.doReplace env o p n).slot q = s.slot q := by
  rw [doReplace, slot_link env _ o hn, slot_unlink env s _ h]

theorem slot_addWatchIf (s : CacheMgr) (w : Nat) (h : q ≠ p) :
    (s.addWatchIf p w).slot q = s.slot q := by
  unfold addWatchIf
  split
  · exact slot_modify s _ h
  · rfl

theorem slot_copyInto (s : CacheMgr) (r : Ptr) (first second ext : Bytes) (h : q ≠ p) :
    (s.copyInto p r first second ext).slot q = s.slot q := by
  unfold copyInto
  rw [slot_modify _ _ h]
  exact Prod.ext rfl (Function.update_of_ne h ..)

theorem slot_moveExpire (s : CacheMgr) (i j : Nat) (h : q ≠ p) :
    (s.moveExpire p i j).slot q = s.slot q :=
  Prod.ext (Function.update_of_ne h ..) rfl

/-- An item in use is not the one that `do_alloc` returns. -/
theorem slot_doAlloc (o : Malloc) (g kl fl et ds es : Nat) (hc : Core env held L s)
    (h : 0 < (s.item q).refCount) : (s.doAlloc env o g kl fl et ds es).2.slot q = s.slot q := by
  cases hd : s.doAlloc env o g kl fl et ds es with
  | mk r s' =>
    cases r with
    | none =>
      obtain ⟨c, rfl⟩ := Core.doAlloc_none hd
      rfl
    | some n =>
      have ha := hc.doAlloc_some hd
      have hne : q ≠ n := by
        intro he
        have := ha.idle
        rw [← he] at this
        omega
      exact Prod.ext (ha.item_of_ne q hne) (by simp only [slot, ha.hashMap])

end CacheMgr

end Xixi
