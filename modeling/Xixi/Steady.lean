import Xixi.Refinement.Operation

/-!
# What a held item keeps

A caller that has been given an item reads it without the lock. As long as it holds
its reference, an operation of another caller on the way unlinks the item at most;
what is in it stays, unless `update_flags` or `delta` writes to it in place.

1. `Steady env q c n s`: the item `q` holds `c` and has at least `n` references.
2. `steady_take`, `steady_release`, `steady_unlink`: references come and go.
3. `steady_get`, `steady_updateFlags`, ...: the operations.
4. `content_exec`: every operation.
-/

namespace Xixi

open Xixi.Lists StepLemmas RefinementLemmas FrameLemmas SweepLemmas CacheMgr

/-- What an item is found by and what it stores. -/
def CacheItem.content (it : CacheItem) : Key × Bytes × Nat × Nat :=
  (it.ident, it.data, it.flags, it.cacheId)

structure Steady (env : Env) (q : Ptr) (c : Key × Bytes × Nat × Nat) (n : Nat) (s : CacheMgr) :
    Prop where
  content : (s.item q).content = c
  count : n ≤ (s.item q).refCount
  stored : env.refWidth.store (s.item q).refCount = (s.item q).refCount

/-- A reference to `p`, counted for `q`. -/
def ones (q p : Ptr) : Nat := if q = p then 1 else 0

variable {env : Env} {held : Ptr → Nat} {L : ListId → List Ptr} {s s' : CacheMgr} {p q r : Ptr}
  {c : Key × Bytes × Nat × Nat} {n : Nat} {k : Key} {o : Malloc}

namespace SteadyLemmas

theorem ones_le (q p : Ptr) : ones q p ≤ 1 := by
  unfold ones
  split <;> omega

@[simp] theorem ones_self (q : Ptr) : ones q q = 1 := if_pos rfl

theorem ones_of_ne (h : q ≠ p) : ones q p = 0 := if_neg h

theorem steady_mono {m : Nat} (h : Steady env q c n s) (hm : m ≤ n) : Steady env q c m s :=
  ⟨h.content, Nat.le_trans hm h.count, h.stored⟩

theorem steady_of_item (h : Steady env q c n s) (hi : s'.item q = s.item q) :
    Steady env q c n s' := by
  refine ⟨?_, ?_, ?_⟩ <;> rw [hi]
  · exact h.content
  · exact h.count
  · exact h.stored

theorem steady_of_slot (h : Steady env q c n s) (hs : s'.slot q = s.slot q) :
    Steady env q c n s' := steady_of_item h (congrArg Prod.fst hs)

theorem steady_modify {f : CacheItem → CacheItem} (h : Steady env q c n s)
    (hc : (f (s.item p)).content = (s.item p).content)
    (hr : (f (s.item p)).refCount = (s.item p).refCount) : Steady env q c n (s.modify p f) := by
  by_cases hq : q = p
  · subst hq
    refine ⟨?_, ?_, ?_⟩
    · rw [item_modify_self, hc]
      exact h.content
    · rw [item_modify_self, hr]
      exact h.count
    · rw [item_modify_self, hr]
      exact h.stored
  · exact steady_of_item h (item_modify_of_ne s f hq)

theorem steady_stat (h : Steady env q c n s) (x : StatCall) : Steady env q c n (s.stat x) :=
  steady_of_item h rfl

/-- No reference count is about to overflow. -/
theorem store_succ (h : Core env held L s) (hroom : Room env held) (p : Ptr) :
    env.refWidth.store ((s.item p).refCount + 1) = (s.item p).refCount + 1 := by
  have hle : linkCount L p ≤ 1 := by
    unfold linkCount
    split <;> omega
  have hcount := h.refCount p
  exact hroom p _ (by omega)

theorem steady_take (h : Steady env q c n s) (hc : Core env held L s) (hroom : Room env held)
    (p : Ptr) : Steady env q c (n + ones q p) (s.addReference env p) := by
  by_cases hq : q = p
  · subst hq
    have hs := store_succ hc hroom q
    have hcount := h.count
    refine ⟨?_, ?_, ?_⟩ <;> rw [addReference, item_modify_self]
    · exact h.content
    · rw [ones_self]
      show n + 1 ≤ env.refWidth.store ((s.item q).refCount + 1)
      omega
    · show env.refWidth.store (env.refWidth.store ((s.item q).refCount + 1)) = _
      rw [hs, hs]
  · rw [ones_of_ne hq]
    exact steady_of_slot h (slot_addReference env s hq)

theorem decRef_eq {m : Nat} (hs : env.refWidth.store m = m) (hm : 0 < m) :
    decRef env m = m - 1 ∧ env.refWidth.store (m - 1) = m - 1 := by
  unfold decRef
  cases hw : env.refWidth with
  | unbounded => exact ⟨rfl, rfl⟩
  | uint16 =>
    rw [hw] at hs
    have hlt : m % 2 ^ 16 = m := hs
    have h1 : (m + (2 ^ 16 - 1)) % 2 ^ 16 = m - 1 := by omega
    have h2 : (m - 1) % 2 ^ 16 = m - 1 := by omega
    exact ⟨h1, h2⟩

/-- The item is not freed, since there is another reference to it. -/
theorem steady_release (h : Steady env q c (n + ones q p) s) (hn : 1 ≤ n) :
    Steady env q c n (s.doReleaseReference env p) := by
  by_cases hq : q = p
  · subst hq
    have hcount := h.count
    rw [ones_self] at hcount
    obtain ⟨hdec, hst⟩ := decRef_eq h.stored (by omega)
    have hitem : (s.doReleaseReference env q).item q =
        { s.item q with refCount := (s.item q).refCount - 1 } := by
      unfold doReleaseReference
      simp only [CacheMgr.assert, CacheMgr.modify, Function.update_self, hdec]
      rw [if_neg (by omega)]
      exact Function.update_self ..
    refine ⟨?_, ?_, ?_⟩ <;> rw [hitem]
    · exact h.content
    · show n ≤ (s.item q).refCount - 1
      omega
    · exact hst
  · exact steady_mono (steady_of_slot h (slot_release env s hq)) (Nat.le_add_right ..)

theorem steady_notifyWatch (h : Steady env q c n s) (p : Ptr) (t : NotifyType) :
    Steady env q c n (s.notifyWatch p t) := by
  cases hw : (s.item p).watchItem with
  | none =>
    have hsame : s.notifyWatch p t = s := by simp only [notifyWatch, hw]
    rwa [hsame]
  | some ws =>
    obtain ⟨s₁, he, hs₁, -⟩ := notifyWatch_spec env hw t
    rw [he]
    refine steady_modify (steady_of_item h ?_) rfl rfl
    rw [hs₁]

theorem steady_dropWatch (h : Steady env q c n s) (p : Ptr) (t : NotifyType) :
    Steady env q c n (s.dropWatch p t) := by
  unfold dropWatch
  split
  · exact steady_modify (steady_notifyWatch h p t) rfl rfl
  · exact h

theorem steady_unlink (h : Steady env q c (n + ones q p) s) (hn : 1 ≤ n) (t : NotifyType) :
    Steady env q c n (s.doUnlink env p t) := by
  have hd : Steady env q c (n + ones q p) (s.detach env p) := steady_of_item h rfl
  exact steady_release (steady_dropWatch hd p t) hn

theorem steady_replace (h : Steady env q c (n + ones q p) s) (hn : 1 ≤ n) (hr : q ≠ r) :
    Steady env q c n (s.doReplace env o p r) :=
  steady_of_slot (steady_unlink h hn .dataUpdated) (slot_link env _ o hr)

theorem steady_addWatchIf (h : Steady env q c n s) (p : Ptr) (w : Nat) :
    Steady env q c n (s.addWatchIf p w) := by
  unfold addWatchIf
  split
  · exact steady_modify h rfl rfl
  · exact h

theorem steady_moveExpire (h : Steady env q c n s) (p : Ptr) (i j : Nat) :
    Steady env q c n (s.moveExpire p i j) := by
  have hm := steady_modify (p := p) (f := fun it => { it with expirationId := j % 2 ^ 8 }) h rfl rfl
  exact steady_of_item hm rfl

/-- An item that is linked and held by a caller has two references. -/
theorem steady_of_linked (h : Core env held L s) (hq : Linked L q) (hu : 0 < held q) :
    Steady env q (s.item q).content 2 s := by
  have hcount := h.refCount q
  rw [linkCount_of_linked hq] at hcount
  exact ⟨rfl, by omega, h.stored q⟩

/-- The references that a look-up and an unlinking go through. -/
theorem steady_found (h : Steady env q c 2 s) (hc : Core env held L s) (hroom : Room env held)
    (p : Ptr) : Steady env q c (1 + ones q p + ones q p) (s.addReference env p) := by
  have hle := ones_le q p
  exact steady_take (steady_mono h (by omega)) hc hroom p

theorem steady_released (h : Steady env q c (1 + ones q p) s) :
    Steady env q c 1 (s.doReleaseReference env p) := steady_release h (Nat.le_refl 1)

end SteadyLemmas

open SteadyLemmas

/-! ## Operations on a key -/

namespace SteadyLemmas

theorem steady_doGetExpiration (h : Steady env q c 2 s) (hc : Core env held L s)
    (hroom : Room env held) {g : Nat} {key : Bytes} {hash : Nat} {r : Option (Ptr × Nat)}
    (hr : s.doGetExpiration env g key hash = (r, s')) :
    Steady env q c (1 + r.elim 0 fun x => ones q x.1) s' := by
  have h1 : Steady env q c 1 s := steady_mono h (by omega)
  unfold doGetExpiration at hr
  split at hr
  · next p _ =>
    have ht := steady_take h1 hc hroom p
    dsimp only at hr
    split at hr
    · obtain ⟨rfl, rfl⟩ := Prod.mk.inj hr
      exact ht
    · split at hr
      · obtain ⟨rfl, rfl⟩ := Prod.mk.inj hr
        exact ht
      · obtain ⟨rfl, rfl⟩ := Prod.mk.inj hr
        have hle := ones_le q p
        exact steady_unlink (steady_mono h (by omega)) (Nat.le_refl 1) .expired
  · obtain ⟨rfl, rfl⟩ := Prod.mk.inj hr
    exact h1

end SteadyLemmas

theorem steady_get (h : Steady env q c 2 s) (hc : Core env held L s) (hroom : Room env held)
    (k : Key) (w : Nat) (b : Bool) : Steady env q c 1 (s.get env k.1 k.2 w b).2 := by
  unfold CacheMgr.get
  cases hd : s.doGetExpiration env k.1 k.2 (env.hash32 k.2 k.1) with
  | mk r s₁ =>
    have h₁ := steady_doGetExpiration h hc hroom hd
    cases r with
    | none => exact steady_stat h₁ _
    | some x =>
      have hm := steady_mono h₁ (Nat.le_add_right 1 _)
      dsimp only
      split
      · split
        · exact steady_stat (steady_modify hm rfl rfl) _
        · exact steady_released (steady_stat h₁ _)
      · split
        · exact steady_stat hm _
        · exact steady_stat hm _

theorem steady_getTouch (h : Steady env q c 2 s) (hc : Core env held L s) (hroom : Room env held)
    (k : Key) (w x : Nat) : Steady env q c 1 (s.getTouch env k.1 k.2 w x).2 := by
  have h1 : Steady env q c 1 s := steady_mono h (by omega)
  unfold CacheMgr.getTouch doGetTouch
  split
  · next p s₁ hd =>
    split at hd
    · next p' _ =>
      obtain ⟨hp, rfl⟩ := Prod.mk.inj hd
      obtain rfl := Option.some.inj hp
      have ht := steady_take h1 hc hroom p'
      have ht' := steady_modify (p := p')
        (f := fun it => { it with expireTime := realtime (s.addReference env p').currTime x }) ht rfl rfl
      have hm := steady_mono ht' (Nat.le_add_right 1 _)
      split
      · split
        · exact steady_stat (steady_modify hm rfl rfl) _
        · exact steady_released (steady_stat ht' _)
      · exact steady_stat hm _
    · exact nomatch (Prod.mk.inj hd).1
  · next s₁ hd =>
    split at hd
    · exact nomatch (Prod.mk.inj hd).1
    · obtain ⟨-, rfl⟩ := Prod.mk.inj hd
      exact steady_stat h1 _

/-- `update_flags` writes to the item only if the key and the id are its own. -/
theorem steady_updateFlags (h : Steady env q c 2 s) (hc : Core env held L s) (hroom : Room env held)
    (k : Key) (x fl : Nat)
    (hother : ∀ e, (abs env s).entry k = some e → x = 0 ∨ x = e.cacheId → e.ptr ≠ q) :
    Steady env q c 1 (s.updateFlags env k.1 k.2 x fl).2 := by
  unfold CacheMgr.updateFlags doGet
  cases hf : s.find k.1 k.2 (env.hash32 k.2 k.1) with
  | none => exact steady_stat (steady_mono h (by omega)) _
  | some p =>
    have he : (abs env s).entry k = some ((s.item p).entry p) := by
      simp only [abs, hf, Option.map_some]
    have ht := steady_take (steady_mono h (show 1 ≤ 2 by omega)) hc hroom p
    have hid : ((s.addReference env p).item p).cacheId = (s.item p).cacheId := by
      rw [addReference, item_modify_self]
    dsimp only
    rw [hid]
    split
    · next hx =>
      have hne : q ≠ p := fun hq => hother _ he hx hq.symm
      have hslot : ∀ (s₁ : CacheMgr) (f : CacheItem → CacheItem), s₁.slot q = s.slot q →
          (s₁.modify p f).slot q = s.slot q := fun s₁ f hs => (slot_modify s₁ f hne).trans hs
      refine steady_released (steady_of_slot ht ?_)
      rw [slot_stat, slot_addReference env s hne]
      refine hslot _ _ ((slot_getCacheId _).trans ?_)
      split
      · exact (slot_notifyWatch env _ _ hne).trans (hslot _ _ (slot_addReference env s hne))
      · exact hslot _ _ (slot_addReference env s hne)
    · exact steady_stat (steady_mono ht (Nat.le_add_right 1 _)) _

theorem steady_updateExpiration (h : Steady env q c 2 s) (hc : Core env held L s)
    (hroom : Room env held) (k : Key) (x y : Nat) :
    Steady env q c 1 (s.updateExpiration env k.1 k.2 x y).2 := by
  unfold CacheMgr.updateExpiration doGet
  cases hf : s.find k.1 k.2 (env.hash32 k.2 k.1) with
  | none => exact steady_stat (steady_mono h (by omega)) _
  | some p =>
    have ht := steady_take (steady_mono h (show 1 ≤ 2 by omega)) hc hroom p
    dsimp only
    split
    · refine steady_released (steady_stat (steady_modify ?_ rfl rfl) _)
      split
      · exact steady_moveExpire ht _ _ _
      · exact ht
    · exact steady_stat (steady_mono ht (Nat.le_add_right 1 _)) _

theorem steady_remove (h : Steady env q c 2 s) (hc : Core env held L s) (hroom : Room env held)
    (k : Key) (x : Nat) : Steady env q c 1 (s.remove env k.1 k.2 x).2 := by
  unfold CacheMgr.remove doGet
  cases hf : s.find k.1 k.2 (env.hash32 k.2 k.1) with
  | none => exact steady_stat (steady_mono h (by omega)) _
  | some p =>
    have ht := steady_found h hc hroom p
    dsimp only
    split
    · exact steady_released (steady_unlink (steady_stat ht _) (by omega) .deleted)
    · exact steady_released (steady_stat (steady_mono ht (Nat.le_add_right _ _)) _)

/-- `delta` writes to the item only if the key and the id are its own, and the new text is as
long as the data. -/
theorem steady_delta (h : Steady env q c 2 s) (hc : Core env held L s) (hroom : Room env held)
    (k : Key) (incr : Bool) (d : Int) (x : Nat)
    (hother : ∀ e, (abs env s).entry k = some e → x = 0 ∨ x = e.cacheId →
      (formatInt64 (deltaValue (s.item e.ptr) incr d)).length = e.data.length → e.ptr ≠ q) :
    Steady env q c 1 (s.delta env o k.1 k.2 incr d x).2 := by
  unfold CacheMgr.delta doGet
  cases hf : s.find k.1 k.2 (env.hash32 k.2 k.1) with
  | none => exact steady_stat (steady_mono h (by omega)) _
  | some p =>
    have hp : Linked L p := ((hc.find_iff k.1 k.2).mp hf).1
    have he : (abs env s).entry k = some ((s.item p).entry p) := by
      simp only [abs, hf, Option.map_some]
    have hother' : x = 0 ∨ x = (s.item p).cacheId →
        (formatInt64 (deltaValue (s.item p) incr d)).length = ((s.item p).entry p).data.length →
          p ≠ q := hother _ he
    obtain ⟨s₁, hs₁, h₁, -, -, hen⟩ := take hc hroom hp
    have ht : Steady env q c (1 + ones q p + ones q p) s₁ := hs₁ ▸ steady_found h hc hroom p
    have ht1 := steady_mono ht (Nat.le_add_right (1 + ones q p) (ones q p))
    have hid : (s₁.item p).cacheId = (s.item p).cacheId := congrArg Entry.cacheId hen
    have hval : deltaValue (s₁.item p) incr d = deltaValue (s.item p) incr d := by
      rw [← hs₁, addReference, item_modify_self]
      rfl
    have hsize : (s₁.item p).dataSize = ((s.item p).entry p).data.length := by
      rw [← hen]
      exact (CacheItem.length_data _).symm
    rw [← hval, ← hsize] at hother'
    simp only [hs₁, hid]
    split
    · next hx =>
      generalize hbuf : formatInt64 (deltaValue (s₁.item p) incr d) = buf at hother'
      by_cases hlen : buf.length ≠ (s₁.item p).dataSize
      · rw [if_pos hlen]
        have hu : 0 < (s₁.item q).refCount := Nat.lt_of_lt_of_le (by omega) ht.count
        have hal := slot_doAlloc o (s₁.item p).groupId (s₁.item p).keyLength (s₁.item p).flags
          (s₁.item p).expireTime buf.length (s₁.item p).extSize h₁ hu
        cases hd : s₁.doAlloc env o (s₁.item p).groupId (s₁.item p).keyLength (s₁.item p).flags
          (s₁.item p).expireTime buf.length (s₁.item p).extSize with
        | mk r s₂ =>
          rw [hd] at hal
          have h₂ := steady_of_slot ht hal
          cases r with
          | none => exact steady_released (steady_of_slot ht1 hal)
          | some n =>
            have hidle := (h₁.doAlloc_some hd).idle
            have hnn : q ≠ n := by
              intro hq
              rw [← hq] at hidle
              omega
            have h₃ := steady_of_slot h₂ (slot_copyInto s₂ p buf [] (s₂.item p).ext hnn)
            have h₄ := steady_replace (o := o) h₃ (by omega) hnn
            exact steady_released (steady_stat (steady_of_slot h₄ (slot_release env _ hnn)) _)
      · rw [if_neg hlen]
        have hne : q ≠ p := fun hq => hother' hx (not_not.mp hlen) hq.symm
        refine steady_released (steady_of_slot ht1 ?_)
        rw [slot_stat, slot_modify _ _ hne, slot_modify _ _ hne, slot_getCacheId]
    · exact steady_released (steady_stat ht1 _)

/-! ## Operations on a request item -/

theorem steady_add (h : Steady env q c 2 s) (hc : Core env held L s) (hroom : Room env held)
    (hne : q ≠ p) (w : Nat) : Steady env q c 1 (s.add env o p w).2 := by
  have h1 : Steady env q c 1 s := steady_mono h (by omega)
  unfold CacheMgr.add doGetOf doGet
  cases hf : s.find (s.item p).groupId (s.item p).key (s.cacheHashMap.hashValue p) with
  | none =>
    have hw := steady_of_slot h1
      (slot_checkWatchAdd env s w .addSuccess .addSuccessWatch .addWatchMiss hne)
    dsimp only
    split
    · next s₁ hs₁ =>
      rw [hs₁] at hw
      exact steady_of_slot hw (slot_link env s₁ o hne)
    · next s₁ hs₁ =>
      rw [hs₁] at hw
      exact hw
  | some r => exact steady_stat (steady_released (steady_take h1 hc hroom r)) _

theorem steady_loadFromFileLink (h : Steady env q c 2 s) (hc : Core env held L s)
    (hroom : Room env held) (hne : q ≠ p) (w : Nat) :
    Steady env q c 1 (s.loadFromFileLink env o p w).2 := by
  have h1 : Steady env q c 1 s := steady_mono h (by omega)
  unfold CacheMgr.loadFromFileLink doGetOf doGet
  cases hf : s.find (s.item p).groupId (s.item p).key (s.cacheHashMap.hashValue p) with
  | none =>
    have hw := steady_of_slot h1
      (slot_checkWatchAdd env s w .addSuccess .addSuccessWatch .addWatchMiss hne)
    dsimp only
    split
    · next s₁ hs₁ =>
      rw [hs₁] at hw
      exact steady_of_slot hw (slot_link env s₁ o hne)
    · next s₁ hs₁ =>
      rw [hs₁] at hw
      exact steady_of_slot hw (slot_release env s₁ hne)
  | some r =>
    have ht := steady_mono (steady_take h1 hc hroom r) (Nat.le_add_right 1 (ones q r))
    exact steady_of_slot ht (slot_release env _ hne)

namespace SteadyLemmas

/-- The end of `set` and of `replace`. -/
theorem steady_replaced {s₁ : CacheMgr} {f g : Nat → Nat → Nat → StatCall}
    {m : Nat → Nat → StatCall} {t : Ptr} {w : Nat}
    (h : Steady env q c (1 + ones q r + ones q r) s₁) (hne : q ≠ p) :
    Steady env q c 1
      (match s₁.checkWatchReplace env p t w f g m with
      | (true, s) =>
        let s := s.doReplace env o r p
        let s := s.addWatchIf p w
        ((Reason.success, some (s.item p).cacheId), s.doReleaseReference env r)
      | (false, s) => ((.watchNotFound, none), s.doReleaseReference env r)).2 := by
  have hw := steady_of_slot h (slot_checkWatchReplace env s₁ p q t w f g m)
  split
  · next s₂ hs₂ =>
    rw [hs₂] at hw
    exact steady_released (steady_addWatchIf (steady_replace hw (by omega) hne) p w)
  · next s₂ hs₂ =>
    rw [hs₂] at hw
    exact steady_released (steady_mono hw (Nat.le_add_right _ _))

end SteadyLemmas

theorem steady_set (h : Steady env q c 2 s) (hc : Core env held L s) (hroom : Room env held)
    (hne : q ≠ p) (w : Nat) : Steady env q c 1 (s.set env o p w).2 := by
  unfold CacheMgr.set doGetOf doGet
  cases hf : s.find (s.item p).groupId (s.item p).key (s.cacheHashMap.hashValue p) with
  | none =>
    have hw := steady_of_slot (steady_mono h (show 1 ≤ 2 by omega))
      (slot_checkWatchAdd env s w .setSuccess .setSuccessWatch .setWatchMiss hne)
    dsimp only
    split
    · next s₁ hs₁ =>
      rw [hs₁] at hw
      exact steady_of_slot hw (slot_link env s₁ o hne)
    · next s₁ hs₁ =>
      rw [hs₁] at hw
      exact hw
  | some r =>
    have ht := steady_found h hc hroom r
    dsimp only
    split
    · exact steady_replaced ht hne
    · exact steady_released (steady_stat (steady_mono ht (Nat.le_add_right _ _)) _)

theorem steady_replaceOp (h : Steady env q c 2 s) (hc : Core env held L s) (hroom : Room env held)
    (hne : q ≠ p) (w : Nat) : Steady env q c 1 (s.replace env o p w).2 := by
  unfold CacheMgr.replace doGetOf doGet
  cases hf : s.find (s.item p).groupId (s.item p).key (s.cacheHashMap.hashValue p) with
  | none => exact steady_stat (steady_mono h (by omega)) _
  | some r =>
    have ht := steady_found h hc hroom r
    dsimp only
    split
    · exact steady_replaced ht hne
    · exact steady_released (steady_stat (steady_mono ht (Nat.le_add_right _ _)) _)

namespace SteadyLemmas

/-- The part of `append` and of `prepend` from `do_alloc` on: the request item may get the
watch. -/
theorem steady_appended {s₁ : CacheMgr} {g kl fl et ds es w : Nat}
    (h : Steady env q c (1 + ones q r + ones q r) s₁) (h₁ : Core env held L s₁)
    (first second ext : CacheMgr → Bytes) (fin : CacheMgr → Ptr → CacheMgr)
    (hfin : ∀ s' n, fin s' n = (s'.doReplace env o r n).addWatchIf p w ∨
      fin s' n = (s'.addWatchIf p w).doReplace env o r n)
    {f f' : Nat → Nat → Nat → StatCall} {m : Nat → Nat → StatCall} {oom : CacheMgr → StatCall} :
    Steady env q c 1
      (match s₁.doAlloc env o g kl fl et ds es with
      | (some newIt, s) =>
        let s := s.copyInto newIt p (first s) (second s) (ext s)
        match s.checkWatchReplace env p r w f f' m with
        | (true, s) =>
          let s := fin s newIt
          let id := (s.item newIt).cacheId
          let s := s.doReleaseReference env newIt
          ((Reason.success, some id), s.doReleaseReference env r)
        | (false, s) =>
          let s := s.doReleaseReference env newIt
          ((.watchNotFound, none), s.doReleaseReference env r)
      | (none, s) => ((.outOfMemory, none), (s.stat (oom s)).doReleaseReference env r)).2 := by
  have hu : 0 < (s₁.item q).refCount := Nat.lt_of_lt_of_le (by omega) h.count
  have hal := slot_doAlloc o g kl fl et ds es h₁ hu
  cases hd : s₁.doAlloc env o g kl fl et ds es with
  | mk x s₂ =>
    rw [hd] at hal
    have h₂ := steady_of_slot h hal
    cases x with
    | none => exact steady_released (steady_stat (steady_mono h₂ (Nat.le_add_right _ _)) _)
    | some n =>
      have hidle := (h₁.doAlloc_some hd).idle
      have hnn : q ≠ n := by
        intro hq
        rw [← hq] at hidle
        omega
      have h₃ := steady_of_slot h₂ (slot_copyInto s₂ p (first s₂) (second s₂) (ext s₂) hnn)
      have hw := steady_of_slot h₃ (slot_checkWatchReplace env
        (s₂.copyInto n p (first s₂) (second s₂) (ext s₂)) p q r w f f' m)
      dsimp only
      split
      · next s₃ hs₃ =>
        rw [hs₃] at hw
        have hend : Steady env q c (1 + ones q r) (fin s₃ n) := by
          rcases hfin s₃ n with he | he
          · rw [he]
            exact steady_addWatchIf (steady_replace hw (by omega) hnn) p w
          · rw [he]
            exact steady_replace (steady_addWatchIf hw p w) (by omega) hnn
        exact steady_released (steady_of_slot hend (slot_release env _ hnn))
      · next s₃ hs₃ =>
        rw [hs₃] at hw
        have hend := steady_mono hw (Nat.le_add_right (1 + ones q r) (ones q r))
        exact steady_released (steady_of_slot hend (slot_release env _ hnn))

end SteadyLemmas

theorem steady_append (h : Steady env q c 2 s) (hc : Core env held L s) (hroom : Room env held)
    (hr : Request env held s p) (w : Nat) : Steady env q c 1 (s.append env o p w).2 := by
  unfold CacheMgr.append doGetOf doGet
  cases hf : s.find (s.item p).groupId (s.item p).key (s.cacheHashMap.hashValue p) with
  | none => exact steady_stat (steady_mono h (by omega)) _
  | some r =>
    have ht := steady_found h hc hroom r
    rw [hr.hash] at hf
    obtain ⟨s₁, hs₁, h₁, -⟩ := take hc hroom ((hc.find_iff _ _).mp hf).1
    rw [hs₁] at ht
    simp only [hs₁]
    split
    · exact steady_stat (steady_mono ht (by omega)) _
    · exact steady_appended ht h₁
        (fun s => (s.item r).data) (fun s => (s.item p).data) (fun s => (s.item r).ext)
        (fun s' n => (s'.doReplace env o r n).addWatchIf p w) fun _ _ => .inl rfl

theorem steady_prepend (h : Steady env q c 2 s) (hc : Core env held L s) (hroom : Room env held)
    (hr : Request env held s p) (w : Nat) : Steady env q c 1 (s.prepend env o p w).2 := by
  unfold CacheMgr.prepend doGetOf doGet
  cases hf : s.find (s.item p).groupId (s.item p).key (s.cacheHashMap.hashValue p) with
  | none => exact steady_stat (steady_mono h (by omega)) _
  | some r =>
    have ht := steady_found h hc hroom r
    rw [hr.hash] at hf
    obtain ⟨s₁, hs₁, h₁, -⟩ := take hc hroom ((hc.find_iff _ _).mp hf).1
    rw [hs₁] at ht
    simp only [hs₁]
    split
    · exact steady_stat (steady_mono ht (by omega)) _
    · exact steady_appended ht h₁
        (fun s => (s.item p).data) (fun s => (s.item r).data) (fun s => (s.item r).ext)
        (fun s' n => (s'.addWatchIf p w).doReplace env o r n) fun _ _ => .inr rfl

/-! ## Sweeps -/

namespace SteadyLemmas

theorem content_unlink (h : Core env held L s) (hp : Linked L p) (hu : 0 < held q)
    (t : NotifyType) : ((s.doUnlink env p t).item q).content = (s.item q).content := by
  by_cases hq : q = p
  · subst hq
    have hs := steady_of_linked h hp hu
    exact (steady_unlink (n := 1) (by rwa [ones_self]) (Nat.le_refl 1) t).content
  · rw [item_unlink_of_ne env s t hq]

theorem content_moveExpire (s : CacheMgr) (p q : Ptr) (i j : Nat) :
    ((s.moveExpire p i j).item q).content = (s.item q).content := by
  show (((s.modify p fun it => { it with expirationId := j % 2 ^ 8 }).item q)).content = _
  by_cases hq : q = p
  · subst hq
    rw [item_modify_self]
    rfl
  · rw [item_modify_of_ne _ _ hq]

/-- The walk of `flush` over one list: induction on what is left of it. -/
theorem content_flushLoop (hu : 0 < held q) {g i : Nat} (rest : List Ptr) :
    ∀ (n : Nat) (done : List Ptr) (L : ListId → List Ptr) (r : Nat × Nat × CacheMgr),
      Core env held L r.2.2 → L (.expire i) = done ++ rest → rest.length ≤ n →
      ((flushLoop env g n rest.head? r).2.2.item q).content = (r.2.2.item q).content := by
  induction rest with
  | nil =>
    intro n done L r _ _ _
    have hloop : flushLoop env g n none r = r := by cases n <;> rfl
    rw [List.head?_nil, hloop]
  | cons p rest ih =>
    intro n done L r h hi hn
    obtain ⟨x, z, s⟩ := r
    obtain ⟨n, rfl⟩ : ∃ m, n = m + 1 := ⟨n - 1, by simp only [List.length_cons] at hn; omega⟩
    have hn' : rest.length ≤ n := by simpa using hn
    have hp : Linked L p := ⟨i, by simp [hi]⟩
    have hnext : s.lists.next p = rest.head? := next_eq h hi
    rw [List.head?_cons]
    simp only [flushLoop, hnext]
    by_cases hg : (s.item p).groupId = g
    · rw [if_pos hg]
      obtain ⟨L₁, h₁, hi₁, -⟩ := unlink_visited h hi .flushed
      rw [ih n done L₁ (_, _, s.doUnlink env p .flushed) h₁ hi₁ hn']
      exact content_unlink h hp hu .flushed
    · rw [if_neg hg]
      exact ih n (done ++ [p]) L (x, z, s) h (by simpa using hi) hn'

theorem content_flushLists (hu : 0 < held q) {g : Nat} (is : List Nat) :
    ∀ (L : ListId → List Ptr) (r : Nat × Nat × CacheMgr), Core env held L r.2.2 →
      ((is.foldl (flushList env g) r).2.2.item q).content = (r.2.2.item q).content := by
  induction is with
  | nil => exact fun _ _ _ => rfl
  | cons i is ih =>
    intro L r h
    have hlen := length_le_nextPtr h i
    obtain ⟨ks, L₁, hfl, -⟩ := flushLoop_spec (g := g) (i := i) (L (.expire i)) r.2.2.nextPtr [] L r h
      rfl hlen nofun
    have hloop := content_flushLoop hu (g := g) (i := i) (L (.expire i)) r.2.2.nextPtr [] L r h rfl hlen
    rw [← front_eq h] at hfl hloop
    exact (ih L₁ _ hfl.core).trans hloop

/-- The walk of `expire_items` over one list. -/
theorem content_expireLoop (hu : 0 < held q) (now : Nat) {i : Nat} (hi34 : i < 34)
    (rest : List Ptr) :
    ∀ (n : Nat) (done : List Ptr) (L : ListId → List Ptr) (s : CacheMgr), Core env held L s →
      L (.expire i) = done ++ rest → rest.length ≤ n →
      ((expireLoop env now i n rest.head? s).item q).content = (s.item q).content := by
  induction rest with
  | nil =>
    intro n done L s _ _ _
    have hloop : expireLoop env now i n none s = s := by cases n <;> rfl
    rw [List.head?_nil, hloop]
  | cons p rest ih =>
    intro n done L s h hi hn
    obtain ⟨n, rfl⟩ : ∃ m, n = m + 1 := ⟨n - 1, by simp only [List.length_cons] at hn; omega⟩
    have hn' : rest.length ≤ n := by simpa using hn
    have hp : Linked L p := ⟨i, by simp [hi]⟩
    rw [List.head?_cons]
    simp only [expireLoop, next_eq h hi]
    by_cases hdue : (s.item p).expireTime ≤ now
    · rw [if_pos hdue]
      obtain ⟨L₁, h₁, hi₁, -⟩ := unlink_visited h hi .expired
      exact (ih n done L₁ _ h₁ hi₁ hn').trans (content_unlink h hp hu .expired)
    · rw [if_neg hdue]
      cases hb : rebucket ((s.item p).expireTime - now) i with
      | none => exact ih n (done ++ [p]) L s h (by simpa using hi) hn'
      | some j =>
        obtain ⟨L₁, done', hmove, hi₁⟩ :=
          @move_visited _ _ _ _ p h now _ _ _ _ hi (Nat.lt_of_le_of_lt (rebucket_le i hb) hi34)
        exact (ih n done' L₁ _ hmove.core hi₁ hn').trans (content_moveExpire s p q i j)

theorem content_expireList (hu : 0 < held q) (now : Nat) {i : Nat} (hi34 : i < 34)
    (h : Core env held L s) :
    ((expireList env now s i).item q).content = (s.item q).content := by
  unfold expireList
  split
  · have hloop := content_expireLoop hu now hi34 (L (.expire i)) s.nextPtr [] L
      { s with
        expireCheckTime :=
          Function.update s.expireCheckTime i (realtime now (expirationTime i)) }
      h rfl (length_le_nextPtr h i)
    rwa [← front_eq h] at hloop
  · rfl

theorem content_expireItems (hu : 0 < held q) (now : Nat) (is : List Nat)
    (his : ∀ i ∈ is, i < 34) : ∀ (L : ListId → List Ptr) (s : CacheMgr), Core env held L s →
      ((is.foldl (expireList env now) s).item q).content = (s.item q).content := by
  induction is with
  | nil => exact fun _ _ _ => rfl
  | cons i is ih =>
    intro L s h
    obtain ⟨ks, L₁, hex⟩ := @expireItems_spec env held now [i]
      (fun j hj => his j (List.mem_singleton.mp hj ▸ List.mem_cons_self ..)) L s h
    have hrest := ih (fun j hj => his j (List.mem_cons_of_mem _ hj)) L₁ _ hex.core
    exact hrest.trans (content_expireList hu now (his i (List.mem_cons_self ..)) h)

end SteadyLemmas

theorem content_flush (h : Core env held L s) (hu : 0 < held q) (g : Nat) :
    ((s.flush env g).2.item q).content = (s.item q).content := by
  have hfold := content_flushLists hu (g := g) (List.range 34) L (0, 0, s) h
  unfold CacheMgr.flush
  generalize (List.range 34).foldl (flushList env g) (0, 0, s) = r at hfold
  obtain ⟨x, z, s'⟩ := r
  exact hfold

namespace SteadyLemmas

theorem content_sweep (h : Core env held L s) (hu : 0 < held q) (now : Nat) :
    (((s.expireItems env now).freeFlushedItems env).item q).content = (s.item q).content := by
  have his : ∀ i ∈ List.range 33, i < 34 := fun i hi => by
    rw [List.mem_range] at hi
    omega
  have hitems := content_expireItems hu now (List.range 33) his L s h
  obtain ⟨ks, L', hex⟩ := @expireItems_spec env held now (List.range 33) his L s h
  unfold expireItems
  generalize (List.range 33).foldl (expireList env now) s = s₁ at hitems hex
  rw [freeFlushedItems_eq hex.core]
  exact hitems

end SteadyLemmas

theorem content_checkExpired (h : Core env held L s) (hu : 0 < held q) :
    ((s.checkExpired env).item q).content = (s.item q).content := by
  unfold CacheMgr.checkExpired
  split
  · -- dropping the expired watches does not touch the items
    have hc : Core env held L
        (expireWatchs { s with lastCheckExpiredTime := s.currTime } s.currTime) := h
    generalize hs₁ : expireWatchs { s with lastCheckExpiredTime := s.currTime } s.currTime = s₁ at hc
    have hitem : s₁.item = s.item := hs₁ ▸ rfl
    dsimp only
    rw [hs₁, content_sweep hc hu, hitem]
  · rfl

/-! ## Every operation -/

/-- `update_flags` gives the item other flags and another id. -/
def Op.Reflags (env : Env) (s : CacheMgr) (q : Ptr) : Op → Prop
  | .updateFlags g k x _ => ∃ e, (abs env s).entry (g, k) = some e ∧ e.ptr = q ∧
      (x = 0 ∨ x = e.cacheId)
  | _ => False

/-- `delta` overwrites the data of the item: the new text is as long as the old one. -/
def Op.Overwrites (env : Env) (s : CacheMgr) (q : Ptr) : Op → Prop
  | .delta _ g k incr d x => ∃ e, (abs env s).entry (g, k) = some e ∧ e.ptr = q ∧
      (x = 0 ∨ x = e.cacheId) ∧ (formatInt64 (deltaValue (s.item q) incr d)).length = e.data.length
  | _ => False

namespace SteadyLemmas

variable {op : Op}

theorem steady_update (h : Steady env q c 2 s) (hc : Core env held L s) (hroom : Room env held)
    (hr : Request env held s p) (hq : q ≠ p) (verb : Verb) (w : Nat) :
    Steady env q c 1 (s.update env o p w verb).2 := by
  cases verb with
  | add => exact steady_add h hc hroom hq w
  | set => exact steady_set h hc hroom hq w
  | replace => exact steady_replaceOp h hc hroom hq w
  | append => exact steady_append h hc hroom hr w
  | prepend => exact steady_prepend h hc hroom hr w

/-- A linked item that a caller holds. -/
theorem content_linked (h : Core env held L s) (hroom : Room env held) (hr : Ready env held s op)
    (hq : Linked L q) (hu : 0 < held q) (hflags : ¬ op.Reflags env s q)
    (hdata : ¬ op.Overwrites env s q) :
    ((s.exec env op).2.item q).content = (s.item q).content := by
  have hs := steady_of_linked h hq hu
  cases op with
  | alloc o g kl fl x ds es =>
    have hpos : 0 < (s.item q).refCount := h.pos_of_linked hq
    have hal := slot_doAlloc o g kl fl (realtime s.currTime x) ds es h hpos
    exact congrArg CacheItem.content (congrArg Prod.fst hal)
  | fill p c =>
    have hne : q ≠ p := fun he => (absent_iff h).mp hr.2 (he ▸ hq)
    exact congrArg CacheItem.content (item_modify_of_ne s (fun it => it.fill c) hne)
  | get g k w b => exact (steady_get hs h hroom (g, k) w b).content
  | getTouch g k w x => exact (steady_getTouch hs h hroom (g, k) w x).content
  | updateFlags g k x fl =>
    exact (steady_updateFlags hs h hroom (g, k) x fl fun e he hx hp => hflags ⟨e, he, hp, hx⟩).content
  | updateExpiration g k x y => exact (steady_updateExpiration hs h hroom (g, k) x y).content
  | update verb o p w =>
    have hr' : Request env held s p := hr
    have hne : q ≠ p := fun he => (absent_iff h).mp hr'.absent (he ▸ hq)
    exact (steady_update hs h hroom hr' hne verb w).content
  | loadFromFileLink o p w =>
    have hr' : Request env held s p := hr
    have hne : q ≠ p := fun he => (absent_iff h).mp hr'.absent (he ▸ hq)
    exact (steady_loadFromFileLink hs h hroom hne w).content
  | remove g k x => exact (steady_remove hs h hroom (g, k) x).content
  | delta o g k incr d x =>
    refine (steady_delta hs h hroom (g, k) incr d x fun e he hx hlen hp => hdata ?_).content
    exact ⟨e, he, hp, hx, hp ▸ hlen⟩
  | flush g =>
    have hf := content_flush h hu g
    have hexec : s.exec env (.flush g) = (s.flush env g).map .flush id := rfl
    rw [hexec, Prod.map_snd, id_eq]
    exact hf
  | checkExpired => exact content_checkExpired h hu
  | releaseReference p =>
    have hle := ones_le q p
    exact (steady_released (steady_mono hs (by omega))).content
  | createWatch g x =>
    show (((s.createWatch g x).2).item q).content = _
    unfold createWatch getWatchId
    dsimp only
    split <;> rfl
  | checkWatchAndSetCallback sp g w ack x =>
    show (((s.checkWatchAndSetCallback sp g w ack x).2).item q).content = _
    unfold checkWatchAndSetCallback
    split <;> rfl
  | checkWatchAndClearCallback sp w =>
    show (((s.checkWatchAndClearCallback sp w).2).item q).content = _
    unfold checkWatchAndClearCallback
    split <;> rfl
  | setCurrentTime tt => rfl
  | connections alive => rfl

/-- An item to which there is a further reference. -/
theorem content_release (h : Core env held L s) (hu : 1 < held q) :
    ((s.doReleaseReference env q).item q).content = (s.item q).content := by
  have hcount := h.refCount q
  have hs : Steady env q (s.item q).content (1 + ones q q) s := by
    rw [ones_self]
    exact ⟨rfl, by omega, h.stored q⟩
  exact (steady_released hs).content

end SteadyLemmas

/-- What is in a held item stays, unless it is written to where it lies. -/
theorem content_exec {op : Op} (h : Core env held L s) (hroom : Room env held)
    (hr : Ready env held s op) (hu : 0 < held q)
    (hsub : op.subject = some q → op = .releaseReference q ∧ 1 < held q)
    (hflags : ¬ op.Reflags env s q) (hdata : ¬ op.Overwrites env s q) :
    ((s.exec env op).2.item q).content = (s.item q).content := by
  by_cases hq : Linked L q
  · exact content_linked h hroom hr hq hu hflags hdata
  · by_cases hs : op.subject = some q
    · obtain ⟨rfl, hheld⟩ := hsub hs
      exact content_release h hheld
    · obtain ⟨a, hsim⟩ := exec_refines ⟨L, h⟩ hroom hr
      have hslot := hsim.slot q ((absent_iff h).mpr hq) hu hs
      exact congrArg CacheItem.content (congrArg Prod.fst hslot)

end Xixi
