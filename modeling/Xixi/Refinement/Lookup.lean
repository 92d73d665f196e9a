import Xixi.Steps

/-!
# The cache manager refines the abstract store: operations on a key

For every public operation: in a well-formed state it answers what the abstract
operation answers on `abs env s`, leaves the abstract result, and keeps the
invariant. The reference count the invariant is stated for says what becomes of
the references: `get` and `get_touch` hand one out, and the mismatch exits of
`update_flags` and `update_expiration` lose one.

1. `Refines`: the outcome of an operation is the outcome of the abstract one.
2. `get_refines`, `getTouch_refines`, `updateFlags_refines`, `remove_refines`,
   `updateExpiration_refines`.
-/

namespace Xixi

open Xixi.Lists StepLemmas

variable {α : Type} {env : Env} {held : Ptr → Nat} {L L' : ListId → List Ptr} {s s' : CacheMgr}
  {p q : Ptr} {k : Key} {e : Entry}

/-- `ref_count` has room for what an operation adds to it. -/
def Room (env : Env) (held : Ptr → Nat) : Prop :=
  ∀ p n, n ≤ held p + 2 → env.refWidth.store n = n

/-- The outcome `r` of an operation is the outcome `a` of the abstract one. -/
structure Refines (env : Env) (held : Ptr → Nat) (r : α × CacheMgr) (a : α × Store) : Prop where
  inv : Inv env held r.2
  result : r.1 = a.1
  abs : abs env r.2 = a.2

/-! ## Looking up -/

namespace RefinementLemmas

/-- A key is free, or it is the key of a linked item. -/
theorem lookup (h : Core env held L s) (k : Key) :
    (abs env s).entry k = none ∨
      ∃ p, Linked L p ∧ (s.item p).ident = k ∧ (abs env s).entry k = some ((s.item p).entry p) := by
  cases he : (abs env s).entry k with
  | none => exact .inl rfl
  | some e =>
    obtain ⟨p, hp, hk, rfl⟩ := (abs_entry_iff h).mp he
    exact .inr ⟨p, hp, hk, rfl⟩

theorem find_linked (h : Core env held L s) (hp : Linked L p) :
    s.find (s.item p).ident.1 (s.item p).ident.2
      (env.hash32 (s.item p).ident.2 (s.item p).ident.1) = some p :=
  (h.find_iff _ _).mpr ⟨hp, rfl⟩

theorem find_none (he : (abs env s).entry k = none) :
    s.find k.1 k.2 (env.hash32 k.2 k.1) = none := Option.map_eq_none_iff.mp he

theorem doGet_linked (h : Core env held L s) (hp : Linked L p) :
    s.doGet env (s.item p).ident.1 (s.item p).ident.2
      (env.hash32 (s.item p).ident.2 (s.item p).ident.1) = (some p, s.addReference env p) := by
  simp only [CacheMgr.doGet, find_linked h hp]

theorem doGet_none (he : (abs env s).entry k = none) :
    s.doGet env k.1 k.2 (env.hash32 k.2 k.1) = (none, s) := by
  simp only [CacheMgr.doGet, find_none he]

/-- The reference an operation takes to the item it has found. -/
theorem take (h : Core env held L s) (hroom : Room env held) (hp : Linked L p) :
    ∃ s₁ : CacheMgr, s.addReference env p = s₁ ∧ Core env (bump held p) L s₁ ∧
      abs env s₁ = abs env s ∧ (s₁.item p).ident = (s.item p).ident ∧
      (s₁.item p).entry p = (s.item p).entry p := by
  have hr : env.refWidth.store ((s.item p).refCount + 1) = (s.item p).refCount + 1 := by
    rw [h.refCount p, linkCount_of_linked hp]
    exact hroom p _ (by omega)
  refine ⟨_, rfl, h.addReference (h.pos_of_linked hp) hr,
    h.abs_addReference (h.pos_of_linked hp) hr, ?_⟩
  rw [CacheMgr.addReference, CacheMgr.item_modify_self]
  exact ⟨rfl, rfl⟩

/-- A linked item changes in place: `e` is what it holds afterwards. -/
theorem core_modify (h : Core env held L s) (hp : Linked L p) {f : CacheItem → CacheItem} {e : Entry}
    (hr : (f (s.item p)).refCount = (s.item p).refCount)
    (hx : (f (s.item p)).expirationId = (s.item p).expirationId)
    (hk : (f (s.item p)).ident = (s.item p).ident) (he : (f (s.item p)).entry p = e) :
    ∃ s' : CacheMgr, s.modify p f = s' ∧ Core env held L s' ∧
      abs env s' = (abs env s).put (s.item p).ident (some e) ∧
      (s'.item p).ident = (s.item p).ident ∧ (s'.item p).entry p = e := by
  have h' := h.modify (f := f) (h.pos_of_linked hp) hr hx fun _ => hk
  refine ⟨_, rfl, h', ?_⟩
  rw [CacheMgr.item_modify_self, abs_modify_of_linked h h' hp hk, he]
  exact ⟨rfl, hk, rfl⟩

theorem release_inv (h : Core env (bump held p) L s) :
    Inv env held (s.doReleaseReference env p) ∧
      abs env (s.doReleaseReference env p) = abs env s := by
  obtain ⟨L', hc, -, ha⟩ := h.release
  exact ⟨⟨L', hc⟩, ha⟩

theorem release_stat (h : Core env (bump held p) L s) (c : StatCall) :
    Inv env held ((s.stat c).doReleaseReference env p) ∧
      abs env ((s.stat c).doReleaseReference env p) = abs env s :=
  release_inv (s := s.stat c) h

/-! ### Watches -/

theorem valid_of_watchOk {w : Nat} (hw : (abs env s).watchOk w = true) (h0 : w ≠ 0) :
    s.isValidWatchId w = true := by
  rw [Store.watchOk, live_eq] at hw
  simpa [h0] using hw

theorem not_valid_of_watchOk {w : Nat} (hw : ¬ (abs env s).watchOk w = true) :
    w ≠ 0 ∧ s.isValidWatchId w = false := by
  rw [Store.watchOk, live_eq] at hw
  simpa using hw

/-- A watch is added to an item in use. -/
theorem core_addWatchIf (h : Core env held L s) (hu : 0 < (s.item p).refCount) (w : Nat) :
    Core env held L (s.addWatchIf p w) := by
  unfold CacheMgr.addWatchIf
  split
  · exact h.modify hu rfl rfl fun _ => rfl
  · exact h

theorem abs_addWatchIf_of_linked (h : Core env held L s) (hp : Linked L p) (w : Nat) :
    abs env (s.addWatchIf p w) =
      (abs env s).put (s.item p).ident (some (((s.item p).entry p).addWatchIf w)) := by
  unfold CacheMgr.addWatchIf Entry.addWatchIf
  split
  · obtain ⟨s', hs', -, ha, -⟩ := core_modify h hp (f := fun it => it.addWatch w) rfl rfl rfl rfl
    rw [hs', ha]
    rfl
  · exact (Store.put_self (abs_entry_of_linked h hp)).symm

theorem abs_addWatchIf_of_not_linked (h : Core env held L s) (hu : 0 < (s.item p).refCount)
    (hn : ¬ Linked L p) (w : Nat) : abs env (s.addWatchIf p w) = abs env s := by
  have h' := core_addWatchIf h hu w
  unfold CacheMgr.addWatchIf at h' ⊢
  split at h' <;> rename_i hw
  · rw [if_pos hw]
    exact abs_modify_of_not_linked h h' hn
  · rw [if_neg hw]

/-- The end of `get` and of `get_touch`, once the item has been referenced: the
watch is added, or it is not there and the reference is released. -/
theorem watch_refines {β : Type} (h : Core env (bump held p) L s) (hp : Linked L p) (w : Nat)
    (x : β) (hit hitWatch miss : StatCall) :
    Refines env (if (abs env s).watchOk w then bump held p else held)
      (if w ≠ 0 then
        if s.isValidWatchId w then
          ((some x, Reason.success), (s.modify p fun it => it.addWatch w).stat hitWatch)
        else ((none, Reason.watchNotFound), (s.stat miss).doReleaseReference env p)
      else ((some x, Reason.success), s.stat hit))
      (if (abs env s).watchOk w then
        ((some x, Reason.success),
          (abs env s).put (s.item p).ident (some (((s.item p).entry p).addWatchIf w)))
      else ((none, Reason.watchNotFound), abs env s)) := by
  by_cases hw : (abs env s).watchOk w = true
  · have hc := core_addWatchIf h (h.pos_of_linked hp) w
    have ha := abs_addWatchIf_of_linked h hp w
    rw [if_pos hw, if_pos hw]
    unfold CacheMgr.addWatchIf at hc ha
    by_cases h0 : w = 0
    · rw [if_neg (not_not.mpr h0)] at hc ha ⊢
      exact ⟨⟨L, hc⟩, rfl, ha⟩
    · rw [if_pos h0, valid_of_watchOk hw h0] at *
      exact ⟨⟨L, hc⟩, rfl, ha⟩
  · obtain ⟨h0, hv⟩ := not_valid_of_watchOk hw
    obtain ⟨hi, ha⟩ := release_stat h miss
    rw [if_neg hw, if_neg hw, if_pos h0, hv]
    exact ⟨hi, rfl, ha⟩

end RefinementLemmas

open RefinementLemmas

/-! ## Operations on a key -/

theorem get_refines (h : Inv env held s) (hroom : Room env held) (k : Key) (w : Nat) (b : Bool) :
    Refines env (bumpOpt held (((abs env s).get k w).1.1.map Prod.fst)) (s.get env k.1 k.2 w b)
      ((abs env s).get k w) := by
  obtain ⟨L, h⟩ := h
  rcases lookup h k with he | ⟨p, hp, rfl, he⟩
  · have hg : s.get env k.1 k.2 w b = ((none, .notFound),
        s.stat (if b then .getBaseMiss k.1 else .getMiss k.1)) := by
      simp only [CacheMgr.get, CacheMgr.doGetExpiration, find_none he]
    rw [hg, Store.get, he]
    exact ⟨⟨L, h⟩, rfl, rfl⟩
  · generalize hx : (if (s.item p).expireTime = 0 then 0 else (s.item p).expireTime - s.currTime) = x
    by_cases hlive : (s.item p).expireTime = 0 ∨ s.currTime < (s.item p).expireTime
    · obtain ⟨s₁, hs₁, h₁, ha, hk, hen⟩ := take h hroom hp
      have hg : ∃ c₁ c₂ c₃, s.get env (s.item p).ident.1 (s.item p).ident.2 w b =
          if w ≠ 0 then
            if s₁.isValidWatchId w then
              ((some (p, x), .success), (s₁.modify p fun it => it.addWatch w).stat c₁)
            else ((none, .watchNotFound), (s₁.stat c₂).doReleaseReference env p)
          else ((some (p, x), .success), s₁.stat c₃) := by
        unfold CacheMgr.get CacheMgr.doGetExpiration
        rw [find_linked h hp, ← hx, ← hs₁]
        by_cases h0 : (s.item p).expireTime = 0
        · simp only [h0, if_true]
          cases b <;> exact ⟨_, _, _, rfl⟩
        · simp only [h0, if_false, if_pos (hlive.resolve_left h0)]
          cases b <;> exact ⟨_, _, _, rfl⟩
      have hst : (abs env s).get (s.item p).ident w =
          if (abs env s).watchOk w then
            ((some (p, x), .success), (abs env s).put (s.item p).ident
              (some (((s.item p).entry p).addWatchIf w)))
          else ((none, .watchNotFound), abs env s) := by
        rw [Store.get, he, ← hx]
        exact if_pos hlive
      obtain ⟨c₁, c₂, c₃, hg⟩ := hg
      have hr := watch_refines h₁ hp w (p, x) c₃ c₁ c₂
      rw [ha, hk, hen, ← hg] at hr
      rw [hst]
      by_cases hw : (abs env s).watchOk w = true
      · rw [if_pos hw, if_pos hw] at hr
        rw [if_pos hw]
        exact hr
      · rw [if_neg hw, if_neg hw] at hr
        rw [if_neg hw]
        exact hr
    · obtain ⟨L', h', -, ha⟩ := h.unlink hp .expired
      have hg : s.get env (s.item p).ident.1 (s.item p).ident.2 w b = ((none, .notFound),
          (s.doUnlink env p .expired).stat
            (if b then .getBaseMiss (s.item p).ident.1 else .getMiss (s.item p).ident.1)) := by
        rw [not_or] at hlive
        simp only [CacheMgr.get, CacheMgr.doGetExpiration, find_linked h hp, if_neg hlive.1,
          if_neg hlive.2]
      have hst : (abs env s).get (s.item p).ident w =
          ((none, .notFound), (abs env s).unlink (s.item p).ident .expired) := by
        rw [Store.get, he]
        exact if_neg hlive
      rw [hg, hst]
      exact ⟨⟨L', h'⟩, rfl, ha⟩

theorem getTouch_refines (h : Inv env held s) (hroom : Room env held) (k : Key) (w x : Nat) :
    Refines env
      (bumpOpt held ((abs env s).getTouch k w (CacheMgr.realtime s.currTime x)).1.1)
      (s.getTouch env k.1 k.2 w x)
      ((abs env s).getTouch k w (CacheMgr.realtime s.currTime x)) := by
  obtain ⟨L, h⟩ := h
  rcases lookup h k with he | ⟨p, hp, rfl, he⟩
  · have hg : s.getTouch env k.1 k.2 w x = ((none, .notFound), s.stat (.getTouchMiss k.1)) := by
      simp only [CacheMgr.getTouch, CacheMgr.doGetTouch, find_none he]
    rw [hg, Store.getTouch, he]
    exact ⟨⟨L, h⟩, rfl, rfl⟩
  · obtain ⟨s₁, hs₁, h₁, ha₁, hk₁, hen₁⟩ := take h hroom hp
    generalize hx : CacheMgr.realtime s.currTime x = t
    obtain ⟨s₂, hs₂, h₂, ha₂, hk₂, hen₂⟩ := core_modify h₁ hp
      (f := fun it => { it with expireTime := t }) (e := { (s.item p).entry p with expireTime := t })
      rfl rfl rfl (by rw [← hen₁]; rfl)
    rw [ha₁, hk₁] at ha₂
    rw [hk₁] at hk₂
    have hg : ∃ c₁ c₂ c₃, s.getTouch env (s.item p).ident.1 (s.item p).ident.2 w x =
        if w ≠ 0 then
          if s₂.isValidWatchId w then
            ((some p, .success), (s₂.modify p fun it => it.addWatch w).stat c₁)
          else ((none, .watchNotFound), (s₂.stat c₂).doReleaseReference env p)
        else ((some p, .success), s₂.stat c₃) := by
      unfold CacheMgr.getTouch CacheMgr.doGetTouch
      rw [find_linked h hp, ← hs₂, ← hs₁, ← hx]
      exact ⟨_, _, _, rfl⟩
    have hst : (abs env s).getTouch (s.item p).ident w t =
        if (abs env s).watchOk w then
          ((some p, .success), (abs env s).put (s.item p).ident
            (some ({ (s.item p).entry p with expireTime := t }.addWatchIf w)))
        else ((none, .watchNotFound), (abs env s).put (s.item p).ident
          (some { (s.item p).entry p with expireTime := t })) := by
      rw [Store.getTouch, he]
      rfl
    obtain ⟨c₁, c₂, c₃, hg⟩ := hg
    have hr := watch_refines h₂ hp w p c₃ c₁ c₂
    have hwk : (abs env s₂).watchOk w = (abs env s).watchOk w := by rw [ha₂]; rfl
    rw [← hg, hwk, hk₂, hen₂, ha₂, Store.put_put] at hr
    rw [hst]
    by_cases hw : (abs env s).watchOk w = true
    · rw [if_pos hw, if_pos hw] at hr
      rw [if_pos hw]
      exact hr
    · rw [if_neg hw, if_neg hw] at hr
      rw [if_neg hw]
      exact hr

namespace RefinementLemmas

/-- `if (it->watch_item != NULL) notify_watch(it, type);` on a linked item. -/
theorem core_notifyIf (h : Core env held L s) (hp : Linked L p) (t : NotifyType)
    (he : (s.item p).entry p = e) :
    ∃ s' : CacheMgr, (if (s.item p).watchItem.isSome then s.notifyWatch p t else s) = s' ∧
      Core env held L s' ∧
      abs env s' = ((abs env s).notify e.watchIds e.cacheId t).put (s.item p).ident
        (some { e with watch := e.watch.map fun ws => ws.keep (abs env s).live }) ∧
      (s'.item p).ident = (s.item p).ident ∧ (s'.item p).entry p =
        { e with watch := e.watch.map fun ws => ws.keep (abs env s).live } := by
  subst he
  cases hw : (s.item p).watchItem with
  | none =>
    have hsame : { (s.item p).entry p with
        watch := ((s.item p).entry p).watch.map fun ws => ws.keep (abs env s).live } =
        (s.item p).entry p := by simp [CacheItem.entry, hw]
    have hids : ((s.item p).entry p).watchIds = [] := by simp [Entry.watchIds, CacheItem.entry, hw]
    refine ⟨s, rfl, h, ?_, rfl, hsame.symm⟩
    rw [hsame, hids, Store.notify_nil, Store.put_self (abs_entry_of_linked h hp)]
  | some ws =>
    have hids : ((s.item p).entry p).watchIds = ws.ids := by simp [Entry.watchIds, CacheItem.entry, hw]
    obtain ⟨s₁, hn, hs₁, ha⟩ := notifyWatch_spec env hw t
    have hi : s₁.item = s.item := by rw [hs₁]
    have h₁ : Core env held L s₁ := by
      rw [hs₁]
      exact h
    obtain ⟨s₂, hs₂, h₂, ha₂, hk₂, hen₂⟩ := core_modify h₁ hp
      (f := fun it => { it with watchItem := some (ws.keep (abs env s).live) })
      (e := { (s.item p).entry p with
        watch := ((s.item p).entry p).watch.map fun ws => ws.keep (abs env s).live })
      rfl rfl rfl (by simp [CacheItem.entry, CacheItem.data, CacheItem.ext, hi, hw])
    rw [hi] at hk₂ ha₂
    refine ⟨s₂, by rw [Option.isSome_some, if_pos rfl, hn, hs₂], h₂, ?_, hk₂, hen₂⟩
    rw [ha₂, ha, hids]
    rfl

/-- `it->cache_id = get_cache_id();` together with other changes of a linked item. -/
theorem core_reissue (h : Core env held L s) (hp : Linked L p) {f : CacheItem → CacheItem}
    (hr : (f (s.item p)).refCount = (s.item p).refCount)
    (hx : (f (s.item p)).expirationId = (s.item p).expirationId)
    (hk : (f (s.item p)).ident = (s.item p).ident)
    (he : (f (s.item p)).entry p = { e with cacheId := (abs env s).nextId }) :
    ∃ s' : CacheMgr, CacheMgr.modify { s with lastCacheId := (abs env s).nextId } p f = s' ∧
      Core env held L s' ∧ abs env s' = (abs env s).link (s.item p).ident e := by
  obtain ⟨s₁, hs₁, h₁, ha, -⟩ := core_modify h hp hr hx hk he
  refine ⟨_, rfl, ?_, ?_⟩
  · rw [← hs₁] at h₁
    exact h₁
  · rw [Store.link, ← ha, ← hs₁]
    rfl

end RefinementLemmas

/-- The item whose reference is lost when the cache id does not match. -/
def mismatched (st : Store) (k : Key) (cacheId : Nat) : Option Ptr :=
  (st.entry k).bind fun e => if cacheId = 0 ∨ cacheId = e.cacheId then none else some e.ptr

namespace RefinementLemmas

theorem mismatched_none {st : Store} {x : Nat} (he : st.entry k = none) :
    mismatched st k x = none := by rw [mismatched, he]; rfl

theorem mismatched_match {st : Store} {x : Nat} (he : st.entry k = some e)
    (hx : x = 0 ∨ x = e.cacheId) : mismatched st k x = none := by
  rw [mismatched, he]
  exact if_pos hx

theorem mismatched_mismatch {st : Store} {x : Nat} (he : st.entry k = some e)
    (hx : ¬ (x = 0 ∨ x = e.cacheId)) : mismatched st k x = some e.ptr := by
  rw [mismatched, he]
  exact if_neg hx

end RefinementLemmas

theorem updateFlags_refines (h : Inv env held s) (hroom : Room env held) (k : Key) (x fl : Nat) :
    Refines env (bumpOpt held (mismatched (abs env s) k x)) (s.updateFlags env k.1 k.2 x fl)
      ((abs env s).updateFlags k x fl) := by
  obtain ⟨L, h⟩ := h
  rcases lookup h k with he | ⟨p, hp, rfl, he⟩
  · have hg : s.updateFlags env k.1 k.2 x fl = ((false, 0), s.stat (.updateFlagsMiss k.1)) := by
      simp only [CacheMgr.updateFlags, doGet_none he]
    rw [hg, Store.updateFlags, he, mismatched_none he]
    exact ⟨⟨L, h⟩, rfl, rfl⟩
  · obtain ⟨s₁, hs₁, h₁, ha₁, hk₁, hen₁⟩ := take h hroom hp
    have hid₁ : (s₁.item p).cacheId = (s.item p).cacheId := congrArg Entry.cacheId hen₁
    by_cases hx : x = 0 ∨ x = (s.item p).cacheId
    · -- the flags, the notification under the old id, the new id
      obtain ⟨s₂, hs₂, h₂, ha₂, hk₂, hen₂⟩ := core_modify h₁ hp
        (f := fun it => { it with flags := fl }) (e := { (s.item p).entry p with flags := fl })
        rfl rfl rfl (by rw [← hen₁]; rfl)
      obtain ⟨s₃, hs₃, h₃, ha₃, hk₃, hen₃⟩ := core_notifyIf h₂ hp .baseInfoUpdated hen₂
      have hlive : (abs env s₂).live = (abs env s).live := by rw [ha₂, ha₁]; rfl
      rw [hk₂, hk₁] at hk₃
      rw [hk₂, hk₁, ha₂, ha₁, hk₁, Store.notify_put, Store.put_put] at ha₃
      obtain ⟨s₄, hs₄, h₄, ha₄⟩ := core_reissue h₃ hp (f := fun it =>
        { it with cacheId := (abs env s₃).nextId, lastUpdateTime := s₃.currTime })
        (e := { (s.item p).entry p with
          flags := fl
          watch := (s.item p).watchItem.map fun ws => ws.keep (abs env s).live })
        rfl rfl rfl (by
          rw [hlive] at hen₃
          exact congrArg (fun e : Entry => { e with cacheId := (abs env s₃).nextId }) hen₃)
      rw [hk₃, ha₃, Store.put_link] at ha₄
      have hg : ∃ c, s.updateFlags env (s.item p).ident.1 (s.item p).ident.2 x fl =
          ((true, (abs env s₃).nextId), (s₄.stat c).doReleaseReference env p) := by
        unfold CacheMgr.updateFlags
        rw [doGet_linked h hp]
        simp only [hs₁, hid₁, if_pos hx, hs₂, hs₃, nextId_abs env, hs₄]
        exact ⟨_, rfl⟩
      have hst : (abs env s).updateFlags (s.item p).ident x fl =
          ((true, (abs env s).nextId),
            ((abs env s).notify ((s.item p).entry p).watchIds (s.item p).cacheId
              .baseInfoUpdated).link (s.item p).ident { (s.item p).entry p with
                flags := fl
                watch := (s.item p).watchItem.map fun ws => ws.keep (abs env s).live }) := by
        rw [Store.updateFlags, he]
        exact if_pos hx
      obtain ⟨c, hg⟩ := hg
      obtain ⟨hi, ha₅⟩ := release_stat h₄ c
      rw [hg, hst, mismatched_match he hx]
      refine ⟨hi, ?_, ha₅.trans ha₄⟩
      rw [ha₃]
      rfl
    · have hg : ∃ c, s.updateFlags env (s.item p).ident.1 (s.item p).ident.2 x fl =
          ((false, (s.item p).cacheId), s₁.stat c) := by
        unfold CacheMgr.updateFlags
        rw [doGet_linked h hp]
        simp only [hs₁, hid₁, if_neg hx]
        exact ⟨_, rfl⟩
      obtain ⟨c, hg⟩ := hg
      have hst : (abs env s).updateFlags (s.item p).ident x fl =
          ((false, (s.item p).cacheId), abs env s) := by
        rw [Store.updateFlags, he]
        exact if_neg hx
      rw [hg, hst, mismatched_mismatch he hx]
      exact ⟨⟨L, h₁⟩, rfl, ha₁⟩

theorem remove_refines (h : Inv env held s) (hroom : Room env held) (k : Key) (x : Nat) :
    Refines env held (s.remove env k.1 k.2 x) ((abs env s).remove k x) := by
  obtain ⟨L, h⟩ := h
  rcases lookup h k with he | ⟨p, hp, rfl, he⟩
  · have hg : s.remove env k.1 k.2 x = (.notFound, s.stat (.deleteMiss k.1)) := by
      simp only [CacheMgr.remove, doGet_none he]
    rw [hg, Store.remove, he]
    exact ⟨⟨L, h⟩, rfl, rfl⟩
  · obtain ⟨s₁, hs₁, h₁, ha₁, hk₁, hen₁⟩ := take h hroom hp
    have hid₁ : (s₁.item p).cacheId = (s.item p).cacheId := congrArg Entry.cacheId hen₁
    by_cases hx : x = 0 ∨ x = (s.item p).cacheId
    · have hg : ∃ c, s.remove env (s.item p).ident.1 (s.item p).ident.2 x =
          (.success, ((s₁.stat c).doUnlink env p .deleted).doReleaseReference env p) := by
        unfold CacheMgr.remove
        rw [doGet_linked h hp]
        simp only [hs₁, hid₁, if_pos hx]
        exact ⟨_, rfl⟩
      obtain ⟨c, hg⟩ := hg
      obtain ⟨L₂, h₂, -, ha₂⟩ := Core.unlink (s := s₁.stat c) h₁ hp .deleted
      obtain ⟨hi, ha₃⟩ := release_inv h₂
      have hst : (abs env s).remove (s.item p).ident x =
          (.success, (abs env s).unlink (s.item p).ident .deleted) := by
        rw [Store.remove, he]
        exact if_pos hx
      rw [hg, hst, ← ha₁, ← hk₁]
      exact ⟨hi, rfl, ha₃.trans ha₂⟩
    · have hg : ∃ c, s.remove env (s.item p).ident.1 (s.item p).ident.2 x =
          (.mismatch, (s₁.stat c).doReleaseReference env p) := by
        unfold CacheMgr.remove
        rw [doGet_linked h hp]
        simp only [hs₁, hid₁, if_neg hx]
        exact ⟨_, rfl⟩
      obtain ⟨c, hg⟩ := hg
      obtain ⟨hi, ha₂⟩ := release_stat h₁ c
      have hst : (abs env s).remove (s.item p).ident x = (.mismatch, abs env s) := by
        rw [Store.remove, he]
        exact if_neg hx
      rw [hg, hst]
      exact ⟨hi, rfl, ha₂.trans ha₁⟩

namespace RefinementLemmas

/-- The change of the expire list in `update_expiration`. -/
theorem core_moveIf {j : Nat} (h : Core env held L s) (hp : Linked L p) (hj : j < 34) :
    ∃ (s' : CacheMgr) (L' : ListId → List Ptr), (if j ≠ (s.item p).expirationId then
        s.moveExpire p (s.item p).expirationId j else s) = s' ∧
      Core env held L' s' ∧ Linked L' p ∧ abs env s' = abs env s ∧
      (s'.item p).ident = (s.item p).ident ∧ (s'.item p).entry p = (s.item p).entry p := by
  by_cases hne : j ≠ (s.item p).expirationId
  · obtain ⟨h', ha⟩ := h.move (h.mem_of_linked hp) hj
    rw [if_pos hne]
    refine ⟨_, _, rfl, h', (linked_move h.rep hp p).mpr hp, ha, ?_⟩
    rw [CacheMgr.item_moveExpire_self]
    exact ⟨rfl, rfl⟩
  · rw [if_neg hne]
    exact ⟨s, L, rfl, h, hp, rfl, rfl, rfl⟩

end RefinementLemmas

theorem updateExpiration_refines (h : Inv env held s) (hroom : Room env held) (k : Key) (x y : Nat) :
    Refines env (bumpOpt held (mismatched (abs env s) k x)) (s.updateExpiration env k.1 k.2 x y)
      ((abs env s).updateExpiration k x (CacheMgr.realtime s.currTime y)) := by
  obtain ⟨L, h⟩ := h
  rcases lookup h k with he | ⟨p, hp, rfl, he⟩
  · have hg : s.updateExpiration env k.1 k.2 x y =
        ((false, 0), s.stat (.updateExpirationMiss k.1)) := by
      simp only [CacheMgr.updateExpiration, doGet_none he]
    rw [hg, Store.updateExpiration, he, mismatched_none he]
    exact ⟨⟨L, h⟩, rfl, rfl⟩
  · obtain ⟨s₁, hs₁, h₁, ha₁, hk₁, hen₁⟩ := take h hroom hp
    have hid₁ : (s₁.item p).cacheId = (s.item p).cacheId := congrArg Entry.cacheId hen₁
    have ht₁ : s₁.currTime = s.currTime := congrArg Store.currTime ha₁
    by_cases hx : x = 0 ∨ x = (s.item p).cacheId
    · -- the change of the list, then the new expire time
      generalize ht : CacheMgr.realtime s.currTime y = t
      obtain ⟨s₂, L₂, hs₂, h₂, hp₂, ha₂, hk₂, hen₂⟩ :=
        core_moveIf h₁ hp (getExpirationId_lt s.currTime t)
      obtain ⟨s₃, hs₃, h₃, ha₃, hk₃, hen₃⟩ := core_modify h₂ hp₂
        (f := fun it => { it with expireTime := t })
        (e := { (s.item p).entry p with expireTime := t }) rfl rfl rfl
        (by rw [← hen₁, ← hen₂]; rfl)
      rw [hk₂, hk₁, ha₂, ha₁] at ha₃
      have hid₃ : (s₃.item p).cacheId = (s.item p).cacheId := congrArg Entry.cacheId hen₃
      have hg : ∃ c, s.updateExpiration env (s.item p).ident.1 (s.item p).ident.2 x y =
          ((true, (s.item p).cacheId), (s₃.stat c).doReleaseReference env p) := by
        unfold CacheMgr.updateExpiration
        rw [doGet_linked h hp]
        simp only [hs₁, hid₁, if_pos hx, ht₁, ht]
        rw [hs₂, hs₃, hid₃]
        exact ⟨_, rfl⟩
      have hst : (abs env s).updateExpiration (s.item p).ident x t =
          ((true, (s.item p).cacheId), (abs env s).put (s.item p).ident
            (some { (s.item p).entry p with expireTime := t })) := by
        rw [Store.updateExpiration, he]
        exact if_pos hx
      obtain ⟨c, hg⟩ := hg
      obtain ⟨hi, ha₄⟩ := release_stat h₃ c
      rw [hg, hst, mismatched_match he hx]
      exact ⟨hi, rfl, ha₄.trans ha₃⟩
    · have hg : ∃ c, s.updateExpiration env (s.item p).ident.1 (s.item p).ident.2 x y =
          ((false, 2 ^ 64 - 1), s₁.stat c) := by
        unfold CacheMgr.updateExpiration
        rw [doGet_linked h hp]
        simp only [hs₁, hid₁, if_neg hx]
        exact ⟨_, rfl⟩
      obtain ⟨c, hg⟩ := hg
      have hst : (abs env s).updateExpiration (s.item p).ident x (CacheMgr.realtime s.currTime y) =
          ((false, 2 ^ 64 - 1), abs env s) := by
        rw [Store.updateExpiration, he]
        exact if_neg hx
      rw [hg, hst, mismatched_mismatch he hx]
      exact ⟨⟨L, h₁⟩, rfl, ha₁⟩

end Xixi
