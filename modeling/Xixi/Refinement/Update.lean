import Xixi.Refinement.Lookup

/-!
# The cache manager refines the abstract store: operations on a request item

`add`, `set`, `replace`, `append`, `prepend` and `load_from_file` work on an item
that the caller has allocated and filled; `append`, `prepend` and `delta` allocate
another one under the lock.

1. `Request`: the item a caller passes in.
2. `add_refines`, `set_refines`, `replace_refines`, `loadFromFileLink_refines`.
3. `append_refines`, `prepend_refines`, `delta_refines`: the item they allocate is
   an argument of the abstract operation, and `NewEntry` says what is in it.
-/

namespace Xixi

open Xixi.Lists StepLemmas RefinementLemmas

variable {α : Type} {env : Env} {held : Ptr → Nat} {L L' : ListId → List Ptr} {s s' : CacheMgr}
  {p q : Ptr} {k : Key} {e : Entry} {o : Malloc}

/-- The caller holds the item, it is not linked, and its key and hash value have
been filled in. -/
structure Request (env : Env) (held : Ptr → Nat) (s : CacheMgr) (p : Ptr) : Prop where
  held : 0 < held p
  absent : (abs env s).Absent p
  hash : s.cacheHashMap.hashValue p = env.hash32 (s.item p).key (s.item p).groupId
  keyLength : (s.item p).keyLength < 2 ^ 16

namespace RefinementLemmas

theorem Request.not_linked {held' : Ptr → Nat} (hr : Request env held s p)
    (h : Core env held' L s) : ¬ Linked L p := (absent_iff h).mp hr.absent

theorem doGetOf_none (hr : Request env held s p)
    (he : (abs env s).entry (s.item p).ident = none) : s.doGetOf env p = (none, s) := by
  rw [CacheMgr.doGetOf, hr.hash]
  exact doGet_none he

theorem doGetOf_linked (hr : Request env held s p) (h : Core env held L s) (hq : Linked L q)
    (hk : (s.item q).ident = (s.item p).ident) :
    s.doGetOf env p = (some q, s.addReference env q) := by
  have hd := doGet_linked h hq
  rw [hk] at hd
  rw [CacheMgr.doGetOf, hr.hash]
  exact hd

/-- `do_link` of a held item whose key is free. -/
theorem core_link (h : Core env held L s) (hu : 0 < held p) (hn : ¬ Linked L p)
    (hh : s.cacheHashMap.hashValue p = env.hash32 (s.item p).key (s.item p).groupId)
    (hroom : Room env held) (hfree : (abs env s).entry (s.item p).ident = none) :
    ∃ (s' : CacheMgr) (L' : ListId → List Ptr), s.doLink env o p = s' ∧ Core env held L' s' ∧
      (∀ q, Linked L' q ↔ Linked L q ∨ q = p) ∧
      abs env s' = (abs env s).link (s.item p).ident ((s.item p).entry p) ∧
      (∀ q, q ≠ p → s'.item q = s.item q) ∧ (s'.item p).ident = (s.item p).ident ∧
      (s'.item p).entry p = { (s.item p).entry p with cacheId := (abs env s).nextId } := by
  have hrm : env.refWidth.store ((s.item p).refCount + 1) = (s.item p).refCount + 1 := by
    rw [h.refCount p, linkCount_of_not hn]
    exact hroom p _ (by omega)
  obtain ⟨L', hc, hL, ha⟩ := h.link (o := o) hu hn hh (fun q hq hk => by
    rw [← hk, abs_entry_of_linked h hq] at hfree
    exact nomatch hfree) hrm
  refine ⟨_, L', rfl, hc, hL, ha, fun q hq => ?_, ?_⟩
  · rw [doLink_eq]
    exact Function.update_of_ne hq ..
  · rw [doLink_eq]
    simp only [Function.update_self]
    exact ⟨rfl, rfl⟩

end RefinementLemmas

/-! ## Linking a new key -/

namespace RefinementLemmas

/-- The watch check of `add` leaves the item with the watch, or reports it missing. -/
theorem checkWatchAdd_eq (env : Env) (s : CacheMgr) (p : Ptr) (w : Nat)
    (f g : Nat → Nat → Nat → StatCall) (m : Nat → Nat → StatCall) :
    ∃ c, s.checkWatchAdd env p w f g m =
      if (abs env s).watchOk w then (true, (s.addWatchIf p w).stat c) else (false, s.stat c) := by
  unfold CacheMgr.checkWatchAdd CacheMgr.addWatchIf
  by_cases hw : (abs env s).watchOk w = true
  · by_cases h0 : w = 0
    · simp only [if_pos hw, if_neg (not_not.mpr h0)]
      exact ⟨_, rfl⟩
    · simp only [if_pos hw, if_pos h0, valid_of_watchOk hw h0]
      exact ⟨_, rfl⟩
  · obtain ⟨h0, hv⟩ := not_valid_of_watchOk hw
    simp only [if_neg hw, if_pos h0, hv]
    exact ⟨_, rfl⟩

/-- The watch check and `do_link`, when the key of the request is free. -/
theorem link_watched (h : Core env held L s) (hroom : Room env held) (hr : Request env held s p)
    (he : (abs env s).entry (s.item p).ident = none) (w : Nat) (c : StatCall) :
    ∃ s' : CacheMgr, ((s.addWatchIf p w).stat c).doLink env o p = s' ∧ Inv env held s' ∧
      abs env s' = (abs env s).link (s.item p).ident (((s.item p).entry p).addWatchIf w) ∧
      (s'.item p).cacheId = (abs env s).nextId := by
  have hn := Request.not_linked hr h
  have hpos := h.pos_of_held hr.held
  have h₁ := core_addWatchIf h hpos w
  have ha₁ := abs_addWatchIf_of_not_linked h hpos hn w
  have hit : ((s.addWatchIf p w).item p).ident = (s.item p).ident ∧
      ((s.addWatchIf p w).item p).entry p = ((s.item p).entry p).addWatchIf w := by
    unfold CacheMgr.addWatchIf Entry.addWatchIf
    split
    · rw [CacheMgr.item_modify_self]
      exact ⟨rfl, rfl⟩
    · exact ⟨rfl, rfl⟩
  have hhash : (s.addWatchIf p w).cacheHashMap = s.cacheHashMap := by
    unfold CacheMgr.addWatchIf
    split <;> rfl
  obtain ⟨hg, hk⟩ := Prod.mk.inj hit.1
  obtain ⟨s', L', hs', h', -, ha', -, -, hen'⟩ := core_link (o := o) (s := (s.addWatchIf p w).stat c)
    h₁ hr.held hn (by
      show (s.addWatchIf p w).cacheHashMap.hashValue p =
        env.hash32 ((s.addWatchIf p w).item p).key ((s.addWatchIf p w).item p).groupId
      rw [hg, hk, hhash, hr.hash]) hroom (by
      show (abs env (s.addWatchIf p w)).entry ((s.addWatchIf p w).item p).ident = none
      rw [ha₁, hit.1, he])
  refine ⟨s', hs', ⟨L', h'⟩, ?_, ?_⟩
  · rw [ha']
    show (abs env (s.addWatchIf p w)).link ((s.addWatchIf p w).item p).ident
      (((s.addWatchIf p w).item p).entry p) = _
    rw [ha₁, hit.1, hit.2]
  · have := congrArg Entry.cacheId hen'
    rw [← ha₁]
    exact this

end RefinementLemmas

theorem add_refines (h : Inv env held s) (hroom : Room env held) (hr : Request env held s p)
    (w : Nat) :
    Refines env held (s.add env o p w) ((abs env s).add (s.item p).ident ((s.item p).entry p) w) := by
  obtain ⟨L, h⟩ := h
  rcases lookup h (s.item p).ident with he | ⟨q, hq, hk, he⟩
  · obtain ⟨c, hcheck⟩ := checkWatchAdd_eq env s p w .addSuccess .addSuccessWatch .addWatchMiss
    unfold CacheMgr.add
    rw [doGetOf_none hr he, Store.add, he]
    simp only [hcheck]
    by_cases hw : (abs env s).watchOk w = true
    · obtain ⟨s', hs', hi, ha, hid⟩ := link_watched (o := o) h hroom hr he w c
      simp only [if_pos hw, hs', hid]
      exact ⟨hi, rfl, ha⟩
    · simp only [if_neg hw]
      exact ⟨⟨L, h⟩, rfl, rfl⟩
  · obtain ⟨s₁, hs₁, h₁, ha₁, -⟩ := take h hroom hq
    obtain ⟨⟨L₂, h₂⟩, ha₂⟩ := release_inv h₁
    unfold CacheMgr.add
    rw [doGetOf_linked hr h hq hk, hs₁, Store.add, he]
    exact ⟨⟨L₂, h₂⟩, rfl, ha₂.trans ha₁⟩

/-- The reference to the request item goes back to the caller, is released, or is
exchanged for one to the item that is already linked. -/
theorem loadFromFileLink_refines (h : Inv env (bump held p) s) (hroom : Room env (bump held p))
    (hr : Request env (bump held p) s p) (w : Nat) :
    Refines env
      (bumpOpt held ((abs env s).loadFromFileLink (s.item p).ident ((s.item p).entry p) w).1.1)
      (s.loadFromFileLink env o p w)
      ((abs env s).loadFromFileLink (s.item p).ident ((s.item p).entry p) w) := by
  obtain ⟨L, h⟩ := h
  rcases lookup h (s.item p).ident with he | ⟨q, hq, hk, he⟩
  · obtain ⟨c, hcheck⟩ := checkWatchAdd_eq env s p w .addSuccess .addSuccessWatch .addWatchMiss
    unfold CacheMgr.loadFromFileLink
    rw [doGetOf_none hr he, Store.loadFromFileLink, he]
    simp only [hcheck]
    by_cases hw : (abs env s).watchOk w = true
    · obtain ⟨s', hs', hi, ha, hid⟩ := link_watched (o := o) h hroom hr he w c
      simp only [if_pos hw, hs']
      exact ⟨hi, rfl, ha⟩
    · obtain ⟨hi, ha⟩ := release_stat h c
      simp only [if_neg hw]
      exact ⟨hi, rfl, ha⟩
  · obtain ⟨s₁, hs₁, h₁, ha₁, -⟩ := take h hroom hq
    rw [bump_comm] at h₁
    obtain ⟨hi, ha₂⟩ := release_inv h₁
    unfold CacheMgr.loadFromFileLink
    rw [doGetOf_linked hr h hq hk, hs₁, Store.loadFromFileLink, he]
    exact ⟨hi, rfl, ha₂.trans ha₁⟩

/-! ## Replacing an item -/

namespace RefinementLemmas

/-- `do_replace` of a linked item by a held one with the same key. -/
theorem core_replace (h : Core env held L s) (hq : Linked L q) (hu : 0 < held p)
    (hn : ¬ Linked L p) (hk : (s.item p).ident = (s.item q).ident)
    (hh : s.cacheHashMap.hashValue p = env.hash32 (s.item p).key (s.item p).groupId)
    (hroom : env.refWidth.store (held p + 1) = held p + 1) :
    ∃ (s' : CacheMgr) (L' : ListId → List Ptr), s.doReplace env o q p = s' ∧ Core env held L' s' ∧
      (∀ r, Linked L' r ↔ (Linked L r ∧ r ≠ q) ∨ r = p) ∧
      abs env s' =
        ((abs env s).unlink (s.item q).ident .dataUpdated).link (s.item q).ident ((s.item p).entry p) ∧
      (∀ r, r ≠ p → r ≠ q → s'.item r = s.item r) ∧ (s'.item p).ident = (s.item q).ident ∧
      (s'.item p).entry p = { (s.item p).entry p with cacheId := (abs env s).nextId } := by
  have hne : p ≠ q := fun he => hn (he ▸ hq)
  obtain ⟨L₁, h₁, hL₁, ha₁⟩ := h.unlink hq .dataUpdated
  have hit := CacheMgr.item_unlink_of_ne env s .dataUpdated hne
  have hL : ∀ r, Linked L₁ r ↔ Linked L r ∧ r ≠ q := fun r =>
    (linked_congr (L := fun j => (L j).erase q) hL₁ r).trans (linked_erase h.rep r)
  have hn₁ : ¬ Linked L₁ p := fun hl => hn ((hL p).mp hl).1
  have hrm : env.refWidth.store (((s.doUnlink env q .dataUpdated).item p).refCount + 1) =
      ((s.doUnlink env q .dataUpdated).item p).refCount + 1 := by
    rw [h₁.refCount p, linkCount_of_not hn₁, Nat.zero_add]
    exact hroom
  obtain ⟨L₂, h₂, hL₂, ha₂⟩ := h₁.link (o := o) hu hn₁
    (by rw [CacheMgr.hashValue_unlink, hit]; exact hh)
    (fun r hr hrk => by
      have hrq := (hL r).mp hr
      rw [CacheMgr.item_unlink_of_ne env s .dataUpdated hrq.2, hit, hk] at hrk
      exact hrq.2 (h.inj hrq.1 hq hrk)) hrm
  refine ⟨_, L₂, rfl, h₂, fun r => by rw [hL₂, hL], ?_, fun r hrp hrq => ?_, ?_⟩
  · rw [CacheMgr.doReplace, ha₂, hit, ha₁, hk]
  · rw [CacheMgr.doReplace, doLink_eq]
    refine (Function.update_of_ne hrp ..).trans ?_
    exact CacheMgr.item_unlink_of_ne env s .dataUpdated hrq
  · rw [CacheMgr.doReplace, doLink_eq]
    simp only [Function.update_self, linkedItem, hit, ha₁, Store.nextId_unlink]
    exact ⟨hk, rfl⟩

theorem checkWatchReplace_eq (env : Env) (s : CacheMgr) (p q : Ptr) (w : Nat)
    (f g : Nat → Nat → Nat → StatCall) (m : Nat → Nat → StatCall) :
    ∃ c, s.checkWatchReplace env p q w f g m = ((abs env s).watchOk w, s.stat c) := by
  unfold CacheMgr.checkWatchReplace
  by_cases hw : (abs env s).watchOk w = true
  · by_cases h0 : w = 0
    · simp only [hw, if_neg (not_not.mpr h0)]
      exact ⟨_, rfl⟩
    · simp only [hw, if_pos h0, valid_of_watchOk hw h0]
      exact ⟨_, rfl⟩
  · obtain ⟨h0, hv⟩ := not_valid_of_watchOk hw
    simp only [hw, if_pos h0, hv]
    exact ⟨_, rfl⟩

/-- What `set` and `replace` do when they have found an item and may replace it. -/
theorem replace_found (h : Core env held L s) (hroom : Room env held) (hr : Request env held s p)
    (hq : Linked L q) (hk : (s.item q).ident = (s.item p).ident) (w : Nat) (c : StatCall) :
    ∃ s' : CacheMgr,
      (((s.addReference env q).stat c).doReplace env o q p).addWatchIf p w = s' ∧
      (s'.item p).cacheId = (abs env s).nextId ∧
      Inv env held (s'.doReleaseReference env q) ∧
      abs env (s'.doReleaseReference env q) =
        ((abs env s).unlink (s.item p).ident .dataUpdated).link (s.item p).ident
          (((s.item p).entry p).addWatchIf w) := by
  have hn := Request.not_linked hr h
  have hne : p ≠ q := fun he => hn (he ▸ hq)
  obtain ⟨s₁, hs₁, h₁, ha₁, hk₁, -⟩ := take h hroom hq
  have hit₁ : s₁.item p = s.item p := by
    rw [← hs₁]
    exact CacheMgr.item_modify_of_ne s _ hne
  have hhash : s₁.cacheHashMap = s.cacheHashMap := by rw [← hs₁]; rfl
  obtain ⟨s₂, L₂, hs₂, h₂, hL₂, ha₂, -, hk₂, hen₂⟩ :=
    core_replace (o := o) (p := p) (s := s₁.stat c) h₁ hq (by rw [bump_of_ne hne]; exact hr.held) hn
      (by show (s₁.item p).ident = (s₁.item q).ident; rw [hit₁, hk₁, hk])
      (by
        show s₁.cacheHashMap.hashValue p = env.hash32 (s₁.item p).key (s₁.item p).groupId
        rw [hit₁, hhash, hr.hash])
      (by rw [bump_of_ne hne]; exact hroom p _ (by omega))
  have hp₂ : Linked L₂ p := (hL₂ p).mpr (.inr rfl)
  have h₃ := core_addWatchIf h₂ (h₂.pos_of_linked hp₂) w
  have ha₃ := abs_addWatchIf_of_linked h₂ hp₂ w
  obtain ⟨hi, ha₄⟩ := release_inv h₃
  have hkq : ((s₁.stat c).item q).ident = (s.item p).ident := hk₁.trans hk
  have hep : ((s₁.stat c).item p).entry p = (s.item p).entry p := by
    show (s₁.item p).entry p = _
    rw [hit₁]
  have hab : abs env (s₁.stat c) = abs env s := ha₁
  rw [hs₁, hs₂]
  refine ⟨_, rfl, ?_, hi, ?_⟩
  · have hid : (s₂.item p).cacheId = (abs env s).nextId := by
      have := congrArg Entry.cacheId hen₂
      rw [hab] at this
      exact this
    unfold CacheMgr.addWatchIf
    split
    · rw [CacheMgr.item_modify_self]
      exact hid
    · exact hid
  · rw [ha₄, ha₃, hen₂, hk₂, ha₂, hep, hkq, hab]
    exact (Store.nextId_unlink (abs env s) (s.item p).ident .dataUpdated) ▸
      Store.link_addWatchIf ((abs env s).unlink (s.item p).ident .dataUpdated) (s.item p).ident
        ((s.item p).entry p) w

/-- The branch of `set` and of `replace` for a key that is present, with their
calls of the statistics. -/
theorem replace_present (h : Core env held L s) (hroom : Room env held) (hr : Request env held s p)
    (hq : Linked L q) (hk : (s.item q).ident = (s.item p).ident) (w : Nat) (r : Ptr)
    (f g : Nat → Nat → Nat → StatCall) (m : Nat → Nat → StatCall) (c : StatCall) :
    Refines env held
      (if ((s.addReference env q).item p).cacheId = 0 ∨
          ((s.addReference env q).item p).cacheId = ((s.addReference env q).item q).cacheId then
        match (s.addReference env q).checkWatchReplace env p r w f g m with
        | (true, s) =>
          let s := s.doReplace env o q p
          let s := s.addWatchIf p w
          ((.success, some (s.item p).cacheId), s.doReleaseReference env q)
        | (false, s) => ((.watchNotFound, none), s.doReleaseReference env q)
      else ((.mismatch, none), ((s.addReference env q).stat c).doReleaseReference env q))
      ((abs env s).replace (s.item p).ident ((s.item p).entry p) w) := by
  have he := abs_entry_of_linked h hq
  rw [hk] at he
  obtain ⟨s₁, hs₁, h₁, ha₁, hk₁, hen₁⟩ := take h hroom hq
  have hn := Request.not_linked hr h
  have hne : p ≠ q := fun he => hn (he ▸ hq)
  have hidp : (s₁.item p).cacheId = (s.item p).cacheId := by
    rw [← hs₁]
    exact congrArg CacheItem.cacheId (CacheMgr.item_modify_of_ne s _ hne)
  have hidq : (s₁.item q).cacheId = (s.item q).cacheId := congrArg Entry.cacheId hen₁
  by_cases hx : (s.item p).cacheId = 0 ∨ (s.item p).cacheId = (s.item q).cacheId
  · obtain ⟨c', hcheck⟩ := checkWatchReplace_eq env s₁ p r w f g m
    have hst : (abs env s).replace (s.item p).ident ((s.item p).entry p) w =
        if (abs env s).watchOk w then
          ((.success, some (abs env s).nextId),
            ((abs env s).unlink (s.item p).ident .dataUpdated).link (s.item p).ident
              (((s.item p).entry p).addWatchIf w))
        else ((.watchNotFound, none), abs env s) := by
      rw [Store.replace, he]
      exact if_pos hx
    rw [hst]
    simp only [hs₁, hidp, hidq, if_pos hx, hcheck, ha₁]
    cases hw : (abs env s).watchOk w with
    | true =>
      obtain ⟨s₂, hs₂, hid, hi, ha₂⟩ := replace_found (o := o) h hroom hr hq hk w c'
      rw [hs₁] at hs₂
      simp only [hs₂, hid]
      exact ⟨hi, rfl, ha₂⟩
    | false =>
      obtain ⟨hi, ha₂⟩ := release_stat h₁ c'
      exact ⟨hi, rfl, ha₂.trans ha₁⟩
  · have hst : (abs env s).replace (s.item p).ident ((s.item p).entry p) w =
        ((.mismatch, none), abs env s) := by
      rw [Store.replace, he]
      exact if_neg hx
    rw [hst]
    simp only [hs₁, hidp, hidq, if_neg hx]
    obtain ⟨hi, ha₂⟩ := release_stat h₁ c
    exact ⟨hi, rfl, ha₂.trans ha₁⟩

end RefinementLemmas

theorem replace_refines (h : Inv env held s) (hroom : Room env held) (hr : Request env held s p)
    (w : Nat) :
    Refines env held (s.replace env o p w)
      ((abs env s).replace (s.item p).ident ((s.item p).entry p) w) := by
  obtain ⟨L, h⟩ := h
  rcases lookup h (s.item p).ident with he | ⟨q, hq, hk, he⟩
  · unfold CacheMgr.replace
    rw [doGetOf_none hr he, Store.replace, he]
    exact ⟨⟨L, h⟩, rfl, rfl⟩
  · unfold CacheMgr.replace
    rw [doGetOf_linked hr h hq hk]
    exact replace_present h hroom hr hq hk w q _ _ _ _

theorem set_refines (h : Inv env held s) (hroom : Room env held) (hr : Request env held s p)
    (w : Nat) :
    Refines env held (s.set env o p w) ((abs env s).set (s.item p).ident ((s.item p).entry p) w) := by
  obtain ⟨L, h⟩ := h
  rcases lookup h (s.item p).ident with he | ⟨q, hq, hk, he⟩
  · obtain ⟨c, hcheck⟩ := checkWatchAdd_eq env s p w .setSuccess .setSuccessWatch .setWatchMiss
    unfold CacheMgr.set
    rw [doGetOf_none hr he, Store.set, he]
    simp only [hcheck, Store.add, he]
    by_cases hw : (abs env s).watchOk w = true
    · obtain ⟨s', hs', hi, ha, hid⟩ := link_watched (o := o) h hroom hr he w c
      simp only [if_pos hw, hs', hid]
      exact ⟨hi, rfl, ha⟩
    · simp only [if_neg hw]
      exact ⟨⟨L, h⟩, rfl, rfl⟩
  · unfold CacheMgr.set
    rw [doGetOf_linked hr h hq hk, Store.set, he]
    exact replace_present h hroom hr hq hk w p _ _ _ _

/-! ## Allocating the new item -/

/-- The content of an item that has been allocated and copied into. -/
structure NewEntry (st : Store) (e : Entry) (first second ext : Bytes)
    (flags expireTime dataSize extSize : Nat) : Prop where
  ptr : ∀ k old, st.entry k = some old → old.ptr ≠ e.ptr
  flags : e.flags = flags
  expireTime : e.expireTime = expireTime
  watch : e.watch = none
  data : first.length + second.length = dataSize → e.data = first ++ second
  ext : ext.length = extSize % 2 ^ 8 → e.ext = ext

namespace RefinementLemmas

/-- `do_alloc` and the copies: `r` is the item whose key is copied. -/
theorem alloc_copy {n r : Ptr} {fl et ds es : Nat} (h : Core env held L s)
    (hu : 0 < (s.item r).refCount) (hlen : (s.item r).keyLength < 2 ^ 16)
    (hh : s.cacheHashMap.hashValue r = env.hash32 (s.item r).key (s.item r).groupId)
    (hd : s.doAlloc env o (s.item r).groupId (s.item r).keyLength fl et ds es = (some n, s'))
    (first second ext : Bytes) :
    ∃ (s₂ : CacheMgr) (L₂ : ListId → List Ptr), s'.copyInto n r first second ext = s₂ ∧
      Core env (bump held n) L₂ s₂ ∧ (∀ t, Linked L₂ t ↔ Linked L t) ∧ ¬ Linked L n ∧ held n = 0 ∧
      abs env s₂ = abs env s ∧ (∀ t, t ≠ n → s₂.item t = s.item t) ∧
      (s₂.item n).ident = (s.item r).ident ∧
      s₂.cacheHashMap.hashValue n = env.hash32 (s₂.item n).key (s₂.item n).groupId ∧
      NewEntry (abs env s) ((s₂.item n).entry n) first second ext fl et ds es := by
  have ha := h.doAlloc_some hd
  obtain ⟨L', hc, hL'⟩ := ha.core
  have hnr : r ≠ n := by
    intro he
    have := ha.idle
    rw [← he] at this
    omega
  have hnl : ¬ Linked L n := by
    intro hl
    have := h.pos_of_linked hl
    have := ha.idle
    omega
  have hn' : ¬ Linked L' n := fun hl => hnl ((linked_congr hL' n).mp hl)
  have hheld : held n = 0 := by
    have := h.refCount n
    have := ha.idle
    omega
  have hir : s'.item r = s.item r := ha.item_of_ne r hnr
  have hfresh := ha.fresh
  obtain ⟨body, hbody⟩ := CacheItem.copy_eq (s'.item n) (s'.item r).key first second ext
  have hrc : ((s'.item n).copy (s'.item r).key first second ext).refCount = (s'.item n).refCount := by
    rw [hbody]
  have hexp : ((s'.item n).copy (s'.item r).key first second ext).expirationId =
      (s'.item n).expirationId := by rw [hbody]
  -- the hash value, then the copies
  have h₁ := hc.setHash (x := s'.cacheHashMap.hashValue r) hn'
  have h₂ := h₁.modify (p := n) (f := fun it => it.copy (s'.item r).key first second ext)
    (by show 0 < (s'.item n).refCount; rw [hfresh.refCount]; omega)
    hrc hexp (fun hl => absurd hl hn')
  have hself : (s'.copyInto n r first second ext).item n =
      (s'.item n).copy (s'.item r).key first second ext := by
    simp only [CacheMgr.copyInto, CacheMgr.item_modify_self]
  have hkey : ((s'.item n).copy (s'.item r).key first second ext).key = (s.item r).key := by
    rw [CacheItem.copy_key, hir]
    rw [hir, CacheItem.length_key, hfresh.keyLength]
    omega
  have hgroup : ((s'.item n).copy (s'.item r).key first second ext).groupId = (s.item r).groupId := by
    rw [hbody]
    exact hfresh.groupId
  refine ⟨_, L', rfl, h₂, linked_congr hL', hnl, hheld, ?_, fun t ht => ?_, ?_, ?_, ?_⟩
  · refine (abs_modify_of_not_linked h₁ h₂ hn').trans ?_
    rw [← ha.abs]
    refine abs_eq (abs_entry_congr hc h₁ (fun _ => Iff.rfl) fun t _ => ⟨rfl, rfl⟩) rfl
  · rw [CacheMgr.copyInto, CacheMgr.item_modify_of_ne _ _ ht]
    exact ha.item_of_ne t ht
  · rw [hself]
    exact Prod.ext hgroup hkey
  · rw [hself, hkey, hgroup]
    show Function.update s'.cacheHashMap.hashValue n (s'.cacheHashMap.hashValue r) n = _
    rw [Function.update_self, ha.hashMap, hh]
  · rw [hself]
    refine ⟨fun k old hk he => ?_, ?_, ?_, ?_, fun hds => ?_, fun hes => ?_⟩
    · obtain ⟨t, ht, -, rfl⟩ := (abs_entry_iff h).mp hk
      have htn : t = n := he
      exact hnl (htn ▸ ht)
    · rw [hbody]
      exact hfresh.flags
    · rw [hbody]
      exact hfresh.expireTime
    · rw [hbody]
      exact hfresh.watchItem
    · exact CacheItem.copy_data (hds.trans hfresh.dataSize.symm)
    · exact CacheItem.copy_ext (hes.trans hfresh.extSize.symm)

theorem release_two {n : Ptr} (h : Core env (bump (bump held q) n) L s) :
    Inv env held ((s.doReleaseReference env n).doReleaseReference env q) ∧
      abs env ((s.doReleaseReference env n).doReleaseReference env q) = abs env s := by
  obtain ⟨L₁, h₁, -, ha₁⟩ := h.release
  obtain ⟨hi, ha₂⟩ := release_inv h₁
  exact ⟨hi, ha₂.trans ha₁⟩

/-- Replacing the linked item `q` by the new item `n` and releasing both. -/
theorem replace_new {n : Ptr} (h : Core env (bump (bump held q) n) L s) (hq : Linked L q)
    (hn : ¬ Linked L n) (hheld : held n = 0) (hk : (s.item n).ident = (s.item q).ident)
    (hh : s.cacheHashMap.hashValue n = env.hash32 (s.item n).key (s.item n).groupId)
    (hroom : Room env held) :
    ∃ (s' : CacheMgr) (L' : ListId → List Ptr), s.doReplace env o q n = s' ∧
      Core env (bump (bump held q) n) L' s' ∧ (s'.item n).cacheId = (abs env s).nextId ∧
      (∀ r, r ≠ n → ¬ Linked L r → ¬ Linked L' r) ∧
      abs env s' =
        ((abs env s).unlink (s.item q).ident .dataUpdated).link (s.item q).ident
          ((s.item n).entry n) := by
  have hne : n ≠ q := fun he => hn (he ▸ hq)
  have hrm : env.refWidth.store (bump (bump held q) n n + 1) = bump (bump held q) n n + 1 := by
    rw [bump_self, bump_of_ne hne, hheld]
    exact hroom n _ (by omega)
  obtain ⟨s', L', hs', h', hL', ha', -, -, hen'⟩ :=
    core_replace (o := o) h hq (by rw [bump_self]; omega) hn hk hh hrm
  refine ⟨s', L', hs', h', ?_, fun r hrn hr hl => ?_, ha'⟩
  · exact congrArg Entry.cacheId hen'
  · rcases (hL' r).mp hl with hl | hl
    · exact hr hl.1
    · exact hrn hl

/-- What `append` and `prepend` do with the item they have allocated. -/
theorem append_new {n : Ptr} {s₁ s₂ : CacheMgr} {fl et ds es : Nat}
    (h₁ : Core env (bump held q) L s₁) (ha₁ : abs env s₁ = abs env s) (hroom : Room env held)
    (hr : Request env held s₁ p) (hq : Linked L q) (hn : ¬ Linked L p)
    (hk : (s₁.item q).ident = (s₁.item p).ident)
    (hd : s₁.doAlloc env o (s₁.item p).groupId (s₁.item p).keyLength fl et ds es = (some n, s₂))
    (first second ext : Bytes) (w : Nat) :
    ∃ (s₃ : CacheMgr) (e : Entry), s₂.copyInto n p first second ext = s₃ ∧
      abs env s₃ = abs env s ∧ NewEntry (abs env s) e first second ext fl et ds es ∧
      (∀ c, Inv env held (((s₃.stat c).doReleaseReference env n).doReleaseReference env q) ∧
        abs env (((s₃.stat c).doReleaseReference env n).doReleaseReference env q) = abs env s) ∧
      ∀ c s₄, (s₄ = ((s₃.stat c).doReplace env o q n).addWatchIf p w ∨
          s₄ = ((s₃.stat c).addWatchIf p w).doReplace env o q n) →
        (s₄.item n).cacheId = (abs env s).nextId ∧
        Inv env held ((s₄.doReleaseReference env n).doReleaseReference env q) ∧
        abs env ((s₄.doReleaseReference env n).doReleaseReference env q) =
          ((abs env s).unlink (s₁.item p).ident .dataUpdated).link (s₁.item p).ident e := by
  have hne : p ≠ q := fun he => hn (he ▸ hq)
  have hp₁ : 0 < (s₁.item p).refCount := h₁.pos_of_held (by rw [bump_of_ne hne]; exact hr.held)
  obtain ⟨s₃, L₃, hs₃, h₃, hL₃, hnl, hheld, ha₃, hit₃, hk₃, hh₃, hnew⟩ :=
    alloc_copy h₁ hp₁ hr.keyLength hr.hash hd first second ext
  have hnq : q ≠ n := fun he => hnl (he ▸ hq)
  have hnp : p ≠ n := by
    intro he
    rw [← he, bump_of_ne hne] at hheld
    have := hr.held
    omega
  rw [bump_of_ne (Ne.symm hnq)] at hheld
  have hq₃ : Linked L₃ q := (hL₃ q).mpr hq
  have hn₃ : ¬ Linked L₃ n := fun hl => hnl ((hL₃ n).mp hl)
  have hp₃ : ¬ Linked L₃ p := fun hl => hn ((hL₃ p).mp hl)
  have hkq : (s₃.item n).ident = (s₃.item q).ident := by rw [hk₃, hit₃ q hnq, hk]
  have hidq : (s₃.item q).ident = (s₁.item p).ident := by rw [hit₃ q hnq, hk]
  have hab : abs env s₃ = abs env s := ha₃.trans ha₁
  have hpp : ∀ {L' : ListId → List Ptr} {s' : CacheMgr}, Core env (bump (bump held q) n) L' s' →
      0 < (s'.item p).refCount := by
    intro L' s' hc
    refine hc.pos_of_held ?_
    rw [bump_of_ne hnp, bump_of_ne hne]
    exact hr.held
  refine ⟨s₃, (s₃.item n).entry n, hs₃, hab, ha₁ ▸ hnew, fun c => ?_, fun c s₄ hs₄ => ?_⟩
  · obtain ⟨hi, ha⟩ := release_two (s := s₃.stat c) h₃
    exact ⟨hi, ha.trans hab⟩
  · rcases hs₄ with rfl | rfl
    · obtain ⟨s₄, L₄, hs₄, h₄, hid, hnl₄, ha₄⟩ :=
        replace_new (o := o) (s := s₃.stat c) h₃ hq₃ hn₃ hheld hkq hh₃ hroom
      have h₅ := core_addWatchIf h₄ (hpp h₄) w
      have ha₅ := abs_addWatchIf_of_not_linked h₄ (hpp h₄) (hnl₄ p hnp hp₃) w
      obtain ⟨hi, ha₆⟩ := release_two h₅
      have hsame : (s₄.addWatchIf p w).item n = s₄.item n := by
        unfold CacheMgr.addWatchIf
        split
        · exact CacheMgr.item_modify_of_ne s₄ _ (Ne.symm hnp)
        · rfl
      rw [hs₄]
      refine ⟨?_, hi, ?_⟩
      · rw [hsame, hid, ← hab]
        rfl
      · rw [ha₆, ha₅, ha₄, ← hab, ← hidq]
        rfl
    · have h₄ := core_addWatchIf (s := s₃.stat c) h₃ (hpp h₃) w
      have ha₄ := abs_addWatchIf_of_not_linked (s := s₃.stat c) h₃ (hpp h₃) hp₃ w
      have hsame : ∀ r, r ≠ p → ((s₃.stat c).addWatchIf p w).item r = s₃.item r := by
        intro r hrp
        unfold CacheMgr.addWatchIf
        split
        · exact CacheMgr.item_modify_of_ne (s₃.stat c) _ hrp
        · rfl
      have hmap : ((s₃.stat c).addWatchIf p w).cacheHashMap = s₃.cacheHashMap := by
        unfold CacheMgr.addWatchIf
        split <;> rfl
      obtain ⟨s₅, L₅, hs₅, h₅, hid, -, ha₅⟩ := replace_new (o := o) h₄ hq₃ hn₃ hheld
        (by rw [hsame n (Ne.symm hnp), hsame q (Ne.symm hne), hkq])
        (by rw [hsame n (Ne.symm hnp), hmap, hh₃]) hroom
      obtain ⟨hi, ha₆⟩ := release_two h₅
      rw [hs₅]
      refine ⟨?_, hi, ?_⟩
      · rw [hid, ha₄, ← hab]
        rfl
      · rw [ha₆, ha₅, ha₄, hsame n (Ne.symm hnp), hsame q (Ne.symm hne), ← hab, ← hidq]
        rfl

/-- Taking a reference to another item leaves the request as it is. -/
theorem request_take {s₁ : CacheMgr} (hr : Request env held s p) (hs₁ : s.addReference env q = s₁)
    (ha₁ : abs env s₁ = abs env s) (hne : p ≠ q) :
    s₁.item p = s.item p ∧ Request env held s₁ p := by
  have hip : s₁.item p = s.item p := by
    rw [← hs₁]
    exact CacheMgr.item_modify_of_ne s _ hne
  refine ⟨hip, hr.held, ha₁ ▸ hr.absent, ?_, ?_⟩
  · rw [hip, ← hr.hash, ← hs₁]
    rfl
  · rw [hip]
    exact hr.keyLength

/-- The branch of `append` and of `prepend` for a key that is present and a cache id
that matches. `first`, `second` and `ext` are the arguments of the copies, `fin` is
`do_replace` and the added watch, in either order. -/
theorem append_present {s₁ : CacheMgr} (h₁ : Core env (bump held q) L s₁)
    (ha₁ : abs env s₁ = abs env s) (hroom : Room env held) (hr : Request env held s₁ p)
    (hq : Linked L q) (hn : ¬ Linked L p) (hk : (s₁.item q).ident = (s₁.item p).ident)
    (hx : (s₁.item p).cacheId = 0 ∨ (s₁.item p).cacheId = (s₁.item q).cacheId) (w : Nat)
    (fl et ds es : Nat) (first second ext : CacheMgr → Bytes) {a b x : Bytes}
    (hargs : ∀ s' : CacheMgr, s'.item p = s₁.item p → s'.item q = s₁.item q →
      first s' = a ∧ second s' = b ∧ ext s' = x)
    (fin : CacheMgr → Ptr → CacheMgr)
    (hfin : ∀ s' n, fin s' n = (s'.doReplace env o q n).addWatchIf p w ∨
      fin s' n = (s'.addWatchIf p w).doReplace env o q n)
    (f g : Nat → Nat → Nat → StatCall) (m : Nat → Nat → StatCall) (oom : CacheMgr → StatCall) :
    ∃ new : Option Entry,
      Refines env held
        (match s₁.doAlloc env o (s₁.item p).groupId (s₁.item p).keyLength fl et ds es with
        | (some newIt, s) =>
          let s := s.copyInto newIt p (first s) (second s) (ext s)
          match s.checkWatchReplace env p q w f g m with
          | (true, s) =>
            let s := fin s newIt
            let id := (s.item newIt).cacheId
            let s := s.doReleaseReference env newIt
            ((.success, some id), s.doReleaseReference env q)
          | (false, s) =>
            let s := s.doReleaseReference env newIt
            ((.watchNotFound, none), s.doReleaseReference env q)
        | (none, s) => ((.outOfMemory, none), (s.stat (oom s)).doReleaseReference env q))
        ((abs env s).append (s₁.item p).ident (s₁.item p).cacheId new w) ∧
      ∀ e, new = some e → NewEntry (abs env s) e a b x fl et ds es := by
  have he : (abs env s).entry (s₁.item p).ident = some ((s₁.item q).entry q) := by
    rw [← ha₁, ← hk]
    exact abs_entry_of_linked h₁ hq
  cases hd : s₁.doAlloc env o (s₁.item p).groupId (s₁.item p).keyLength fl et ds es with
  | mk r s₂ =>
    cases r with
    | none =>
      obtain ⟨c, hs₂⟩ := Core.doAlloc_none hd
      have h₂ : Core env (bump held q) L s₂ := by
        rw [hs₂]
        exact h₁
      have ha₂ : abs env s₂ = abs env s := by
        rw [hs₂, ← ha₁]
        rfl
      obtain ⟨hi, ha₃⟩ := release_stat h₂ (oom s₂)
      refine ⟨none, ?_, nofun⟩
      rw [Store.append_match he hx]
      exact ⟨hi, rfl, ha₃.trans ha₂⟩
    | some n =>
      have hal := h₁.doAlloc_some hd
      have hneq : ∀ t, 0 < (s₁.item t).refCount → s₂.item t = s₁.item t := by
        intro t ht
        refine hal.item_of_ne t fun hc => ?_
        have := hal.idle
        rw [← hc] at this
        omega
      have hne : p ≠ q := fun hc => hn (hc ▸ hq)
      have hp₁ : 0 < (s₁.item p).refCount := h₁.pos_of_held (by rw [bump_of_ne hne]; exact hr.held)
      obtain ⟨hA, hB, hX⟩ := hargs s₂ (hneq p hp₁) (hneq q (h₁.pos_of_linked hq))
      obtain ⟨s₃, e, hs₃, ha₃, hnew, hfail, hsucc⟩ :=
        append_new (o := o) h₁ ha₁ hroom hr hq hn hk hd a b x w
      obtain ⟨c, hcheck⟩ := checkWatchReplace_eq env s₃ p q w f g m
      refine ⟨some e, ?_, fun e' he' => Option.some.inj he' ▸ hnew⟩
      rw [Store.append_match he hx]
      simp only [hA, hB, hX, hs₃, hcheck, ha₃]
      cases hw : (abs env s).watchOk w with
      | true =>
        obtain ⟨hid, hi, ha₄⟩ := hsucc c (fin (s₃.stat c) n) (hfin _ n)
        simp only [hid]
        exact ⟨hi, rfl, ha₄⟩
      | false =>
        obtain ⟨hi, ha₄⟩ := hfail c
        exact ⟨hi, rfl, ha₄⟩

end RefinementLemmas

/-! ## `append` and `prepend` -/

/-- `append` stores the old data followed by the new, with the flags, the
extension and the expire time of the old item. -/
theorem append_refines (h : Inv env held s) (hroom : Room env held) (hr : Request env held s p)
    (w : Nat) :
    ∃ new : Option Entry,
      Refines env (bumpOpt held (mismatched (abs env s) (s.item p).ident (s.item p).cacheId))
        (s.append env o p w)
        ((abs env s).append (s.item p).ident (s.item p).cacheId new w) ∧
      ∀ e old, new = some e → (abs env s).entry (s.item p).ident = some old →
        NewEntry (abs env s) e old.data (s.item p).data old.ext old.flags old.expireTime
          (((s.item p).dataSize + old.data.length) % 2 ^ 32) old.ext.length := by
  obtain ⟨L, h⟩ := h
  rcases lookup h (s.item p).ident with he | ⟨q, hq, hk, he⟩
  · refine ⟨none, ?_, nofun⟩
    unfold CacheMgr.append
    rw [doGetOf_none hr he, Store.append, he, mismatched_none he]
    exact ⟨⟨L, h⟩, rfl, rfl⟩
  · obtain ⟨s₁, hs₁, h₁, ha₁, hk₁, hen₁⟩ := take h hroom hq
    have hn := Request.not_linked hr h
    obtain ⟨hip, hr₁⟩ := request_take hr hs₁ ha₁ fun he => hn (he ▸ hq)
    have hidq : (s₁.item q).cacheId = (s.item q).cacheId := congrArg Entry.cacheId hen₁
    unfold CacheMgr.append
    rw [doGetOf_linked hr h hq hk]
    by_cases hx : (s.item p).cacheId = 0 ∨ (s.item p).cacheId = (s.item q).cacheId
    · have hnx : ¬ ((s₁.item p).cacheId ≠ 0 ∧ (s₁.item p).cacheId ≠ (s₁.item q).cacheId) := by
        rw [hip, hidq]
        exact fun hc => hx.elim hc.1 hc.2
      obtain ⟨new, href, hnew⟩ := append_present (o := o) h₁ ha₁ hroom hr₁ hq hn
        (by rw [hk₁, hk, hip]) (by rw [hip, hidq]; exact hx) w
        (s₁.item q).flags (s₁.item q).expireTime
        (((s₁.item p).dataSize + (s₁.item q).dataSize) % 2 ^ 32) (s₁.item q).extSize
        (fun s => (s.item q).data) (fun s => (s.item p).data) (fun s => (s.item q).ext)
        (fun s' hp' hq' => ⟨congrArg CacheItem.data hq', congrArg CacheItem.data hp',
          congrArg CacheItem.ext hq'⟩)
        (fun s' n => (s'.doReplace env o q n).addWatchIf p w) (fun _ _ => .inl rfl)
        .appendSuccess .appendSuccessWatch .appendWatchMiss
        (fun s => .appendOutOfMemory (s.item p).groupId (s.item p).classId)
      refine ⟨new, ?_, fun e old hne hold => ?_⟩
      · rw [mismatched_match he hx, ← hip]
        simp only [hs₁, if_neg hnx]
        exact href
      · obtain rfl := Option.some.inj (he.symm.trans hold)
        have hfields := hnew e hne
        rw [← CacheItem.length_data (s₁.item q), ← CacheItem.length_ext (s₁.item q), hip] at hfields
        rw [← hen₁]
        exact hfields
    · refine ⟨none, ?_, nofun⟩
      rw [Store.append_mismatch he hx, mismatched_mismatch he hx]
      rw [not_or] at hx
      simp only [hs₁, hip, hidq]
      rw [if_pos hx]
      exact ⟨⟨L, h₁⟩, rfl, ha₁⟩

/-- `prepend` stores the new data followed by the old, with the flags, the
extension and the expire time of the old item. -/
theorem prepend_refines (h : Inv env held s) (hroom : Room env held) (hr : Request env held s p)
    (w : Nat) :
    ∃ new : Option Entry,
      Refines env (bumpOpt held (mismatched (abs env s) (s.item p).ident (s.item p).cacheId))
        (s.prepend env o p w)
        ((abs env s).append (s.item p).ident (s.item p).cacheId new w) ∧
      ∀ e old, new = some e → (abs env s).entry (s.item p).ident = some old →
        NewEntry (abs env s) e (s.item p).data old.data old.ext old.flags old.expireTime
          (((s.item p).dataSize + old.data.length) % 2 ^ 32) old.ext.length := by
  obtain ⟨L, h⟩ := h
  rcases lookup h (s.item p).ident with he | ⟨q, hq, hk, he⟩
  · refine ⟨none, ?_, nofun⟩
    unfold CacheMgr.prepend
    rw [doGetOf_none hr he, Store.append, he, mismatched_none he]
    exact ⟨⟨L, h⟩, rfl, rfl⟩
  · obtain ⟨s₁, hs₁, h₁, ha₁, hk₁, hen₁⟩ := take h hroom hq
    have hn := Request.not_linked hr h
    obtain ⟨hip, hr₁⟩ := request_take hr hs₁ ha₁ fun he => hn (he ▸ hq)
    have hidq : (s₁.item q).cacheId = (s.item q).cacheId := congrArg Entry.cacheId hen₁
    unfold CacheMgr.prepend
    rw [doGetOf_linked hr h hq hk]
    by_cases hx : (s.item p).cacheId = 0 ∨ (s.item p).cacheId = (s.item q).cacheId
    · have hnx : ¬ ((s₁.item p).cacheId ≠ 0 ∧ (s₁.item p).cacheId ≠ (s₁.item q).cacheId) := by
        rw [hip, hidq]
        exact fun hc => hx.elim hc.1 hc.2
      obtain ⟨new, href, hnew⟩ := append_present (o := o) h₁ ha₁ hroom hr₁ hq hn
        (by rw [hk₁, hk, hip]) (by rw [hip, hidq]; exact hx) w
        (s₁.item q).flags (s₁.item q).expireTime
        (((s₁.item p).dataSize + (s₁.item q).dataSize) % 2 ^ 32) (s₁.item q).extSize
        (fun s => (s.item p).data) (fun s => (s.item q).data) (fun s => (s.item q).ext)
        (fun s' hp' hq' => ⟨congrArg CacheItem.data hp', congrArg CacheItem.data hq',
          congrArg CacheItem.ext hq'⟩)
        (fun s' n => (s'.addWatchIf p w).doReplace env o q n) (fun _ _ => .inr rfl)
        .prependSuccess .prependSuccessWatch .prependWatchMiss
        (fun s => .prependOutOfMemory (s.item p).groupId (s.item p).classId)
      refine ⟨new, ?_, fun e old hne hold => ?_⟩
      · rw [mismatched_match he hx, ← hip]
        simp only [hs₁, if_neg hnx]
        exact href
      · obtain rfl := Option.some.inj (he.symm.trans hold)
        have hfields := hnew e hne
        rw [← CacheItem.length_data (s₁.item q), ← CacheItem.length_ext (s₁.item q), hip] at hfields
        rw [← hen₁]
        exact hfields
    · refine ⟨none, ?_, nofun⟩
      rw [Store.append_mismatch he hx, mismatched_mismatch he hx]
      rw [not_or] at hx
      simp only [hs₁, hip, hidq]
      rw [if_pos hx]
      exact ⟨⟨L, h₁⟩, rfl, ha₁⟩

/-! ## `delta` -/

namespace RefinementLemmas

/-- The path of `delta` that allocates. -/
theorem delta_new {s₁ : CacheMgr} (h₁ : Core env (bump held p) L s₁)
    (ha₁ : abs env s₁ = abs env s) (hroom : Room env held) (hp : Linked L p)
    (hlen : (s₁.item p).keyLength < 2 ^ 16)
    {x : Nat} (hx : x = 0 ∨ x = (s₁.item p).cacheId) (value : Int) {buf : Bytes}
    (hbuf : buf.length ≠ (s₁.item p).dataSize) (c : StatCall) :
    ∃ new : Option Entry,
      Refines env held
        (match s₁.doAlloc env o (s₁.item p).groupId (s₁.item p).keyLength (s₁.item p).flags
          (s₁.item p).expireTime buf.length (s₁.item p).extSize with
        | (none, s) => ((.outOfMemory, x, value), s.doReleaseReference env p)
        | (some newIt, s) =>
          let s := s.copyInto newIt p buf [] (s.item p).ext
          let s := s.doReplace env o p newIt
          let id := (s.item newIt).cacheId
          let s := s.doReleaseReference env newIt
          let s := s.stat c
          ((.success, id, value), s.doReleaseReference env p))
        ((abs env s).delta (s₁.item p).ident x value buf new) ∧
      ∀ e, new = some e → NewEntry (abs env s) e buf [] (s₁.item p).ext (s₁.item p).flags
        (s₁.item p).expireTime buf.length (s₁.item p).extSize := by
  have he : (abs env s).entry (s₁.item p).ident = some ((s₁.item p).entry p) := by
    rw [← ha₁]
    exact abs_entry_of_linked h₁ hp
  have hlen' : buf.length ≠ ((s₁.item p).entry p).data.length := by
    rw [show ((s₁.item p).entry p).data.length = (s₁.item p).dataSize from CacheItem.length_data _]
    exact hbuf
  have hrealloc := Store.delta_realloc he hx hlen' value
  cases hd : s₁.doAlloc env o (s₁.item p).groupId (s₁.item p).keyLength (s₁.item p).flags
    (s₁.item p).expireTime buf.length (s₁.item p).extSize with
  | mk r s₂ =>
    cases r with
    | none =>
      obtain ⟨c, hs₂⟩ := Core.doAlloc_none hd
      have h₂ : Core env (bump held p) L s₂ := by
        rw [hs₂]
        exact h₁
      have ha₂ : abs env s₂ = abs env s := by
        rw [hs₂, ← ha₁]
        rfl
      obtain ⟨hi, ha₃⟩ := release_inv h₂
      refine ⟨none, ?_, nofun⟩
      rw [hrealloc]
      exact ⟨hi, rfl, ha₃.trans ha₂⟩
    | some n =>
      obtain ⟨s₃, L₃, hs₃, h₃, hL₃, hnl, hheld, ha₃, hit₃, hk₃, hh₃, hnew⟩ :=
        alloc_copy h₁ (h₁.pos_of_linked hp) hlen (h₁.hash hp) hd buf [] (s₁.item p).ext
      have hne : p ≠ n := fun hc => hnl (hc ▸ hp)
      rw [bump_of_ne (Ne.symm hne)] at hheld
      have hext : (s₂.item p).ext = (s₁.item p).ext :=
        congrArg CacheItem.ext ((h₁.doAlloc_some hd).item_of_ne p hne)
      obtain ⟨s₄, L₄, hs₄, h₄, hid, -, ha₄⟩ := replace_new (o := o) h₃ ((hL₃ p).mpr hp)
        (fun hl => hnl ((hL₃ n).mp hl)) hheld (by rw [hk₃, hit₃ p hne]) hh₃ hroom
      obtain ⟨L₅, h₅, -, ha₅⟩ := h₄.release
      obtain ⟨hi, ha₆⟩ := release_stat h₅ c
      rw [ha₁] at hnew
      refine ⟨some ((s₃.item n).entry n), ?_, fun e' he' => Option.some.inj he' ▸ hnew⟩
      rw [hrealloc]
      simp only [hext, hs₃, hs₄, hid, ha₃.trans ha₁]
      refine ⟨hi, rfl, ?_⟩
      show abs env (((s₄.doReleaseReference env n).stat c).doReleaseReference env p) = _
      rw [ha₆, ha₅, ha₄, ha₃, ha₁, hit₃ p hne]

/-- The path of `delta` that overwrites the data. -/
theorem delta_overwrite {s₁ : CacheMgr} (h₁ : Core env (bump held p) L s₁)
    (ha₁ : abs env s₁ = abs env s) (hp : Linked L p)
    {x : Nat} (hx : x = 0 ∨ x = (s₁.item p).cacheId) (value : Int) {buf : Bytes}
    (hbuf : buf.length = (s₁.item p).dataSize) (c : StatCall) (new : Option Entry) :
    Refines env held
      (let (id, s) := s₁.getCacheId
        let s := s.modify p fun it => { it with cacheId := id, lastUpdateTime := s.currTime }
        let s := s.modify p fun it => it.setData 0 buf
        let s := s.stat c
        ((Reason.success, id, value), s.doReleaseReference env p))
      ((abs env s).delta (s₁.item p).ident x value buf new) := by
  have he : (abs env s).entry (s₁.item p).ident = some ((s₁.item p).entry p) := by
    rw [← ha₁]
    exact abs_entry_of_linked h₁ hp
  have hlen' : buf.length = ((s₁.item p).entry p).data.length := by
    rw [show ((s₁.item p).entry p).data.length = (s₁.item p).dataSize from CacheItem.length_data _]
    exact hbuf
  obtain ⟨hkey, hdata, hext⟩ := CacheItem.setData_fields hbuf
  obtain ⟨s₂, hs₂, h₂, ha₂⟩ := core_reissue h₁ hp
    (f := fun it => CacheItem.setData
      { it with cacheId := (abs env s₁).nextId, lastUpdateTime := s₁.currTime } 0 buf)
    (e := { (s₁.item p).entry p with data := buf }) rfl rfl (Prod.ext rfl hkey)
    (by
      show (⟨p, ((s₁.item p).setData 0 buf).data, _, ((s₁.item p).setData 0 buf).ext, _, _, _⟩ :
        Entry) = _
      rw [hdata, hext]
      rfl)
  obtain ⟨hi, ha₃⟩ := release_stat h₂ c
  rw [Store.delta_inPlace he hx hlen', nextId_abs env]
  have hmod : CacheMgr.modify
      (CacheMgr.modify { s₁ with lastCacheId := (abs env s₁).nextId } p fun it =>
        { it with cacheId := (abs env s₁).nextId, lastUpdateTime := s₁.currTime }) p
      (fun it => it.setData 0 buf) = s₂ := by
    rw [← hs₂]
    simp only [CacheMgr.modify, Function.update_self, Function.update_idem]
  simp only [hmod]
  refine ⟨hi, by rw [ha₁], ?_⟩
  show abs env ((s₂.stat c).doReleaseReference env p) = _
  rw [ha₃, ha₂, ha₁]

end RefinementLemmas

/-- `delta` stores the text of the new number, in the old item or in a new one. -/
theorem delta_refines (h : Inv env held s) (hroom : Room env held) (k : Key)
    (hlen : k.2.length < 2 ^ 16) (incr : Bool) (d : Int) (x : Nat) :
    ∃ (value : Int) (new : Option Entry),
      Refines env held (s.delta env o k.1 k.2 incr d x)
        ((abs env s).delta k x value (formatInt64 value) new) ∧
      ∀ e, (abs env s).entry k = some e →
        value = CacheMgr.deltaValue (s.item e.ptr) incr d ∧
        ∀ ne, new = some ne → NewEntry (abs env s) ne (formatInt64 value) [] e.ext e.flags
          e.expireTime (formatInt64 value).length e.ext.length := by
  obtain ⟨L, h⟩ := h
  rcases lookup h k with he | ⟨p, hp, rfl, he⟩
  · refine ⟨0, none, ?_, fun e hc => ?_⟩
    · unfold CacheMgr.delta
      rw [doGet_none he, Store.delta, he]
      exact ⟨⟨L, h⟩, rfl, rfl⟩
    · rw [he] at hc
      cases hc
  · obtain ⟨s₁, hs₁, h₁, ha₁, hk₁, hen₁⟩ := take h hroom hp
    have hid₁ : (s₁.item p).cacheId = (s.item p).cacheId := congrArg Entry.cacheId hen₁
    have hval : CacheMgr.deltaValue (s₁.item p) incr d = CacheMgr.deltaValue (s.item p) incr d := by
      rw [← hs₁, CacheMgr.addReference, CacheMgr.item_modify_self]
      rfl
    have hkl : (s₁.item p).keyLength < 2 ^ 16 := by
      rw [← CacheItem.length_key]
      have : (s₁.item p).key = (s.item p).ident.2 := congrArg Prod.snd hk₁
      rw [this]
      exact hlen
    generalize hv : CacheMgr.deltaValue (s.item p) incr d = value at hval
    unfold CacheMgr.delta
    rw [doGet_linked h hp]
    simp only [hs₁, hid₁, hval]
    by_cases hx : x = 0 ∨ x = (s.item p).cacheId
    · rw [if_pos hx]
      rw [← hid₁] at hx
      by_cases hbuf : (formatInt64 value).length = (s₁.item p).dataSize
      · refine ⟨value, none, ?_, fun e hc => ?_⟩
        · rw [if_neg (not_not.mpr hbuf), ← hk₁]
          exact delta_overwrite h₁ ha₁ hp hx value hbuf _ none
        · obtain rfl := Option.some.inj (he.symm.trans hc)
          exact ⟨hv.symm, fun _ hne => by cases hne⟩
      · obtain ⟨new, href, hnew⟩ := delta_new (o := o) h₁ ha₁ hroom hp hkl hx value hbuf
          (if incr then .incrSuccess (s₁.item p).ident.1 else .decrSuccess (s₁.item p).ident.1)
        refine ⟨value, new, ?_, fun e hc => ?_⟩
        · rw [if_pos hbuf, ← hk₁]
          exact href
        · obtain rfl := Option.some.inj (he.symm.trans hc)
          refine ⟨hv.symm, fun ne hne => ?_⟩
          have hfields := hnew ne hne
          rw [← CacheItem.length_ext (s₁.item p)] at hfields
          rw [← hen₁]
          exact hfields
    · obtain ⟨hi, ha₂⟩ := release_stat h₁
        (if incr then .incrMismatch (s.item p).ident.1 else .decrMismatch (s.item p).ident.1)
      refine ⟨value, none, ?_, fun e hc => ?_⟩
      · rw [if_neg hx, Store.delta_mismatch he hx]
        exact ⟨hi, rfl, ha₂.trans ha₁⟩
      · obtain rfl := Option.some.inj (he.symm.trans hc)
        exact ⟨hv.symm, fun _ hne => by cases hne⟩

end Xixi
