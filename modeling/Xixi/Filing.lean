import Xixi.Effects

/-!
# In which expire list an item is

`expiration_id` is set when an item is allocated or given a new expire time, and it is to be
read together with `expire_time`: the list is the one that `get_expiration_id` would choose
at the time of the setting.

1. `Files A s s'`: every item that is in use in `s'` has kept its list and its expire time,
   or `A` holds of them. `Fresh now` says that the list is the one that `get_expiration_id`
   chooses at `now`, and `Unused s` that the item was not in use before.
2. `files_exec`: this is what every operation does, but for `get_touch` and the sweep.
3. `files_getTouch`: `get_touch` changes the expire time of one item and not its list.
4. `files_checkExpired`: the sweep moves items that are not due.
-/

namespace Xixi

/-- What the expire lists know of an item. -/
def CacheItem.filing (it : CacheItem) : Nat × Nat × Nat :=
  (it.refCount, it.expirationId, it.expireTime)

namespace CacheMgr

def filing (s : CacheMgr) : Bool × (Ptr → Nat × Nat × Nat) := (s.ok, fun q => (s.item q).filing)

variable (env : Env) (s : CacheMgr) (o : Malloc) (p q : Ptr)

theorem filing_modify {f : CacheItem → CacheItem} (hf : ∀ it, (f it).filing = it.filing) :
    (s.modify p f).filing = s.filing := by
  refine Prod.ext rfl (funext fun q => ?_)
  by_cases hq : q = p
  · subst hq
    exact (congrArg CacheItem.filing (item_modify_self s q f)).trans (hf _)
  · exact congrArg CacheItem.filing (item_modify_of_ne s f hq)

@[simp] theorem filing_stat (c : StatCall) : (s.stat c).filing = s.filing := rfl

theorem filing_addWatch (w : Nat) : (s.modify p fun it => it.addWatch w).filing = s.filing :=
  filing_modify s p fun _ => rfl

@[simp] theorem filing_addWatchIf (w : Nat) : (s.addWatchIf p w).filing = s.filing := by
  unfold addWatchIf
  split
  · exact filing_addWatch s p w
  · rfl

@[simp] theorem filing_copyInto (first second ext : Bytes) :
    (s.copyInto p q first second ext).filing = s.filing := by
  unfold copyInto
  refine filing_modify _ p fun it => ?_
  unfold CacheItem.copy
  rfl

@[simp] theorem filing_fill (c : Contents) : (s.fill env p c).filing = s.filing := by
  refine filing_modify s p (f := fun it => it.fill c) fun it => ?_
  unfold CacheItem.fill
  rfl

@[simp] theorem filing_checkWatchAdd (w : Nat) (f g : Nat → Nat → Nat → StatCall)
    (m : Nat → Nat → StatCall) : (s.checkWatchAdd env p w f g m).2.filing = s.filing := by
  unfold checkWatchAdd
  split
  · split
    · exact filing_addWatch s p w
    · rfl
  · rfl

@[simp] theorem filing_checkWatchReplace (w : Nat) (f g : Nat → Nat → Nat → StatCall)
    (m : Nat → Nat → StatCall) : (s.checkWatchReplace env p q w f g m).2.filing = s.filing := by
  unfold checkWatchReplace
  split
  · split <;> rfl
  · rfl

theorem filing_notifyIds (x : Nat) (t : NotifyType) (ids : List Nat) :
    (s.notifyIds x t ids).filing = s.filing := by
  induction ids generalizing s with
  | nil => rfl
  | cons w ws ih =>
    unfold notifyIds
    split
    · exact ih _
    · exact ih s

theorem filing_notifyWatch (t : NotifyType) : (s.notifyWatch p t).filing = s.filing := by
  unfold notifyWatch
  split
  · rfl
  · refine Eq.trans (filing_modify _ p ?_) (filing_notifyIds ..)
    exact fun _ => rfl

theorem filing_dropWatch (t : NotifyType) : (s.dropWatch p t).filing = s.filing := by
  unfold dropWatch
  split
  · refine Eq.trans (filing_modify _ p ?_) (filing_notifyWatch ..)
    exact fun _ => rfl
  · rfl

end CacheMgr

/-! ## What the steps do -/

/-- What is said of the list and the expire time of an item. -/
abbrev Filed := Ptr → Nat → Nat → Prop

/-- The item is in the list that `get_expiration_id` chooses at `now`. -/
def Fresh (now : Nat) : Filed := fun _ i t => i = CacheMgr.getExpirationId now t

/-- The item was not in use in the state `s`. -/
def Unused (s : CacheMgr) : Filed := fun p _ _ => (s.item p).refCount = 0

def Filed.At (A : Filed) (s : CacheMgr) (p : Ptr) : Prop :=
  A p (s.item p).expirationId (s.item p).expireTime

/-- An item in use is where it was, or `A` says where. The failing asserts are excluded,
because a reference count may only be counted down from a positive number. -/
structure Files (A : Filed) (s s' : CacheMgr) : Prop where
  ok : s'.ok = true → s.ok = true
  kept : s'.ok = true → ∀ q, 0 < (s'.item q).refCount →
    0 < (s.item q).refCount ∧ (s'.item q).expirationId = (s.item q).expirationId ∧
        (s'.item q).expireTime = (s.item q).expireTime ∨
      A.At s' q

namespace Files

variable {A : Filed} {s s' s'' : CacheMgr} {p : Ptr}

theorem of_filing (h : s'.filing = s.filing) : Files A s s' := by
  have hok : s'.ok = s.ok := congrArg Prod.fst h
  refine ⟨fun ho => hok ▸ ho, fun _ q hq => .inl ?_⟩
  have hitem : (s'.item q).filing = (s.item q).filing := congrFun (congrArg Prod.snd h) q
  have href : (s'.item q).refCount = (s.item q).refCount := congrArg Prod.fst hitem
  exact ⟨href ▸ hq, congrArg (·.2.1) hitem, congrArg (·.2.2) hitem⟩

theorem refl (s : CacheMgr) : Files A s s := of_filing rfl

theorem trans (h : Files A s s') (h' : Files A s' s'') : Files A s s'' := by
  refine ⟨fun ho => h.ok (h'.ok ho), fun ho q hq => ?_⟩
  rcases h'.kept ho q hq with ⟨hq', hi', ht'⟩ | hfiled
  · rcases h.kept (h'.ok ho) q hq' with ⟨hq'', hi, ht⟩ | hfiled
    · exact .inl ⟨hq'', hi'.trans hi, ht'.trans ht⟩
    · refine .inr ?_
      rw [Filed.At, hi', ht']
      exact hfiled
  · exact .inr hfiled

theorem congr (h : Files A s' s'') (hs : s'.filing = s.filing) : Files A s s'' :=
  (of_filing hs).trans h

theorem followed (h : Files A s s') (hs : s''.filing = s'.filing) : Files A s s'' :=
  h.trans (of_filing hs)

/-- One item changes. -/
theorem of_item (hok : s'.ok = true → s.ok = true) (hne : ∀ q, q ≠ p → s'.item q = s.item q)
    (hp : s'.ok = true → 0 < (s'.item p).refCount → 0 < (s.item p).refCount ∧
      (s'.item p).expirationId = (s.item p).expirationId ∧
      (s'.item p).expireTime = (s.item p).expireTime ∨ A.At s' p) : Files A s s' := by
  refine ⟨hok, fun ho q hq => ?_⟩
  by_cases hqp : q = p
  · subst hqp
    exact hp ho hq
  · rw [hne q hqp] at hq ⊢
    exact .inl ⟨hq, rfl, rfl⟩

end Files

theorem at_of_filing {A : Filed} {s s' : CacheMgr} {p : Ptr} (h : s'.filing = s.filing) (hf : A.At s p) : A.At s' p := by
  have hitem : (s'.item p).filing = (s.item p).filing := congrFun (congrArg Prod.snd h) p
  rw [Filed.At, show (s'.item p).expirationId = _ from congrArg (·.2.1) hitem,
    show (s'.item p).expireTime = _ from congrArg (·.2.2) hitem]
  exact hf

open StepLemmas

namespace CacheMgr

variable {env : Env} {A : Filed} (s : CacheMgr) (o : Malloc) (p q : Ptr)

/-- A reference is taken to an item in use, or to one that has just been allocated. -/
theorem files_addReference (h : 0 < (s.item p).refCount ∨ A.At s p) :
    Files A s (s.addReference env p) := by
  refine .of_item (p := p) id (fun q hq => item_modify_of_ne s _ hq) fun _ _ => ?_
  rcases h with h | h
  · refine .inl ⟨h, ?_, ?_⟩ <;> rw [addReference, item_modify_self]
  · refine .inr ?_
    rw [Filed.At, addReference, item_modify_self]
    exact h

theorem ok_freeItem (h : (s.freeItem p).ok = true) : s.ok = true := by
  have hassert : (s.freeItem p).ok = ((s.assert (!s.lists.isLinked
      (.expire (s.item p).expirationId) p)).assert ((s.item p).refCount == 0)).ok := by
    unfold freeItem
    dsimp only
    split <;> rfl
  rw [hassert] at h
  simp only [assert, Bool.and_eq_true] at h
  exact h.1.1

theorem item_freeItem_self : (s.freeItem p).item p = (s.item p).reset := by
  unfold freeItem
  dsimp only
  split <;> exact item_modify_self ..

theorem files_release : Files A s (s.doReleaseReference env p) := by
  have hne (q : Ptr) (hq : q ≠ p) : (s.doReleaseReference env p).item q = s.item q :=
    item_release_of_ne env s hq
  have hok : (s.doReleaseReference env p).ok = true → s.ok = true ∧ 0 < (s.item p).refCount := by
    intro h
    have hassert : (s.assert (0 < (s.item p).refCount)).ok = true := by
      unfold doReleaseReference at h
      dsimp only at h
      split at h
      · exact ok_freeItem (CacheMgr.modify _ p _) p h
      · exact h
    simpa [assert] using hassert
  refine .of_item (p := p) (fun h => (hok h).1) hne fun ho hpos => .inl ⟨(hok ho).2, ?_⟩
  unfold doReleaseReference at hpos ⊢
  dsimp only at hpos ⊢
  split at hpos
  · rw [item_freeItem_self] at hpos
    exact absurd hpos (Nat.lt_irrefl 0)
  · next hz =>
    rw [if_neg hz]
    exact ⟨by rw [item_modify_self]; rfl, by rw [item_modify_self]; rfl⟩

theorem files_doUnlink (t : NotifyType) : Files A s (s.doUnlink env p t) := by
  have hdetach : Files A s (s.detach env p) := by
    refine ⟨fun ho => ?_, fun _ q hq => .inl ⟨hq, rfl, rfl⟩⟩
    have hand : (s.ok && s.lists.isLinked (.expire (s.item p).expirationId) p) = true := ho
    rw [Bool.and_eq_true] at hand
    exact hand.1
  exact (hdetach.followed (filing_dropWatch ..)).trans (files_release ..)

theorem files_doLink (h : 0 < (s.item p).refCount ∨ A.At s p) :
    Files A s (s.doLink env o p) := by
  let s₁ := (s.stat (.itemLink (s.item p).groupId (s.item p).classId (s.totalSize env p))).getCacheId.2
  let s₂ := s₁.modify p fun it =>
    { it with cacheId := (abs env s).nextId, lastUpdateTime := s₁.currTime }
  have hfil : s₂.filing = s.filing := filing_modify s₁ p fun _ => rfl
  have hs₂ : 0 < (s₂.item p).refCount ∨ A.At s₂ p := by
    rw [item_modify_self]
    exact h.imp id (at_of_filing hfil)
  exact ((files_addReference s₂ p hs₂).congr hfil).followed rfl

theorem files_doReplace {n : Ptr} (hne : n ≠ p) (h : 0 < (s.item n).refCount ∨ A.At s n) :
    Files A s (s.doReplace env o p n) := by
  have hitem : (s.doUnlink env p .dataUpdated).item n = s.item n := item_unlink_of_ne env s _ hne
  refine (files_doUnlink s p .dataUpdated).trans (files_doLink _ o n ?_)
  rw [hitem, Filed.At, hitem]
  exact h

/-- A new item is in the list where it belongs at the time. -/
theorem files_doAlloc {s' : CacheMgr} {r : Option Ptr} {g kl fl et ds es : Nat}
    (h : s.doAlloc env o g kl fl et ds es = (r, s'))
    (hA : ∀ n, r = some n → A n (getExpirationId s.currTime et) et) :
    Files A s s' ∧ ∀ n, r = some n → A.At s' n := by
  have hid : getExpirationId s.currTime et % 2 ^ 8 = getExpirationId s.currTime et := by
    have hlt := getExpirationId_lt s.currTime et
    exact Nat.mod_eq_of_lt (by omega)
  obtain ⟨c, hc⟩ := getClassId_snd s (calcItemSize env kl ds es)
  unfold doAlloc at h
  dsimp only at h
  rw [hc] at h
  generalize (s.getClassId (calcItemSize env kl ds es)).1 = id at h
  have hnone {s' : CacheMgr} (h : (none, { s with lastClassId := c }) = (r, s')) :
      Files A s s' ∧ ∀ n, r = some n → A.At s' n := by
    obtain ⟨rfl, rfl⟩ := Prod.mk.inj h
    exact ⟨.of_filing rfl, nofun⟩
  have hsome {m : CacheMgr} {n : Ptr} (h : (some n, m.initItem n id g kl fl et ds es) = (r, s'))
      (hok : m.ok = s.ok) (hnow : m.currTime = s.currTime) (hne : ∀ q, q ≠ n → m.item q = s.item q) :
      Files A s s' ∧ ∀ n, r = some n → A.At s' n := by
    obtain ⟨rfl, rfl⟩ := Prod.mk.inj h
    have hat : A.At (m.initItem n id g kl fl et ds es) n := by
      rw [Filed.At, initItem, item_modify_self, hnow]
      show A n (getExpirationId s.currTime et % 2 ^ 8) et
      rw [hid]
      exact hA n rfl
    refine ⟨.of_item (p := n) (fun h => hok ▸ h) (fun q hq => ?_) fun _ _ => .inr hat, fun k hk => ?_⟩
    · rw [initItem, item_modify_of_ne _ _ hq, hne q hq]
    · obtain rfl := Option.some.inj hk
      exact hat
  split at h
  · exact hnone h
  · split at h
    · exact hsome h rfl rfl fun _ _ => rfl
    · split at h
      · split at h
        · exact hsome h rfl rfl fun q hq => Function.update_of_ne hq ..
        · exact hnone h
      · exact hnone h

end CacheMgr

/-! ## Operations -/

open RefinementLemmas

namespace CacheMgr

variable {env : Env} {A : Filed} {held : Ptr → Nat} {L : ListId → List Ptr} {s : CacheMgr}
  {o : Malloc} {p : Ptr}

theorem pos_of_find (h : Core env held L s) {g : Nat} {k : Bytes}
    (hf : s.find g k (env.hash32 k g) = some p) : 0 < (s.item p).refCount :=
  h.pos_of_linked ((h.find_iff g k).mp hf).1

theorem files_doGet (h : Core env held L s) (g : Nat) (k : Bytes) :
    Files A s (s.doGet env g k (env.hash32 k g)).2 := by
  unfold doGet
  split
  · next p hf => exact files_addReference s p (.inl (pos_of_find h hf))
  · exact .refl s

theorem files_get (h : Core env held L s) (g : Nat) (k : Bytes) (w : Nat) (b : Bool) :
    Files A s (s.get env g k w b).2 := by
  have hget : Files A s (s.doGetExpiration env g k (env.hash32 k g)).2 := by
    unfold doGetExpiration
    split
    · next p hf =>
      have href := @files_addReference env A s p (.inl (pos_of_find h hf))
      dsimp only
      split
      · exact href
      · split
        · exact href
        · exact files_doUnlink s p .expired
    · exact .refl s
  unfold CacheMgr.get
  split
  · next p x s₁ hd =>
    rw [hd] at hget
    split
    · split
      · exact hget.followed (filing_addWatch s₁ p w)
      · exact (hget.followed (filing_stat ..)).trans (files_release ..)
    · split
      · exact hget.followed rfl
      · exact hget.followed rfl
  · next hd =>
    rw [hd] at hget
    exact hget.followed rfl

theorem files_updateFlags (h : Core env held L s) (g : Nat) (k : Bytes) (x fl : Nat) :
    Files A s (s.updateFlags env g k x fl).2 := by
  have hget := files_doGet (A := A) h g k
  unfold updateFlags
  split
  · next p s₁ hd =>
    rw [hd] at hget
    split
    · let s₂ := s₁.modify p fun it => { it with flags := fl }
      let s₃ := if (s₂.item p).watchItem.isSome then s₂.notifyWatch p .baseInfoUpdated else s₂
      have h₂ : s₂.filing = s₁.filing := filing_modify s₁ p fun _ => rfl
      have h₃ : s₃.filing = s₂.filing := by
        dsimp only [s₃]
        split
        · exact filing_notifyWatch ..
        · rfl
      have h₄ : (s₃.getCacheId.2.modify p fun it =>
          { it with cacheId := s₃.getCacheId.1, lastUpdateTime := s₃.currTime }).filing = s₃.filing :=
        filing_modify _ p fun _ => rfl
      exact (hget.followed (h₄.trans (h₃.trans h₂))).trans
        ((@files_release env _ _ p).congr (filing_stat ..))
    · exact hget.followed rfl
  · next hd =>
    rw [hd] at hget
    exact hget.followed rfl

theorem files_remove (h : Core env held L s) (g : Nat) (k : Bytes) (x : Nat) :
    Files A s (s.remove env g k x).2 := by
  have hget := files_doGet (A := A) h g k
  unfold CacheMgr.remove
  split
  · next s₁ hd =>
    rw [hd] at hget
    split
    · exact (hget.followed (filing_stat ..)).trans
        ((files_doUnlink _ _ .deleted).trans (files_release ..))
    · exact (hget.followed (filing_stat ..)).trans (files_release ..)
  · next hd =>
    rw [hd] at hget
    exact hget.followed rfl

/-- An item whose list and expire time are set together is where it belongs. -/
theorem files_updateExpiration (h : Core env held L s) (g : Nat) (k : Bytes) (x y : Nat)
    (hA : (s.updateExpiration env g k x y).1.1 = true → ∀ p,
      A p (getExpirationId s.currTime (realtime s.currTime y)) (realtime s.currTime y)) :
    Files A s (s.updateExpiration env g k x y).2 := by
  unfold updateExpiration doGet at hA ⊢
  cases hf : s.find g k (env.hash32 k g) with
  | none => exact .of_filing rfl
  | some p =>
    have hget : Files A s (s.addReference env p) :=
      files_addReference s p (.inl (pos_of_find h hf))
    rw [hf] at hA
    dsimp only at hA ⊢
    split at hA
    · next hx =>
      rw [if_pos hx]
      refine Files.trans ?_ ((@files_release env _ _ p).congr (filing_stat ..))
      let et := realtime s.currTime y
      let s₁ := s.addReference env p
      let s₂ := if getExpirationId s.currTime et ≠ (s₁.item p).expirationId then
        s₁.moveExpire p (s₁.item p).expirationId (getExpirationId s.currTime et) else s₁
      have hitem : (s₂.item p).expirationId = getExpirationId s.currTime et := by
        dsimp only [s₂]
        split
        · have hlt := getExpirationId_lt s.currTime et
          rw [item_moveExpire_self]
          exact Nat.mod_eq_of_lt (by omega)
        · next he => exact (not_not.mp he).symm
      have hne (q : Ptr) (hq : q ≠ p) : s₂.item q = s₁.item q := by
        dsimp only [s₂]
        split
        · exact congrArg Prod.fst (slot_moveExpire s₁ (s₁.item p).expirationId _ hq)
        · rfl
      have hok : s₂.ok = s₁.ok := by
        dsimp only [s₂]
        split <;> rfl
      refine hget.trans (.of_item (p := p) (fun ho => hok ▸ ho) (fun q hq => ?_) fun _ _ => .inr ?_)
      · exact (item_modify_of_ne s₂ _ hq).trans (hne q hq)
      · have hself := item_modify_self s₂ p fun it => { it with expireTime := et }
        show A.At (s₂.modify p fun it => { it with expireTime := et }) p
        rw [Filed.At, hself]
        show A p (s₂.item p).expirationId et
        rw [hitem]
        exact hA rfl p
    · next hx =>
      rw [if_neg hx]
      exact hget.followed rfl

theorem filing_of_watch {s₁ s₂ : CacheMgr} {q w : Nat} {f g : Nat → Nat → Nat → StatCall}
    {m : Nat → Nat → StatCall} {b : Bool} (h : s₁.filing = s.filing)
    (hc : s₁.checkWatchReplace env p q w f g m = (b, s₂)) : s₂.filing = s.filing := by
  have hw := filing_checkWatchReplace env s₁ p q w f g m
  rw [hc] at hw
  exact hw.trans h

theorem filing_of_none {s' : CacheMgr} {g kl fl et ds es : Nat}
    (ha : s.doAlloc env o g kl fl et ds es = (none, s')) : s'.filing = s.filing := by
  obtain ⟨c, rfl⟩ := Core.doAlloc_none ha
  rfl

theorem files_released (s : CacheMgr) (p q : Ptr) :
    Files A s ((s.doReleaseReference env p).doReleaseReference env q) :=
  (files_release ..).trans (files_release ..)

theorem eq_of_doGetOf {s₁ : CacheMgr} (hd : s.doGetOf env p = (none, s₁)) : s₁ = s := by
  unfold doGetOf doGet at hd
  split at hd
  · exact nomatch (Prod.mk.inj hd).1
  · exact (Prod.mk.inj hd).2.symm

/-- The end of `set` and of `replace`, once the old item has been found. -/
theorem files_replaced {s₁ : CacheMgr} {r t w : Nat} {f g : Nat → Nat → Nat → StatCall}
    {m : Nat → Nat → StatCall} (hne : p ≠ r) (hpos : 0 < (s₁.item p).refCount) :
    Files A s₁ (match s₁.checkWatchReplace env p t w f g m with
      | (true, s) =>
        let s := s.doReplace env o r p
        let s := s.addWatchIf p w
        ((Reason.success, some (s.item p).cacheId), s.doReleaseReference env r)
      | (false, s) => ((.watchNotFound, none), s.doReleaseReference env r)).2 := by
  have hw := filing_checkWatchReplace env s₁ p t w f g m
  split
  · next s₂ hc =>
    rw [hc] at hw
    have href : (s₂.item p).refCount = (s₁.item p).refCount :=
      congrArg Prod.fst (congrFun (congrArg Prod.snd hw) p)
    refine ((files_doReplace s₂ o r hne (.inl ?_)).congr hw).trans
      ((files_release ..).congr (filing_addWatchIf ..))
    rw [href]
    exact hpos
  · next hc =>
    rw [hc] at hw
    exact (files_release ..).congr hw

/-- The item that an operation allocates is not the one it has found, and was not in use. -/
theorem new_of_alloc (h : Core env held L s) (hroom : Room env held) (hl : Linked L p) {n : Ptr}
    {s₂ : CacheMgr} {g kl fl et ds es : Nat}
    (ha : (s.addReference env p).doAlloc env o g kl fl et ds es = (some n, s₂)) :
    n ≠ p ∧ (s.item n).refCount = 0 := by
  obtain ⟨s₁, heq, hcore, -⟩ := take h hroom hl
  rw [heq] at ha
  have hidle := (hcore.doAlloc_some ha).idle
  have hne : n ≠ p := by
    intro he
    have hpos := hcore.pos_of_linked hl
    rw [he] at hidle
    omega
  refine ⟨hne, ?_⟩
  rw [← heq, addReference, item_modify_of_ne s _ hne] at hidle
  exact hidle

section Request

variable (h : Core env held L s) (hr : Request env held s p)
include h hr

theorem files_doGetOf : Files A s (s.doGetOf env p).2 := by
  unfold doGetOf
  rw [hr.hash]
  exact files_doGet h ..

/-- The item that is found is not the request item. -/
theorem ne_of_doGetOf {old : Ptr} {s₁ : CacheMgr} (hd : s.doGetOf env p = (some old, s₁)) :
    p ≠ old ∧ s₁.item p = s.item p ∧ s₁ = s.addReference env old ∧ Linked L old := by
  unfold doGetOf at hd
  rw [hr.hash] at hd
  unfold doGet at hd
  split at hd
  · next q hf =>
    obtain ⟨hq, rfl⟩ := Prod.mk.inj hd
    obtain rfl := Option.some.inj hq
    have hl := ((h.find_iff _ _).mp hf).1
    have hne : p ≠ q := by
      intro he
      exact Request.not_linked hr h (he ▸ hl)
    exact ⟨hne, item_modify_of_ne s _ hne, rfl, hl⟩
  · exact nomatch (Prod.mk.inj hd).1

/-- The end of `add` and of `set`: the request item is linked. -/
theorem files_added {w : Nat} {f g : Nat → Nat → Nat → StatCall} {m : Nat → Nat → StatCall}
    {s₁ : CacheMgr} (hc : s.checkWatchAdd env p w f g m = (true, s₁)) :
    Files A s (s₁.doLink env o p) := by
  have hw := filing_checkWatchAdd env s p w f g m
  rw [hc] at hw
  have href : (s₁.item p).refCount = (s.item p).refCount :=
    congrArg Prod.fst (congrFun (congrArg Prod.snd hw) p)
  refine (files_doLink s₁ o p (.inl ?_)).congr hw
  rw [href]
  exact h.pos_of_held hr.held

theorem files_add (w : Nat) : Files A s (s.add env o p w).2 := by
  have hget := files_doGetOf (A := A) h hr
  unfold CacheMgr.add
  split
  · next s₁ hd =>
    obtain rfl := eq_of_doGetOf hd
    have hw := filing_checkWatchAdd env s₁ p w .addSuccess .addSuccessWatch .addWatchMiss
    split
    · next hc => exact files_added h hr hc
    · next hc =>
      rw [hc] at hw
      exact .of_filing hw
  · next hd =>
    rw [hd] at hget
    exact (hget.trans (files_release ..)).followed rfl

theorem files_loadFromFileLink (w : Nat) : Files A s (s.loadFromFileLink env o p w).2 := by
  have hget := files_doGetOf (A := A) h hr
  unfold CacheMgr.loadFromFileLink
  split
  · next s₁ hd =>
    obtain rfl := eq_of_doGetOf hd
    have hw := filing_checkWatchAdd env s₁ p w .addSuccess .addSuccessWatch .addWatchMiss
    split
    · next hc => exact files_added h hr hc
    · next hc =>
      rw [hc] at hw
      exact (files_release ..).congr hw
  · next hd =>
    rw [hd] at hget
    exact hget.trans (files_release ..)

theorem files_replace (w : Nat) : Files A s (s.replace env o p w).2 := by
  have hget := files_doGetOf (A := A) h hr
  unfold CacheMgr.replace
  split
  · next hd =>
    rw [hd] at hget
    exact hget.followed rfl
  · next old s₁ hd =>
    obtain ⟨hne, hitem, -, -⟩ := ne_of_doGetOf h hr hd
    rw [hd] at hget
    split
    · exact hget.trans (files_replaced hne (by rw [hitem]; exact h.pos_of_held hr.held))
    · exact hget.trans ((files_release ..).congr (filing_stat ..))

theorem files_set (w : Nat) : Files A s (s.set env o p w).2 := by
  have hget := files_doGetOf (A := A) h hr
  unfold CacheMgr.set
  split
  · next old s₁ hd =>
    obtain ⟨hne, hitem, -, -⟩ := ne_of_doGetOf h hr hd
    rw [hd] at hget
    split
    · exact hget.trans (files_replaced hne (by rw [hitem]; exact h.pos_of_held hr.held))
    · exact hget.trans ((files_release ..).congr (filing_stat ..))
  · next s₁ hd =>
    obtain rfl := eq_of_doGetOf hd
    have hw := filing_checkWatchAdd env s₁ p w .setSuccess .setSuccessWatch .setWatchMiss
    split
    · next hc => exact files_added h hr hc
    · next hc =>
      rw [hc] at hw
      exact .of_filing hw

variable (hA : ∀ n t, (s.item n).refCount = 0 → A n (getExpirationId s.currTime t) t)
include hA

/-- `append` and `prepend` allocate the item that takes the place of the one they found. -/
theorem files_allocated (hroom : Room env held) {old n : Ptr} {s₁ s₂ : CacheMgr}
    {g kl fl et ds es : Nat} (hd : s.doGetOf env p = (some old, s₁))
    (ha : s₁.doAlloc env o g kl fl et ds es = (some n, s₂)) :
    Files A s s₂ ∧ A.At s₂ n ∧ n ≠ old := by
  have hget := files_doGetOf (A := A) h hr
  obtain ⟨-, -, hs₁, hl⟩ := ne_of_doGetOf h hr hd
  obtain ⟨hne, hidle⟩ := new_of_alloc h hroom hl (hs₁ ▸ ha)
  have hnow : s₁.currTime = s.currTime := by rw [hs₁]; rfl
  obtain ⟨hfiles, hat⟩ := files_doAlloc s₁ o ha fun m hm => by
    obtain rfl := Option.some.inj hm
    rw [hnow]
    exact hA n et hidle
  rw [hd] at hget
  exact ⟨hget.trans hfiles, hat n rfl, hne⟩

theorem files_append (hroom : Room env held) (w : Nat) :
    Files A s (s.append env o p w).2 := by
  have hget := files_doGetOf (A := A) h hr
  unfold CacheMgr.append
  split
  · next old s₁ hd =>
    split
    · rw [hd] at hget
      exact hget.followed rfl
    · split
      · next n s₂ ha =>
        obtain ⟨hfiles, hat, hne⟩ := files_allocated h hr hA hroom hd ha
        dsimp only
        split
        · next s₃ hc =>
          have hfil := filing_of_watch (filing_copyInto ..) hc
          refine (hfiles.trans ((files_doReplace s₃ o old hne (.inr ?_)).congr hfil)).trans
            ((files_released ..).congr (filing_addWatchIf ..))
          exact at_of_filing hfil hat
        · next hc =>
          exact hfiles.trans ((files_released ..).congr (filing_of_watch (filing_copyInto ..) hc))
      · next ha =>
        rw [hd] at hget
        exact (hget.followed (filing_of_none ha)).trans ((files_release ..).congr (filing_stat ..))
  · next hd =>
    rw [hd] at hget
    exact hget.followed rfl

theorem files_prepend (hroom : Room env held) (w : Nat) :
    Files A s (s.prepend env o p w).2 := by
  have hget := files_doGetOf (A := A) h hr
  unfold CacheMgr.prepend
  split
  · next old s₁ hd =>
    split
    · rw [hd] at hget
      exact hget.followed rfl
    · split
      · next n s₂ ha =>
        obtain ⟨hfiles, hat, hne⟩ := files_allocated h hr hA hroom hd ha
        dsimp only
        split
        · next s₃ hc =>
          have hfil := (filing_addWatchIf s₃ p w).trans (filing_of_watch (filing_copyInto ..) hc)
          refine (hfiles.trans ((files_doReplace _ o old hne (.inr ?_)).congr hfil)).trans
            (files_released ..)
          exact at_of_filing hfil hat
        · next hc =>
          exact hfiles.trans ((files_released ..).congr (filing_of_watch (filing_copyInto ..) hc))
      · next ha =>
        rw [hd] at hget
        exact (hget.followed (filing_of_none ha)).trans ((files_release ..).congr (filing_stat ..))
  · next hd =>
    rw [hd] at hget
    exact hget.followed rfl

end Request

theorem files_delta (h : Core env held L s) (hroom : Room env held)
    (hA : ∀ n t, (s.item n).refCount = 0 → A n (getExpirationId s.currTime t) t) (g : Nat) (k : Bytes)
    (incr : Bool) (d : Int) (x : Nat) : Files A s (s.delta env o g k incr d x).2 := by
  unfold CacheMgr.delta doGet
  cases hf : s.find g k (env.hash32 k g) with
  | none => exact .of_filing rfl
  | some p =>
    have hl := ((h.find_iff _ _).mp hf).1
    obtain ⟨s₁, heq, -⟩ := take h hroom hl
    have hget : Files A s s₁ := heq ▸ files_addReference s p (.inl (h.pos_of_linked hl))
    have hnow : s₁.currTime = s.currTime := heq ▸ rfl
    dsimp only
    rw [heq]
    split
    · generalize deltaValue (s₁.item p) incr d = value
      split
      · split
        · next ha => exact (hget.followed (filing_of_none ha)).trans (files_release ..)
        · next n s₂ ha =>
          obtain ⟨hne, hidle⟩ := new_of_alloc h hroom hl (heq.symm ▸ ha)
          obtain ⟨hfiles, hat⟩ := files_doAlloc s₁ o ha fun m hm => by
            obtain rfl := Option.some.inj hm
            rw [hnow]
            exact hA n _ hidle
          have hfil := filing_copyInto s₂ n p (formatInt64 value) [] (s₂.item p).ext
          refine (hget.trans hfiles).trans (((files_doReplace _ o p hne (.inr ?_)).congr hfil).trans
            ((files_release ..).trans ((files_release ..).congr (filing_stat ..))))
          exact at_of_filing hfil (hat n rfl)
      · refine hget.trans ((@files_release env _ _ p).congr ?_)
        rw [filing_stat]
        refine Eq.trans (filing_modify _ p ?_) (filing_modify s₁.getCacheId.2 p ?_)
        · exact fun _ => rfl
        · exact fun _ => rfl
    · exact hget.trans ((files_release ..).congr (filing_stat ..))

/-- Nothing is claimed once an assert has failed. -/
theorem files_assert_false (s : CacheMgr) : Files A s (s.assert false) := by
  refine ⟨fun ho => ?_, fun _ q hq => .inl ⟨hq, rfl, rfl⟩⟩
  have hand : (s.ok && false) = true := ho
  rw [Bool.and_false] at hand
  cases hand

theorem files_flush (g : Nat) : Files A s (s.flush env g).2 := by
  have hloop (n : Nat) : ∀ (r : Nat × Nat × CacheMgr) (it : Option Ptr),
      Files A r.2.2 (flushLoop env g n it r).2.2 := by
    induction n with
    | zero =>
      intro r it
      cases it with
      | none => exact .refl _
      | some p => exact files_assert_false r.2.2
    | succ n ih =>
      intro r it
      cases it with
      | none => exact .refl _
      | some p =>
        unfold flushLoop
        dsimp only
        split
        · exact (files_doUnlink r.2.2 p .flushed).trans (ih (_, _, r.2.2.doUnlink env p .flushed) _)
        · exact ih _ _
  have hfold (is : List Nat) : ∀ r : Nat × Nat × CacheMgr,
      Files A r.2.2 (is.foldl (flushList env g) r).2.2 := by
    induction is with
    | nil => exact fun r => .refl _
    | cons i is ih => exact fun r => (hloop _ r _).trans (ih _)
  have h := hfold (List.range 34) (0, 0, s)
  unfold CacheMgr.flush
  generalize (List.range 34).foldl (flushList env g) (0, 0, s) = r at h ⊢
  exact h.followed (filing_stat ..)

/-- What the sweep says of an item that it moves. -/
def Rebucketed (now : Nat) : Filed := fun _ i t => i < 33 ∧ now < t

theorem files_expireLoop {now i : Nat} (hi : i < 33) (n : Nat) :
    ∀ (s : CacheMgr) (it : Option Ptr), Files (Rebucketed now) s (expireLoop env now i n it s) := by
  induction n with
  | zero =>
    intro s it
    cases it with
    | none => exact .refl s
    | some p => exact files_assert_false s
  | succ n ih =>
    intro s it
    cases it with
    | none => exact .refl s
    | some p =>
      unfold expireLoop
      dsimp only
      split
      · exact (files_doUnlink s p .expired).trans (ih _ _)
      · next hdue =>
        split
        · next j hj =>
          have hle := SweepLemmas.rebucket_le i hj
          refine Files.trans ?_ (ih (s.moveExpire p i j) _)
          refine .of_item (p := p) id (fun q hq => ?_) fun _ _ => .inr ?_
          · exact congrArg Prod.fst (slot_moveExpire s i j hq)
          · rw [Filed.At, item_moveExpire_self]
            show j % 2 ^ 8 < 33 ∧ now < (s.item p).expireTime
            omega
        · exact ih s _

theorem files_freeFlushedItems (s : CacheMgr) : Files A s (s.freeFlushedItems env) := by
  have hloop (n : Nat) : ∀ (s : CacheMgr) (it : Option Ptr),
      Files A s (freeFlushedLoop env n it s) := by
    induction n with
    | zero =>
      intro s it
      cases it with
      | none => exact .refl s
      | some p => exact files_assert_false s
    | succ n ih =>
      intro s it
      cases it with
      | none => exact .refl s
      | some p =>
        unfold freeFlushedLoop
        dsimp only
        refine Files.trans ((@files_release env _ _ p).congr ?_) (ih _ _)
        rfl
  exact hloop ..

/-- The sweep leaves an item in its list, or moves it to a list that it goes through. -/
theorem files_checkExpired (s : CacheMgr) :
    Files (Rebucketed s.currTime) s (s.checkExpired env) := by
  have hfold (is : List Nat) (his : ∀ i ∈ is, i < 33) : ∀ s₁ : CacheMgr,
      Files (Rebucketed s.currTime) s₁ (is.foldl (expireList env s.currTime) s₁) := by
    induction is with
    | nil => exact fun s₁ => .refl s₁
    | cons i is ih =>
      intro s₁
      have hlist : Files (Rebucketed s.currTime) s₁ (expireList env s.currTime s₁ i) := by
        unfold expireList
        split
        · exact (files_expireLoop (his i (List.mem_cons_self ..)) _ _ _).congr rfl
        · exact .refl s₁
      exact hlist.trans (ih (fun j hj => his j (List.mem_cons_of_mem _ hj)) _)
  let s₁ := CacheMgr.expireWatchs { s with lastCheckExpiredTime := s.currTime } s.currTime
  have hfiling : s₁.filing = s.filing := rfl
  have hsweep : Files (Rebucketed s.currTime) s₁ (s₁.expireItems env s.currTime) :=
    hfold (List.range 33) (fun i hi => List.mem_range.mp hi) s₁
  unfold checkExpired
  split
  · exact (hsweep.congr hfiling).trans (files_freeFlushedItems _)
  · exact .refl s

/-- What `get_touch` does to the item it finds; the others are left alone. -/
theorem files_getTouch (h : Core env held L s) (g : Nat) (k : Bytes) (w x : Nat) :
    ∃ s₁, (s₁ = s ∨ ∃ p, s.find g k (env.hash32 k g) = some p ∧
        s₁ = s.modify p fun it => { it with expireTime := realtime s.currTime x }) ∧
      Files A s₁ (s.getTouch env g k w x).2 := by
  unfold getTouch doGetTouch
  cases hf : s.find g k (env.hash32 k g) with
  | none => exact ⟨s, .inl rfl, .of_filing rfl⟩
  | some p =>
    let s₁ := s.modify p fun it => { it with expireTime := realtime s.currTime x }
    let s₂ := (s.addReference env p).modify p fun it => { it with expireTime := realtime s.currTime x }
    have hitem (q : Ptr) : s₂.item q = (s₁.addReference env p).item q := by
      by_cases hq : q = p
      · subst hq
        simp only [s₁, s₂, addReference, item_modify_self]
      · simp only [s₁, s₂, addReference, item_modify_of_ne _ _ hq]
    have href : Files A s₁ (s₁.addReference env p) := by
      refine files_addReference s₁ p (.inl ?_)
      rw [item_modify_self]
      exact pos_of_find h hf
    have hfil : s₂.filing = (s₁.addReference env p).filing :=
      Prod.ext rfl (funext fun q => congrArg CacheItem.filing (hitem q))
    have hget : Files A s₁ s₂ := href.followed hfil
    refine ⟨s₁, .inr ⟨p, rfl, rfl⟩, ?_⟩
    dsimp only
    split
    · split
      · exact hget.followed (filing_addWatch s₂ p w)
      · exact hget.trans ((files_release ..).congr (filing_stat ..))
    · exact hget.followed rfl

end CacheMgr

open CacheMgr

/-- Every operation but `get_touch` and the sweep leaves an item in its list, or files it
anew. -/
theorem files_exec {env : Env} {held : Ptr → Nat} {L : ListId → List Ptr} {s : CacheMgr} {op : Op}
    {A : Filed} (h : Core env held L s) (hroom : Room env held) (hready : Ready env held s op)
    (htouch : ∀ g k w x, op ≠ .getTouch g k w x) (hsweep : op ≠ .checkExpired)
    (hA : ∀ n t, (s.item n).refCount = 0 → A n (getExpirationId s.currTime t) t)
    (hretime : ∀ g k x y, op = .updateExpiration g k x y → (s.exec env op).1.succeeded = true →
      ∀ n t, A n (getExpirationId s.currTime t) t) :
    Files A s (s.exec env op).2 := by
  cases op with
  | alloc o g kl fl x ds es =>
    cases ha : s.doAlloc env o g kl fl (realtime s.currTime x) ds es with
    | mk r s' =>
      have hexec : (s.exec env (.alloc o g kl fl x ds es)).2 = s' := congrArg Prod.snd ha
      rw [hexec]
      refine (files_doAlloc s o ha fun n hn => hA n _ ?_).1
      subst hn
      exact (h.doAlloc_some ha).idle
  | fill p c => exact .of_filing (filing_fill ..)
  | get g k w b => exact files_get h g k w b
  | getTouch g k w x => exact absurd rfl (htouch g k w x)
  | updateFlags g k x fl => exact files_updateFlags h g k x fl
  | updateExpiration g k x y =>
    exact files_updateExpiration h g k x y fun hr p => hretime g k x y rfl hr p _
  | update verb o p w =>
    cases verb with
    | add => exact files_add h hready w
    | set => exact files_set h hready w
    | replace => exact files_replace h hready w
    | append => exact files_append h hready hA hroom w
    | prepend => exact files_prepend h hready hA hroom w
  | loadFromFileLink o p w => exact files_loadFromFileLink h hready w
  | remove g k x => exact files_remove h g k x
  | delta o g k incr d x => exact files_delta h hroom hA g k incr d x
  | flush g =>
    have hexec : s.exec env (.flush g) = (s.flush env g).map .flush id := rfl
    rw [hexec, Prod.map_snd, id_eq]
    exact files_flush g
  | checkExpired => exact absurd rfl hsweep
  | releaseReference p => exact files_release ..
  | createWatch g x =>
    refine .of_filing ?_
    show (s.createWatch g x).2.filing = s.filing
    unfold createWatch
    dsimp only
    split <;> rfl
  | checkWatchAndSetCallback sp g w ack x =>
    refine .of_filing ?_
    show (s.checkWatchAndSetCallback sp g w ack x).2.filing = s.filing
    unfold checkWatchAndSetCallback
    split <;> rfl
  | checkWatchAndClearCallback sp w =>
    refine .of_filing ?_
    show (s.checkWatchAndClearCallback sp w).2.filing = s.filing
    unfold checkWatchAndClearCallback
    split <;> rfl
  | setCurrentTime tt => exact .of_filing rfl
  | connections alive => exact .of_filing rfl

end Xixi
