import Xixi.Moves.Step
import Xixi.Expiry.Sweep

/-!
# Every operation is a sequence of moves

1. `Op.Unlinks`, `Op.ChecksWatch`: in which states an operation unlinks an item, and in which it
   comes to the check of a watch that is to be put on what it stores.
2. `Op.scope`: what an operation may do.
3. `moves_exec`, `moves_step`: it does no more than that.
-/

namespace Xixi

open Xixi.Lists StepLemmas RefinementLemmas SweepLemmas ExpiryLemmas MoveLemmas

namespace CacheMgr

/-- The item that `do_get` finds for the key of the request item. -/
def findOf (s : CacheMgr) (p : Ptr) : Option Ptr :=
  s.find (s.item p).groupId (s.item p).key (s.cacheHashMap.hashValue p)

/-- The cache id of a request is 0 or that of the item found. -/
def Matches (s : CacheMgr) (x : Nat) (q : Ptr) : Prop := x = 0 ∨ x = (s.item q).cacheId

/-- There is no watch to be checked, or it is there. -/
def WatchOk (s : CacheMgr) (w : Nat) : Prop := w = 0 ∨ s.isValidWatchId w = true

/-- `do_alloc` in `append` and `prepend` returns an item. -/
def AppendRoom (env : Env) (s : CacheMgr) (o : Malloc) (p q : Ptr) : Prop :=
  (s.doAlloc env o (s.item p).groupId (s.item p).keyLength (s.item q).flags (s.item q).expireTime
    (((s.item p).dataSize + (s.item q).dataSize) % 2 ^ 32) (s.item q).extSize).1.isSome = true

/-- `do_alloc` in `delta` returns an item. -/
def DeltaRoom (env : Env) (s : CacheMgr) (o : Malloc) (q : Ptr) (n : Nat) : Prop :=
  (s.doAlloc env o (s.item q).groupId (s.item q).keyLength (s.item q).flags (s.item q).expireTime
    n (s.item q).extSize).1.isSome = true

end CacheMgr

namespace Op

/-- The group ids in the arguments. -/
def groups : Op → Nat → Prop
  | .alloc _ g _ _ _ _ _ | .get g _ _ _ | .getTouch g _ _ _ | .updateFlags g _ _ _
  | .updateExpiration g _ _ _ | .remove g _ _ | .delta _ g _ _ _ _ | .flush g | .createWatch g _
  | .checkWatchAndSetCallback _ g _ _ _ => fun x => x = g
  | _ => fun _ => False

/-- `malloc` has a chunk for an item. -/
def mallocs : Op → Bool
  | .alloc o _ _ _ _ _ _ | .update _ o _ _ | .delta o _ _ _ _ _ => o.item
  | _ => false

/-- The operation comes to `do_unlink`. -/
def Unlinks (env : Env) (s : CacheMgr) : Op → Prop
  | .get g k _ _ => ∃ q, s.find g k (env.hash32 k g) = some q ∧ (s.item q).expireTime ≠ 0 ∧
      (s.item q).expireTime ≤ s.currTime
  | .update verb o p w => ∃ q, s.findOf p = some q ∧ s.Matches (s.item p).cacheId q ∧
      s.WatchOk w ∧ verb ≠ .add ∧ (verb = .append ∨ verb = .prepend → s.AppendRoom env o p q)
  | .remove g k x => ∃ q, s.find g k (env.hash32 k g) = some q ∧ s.Matches x q
  | .delta o g k incr d x => ∃ q, s.find g k (env.hash32 k g) = some q ∧ s.Matches x q ∧
      (formatInt64 (CacheMgr.deltaValue (s.item q) incr d)).length ≠ (s.item q).dataSize ∧
      s.DeltaRoom env o q (formatInt64 (CacheMgr.deltaValue (s.item q) incr d)).length
  | .flush g => ∃ q, s.cacheHashMap.Mem q ∧ (s.item q).groupId = g
  | .checkExpired => s.currTime ≠ s.lastCheckExpiredTime ∧ ∃ q, s.cacheHashMap.Mem q ∧
      s.Due s.currTime 33 q ∧ (s.item q).expireTime ≤ s.currTime
  | _ => False

/-- The operation comes to the check of a watch. -/
def ChecksWatch (env : Env) (s : CacheMgr) : Op → Prop
  | .update verb o p w => w ≠ 0 ∧
      ((s.findOf p = none ∧ (verb = .add ∨ verb = .set)) ∨
        ∃ q, s.findOf p = some q ∧ s.Matches (s.item p).cacheId q ∧ verb ≠ .add ∧
          (verb = .append ∨ verb = .prepend → s.AppendRoom env o p q))
  | .loadFromFileLink _ p w => w ≠ 0 ∧ s.findOf p = none
  | _ => False

/-- What the operation may do in the state `s`. -/
def scope (env : Env) (s : CacheMgr) (op : Op) : Scope where
  groups := op.groups
  watched := op.ChecksWatch env s
  unlinks := op.Unlinks env s
  malloc := fun s' => op.mallocs = true ∧ s'.chunks = s.chunks

end Op

variable {env : Env} {A : Scope} {held : Ptr → Nat} {L : ListId → List Ptr} {s s₁ : CacheMgr}
  {p q : Ptr} {o : Malloc}

/-! ## Operations on a key -/

namespace MoveLemmas

theorem records_named {c : StatCall} (hl : c.linking = false) (hw : c.watched = false)
    (hg : A.groups c.groupId) : A.Records s c :=
  ⟨hl, .inl hg, fun h => nomatch hw.symm.trans h⟩

theorem records_item {c : StatCall} (hl : c.linking = false) (hw : c.watched = false)
    (hu : s.Referenced p) (hg : (s.item p).groupId = c.groupId) : A.Records s c :=
  ⟨hl, .inr ⟨p, hu, hg⟩, fun h => nomatch hw.symm.trans h⟩

/-- The reference an operation takes to the item it has found. -/
theorem found (h : Core env held L s) (hroom : Room env held) (hp : Linked L p) :
    ∃ s₁ : CacheMgr, s.addReference env p = s₁ ∧ Core env (bump held p) L s₁ ∧
      Moves env A s s₁ ∧ (∀ q, (s₁.item q).shape = (s.item q).shape) ∧
      ∀ q, (s₁.item q).cacheId = (s.item q).cacheId := by
  obtain ⟨s₁, hs₁, h₁, -⟩ := take h hroom hp
  have hitem : s₁.item = Function.update s.item p
      { s.item p with refCount := env.refWidth.store ((s.item p).refCount + 1) } := by
    rw [← hs₁]
    rfl
  refine ⟨s₁, hs₁, h₁, ?_, fun q => ?_, fun q => ?_⟩
  · have hm := moves_take (A := A) h (h.pos_of_linked hp) (hs₁ ▸ h₁.pos_of_linked hp)
    exact hs₁ ▸ hm
  · rw [hitem]
    by_cases hq : q = p
    · subst hq
      rw [Function.update_self]
      rfl
    · rw [Function.update_of_ne hq]
  · rw [hitem]
    by_cases hq : q = p
    · subst hq
      rw [Function.update_self]
    · rw [Function.update_of_ne hq]

theorem moves_release_stat {c : StatCall} (h : Core env (bump held p) L s) (hc : A.Records s c) :
    Moves env A s ((s.stat c).doReleaseReference env p) :=
  (moves_stat h hc).trans (moves_release (s := s.stat c) h)

/-- The end of `get` and of `get_touch`. -/
theorem moves_watched {β : Type} (h : Core env (bump held p) L s) (hp : Linked L p) (w : Nat)
    (x y z : β) {hit hitWatch miss : StatCall} (hhit : A.Records s hit)
    (hhitWatch : A.Records (s.modify p fun it => it.addWatch w) hitWatch)
    (hmiss : A.Records s miss) :
    Moves env A s (if w ≠ 0 then
        if s.isValidWatchId w then (x, (s.modify p fun it => it.addWatch w).stat hitWatch)
        else (y, (s.stat miss).doReleaseReference env p)
      else (z, s.stat hit)).2 := by
  split
  · split
    · have h₁ := h.modify (f := fun it => it.addWatch w) (h.pos_of_linked hp) rfl rfl fun _ => rfl
      exact (moves_modify h rfl rfl).trans (moves_stat h₁ hhitWatch)
    · exact moves_release_stat h hmiss
  · exact moves_stat h hhit

end MoveLemmas

theorem moves_get (h : Core env held L s) (hroom : Room env held) (k : Key) (w : Nat) (b : Bool)
    (hg : A.groups k.1)
    (hA : ∀ q, s.find k.1 k.2 (env.hash32 k.2 k.1) = some q → (s.item q).expireTime ≠ 0 →
      (s.item q).expireTime ≤ s.currTime → A.unlinks) :
    Moves env A s (s.get env k.1 k.2 w b).2 := by
  have hmiss : ∀ s' : CacheMgr,
      A.Records s' (if b then .getBaseMiss k.1 else .getMiss k.1) := by
    intro s'
    cases b <;> exact records_named rfl rfl hg
  rcases lookup h k with he | ⟨p, hp, rfl, he⟩
  · simp only [CacheMgr.get, CacheMgr.doGetExpiration, find_none he]
    exact moves_stat h (hmiss s)
  · obtain ⟨s₁, hs₁, h₁, hm₁, -⟩ := found (A := A) h hroom hp
    have hu := h₁.pos_of_linked hp
    have hhit : A.Records s₁ (if b then .getBaseHit (s₁.item p).groupId (s₁.item p).classId
        else .getHitNoWatch (s.item p).ident.1 (s₁.item p).classId (s₁.totalSize env p)) := by
      cases b with
      | true => exact records_item rfl rfl hu rfl
      | false => exact records_named rfl rfl hg
    let s₂ := s₁.modify p fun it => it.addWatch w
    have hwatch : A.Records s₂ (.getHitWatch (s.item p).ident.1 (s₂.item p).classId
        (s₂.totalSize env p)) := records_named rfl rfl hg
    have hno : A.Records s₁ (.getHitWatchMiss (s.item p).ident.1 (s₁.item p).classId) :=
      records_named rfl rfl hg
    have hend := fun x : Nat => hm₁.trans (moves_watched h₁ hp w
      (some (p, x), Reason.success) (none, .watchNotFound) (some (p, x), .success) hhit
      hwatch hno)
    unfold CacheMgr.get CacheMgr.doGetExpiration
    rw [find_linked h hp]
    by_cases h0 : (s.item p).expireTime = 0
    · simp only [h0, if_true, hs₁]
      cases b <;> exact hend 0
    · by_cases hlive : s.currTime < (s.item p).expireTime
      · simp only [h0, if_false, if_pos hlive, hs₁]
        cases b <;> exact hend ((s.item p).expireTime - s.currTime)
      · simp only [h0, if_false, if_neg hlive]
        obtain ⟨L', h', -⟩ := h.unlink hp .expired
        have hun := hA p (find_linked h hp) h0 (Nat.not_lt.mp hlive)
        exact (moves_unlink h hp hun .expired).trans (moves_stat h' (hmiss _))

theorem moves_getTouch (h : Core env held L s) (hroom : Room env held) (k : Key) (w x : Nat)
    (hg : A.groups k.1) : Moves env A s (s.getTouch env k.1 k.2 w x).2 := by
  rcases lookup h k with he | ⟨p, hp, rfl, he⟩
  · simp only [CacheMgr.getTouch, CacheMgr.doGetTouch, find_none he]
    exact moves_stat h (records_named rfl rfl hg)
  · obtain ⟨s₁, hs₁, h₁, hm₁, -⟩ := found (A := A) h hroom hp
    have h₂ := h₁.modify (f := fun it => { it with expireTime := CacheMgr.realtime s₁.currTime x })
      (h₁.pos_of_linked hp) rfl rfl fun _ => rfl
    have hm₂ := hm₁.trans (moves_modify (p := p)
      (f := fun it => { it with expireTime := CacheMgr.realtime s₁.currTime x }) h₁ rfl rfl)
    unfold CacheMgr.getTouch CacheMgr.doGetTouch
    rw [find_linked h hp]
    simp only [hs₁]
    exact hm₂.trans (moves_watched h₂ hp w _ _ _ (records_named rfl rfl hg)
      (records_named rfl rfl hg) (records_named rfl rfl hg))

theorem moves_remove (h : Core env held L s) (hroom : Room env held) (k : Key) (x : Nat)
    (hg : A.groups k.1)
    (hA : ∀ q, s.find k.1 k.2 (env.hash32 k.2 k.1) = some q → s.Matches x q → A.unlinks) :
    Moves env A s (s.remove env k.1 k.2 x).2 := by
  rcases lookup h k with he | ⟨p, hp, rfl, he⟩
  · simp only [CacheMgr.remove, doGet_none he]
    exact moves_stat h (records_named rfl rfl hg)
  · obtain ⟨s₁, hs₁, h₁, hm₁, -, hid⟩ := found (A := A) h hroom hp
    unfold CacheMgr.remove
    rw [doGet_linked h hp]
    simp only [hs₁, hid]
    by_cases hx : x = 0 ∨ x = (s.item p).cacheId
    · rw [if_pos hx]
      have hun := hA p (find_linked h hp) hx
      have hc : A.Records s₁ (.deleteSuccess (s.item p).ident.1 (s₁.item p).classId) :=
        records_named rfl rfl hg
      have h₂ := h₁.unlink (s := s₁.stat (.deleteSuccess (s.item p).ident.1 (s₁.item p).classId))
        hp .deleted
      obtain ⟨L₂, h₂, -⟩ := h₂
      exact ((hm₁.trans (moves_stat h₁ hc)).trans (moves_unlink (s := s₁.stat _) h₁ hp hun _)).trans
        (moves_release h₂)
    · rw [if_neg hx]
      exact hm₁.trans (moves_release_stat h₁ (records_named rfl rfl hg))

theorem moves_updateFlags (h : Core env held L s) (hroom : Room env held) (k : Key) (x fl : Nat)
    (hg : A.groups k.1) : Moves env A s (s.updateFlags env k.1 k.2 x fl).2 := by
  rcases lookup h k with he | ⟨p, hp, rfl, he⟩
  · simp only [CacheMgr.updateFlags, doGet_none he]
    exact moves_stat h (records_named rfl rfl hg)
  · obtain ⟨s₁, hs₁, h₁, hm₁, -, hid⟩ := found (A := A) h hroom hp
    unfold CacheMgr.updateFlags
    rw [doGet_linked h hp]
    simp only [hs₁, hid]
    by_cases hx : x = 0 ∨ x = (s.item p).cacheId
    · rw [if_pos hx]
      -- the flags, the notification, the new cache id
      have h₂ := h₁.modify (f := fun it => { it with flags := fl }) (h₁.pos_of_linked hp) rfl rfl
        fun _ => rfl
      have hm₂ := hm₁.trans (moves_modify (p := p) (f := fun it => { it with flags := fl }) h₁ rfl rfl)
      generalize s₁.modify p (fun it => { it with flags := fl }) = s₂ at h₂ hm₂
      obtain ⟨s₃, hs₃, h₃, -⟩ := core_notifyIf h₂ hp .baseInfoUpdated rfl
      have hm₃ : Moves env A s s₃ := by
        rw [← hs₃]
        split
        · exact hm₂.trans (moves_notifyWatch h₂ _)
        · exact hm₂
      rw [hs₃]
      have hm₄ : Moves env A s s₃.getCacheId.2 :=
        hm₃.trans (.single h₃ (.quiet (quiet_of_eq (sameTable_of_eq rfl rfl) rfl rfl rfl rfl)))
      have h₅ := Core.modify (s := s₃.getCacheId.2) (f := fun it =>
        { it with cacheId := s₃.getCacheId.1, lastUpdateTime := s₃.currTime })
        h₃ (h₃.pos_of_linked hp) rfl rfl fun _ => rfl
      have hm₅ := hm₄.trans (moves_modify (s := s₃.getCacheId.2) (p := p) (f := fun it =>
        { it with cacheId := s₃.getCacheId.1, lastUpdateTime := s₃.currTime }) h₃ rfl rfl)
      exact hm₅.trans (moves_release_stat h₅ (records_item rfl rfl (h₅.pos_of_linked hp) rfl))
    · rw [if_neg hx]
      exact hm₁.trans (moves_stat h₁ (records_item rfl rfl (h₁.pos_of_linked hp) rfl))

theorem moves_updateExpiration (h : Core env held L s) (hroom : Room env held) (k : Key)
    (x y : Nat) (hg : A.groups k.1) : Moves env A s (s.updateExpiration env k.1 k.2 x y).2 := by
  rcases lookup h k with he | ⟨p, hp, rfl, he⟩
  · simp only [CacheMgr.updateExpiration, doGet_none he]
    exact moves_stat h (records_named rfl rfl hg)
  · obtain ⟨s₁, hs₁, h₁, hm₁, -, hid⟩ := found (A := A) h hroom hp
    unfold CacheMgr.updateExpiration
    rw [doGet_linked h hp]
    simp only [hs₁, hid]
    by_cases hx : x = 0 ∨ x = (s.item p).cacheId
    · rw [if_pos hx]
      have hlt := getExpirationId_lt s₁.currTime (CacheMgr.realtime s₁.currTime y)
      obtain ⟨s₂, L₂, hs₂, h₂, hp₂, -⟩ := core_moveIf h₁ hp hlt
      have hm₂ : Moves env A s s₂ := by
        rw [← hs₂]
        split
        · exact hm₁.trans (moves_move h₁ (h₁.mem_of_linked hp) hlt)
        · exact hm₁
      rw [hs₂]
      have h₃ := h₂.modify
        (f := fun it => { it with expireTime := CacheMgr.realtime s₁.currTime y })
        (h₂.pos_of_linked hp₂) rfl rfl fun _ => rfl
      have hm₃ := hm₂.trans (moves_modify (p := p)
        (f := fun it => { it with expireTime := CacheMgr.realtime s₁.currTime y }) h₂ rfl rfl)
      exact hm₃.trans (moves_release_stat h₃ (records_item rfl rfl (h₃.pos_of_linked hp₂) rfl))
    · rw [if_neg hx]
      exact hm₁.trans (moves_stat h₁ (records_item rfl rfl (h₁.pos_of_linked hp) rfl))

/-! ## Operations on a request item -/

/-- The calls that one of the updates makes: without a watch, with one, and with a watch that is
not there. -/
structure UpdateCalls (f g : Nat → Nat → Nat → StatCall) (m : Nat → Nat → StatCall) : Prop where
  success : ∀ a b c, (f a b c).linking = false ∧ (f a b c).watched = false ∧ (f a b c).groupId = a
  successWatch : ∀ a b c, (g a b c).linking = false ∧ (g a b c).groupId = a
  watchMiss : ∀ a b, (m a b).linking = false ∧ (m a b).groupId = a

namespace MoveLemmas

variable {f g : Nat → Nat → Nat → StatCall} {m : Nat → Nat → StatCall} {w : Nat}

theorem findOf_none (hr : Request env held s p)
    (he : (abs env s).entry (s.item p).ident = none) : s.findOf p = none := by
  rw [CacheMgr.findOf, hr.hash]
  exact find_none he

theorem findOf_linked (hr : Request env held s p) (h : Core env held L s) (hq : Linked L q)
    (hk : (s.item q).ident = (s.item p).ident) : s.findOf p = some q := by
  rw [CacheMgr.findOf, hr.hash]
  have hf := find_linked h hq
  rw [hk] at hf
  exact hf

theorem watchOk_iff : (abs env s).watchOk w = true ↔ s.WatchOk w := by
  rw [Store.watchOk, live_eq, CacheMgr.WatchOk]
  simp

/-- The watch check of `add`. -/
theorem moves_checkWatchAdd (h : Core env held L s) (hu : s.Referenced p) (hc : UpdateCalls f g m)
    (hw : w ≠ 0 → A.watched) : Moves env A s (s.checkWatchAdd env p w f g m).2 := by
  unfold CacheMgr.checkWatchAdd
  split
  · next h0 =>
    split
    · have h₁ := h.modify (f := fun it => it.addWatch w) hu rfl rfl fun _ => rfl
      have hu₁ : (s.modify p fun it => it.addWatch w).Referenced p := by
        rw [CacheMgr.Referenced, CacheMgr.item_modify_self]
        exact hu
      refine (moves_modify h rfl rfl).trans (moves_stat h₁ ⟨(hc.successWatch _ _ _).1,
        .inr ⟨p, hu₁, (hc.successWatch _ _ _).2.symm⟩, fun _ => hw h0⟩)
    · exact moves_stat h ⟨(hc.watchMiss _ _).1, .inr ⟨p, hu, (hc.watchMiss _ _).2.symm⟩,
        fun _ => hw h0⟩
  · obtain ⟨hl, hn, hgr⟩ := hc.success (s.item p).groupId (s.item p).classId (s.totalSize env p)
    exact moves_stat h (records_item hl hn hu hgr.symm)

/-- The watch check of the operations that replace an item. -/
theorem moves_checkWatchReplace (h : Core env held L s) (hu : s.Referenced p) (hq : s.Referenced q)
    (hc : UpdateCalls f g m) (hw : w ≠ 0 → A.watched) :
    Moves env A s (s.checkWatchReplace env p q w f g m).2 := by
  unfold CacheMgr.checkWatchReplace
  split
  · next h0 =>
    split
    · exact moves_stat h ⟨(hc.successWatch _ _ _).1,
        .inr ⟨p, hu, (hc.successWatch _ _ _).2.symm⟩, fun _ => hw h0⟩
    · exact moves_stat h ⟨(hc.watchMiss _ _).1, .inr ⟨p, hu, (hc.watchMiss _ _).2.symm⟩,
        fun _ => hw h0⟩
  · obtain ⟨hl, hn, hgr⟩ := hc.success (s.item q).groupId (s.item q).classId (s.totalSize env p)
    exact moves_stat h (records_item hl hn hq hgr.symm)

/-- `do_link` of a request whose key is free, once the watch has been checked. -/
theorem moves_linked (h : Core env held L s) (hroom : Room env held) (hr : Request env held s p)
    (he : (abs env s).entry (s.item p).ident = none) (w : Nat) (c : StatCall) :
    Moves env A ((s.addWatchIf p w).stat c) (((s.addWatchIf p w).stat c).doLink env o p) := by
  have hpos := h.pos_of_held hr.held
  have h₁ := core_addWatchIf h hpos w
  have hn := Request.not_linked hr h
  obtain ⟨s', hs', ⟨L', h'⟩, -⟩ := link_watched (o := o) h hroom hr he w c
  refine moves_link (s := (s.addWatchIf p w).stat c) h₁ (h₁.pos_of_held hr.held) hn ?_
  rw [hs']
  exact h'.pos_of_held hr.held

/-- The end of `add`, of `load_from_file` and of `set`, for a key that is free. -/
theorem moves_added (h : Core env held L s) (hroom : Room env held) (hr : Request env held s p)
    (he : (abs env s).entry (s.item p).ident = none) (hc : UpdateCalls f g m)
    (hw : w ≠ 0 → A.watched) :
    ∃ c, (s.checkWatchAdd env p w f g m = (true, (s.addWatchIf p w).stat c) ∧
        Moves env A s (((s.addWatchIf p w).stat c).doLink env o p)) ∨
      (s.checkWatchAdd env p w f g m = (false, s.stat c) ∧ Moves env A s (s.stat c)) := by
  have hcheck := moves_checkWatchAdd h (h.pos_of_held hr.held) hc hw
  obtain ⟨c, heq⟩ := checkWatchAdd_eq env s p w f g m
  refine ⟨c, ?_⟩
  rw [heq] at hcheck ⊢
  by_cases hok : (abs env s).watchOk w = true
  · rw [if_pos hok] at hcheck ⊢
    exact .inl ⟨rfl, hcheck.trans (moves_linked h hroom hr he w c)⟩
  · rw [if_neg hok] at hcheck ⊢
    exact .inr ⟨rfl, hcheck⟩

end MoveLemmas

theorem moves_add (h : Core env held L s) (hroom : Room env held) (hr : Request env held s p)
    (w : Nat) (hw : w ≠ 0 → s.findOf p = none → A.watched) :
    Moves env A s (s.add env o p w).2 := by
  rcases lookup h (s.item p).ident with he | ⟨q, hq, hk, he⟩
  · unfold CacheMgr.add
    rw [doGetOf_none hr he]
    have hcalls : UpdateCalls .addSuccess .addSuccessWatch .addWatchMiss :=
      ⟨fun _ _ _ => ⟨rfl, rfl, rfl⟩, fun _ _ _ => ⟨rfl, rfl⟩, fun _ _ => ⟨rfl, rfl⟩⟩
    obtain ⟨c, ⟨heq, hm⟩ | ⟨heq, hm⟩⟩ := moves_added (A := A) (o := o) h hroom hr he hcalls
      fun h0 => hw h0 (findOf_none hr he)
    · simp only [heq]
      exact hm
    · simp only [heq]
      exact hm
  · obtain ⟨s₁, hs₁, h₁, hm₁, -⟩ := found (A := A) h hroom hq
    obtain ⟨L₂, h₂, -⟩ := h₁.release
    unfold CacheMgr.add
    rw [doGetOf_linked hr h hq hk, hs₁]
    exact (hm₁.trans (moves_release h₁)).trans
      (moves_stat h₂ (records_item rfl rfl (h₂.pos_of_held hr.held) rfl))

theorem moves_loadFromFileLink (h : Core env (bump held p) L s) (hroom : Room env (bump held p))
    (hr : Request env (bump held p) s p) (w : Nat)
    (hw : w ≠ 0 → s.findOf p = none → A.watched) :
    Moves env A s (s.loadFromFileLink env o p w).2 := by
  rcases lookup h (s.item p).ident with he | ⟨q, hq, hk, he⟩
  · unfold CacheMgr.loadFromFileLink
    rw [doGetOf_none hr he]
    have hcalls : UpdateCalls .addSuccess .addSuccessWatch .addWatchMiss :=
      ⟨fun _ _ _ => ⟨rfl, rfl, rfl⟩, fun _ _ _ => ⟨rfl, rfl⟩, fun _ _ => ⟨rfl, rfl⟩⟩
    obtain ⟨c, ⟨heq, hm⟩ | ⟨heq, hm⟩⟩ := moves_added (A := A) (o := o) h hroom hr he hcalls
      fun h0 => hw h0 (findOf_none hr he)
    · simp only [heq]
      exact hm
    · simp only [heq]
      exact hm.trans (moves_release (s := s.stat c) h)
  · obtain ⟨s₁, hs₁, h₁, hm₁, -⟩ := found (A := A) h hroom hq
    rw [bump_comm] at h₁
    unfold CacheMgr.loadFromFileLink
    rw [doGetOf_linked hr h hq hk, hs₁]
    exact hm₁.trans (moves_release h₁)

namespace MoveLemmas

variable {f g : Nat → Nat → Nat → StatCall} {m : Nat → Nat → StatCall} {w : Nat}

/-- `do_replace` of a linked item by a held one with the same key. -/
theorem moves_doReplace (h : Core env held L s) (hq : Linked L q) (hu : 0 < held p)
    (hn : ¬ Linked L p) (hk : (s.item p).ident = (s.item q).ident)
    (hh : s.cacheHashMap.hashValue p = env.hash32 (s.item p).key (s.item p).groupId)
    (hroom : env.refWidth.store (held p + 1) = held p + 1) (hA : A.unlinks) :
    Moves env A s (s.doReplace env o q p) := by
  obtain ⟨L₁, h₁, hL₁, -⟩ := h.unlink hq .dataUpdated
  have hn₁ : ¬ Linked L₁ p := by
    intro hl
    have hl' := (linked_congr (L := fun j => (L j).erase q) hL₁ p).mp hl
    exact hn ((linked_erase h.rep p).mp hl').1
  obtain ⟨s', L', hs', h', -⟩ := core_replace (o := o) h hq hu hn hk hh hroom
  refine (moves_unlink h hq hA .dataUpdated).trans (moves_link h₁ (h₁.pos_of_held hu) hn₁ ?_)
  have hpos := h'.pos_of_held hu
  rw [← hs'] at hpos
  exact hpos

/-- The branch of `set` and of `replace` for a key that is present. -/
theorem moves_replace_present (h : Core env held L s) (hroom : Room env held)
    (hr : Request env held s p) (hq : Linked L q) (hk : (s.item q).ident = (s.item p).ident)
    (hc : UpdateCalls f g m) {r : Ptr} (hrq : r = p ∨ r = q) {c : StatCall}
    (hmis : c.linking = false ∧ c.watched = false ∧ c.groupId = (s.item p).groupId)
    (hw : w ≠ 0 → s.Matches (s.item p).cacheId q → A.watched)
    (hA : s.Matches (s.item p).cacheId q → s.WatchOk w → A.unlinks) :
    Moves env A s
      (if ((s.addReference env q).item p).cacheId = 0 ∨
          ((s.addReference env q).item p).cacheId = ((s.addReference env q).item q).cacheId then
        match (s.addReference env q).checkWatchReplace env p r w f g m with
        | (true, s) =>
          let s := s.doReplace env o q p
          let s := s.addWatchIf p w
          ((Reason.success, some (s.item p).cacheId), s.doReleaseReference env q)
        | (false, s) => ((.watchNotFound, none), s.doReleaseReference env q)
      else ((.mismatch, none), ((s.addReference env q).stat c).doReleaseReference env q)).2 := by
  have hn := Request.not_linked hr h
  have hne : p ≠ q := fun he => hn (he ▸ hq)
  obtain ⟨s₁, hs₁, h₁, hm₁, hshape, hid⟩ := found (A := A) h hroom hq
  obtain ⟨s₁', hs₁', -, ha₁, hk₁, -⟩ := take h hroom hq
  obtain rfl := hs₁.symm.trans hs₁'
  obtain ⟨hip, hr₁⟩ := request_take hr hs₁ ha₁ hne
  have hheld : 0 < bump held q p := by
    rw [bump_of_ne hne]
    exact hr.held
  have hup := h₁.pos_of_held hheld
  have huq := h₁.pos_of_linked hq
  rw [hs₁]
  simp only [hid]
  by_cases hx : (s.item p).cacheId = 0 ∨ (s.item p).cacheId = (s.item q).cacheId
  · rw [if_pos hx]
    have hur : s₁.Referenced r := by
      rcases hrq with rfl | rfl
      · exact hup
      · exact huq
    have hcheck := moves_checkWatchReplace h₁ hup hur hc fun h0 => hw h0 hx
    obtain ⟨c', heq⟩ := checkWatchReplace_eq env s₁ p r w f g m
    rw [heq] at hcheck ⊢
    have hm₂ : Moves env A s (s₁.stat c') := hm₁.trans hcheck
    cases hok : (abs env s₁).watchOk w with
    | true =>
      rw [ha₁] at hok
      have hun := hA hx (watchOk_iff.mp hok)
      have hkp : (s₁.item p).ident = (s₁.item q).ident := by rw [hip, hk₁, hk]
      have hrm : env.refWidth.store (bump held q p + 1) = bump held q p + 1 := by
        rw [bump_of_ne hne]
        exact hroom p _ (by omega)
      have hm₃ := moves_doReplace (A := A) (o := o) (s := s₁.stat c') h₁ hq hheld hn hkp hr₁.hash
        hrm hun
      obtain ⟨s₃, L₃, hs₃, h₃, hL₃, -⟩ :=
        core_replace (o := o) (s := s₁.stat c') h₁ hq hheld hn hkp hr₁.hash hrm
      rw [hs₃] at hm₃
      have h₄ := core_addWatchIf h₃ (h₃.pos_of_held hheld) w
      have hm₄ := (hm₂.trans hm₃).trans (moves_addWatchIf (p := p) h₃ w)
      have hm₅ := hm₄.trans (moves_release h₄)
      rw [← hs₃] at hm₅
      exact hm₅
    | false => exact hm₂.trans (moves_release (s := s₁.stat c') h₁)
  · rw [if_neg hx]
    have hgroup : (s₁.item p).groupId = c.groupId := by rw [hip, hmis.2.2]
    exact hm₁.trans (moves_release_stat h₁ (records_item hmis.1 hmis.2.1 hup hgroup))

end MoveLemmas

theorem moves_replace (h : Core env held L s) (hroom : Room env held) (hr : Request env held s p)
    (w : Nat)
    (hw : w ≠ 0 → ∀ q, s.findOf p = some q → s.Matches (s.item p).cacheId q → A.watched)
    (hA : ∀ q, s.findOf p = some q → s.Matches (s.item p).cacheId q → s.WatchOk w → A.unlinks) :
    Moves env A s (s.replace env o p w).2 := by
  rcases lookup h (s.item p).ident with he | ⟨q, hq, hk, he⟩
  · unfold CacheMgr.replace
    rw [doGetOf_none hr he]
    exact moves_stat h (records_item rfl rfl (h.pos_of_held hr.held) rfl)
  · have hf := findOf_linked hr h hq hk
    have hip : (s.addReference env q).item p = s.item p :=
      CacheMgr.item_modify_of_ne s _ fun he => Request.not_linked hr h (he ▸ hq)
    unfold CacheMgr.replace
    rw [doGetOf_linked hr h hq hk]
    exact moves_replace_present h hroom hr hq hk
      ⟨fun _ _ _ => ⟨rfl, rfl, rfl⟩, fun _ _ _ => ⟨rfl, rfl⟩, fun _ _ => ⟨rfl, rfl⟩⟩ (.inr rfl)
      ⟨rfl, rfl, congrArg CacheItem.groupId hip⟩ (fun h0 hx => hw h0 q hf hx) (hA q hf)

theorem moves_set (h : Core env held L s) (hroom : Room env held) (hr : Request env held s p)
    (w : Nat)
    (hw : w ≠ 0 → (∀ q, s.findOf p = some q → s.Matches (s.item p).cacheId q) → A.watched)
    (hA : ∀ q, s.findOf p = some q → s.Matches (s.item p).cacheId q → s.WatchOk w → A.unlinks) :
    Moves env A s (s.set env o p w).2 := by
  have hcalls : UpdateCalls .setSuccess .setSuccessWatch .setWatchMiss :=
    ⟨fun _ _ _ => ⟨rfl, rfl, rfl⟩, fun _ _ _ => ⟨rfl, rfl⟩, fun _ _ => ⟨rfl, rfl⟩⟩
  rcases lookup h (s.item p).ident with he | ⟨q, hq, hk, he⟩
  · have hf := findOf_none hr he
    unfold CacheMgr.set
    rw [doGetOf_none hr he]
    obtain ⟨c, ⟨heq, hm⟩ | ⟨heq, hm⟩⟩ := moves_added (A := A) (o := o) h hroom hr he hcalls
      fun h0 => hw h0 fun q hq => nomatch hf.symm.trans hq
    · simp only [heq]
      exact hm
    · simp only [heq]
      exact hm
  · have hf := findOf_linked hr h hq hk
    have hip : (s.addReference env q).item p = s.item p :=
      CacheMgr.item_modify_of_ne s _ fun he => Request.not_linked hr h (he ▸ hq)
    unfold CacheMgr.set
    rw [doGetOf_linked hr h hq hk]
    exact moves_replace_present h hroom hr hq hk hcalls (.inl rfl)
      ⟨rfl, rfl, congrArg CacheItem.groupId hip⟩
      (fun h0 hx => hw h0 fun q' hq' => Option.some.inj (hf.symm.trans hq') ▸ hx) (hA q hf)

/-! ## Operations that allocate -/

namespace MoveLemmas

theorem getClassId_modify (s : CacheMgr) (f : CacheItem → CacheItem) (n : Nat) :
    (s.modify q f).getClassId n = ((s.getClassId n).1, (s.getClassId n).2.modify q f) := by
  unfold CacheMgr.getClassId CacheMgr.modify
  dsimp only
  split
  · split <;> rfl
  · split <;> rfl

/-- `do_alloc` does not read the items. -/
theorem doAlloc_modify (s : CacheMgr) (f : CacheItem → CacheItem) (g kl fl et ds es : Nat) :
    ((s.modify q f).doAlloc env o g kl fl et ds es).1 =
      (s.doAlloc env o g kl fl et ds es).1 := by
  unfold CacheMgr.doAlloc
  rw [getClassId_modify]
  generalize s.getClassId (CacheMgr.calcItemSize env kl ds es) = r
  obtain ⟨id, s₁⟩ := r
  simp only [CacheMgr.modify]
  by_cases hid : id = 0
  · rw [if_pos hid, if_pos hid]
  · rw [if_neg hid, if_neg hid]
    cases s₁.lists.popFront (.freeCache id) with
    | mk r lists =>
      cases r with
      | some a => rfl
      | none =>
        by_cases hlimit : (s₁.memUsed + s₁.maxSize id) % 2 ^ 64 ≤ s₁.memLimit
        · refine (congrArg Prod.fst (if_pos hlimit)).trans (Eq.trans ?_
            (congrArg Prod.fst (if_pos hlimit)).symm)
          cases o.item <;> rfl
        · refine (congrArg Prod.fst (if_neg hlimit)).trans (Eq.trans ?_
            (congrArg Prod.fst (if_neg hlimit)).symm)
          rfl

/-- The two references that `append`, `prepend` and `delta` end with. -/
theorem moves_release_two {n : Ptr} (h : Core env (bump (bump held q) n) L s) :
    Moves env A s ((s.doReleaseReference env n).doReleaseReference env q) := by
  obtain ⟨L₁, h₁, -⟩ := h.release
  exact (moves_release h).trans (moves_release h₁)

section Replacing

variable {n : Ptr} {w : Nat} (h : Core env (bump (bump held q) n) L s) (hq : Linked L q)
  (hn : ¬ Linked L n) (hk : (s.item n).ident = (s.item q).ident)
  (hh : s.cacheHashMap.hashValue n = env.hash32 (s.item n).key (s.item n).groupId)
  (hroom : env.refWidth.store (bump (bump held q) n n + 1) = bump (bump held q) n n + 1)
  (hun : A.unlinks) (hp : 0 < bump (bump held q) n p)

include h hq hn hk hh hroom hun hp

/-- The end of `append`: the watch goes to the request after the replacement. -/
theorem moves_replace_watch : Moves env A s
    ((((s.doReplace env o q n).addWatchIf p w).doReleaseReference env n).doReleaseReference env q) := by
  have hheld : 0 < bump (bump held q) n n := by
    rw [bump_self]
    exact Nat.succ_pos _
  have hm := moves_doReplace (A := A) (o := o) h hq hheld hn hk hh hroom hun
  obtain ⟨s₁, L₁, hs₁, h₁, -⟩ := core_replace (o := o) h hq hheld hn hk hh hroom
  rw [hs₁] at hm ⊢
  have h₂ := core_addWatchIf h₁ (h₁.pos_of_held hp) w
  exact (hm.trans (moves_addWatchIf (p := p) h₁ w)).trans (moves_release_two h₂)

/-- The end of `prepend`: it goes there before. -/
theorem moves_watch_replace (hpq : p ≠ q) (hpn : p ≠ n) : Moves env A s
    ((((s.addWatchIf p w).doReplace env o q n).doReleaseReference env n).doReleaseReference env q) := by
  have hheld : 0 < bump (bump held q) n n := by
    rw [bump_self]
    exact Nat.succ_pos _
  have h₁ := core_addWatchIf h (h.pos_of_held hp) w
  have hsame : ∀ r, r ≠ p → (s.addWatchIf p w).item r = s.item r := by
    intro r hr
    unfold CacheMgr.addWatchIf
    split
    · exact CacheMgr.item_modify_of_ne s _ hr
    · rfl
  have hmap : (s.addWatchIf p w).cacheHashMap = s.cacheHashMap := by
    unfold CacheMgr.addWatchIf
    split <;> rfl
  have hk₁ : ((s.addWatchIf p w).item n).ident = ((s.addWatchIf p w).item q).ident := by
    rw [hsame n (Ne.symm hpn), hsame q (Ne.symm hpq), hk]
  have hh₁ : (s.addWatchIf p w).cacheHashMap.hashValue n =
      env.hash32 ((s.addWatchIf p w).item n).key ((s.addWatchIf p w).item n).groupId := by
    rw [hsame n (Ne.symm hpn), hmap, hh]
  have hm := moves_doReplace (A := A) (o := o) h₁ hq hheld hn hk₁ hh₁ hroom hun
  obtain ⟨s₂, L₂, hs₂, h₂, -⟩ := core_replace (o := o) h₁ hq hheld hn hk₁ hh₁ hroom
  rw [hs₂] at hm ⊢
  exact ((moves_addWatchIf (p := p) h w).trans hm).trans (moves_release_two h₂)

end Replacing

variable {f g : Nat → Nat → Nat → StatCall} {m : Nat → Nat → StatCall} {w : Nat}

/-- The branch of `append` and of `prepend` for a key that is present and a cache id that
matches. -/
theorem moves_append_present (h₁ : Core env (bump held q) L s₁) (hroom : Room env held)
    (hr : Request env held s₁ p) (hq : Linked L q) (hn : ¬ Linked L p)
    (hk : (s₁.item q).ident = (s₁.item p).ident) (fl et ds es : Nat)
    (first second ext : CacheMgr → Bytes) (fin : CacheMgr → Ptr → CacheMgr)
    (hfin : ∀ s' n, fin s' n = (s'.doReplace env o q n).addWatchIf p w ∨
      fin s' n = (s'.addWatchIf p w).doReplace env o q n)
    (hc : UpdateCalls f g m) {oom : CacheMgr → StatCall}
    (hoom : ∀ s', (oom s').linking = false ∧ (oom s').watched = false ∧
      (oom s').groupId = (s'.item p).groupId)
    (hm : o.item = true → A.malloc s₁)
    (hw : w ≠ 0 → (s₁.doAlloc env o (s₁.item p).groupId (s₁.item p).keyLength fl et ds es).1.isSome →
      A.watched)
    (hA : (s₁.doAlloc env o (s₁.item p).groupId (s₁.item p).keyLength fl et ds es).1.isSome →
      (abs env s₁).watchOk w = true → A.unlinks) :
    Moves env A s₁
      (match s₁.doAlloc env o (s₁.item p).groupId (s₁.item p).keyLength fl et ds es with
      | (some newIt, s) =>
        let s := s.copyInto newIt p (first s) (second s) (ext s)
        match s.checkWatchReplace env p q w f g m with
        | (true, s) =>
          let s := fin s newIt
          let id := (s.item newIt).cacheId
          let s := s.doReleaseReference env newIt
          ((Reason.success, some id), s.doReleaseReference env q)
        | (false, s) =>
          let s := s.doReleaseReference env newIt
          ((.watchNotFound, none), s.doReleaseReference env q)
      | (none, s) => ((.outOfMemory, none), (s.stat (oom s)).doReleaseReference env q)).2 := by
  have hne : p ≠ q := fun hc => hn (hc ▸ hq)
  have hheld : 0 < bump held q p := by
    rw [bump_of_ne hne]
    exact hr.held
  have hp₁ : s₁.Referenced p := h₁.pos_of_held hheld
  cases hd : s₁.doAlloc env o (s₁.item p).groupId (s₁.item p).keyLength fl et ds es with
  | mk r s₂ =>
    rw [hd] at hw hA
    cases r with
    | none =>
      obtain ⟨c, hs₂⟩ := Core.doAlloc_none hd
      have h₂ : Core env (bump held q) L s₂ := by
        rw [hs₂]
        exact h₁
      obtain ⟨hl, hnw, hgr⟩ := hoom s₂
      exact (moves_alloc_none h₁ hd).trans (moves_release_stat h₂
        (records_item hl hnw (h₂.pos_of_held hheld) hgr.symm))
    | some n =>
      have hm₂ := moves_alloc (A := A) h₁ hd (.inr ⟨p, hp₁, rfl⟩) hm
      obtain ⟨L₂, h₂, -⟩ := (h₁.doAlloc_some hd).core
      obtain ⟨s₃, L₃, hs₃, h₃, hL₃, hnl, hz, ha₃, hit₃, hk₃, hh₃, -⟩ :=
        alloc_copy h₁ hp₁ hr.keyLength hr.hash hd (first s₂) (second s₂) (ext s₂)
      have hm₃ := hm₂.trans (moves_copyInto (A := A) h₂ n p (first s₂) (second s₂) (ext s₂))
      rw [hs₃] at hm₃
      have hnq : q ≠ n := fun he => hnl (he ▸ hq)
      have hnp : p ≠ n := by
        intro he
        rw [← he] at hz
        omega
      rw [bump_of_ne (Ne.symm hnq)] at hz
      have hheld₃ : 0 < bump (bump held q) n p := by
        rw [bump_of_ne hnp]
        exact hheld
      have hq₃ : Linked L₃ q := (hL₃ q).mpr hq
      have hn₃ : ¬ Linked L₃ n := fun hl => hnl ((hL₃ n).mp hl)
      have hkn : (s₃.item n).ident = (s₃.item q).ident := by rw [hk₃, hit₃ q hnq, hk]
      have hcheck := moves_checkWatchReplace h₃ (h₃.pos_of_held hheld₃) (h₃.pos_of_linked hq₃) hc
        fun h0 => hw h0 rfl
      obtain ⟨c, heq⟩ := checkWatchReplace_eq env s₃ p q w f g m
      simp only [hs₃]
      rw [heq] at hcheck ⊢
      have hm₄ : Moves env A s₁ (s₃.stat c) := hm₃.trans hcheck
      cases hok : (abs env s₃).watchOk w with
      | false => exact hm₄.trans (moves_release_two (s := s₃.stat c) h₃)
      | true =>
        rw [ha₃] at hok
        have hun := hA rfl hok
        have hrm : env.refWidth.store (bump (bump held q) n n + 1) =
            bump (bump held q) n n + 1 := by
          rw [bump_self, bump_of_ne (Ne.symm hnq), hz]
          exact hroom n _ (by omega)
        rcases hfin (s₃.stat c) n with hf | hf
        · simp only [hf]
          exact hm₄.trans (moves_replace_watch (s := s₃.stat c) h₃ hq₃ hn₃ hkn hh₃ hrm hun hheld₃)
        · simp only [hf]
          exact hm₄.trans
            (moves_watch_replace (s := s₃.stat c) h₃ hq₃ hn₃ hkn hh₃ hrm hun hheld₃ hne hnp)

end MoveLemmas

/-- `append` and `prepend`: the item found, the cache id, the item allocated. -/
theorem moves_append (h : Core env held L s) (hroom : Room env held) (hr : Request env held s p)
    (w : Nat) (hm : ∀ s' : CacheMgr, s'.chunks = s.chunks → o.item = true → A.malloc s')
    (hw : w ≠ 0 → ∀ q, s.findOf p = some q → s.Matches (s.item p).cacheId q →
      s.AppendRoom env o p q → A.watched)
    (hA : ∀ q, s.findOf p = some q → s.Matches (s.item p).cacheId q → s.WatchOk w →
      s.AppendRoom env o p q → A.unlinks) :
    Moves env A s (s.append env o p w).2 ∧ Moves env A s (s.prepend env o p w).2 := by
  rcases lookup h (s.item p).ident with he | ⟨q, hq, hk, he⟩
  · have hu := h.pos_of_held hr.held
    unfold CacheMgr.append CacheMgr.prepend
    rw [doGetOf_none hr he]
    exact ⟨moves_stat h (records_item rfl rfl hu rfl), moves_stat h (records_item rfl rfl hu rfl)⟩
  · have hf := findOf_linked hr h hq hk
    have hn := Request.not_linked hr h
    have hne : p ≠ q := fun he => hn (he ▸ hq)
    obtain ⟨s₁, hs₁, h₁, hm₁, hshape, hid⟩ := found (A := A) h hroom hq
    obtain ⟨s₁', hs₁', -, ha₁, hk₁, hen₁⟩ := take h hroom hq
    obtain rfl := hs₁.symm.trans hs₁'
    obtain ⟨hip, hr₁⟩ := request_take hr hs₁ ha₁ hne
    have hheld : 0 < bump held q p := by
      rw [bump_of_ne hne]
      exact hr.held
    have hup := h₁.pos_of_held hheld
    have hchunks : s₁.chunks = s.chunks := by
      rw [← hs₁]
      rfl
    -- the arguments of `do_alloc` are those of the state before
    have hflags : (s₁.item q).flags = (s.item q).flags := congrArg Entry.flags hen₁
    have htime : (s₁.item q).expireTime = (s.item q).expireTime := congrArg Entry.expireTime hen₁
    have hsize : (s₁.item q).dataSize = (s.item q).dataSize := congrArg (·.2.2.2.1) (hshape q)
    have hext : (s₁.item q).extSize = (s.item q).extSize := congrArg (·.2.2.2.2) (hshape q)
    have hsome : (s₁.doAlloc env o (s₁.item p).groupId (s₁.item p).keyLength (s₁.item q).flags
        (s₁.item q).expireTime (((s₁.item p).dataSize + (s₁.item q).dataSize) % 2 ^ 32)
        (s₁.item q).extSize).1.isSome = true → s.AppendRoom env o p q := by
      intro hs
      rw [hflags, htime, hsize, hext, hip, ← hs₁, CacheMgr.addReference, doAlloc_modify] at hs
      exact hs
    unfold CacheMgr.append CacheMgr.prepend
    rw [doGetOf_linked hr h hq hk]
    simp only [hs₁]
    by_cases hx : (s.item p).cacheId = 0 ∨ (s.item p).cacheId = (s.item q).cacheId
    · have hnx : ¬ ((s₁.item p).cacheId ≠ 0 ∧ (s₁.item p).cacheId ≠ (s₁.item q).cacheId) := by
        rw [hid, hid]
        exact fun hc => hx.elim hc.1 hc.2
      rw [if_neg hnx, if_neg hnx]
      have hkq : (s₁.item q).ident = (s₁.item p).ident := by rw [hk₁, hk, hip]
      refine ⟨hm₁.trans (moves_append_present h₁ hroom hr₁ hq hn hkq _ _ _ _ _ _ _
          (fun s' n => (s'.doReplace env o q n).addWatchIf p w) (fun _ _ => .inl rfl)
          ⟨fun _ _ _ => ⟨rfl, rfl, rfl⟩, fun _ _ _ => ⟨rfl, rfl⟩, fun _ _ => ⟨rfl, rfl⟩⟩
          (fun _ => ⟨rfl, rfl, rfl⟩) (hm s₁ hchunks) (fun h0 hs => hw h0 q hf hx (hsome hs))
          fun hs hok => hA q hf hx (watchOk_iff.mp (ha₁ ▸ hok)) (hsome hs)), ?_⟩
      exact hm₁.trans (moves_append_present h₁ hroom hr₁ hq hn hkq _ _ _ _ _ _ _
          (fun s' n => (s'.addWatchIf p w).doReplace env o q n) (fun _ _ => .inr rfl)
          ⟨fun _ _ _ => ⟨rfl, rfl, rfl⟩, fun _ _ _ => ⟨rfl, rfl⟩, fun _ _ => ⟨rfl, rfl⟩⟩
          (fun _ => ⟨rfl, rfl, rfl⟩) (hm s₁ hchunks) (fun h0 hs => hw h0 q hf hx (hsome hs))
          fun hs hok => hA q hf hx (watchOk_iff.mp (ha₁ ▸ hok)) (hsome hs))
    · have hnx : (s₁.item p).cacheId ≠ 0 ∧ (s₁.item p).cacheId ≠ (s₁.item q).cacheId := by
        rw [hid, hid]
        exact not_or.mp hx
      rw [if_pos hnx, if_pos hnx]
      exact ⟨hm₁.trans (moves_stat h₁ (records_item rfl rfl hup rfl)),
        hm₁.trans (moves_stat h₁ (records_item rfl rfl hup rfl))⟩

namespace MoveLemmas

/-- The path of `delta` that allocates. -/
theorem moves_delta_new (h₁ : Core env (bump held p) L s₁) (hroom : Room env held)
    (hp : Linked L p) (hlen : (s₁.item p).keyLength < 2 ^ 16) (x : Nat) (value : Int)
    (buf : Bytes) {c : StatCall} (hc : ∀ s', A.Records s' c) (hm : o.item = true → A.malloc s₁)
    (hA : (s₁.doAlloc env o (s₁.item p).groupId (s₁.item p).keyLength (s₁.item p).flags
      (s₁.item p).expireTime buf.length (s₁.item p).extSize).1.isSome → A.unlinks) :
    Moves env A s₁
      (match s₁.doAlloc env o (s₁.item p).groupId (s₁.item p).keyLength (s₁.item p).flags
        (s₁.item p).expireTime buf.length (s₁.item p).extSize with
      | (none, s) => ((Reason.outOfMemory, x, value), s.doReleaseReference env p)
      | (some newIt, s) =>
        let s := s.copyInto newIt p buf [] (s.item p).ext
        let s := s.doReplace env o p newIt
        let id := (s.item newIt).cacheId
        let s := s.doReleaseReference env newIt
        let s := s.stat c
        ((.success, id, value), s.doReleaseReference env p)).2 := by
  have hp₁ := h₁.pos_of_linked hp
  cases hd : s₁.doAlloc env o (s₁.item p).groupId (s₁.item p).keyLength (s₁.item p).flags
    (s₁.item p).expireTime buf.length (s₁.item p).extSize with
  | mk r s₂ =>
    rw [hd] at hA
    cases r with
    | none =>
      obtain ⟨c, hs₂⟩ := Core.doAlloc_none hd
      have h₂ : Core env (bump held p) L s₂ := by
        rw [hs₂]
        exact h₁
      exact (moves_alloc_none h₁ hd).trans (moves_release h₂)
    | some n =>
      have hm₂ := moves_alloc (A := A) h₁ hd (.inr ⟨p, hp₁, rfl⟩) hm
      obtain ⟨L₂, h₂, -⟩ := (h₁.doAlloc_some hd).core
      obtain ⟨s₃, L₃, hs₃, h₃, hL₃, hnl, hz, -, hit₃, hk₃, hh₃, -⟩ :=
        alloc_copy h₁ hp₁ hlen (h₁.hash hp) hd buf [] (s₂.item p).ext
      have hm₃ := hm₂.trans (moves_copyInto (A := A) h₂ n p buf [] (s₂.item p).ext)
      rw [hs₃] at hm₃
      have hne : p ≠ n := fun he => hnl (he ▸ hp)
      rw [bump_of_ne (Ne.symm hne)] at hz
      have hrm : env.refWidth.store (bump (bump held p) n n + 1) = bump (bump held p) n n + 1 := by
        rw [bump_self, bump_of_ne (Ne.symm hne), hz]
        exact hroom n _ (by omega)
      have hheldn : 0 < bump (bump held p) n n := by
        rw [bump_self]
        exact Nat.succ_pos _
      have hkn : (s₃.item n).ident = (s₃.item p).ident := by rw [hk₃, hit₃ p hne]
      have hn₃ : ¬ Linked L₃ n := fun hl => hnl ((hL₃ n).mp hl)
      have hp₃ : Linked L₃ p := (hL₃ p).mpr hp
      have hm₄ := hm₃.trans (moves_doReplace (A := A) (o := o) h₃ hp₃ hheldn hn₃ hkn hh₃ hrm (hA rfl))
      obtain ⟨s₄, L₄, hs₄, h₄, -⟩ := core_replace (o := o) h₃ hp₃ hheldn hn₃ hkn hh₃ hrm
      rw [hs₄] at hm₄
      obtain ⟨L₅, h₅, -⟩ := h₄.release
      simp only [hs₃, hs₄]
      exact (hm₄.trans (moves_release h₄)).trans (moves_release_stat h₅ (hc _))

end MoveLemmas

theorem moves_delta (h : Core env held L s) (hroom : Room env held) (k : Key)
    (hlen : k.2.length < 2 ^ 16) (incr : Bool) (d : Int) (x : Nat) (hg : A.groups k.1)
    (hm : ∀ s' : CacheMgr, s'.chunks = s.chunks → o.item = true → A.malloc s')
    (hA : ∀ q, s.find k.1 k.2 (env.hash32 k.2 k.1) = some q → s.Matches x q →
      (formatInt64 (CacheMgr.deltaValue (s.item q) incr d)).length ≠ (s.item q).dataSize →
      s.DeltaRoom env o q (formatInt64 (CacheMgr.deltaValue (s.item q) incr d)).length →
      A.unlinks) :
    Moves env A s (s.delta env o k.1 k.2 incr d x).2 := by
  rcases lookup h k with he | ⟨p, hp, rfl, he⟩
  · unfold CacheMgr.delta
    rw [doGet_none he]
    cases incr <;> exact moves_stat h (records_named rfl rfl hg)
  · obtain ⟨s₁, hs₁, h₁, hm₁, hshape, hid⟩ := found (A := A) h hroom hp
    obtain ⟨s₁', hs₁', -, -, hk₁, hen₁⟩ := take h hroom hp
    obtain rfl := hs₁.symm.trans hs₁'
    have hval : CacheMgr.deltaValue (s₁.item p) incr d = CacheMgr.deltaValue (s.item p) incr d := by
      rw [← hs₁, CacheMgr.addReference, CacheMgr.item_modify_self]
      rfl
    have hkl : (s₁.item p).keyLength < 2 ^ 16 := by
      rw [← CacheItem.length_key]
      have hkey : (s₁.item p).key = (s.item p).ident.2 := congrArg Prod.snd hk₁
      rw [hkey]
      exact hlen
    have hsize : (s₁.item p).dataSize = (s.item p).dataSize := congrArg (·.2.2.2.1) (hshape p)
    unfold CacheMgr.delta
    rw [doGet_linked h hp]
    simp only [hs₁, hid, hval]
    generalize hv : CacheMgr.deltaValue (s.item p) incr d = value at hA
    by_cases hx : x = 0 ∨ x = (s.item p).cacheId
    · rw [if_pos hx]
      have hc : ∀ s', A.Records s' (if incr then .incrSuccess (s.item p).ident.1
          else .decrSuccess (s.item p).ident.1) := by
        intro s'
        cases incr <;> exact records_named rfl rfl hg
      by_cases hbuf : (formatInt64 value).length = (s₁.item p).dataSize
      · -- the data is overwritten
        rw [if_neg (not_not.mpr hbuf)]
        have hm₂ : Moves env A s s₁.getCacheId.2 :=
          hm₁.trans (.single h₁ (.quiet (quiet_of_eq (sameTable_of_eq rfl rfl) rfl rfl rfl rfl)))
        have h₃ := Core.modify (s := s₁.getCacheId.2) (f := fun it =>
          { it with cacheId := s₁.getCacheId.1, lastUpdateTime := s₁.currTime }) h₁
          (h₁.pos_of_linked hp) rfl rfl fun _ => rfl
        have hm₃ := hm₂.trans (moves_modify (s := s₁.getCacheId.2) (p := p) (f := fun it =>
          { it with cacheId := s₁.getCacheId.1, lastUpdateTime := s₁.currTime }) h₁ rfl rfl)
        have hkey := (CacheItem.setData_fields hbuf).1
        have h₄ := h₃.modify (p := p) (f := fun it => it.setData 0 (formatInt64 value))
          (h₃.pos_of_linked hp) rfl rfl fun _ => by
            rw [CacheMgr.item_modify_self]
            exact Prod.ext rfl hkey
        have hm₄ := hm₃.trans (moves_modify (p := p)
          (f := fun it => it.setData 0 (formatInt64 value)) h₃ rfl rfl)
        exact hm₄.trans (moves_release_stat h₄ (hc _))
      · rw [if_pos hbuf]
        have hchunks : s₁.chunks = s.chunks := by
          rw [← hs₁]
          rfl
        refine hm₁.trans (moves_delta_new h₁ hroom hp hkl x value _ hc (hm s₁ hchunks)
          fun hs => ?_)
        have hflags : (s₁.item p).flags = (s.item p).flags := congrArg Entry.flags hen₁
        have htime : (s₁.item p).expireTime = (s.item p).expireTime := congrArg Entry.expireTime hen₁
        have hext : (s₁.item p).extSize = (s.item p).extSize := congrArg (·.2.2.2.2) (hshape p)
        have hkey : (s₁.item p).keyLength = (s.item p).keyLength := congrArg (·.2.2.1) (hshape p)
        have hgroup : (s₁.item p).groupId = (s.item p).groupId := congrArg (·.2.1) (hshape p)
        rw [hflags, htime, hext, hkey, hgroup, ← hs₁, CacheMgr.addReference, doAlloc_modify] at hs
        rw [hsize] at hbuf
        subst hv
        exact hA p (find_linked h hp) hx hbuf hs
    · rw [if_neg hx]
      refine hm₁.trans (moves_release_stat h₁ ?_)
      cases incr <;> exact records_named rfl rfl hg

/-! ## Sweeps -/

namespace MoveLemmas

/-- The walk of `flush` over one list: induction on what is left of it. -/
theorem moves_flushLoop {g i : Nat} (rest : List Ptr) :
    ∀ (n : Nat) (done : List Ptr) (L : ListId → List Ptr) (r : Nat × Nat × CacheMgr),
      Core env held L r.2.2 → L (.expire i) = done ++ rest → rest.length ≤ n →
      (∀ q, Linked L q → (r.2.2.item q).groupId = g → A.unlinks) →
      Moves env A r.2.2 (CacheMgr.flushLoop env g n rest.head? r).2.2 := by
  induction rest with
  | nil =>
    intro n done L r _ _ _ _
    have hloop : CacheMgr.flushLoop env g n none r = r := by cases n <;> rfl
    rw [List.head?_nil, hloop]
    exact .refl _
  | cons p rest ih =>
    intro n done L r h hi hn hA
    obtain ⟨c, z, s⟩ := r
    obtain ⟨n, rfl⟩ : ∃ m, n = m + 1 := ⟨n - 1, by simp only [List.length_cons] at hn; omega⟩
    have hn' : rest.length ≤ n := by simpa using hn
    have hp : Linked L p := ⟨i, by simp [hi]⟩
    have hs : Core env held L s := h
    have hnext : s.lists.next p = rest.head? := next_eq h hi
    rw [List.head?_cons]
    simp only [CacheMgr.flushLoop, hnext]
    by_cases hg : (s.item p).groupId = g
    · rw [if_pos hg]
      obtain ⟨L₁, h₁, hi₁, hsh, -⟩ := unlink_visited h hi .flushed
      refine (moves_unlink hs hp (hA p hp hg) .flushed).trans
        (ih n done L₁ (_, _, s.doUnlink env p .flushed) h₁ hi₁ hn' fun q hq hgq => ?_)
      obtain ⟨j, hj⟩ := hq
      obtain ⟨hj', hit⟩ := hsh.expire j q hj
      rw [hit] at hgq
      exact hA q ⟨j, hj'⟩ hgq
    · rw [if_neg hg]
      exact ih n (done ++ [p]) L (c, z, s) h (by simpa using hi) hn' hA

theorem moves_flushLists {g : Nat} (is : List Nat) :
    ∀ (L : ListId → List Ptr) (r : Nat × Nat × CacheMgr), Core env held L r.2.2 →
      (∀ q, Linked L q → (r.2.2.item q).groupId = g → A.unlinks) →
      Moves env A r.2.2 (is.foldl (CacheMgr.flushList env g) r).2.2 := by
  induction is with
  | nil => exact fun L r _ _ => .refl _
  | cons i is ih =>
    intro L r h hA
    have hlen := length_le_nextPtr h i
    obtain ⟨ks, L₁, hfl, -⟩ := flushLoop_spec (g := g) (i := i) (L (.expire i)) r.2.2.nextPtr [] L r h
      rfl hlen nofun
    have hm := moves_flushLoop (A := A) (g := g) (L (.expire i)) r.2.2.nextPtr [] L r h rfl hlen hA
    rw [← front_eq h] at hfl hm
    refine hm.trans (ih L₁ _ hfl.core fun q hq hgq => ?_)
    obtain ⟨j, hj⟩ := hq
    obtain ⟨hj', hit⟩ := hfl.shrinks.expire j q hj
    rw [hit] at hgq
    exact hA q ⟨j, hj'⟩ hgq

/-- The walk of `expire_items` over one list. -/
theorem moves_expireLoop (now : Nat) {i : Nat} (hi34 : i < 34) (rest : List Ptr) :
    ∀ (n : Nat) (done : List Ptr) (L : ListId → List Ptr) (s : CacheMgr), Core env held L s →
      L (.expire i) = done ++ rest → rest.length ≤ n →
      (∀ q ∈ rest, (s.item q).expireTime ≤ now → A.unlinks) →
      Moves env A s (CacheMgr.expireLoop env now i n rest.head? s) := by
  induction rest with
  | nil =>
    intro n done L s _ _ _ _
    have hloop : CacheMgr.expireLoop env now i n none s = s := by cases n <;> rfl
    rw [List.head?_nil, hloop]
    exact .refl _
  | cons p rest ih =>
    intro n done L s h hi hn hA
    obtain ⟨n, rfl⟩ : ∃ m, n = m + 1 := ⟨n - 1, by simp only [List.length_cons] at hn; omega⟩
    have hn' : rest.length ≤ n := by simpa using hn
    have hp : p ∉ rest := by
      have hnodup : (done ++ p :: rest).Nodup := hi ▸ h.rep.nodup _
      exact (List.nodup_cons.mp (List.nodup_append.mp hnodup).2.1).1
    have hmem : p ∈ L (.expire i) := by simp [hi]
    rw [List.head?_cons]
    simp only [CacheMgr.expireLoop, next_eq h hi]
    by_cases hdue : (s.item p).expireTime ≤ now
    · rw [if_pos hdue]
      obtain ⟨L₁, h₁, hi₁, hothers, -⟩ := unlink_items h hi hdue
      have hun := hA p (List.mem_cons_self ..) hdue
      refine (moves_unlink h ⟨i, hmem⟩ hun .expired).trans (ih n done L₁ _ h₁ hi₁ hn' fun q hq hd => ?_)
      rw [(hothers q fun he => hp (he ▸ hq)).item] at hd
      exact hA q (List.mem_cons_of_mem _ hq) hd
    · rw [if_neg hdue]
      obtain ⟨j, hj, hr, hperiod⟩ := rebucket_some (x := (s.item p).expireTime - now) (by omega) i
      rw [hr]
      obtain ⟨L₁, done', h₁, hi₁, hothers, -⟩ :=
        move_items h hi hi34 hj (Nat.not_le.mp hdue) hperiod
      refine (moves_move h hmem (Nat.lt_of_le_of_lt hj hi34)).trans
        (ih n done' L₁ _ h₁ hi₁ hn' fun q hq hd => ?_)
      rw [(hothers q fun he => hp (he ▸ hq)).item] at hd
      exact hA q (List.mem_cons_of_mem _ hq) hd

/-- The rounds of the sweep. -/
theorem moves_expireItems {now : Nat} (h : Core env held L s) (n : Nat) (hn : n ≤ 33)
    (hA : ∀ q, Linked L q → s.Due now 33 q → (s.item q).expireTime ≤ now → A.unlinks) :
    Moves env A s ((List.range n).foldl (CacheMgr.expireList env now) s) := by
  induction n with
  | zero => exact .refl s
  | succ n ih =>
    obtain ⟨L₁, h₁⟩ := expireItems_items now h n (by omega)
    have hm₁ := ih (by omega)
    rw [List.range_succ, List.foldl_append, List.foldl_cons, List.foldl_nil]
    generalize (List.range n).foldl (CacheMgr.expireList env now) s = s₁ at h₁ hm₁
    have hcheck : s₁.expireCheckTime n = s.expireCheckTime n := by
      rw [h₁.expireCheckTime, if_neg fun hi => absurd hi.1 (Nat.lt_irrefl n)]
    unfold CacheMgr.expireList
    split
    · next hdue =>
      let s₂ := { s₁ with
        expireCheckTime := Function.update s₁.expireCheckTime n
          (CacheMgr.realtime now (CacheMgr.expirationTime n)) }
      have hm₂ : Moves env A s s₂ := hm₁.trans
        (.single h₁.core (.quiet (quiet_of_eq (sameTable_of_eq rfl rfl) rfl rfl rfl rfl)))
      have hloop := moves_expireLoop (A := A) now (i := n) (by omega) (L₁ (.expire n))
        s₂.nextPtr [] L₁ s₂ h₁.core rfl (length_le_nextPtr h₁.core n) fun q hq hd => by
          obtain ⟨hl, hlist⟩ := (h₁.mem_list q).mp hq
          have hsame := h₁.untouched q fun hd => absurd hd.2.1 (by omega)
          have hd' : (s₁.item q).expireTime ≤ now := hd
          rw [hsame.item] at hd'
          refine hA q hl ⟨by omega, ?_⟩ hd'
          rw [hlist, ← hcheck]
          exact hdue
      rw [← front_eq h₁.core] at hloop
      exact hm₂.trans hloop
    · exact hm₁

end MoveLemmas

theorem moves_flush (h : Core env held L s) (g : Nat) (hg : A.groups g)
    (hA : ∀ q, Linked L q → (s.item q).groupId = g → A.unlinks) :
    Moves env A s (s.flush env g).2 := by
  obtain ⟨ks, L', hfl, -⟩ := flush_fold (g := g) (List.range 34) L (0, 0, s) h
  have hm := moves_flushLists (A := A) (List.range 34) L (0, 0, s) h hA
  unfold CacheMgr.flush
  generalize (List.range 34).foldl (CacheMgr.flushList env g) (0, 0, s) = r at hfl hm
  exact hm.trans (moves_stat hfl.core (records_named rfl rfl hg))

theorem moves_checkExpired (h : Core env held L s)
    (hA : s.currTime ≠ s.lastCheckExpiredTime → ∀ q, Linked L q → s.Due s.currTime 33 q →
      (s.item q).expireTime ≤ s.currTime → A.unlinks) :
    Moves env A s (s.checkExpired env) := by
  unfold CacheMgr.checkExpired
  split
  · next hnew =>
    let s₁ := CacheMgr.expireWatchs { s with lastCheckExpiredTime := s.currTime } s.currTime
    have hm₁ : Moves env A s s₁ :=
      .single h (.quiet (quiet_of_eq (sameTable_of_eq rfl rfl) rfl rfl rfl rfl))
    have hm₂ := hm₁.trans (moves_expireItems (s := s₁) h 33 (Nat.le_refl _) (hA hnew))
    obtain ⟨L', h'⟩ := expireItems_items (s := s₁) s.currTime h 33 (by omega)
    have hfree := freeFlushedItems_eq h'.core
    exact hfree.symm ▸ hm₂
  · exact .refl s

/-! ## Every operation -/

namespace MoveLemmas

theorem mem_hashMap_iff (h : Core env held L s) (q : Ptr) : s.cacheHashMap.Mem q ↔ Linked L q := by
  obtain ⟨S, hS, hrep⟩ := h.table
  rw [HashMap.mem_iff hrep, hS]

theorem moves_fill (h : Core env held L s) (c : Contents) : Moves env A s (s.fill env p c) := by
  have hq := quiet_modify (A := A) (s := s) (p := p) (f := fun it => it.fill c) rfl Iff.rfl
  exact .single h (.quiet {
    classTable := rfl
    lastClassId := le_max_left _ _
    chunks := rfl
    shape := hq.shape
    referenced := hq.referenced
    freeList := fun _ => rfl
    linked := fun _ => Iff.rfl
    stats := ⟨[], (List.append_nil _).symm, nofun⟩ })

theorem moves_update (h : Core env held L s) (hroom : Room env held) (hr : Request env held s p)
    (verb : Verb) (w : Nat) :
    Moves env (Op.scope env s (.update verb o p w)) s (s.update env o p w verb).2 := by
  cases verb with
  | add => exact moves_add h hroom hr w fun h0 hf => ⟨h0, .inl ⟨hf, .inl rfl⟩⟩
  | set =>
    refine moves_set h hroom hr w (fun h0 hx => ⟨h0, ?_⟩) fun q hf hx hok =>
      ⟨q, hf, hx, hok, nofun, fun hv => ?_⟩
    · cases hf : s.findOf p with
      | none => exact .inl ⟨rfl, .inr rfl⟩
      | some q =>
        refine .inr ⟨q, rfl, hx q hf, nofun, fun hv => ?_⟩
        rcases hv with hv | hv <;> exact nomatch hv
    · rcases hv with hv | hv <;> exact nomatch hv
  | replace =>
    refine moves_replace h hroom hr w (fun h0 q hf hx => ⟨h0, .inr ⟨q, hf, hx, nofun, fun hv => ?_⟩⟩)
      fun q hf hx hok => ⟨q, hf, hx, hok, nofun, fun hv => ?_⟩
    · rcases hv with hv | hv <;> exact nomatch hv
    · rcases hv with hv | hv <;> exact nomatch hv
  | append =>
    exact (moves_append (A := Op.scope env s (.update .append o p w)) h hroom hr w
      (fun _ hs ho => ⟨ho, hs⟩)
      (fun h0 q hf hx ha => ⟨h0, .inr ⟨q, hf, hx, nofun, fun _ => ha⟩⟩)
      fun q hf hx hok ha => ⟨q, hf, hx, hok, nofun, fun _ => ha⟩).1
  | prepend =>
    exact (moves_append (A := Op.scope env s (.update .prepend o p w)) h hroom hr w
      (fun _ hs ho => ⟨ho, hs⟩)
      (fun h0 q hf hx ha => ⟨h0, .inr ⟨q, hf, hx, nofun, fun _ => ha⟩⟩)
      fun q hf hx hok ha => ⟨q, hf, hx, hok, nofun, fun _ => ha⟩).2

end MoveLemmas

/-- An operation does what its scope says. -/
theorem moves_exec {op : Op} (h : Core env held L s) (hroom : Room env held)
    (hr : Ready env held s op) : Moves env (op.scope env s) s (s.exec env op).2 := by
  cases op with
  | alloc o g kl fl x ds es =>
    show Moves env _ s (s.allocItem env o g kl fl x ds es).2
    unfold CacheMgr.allocItem
    cases hd : s.doAlloc env o g kl fl (CacheMgr.realtime s.currTime x) ds es with
    | mk r s' =>
      cases r with
      | none => exact moves_alloc_none h hd
      | some p => exact moves_alloc h hd (.inl rfl) fun ho => ⟨ho, rfl⟩
  | fill p c => exact moves_fill h c
  | get g k w b =>
    exact moves_get h hroom (g, k) w b rfl fun q hf h0 hle => ⟨q, hf, h0, hle⟩
  | getTouch g k w x => exact moves_getTouch h hroom (g, k) w x rfl
  | updateFlags g k x fl => exact moves_updateFlags h hroom (g, k) x fl rfl
  | updateExpiration g k x y => exact moves_updateExpiration h hroom (g, k) x y rfl
  | update verb o p w => exact moves_update h hroom hr verb w
  | loadFromFileLink o p w =>
    have hr' : Request env held s p := hr
    have hheld := OperationLemmas.bump_drop hr'.held
    rw [← hheld] at h hroom hr'
    exact moves_loadFromFileLink h hroom hr' w fun h0 hf => ⟨h0, hf⟩
  | remove g k x => exact moves_remove h hroom (g, k) x rfl fun q hf hx => ⟨q, hf, hx⟩
  | delta o g k incr d x =>
    exact moves_delta h hroom (g, k) hr incr d x rfl (fun _ hs ho => ⟨ho, hs⟩)
      fun q hf hx hb ha => ⟨q, hf, hx, hb, ha⟩
  | flush g =>
    have hm := moves_flush (A := Op.scope env s (.flush g)) h g rfl
      fun q hq hg => ⟨q, (mem_hashMap_iff h q).mpr hq, hg⟩
    have hexec : s.exec env (.flush g) = (s.flush env g).map .flush id := rfl
    rw [hexec, Prod.map_snd]
    exact hm
  | checkExpired =>
    exact moves_checkExpired h fun hnew q hq hd hle =>
      ⟨hnew, q, (mem_hashMap_iff h q).mpr hq, hd, hle⟩
  | releaseReference p =>
    have hp : 0 < held p := hr
    rw [← OperationLemmas.bump_drop hp] at h
    exact moves_release h
  | createWatch g x =>
    show Moves env _ s (s.createWatch g x).2
    unfold CacheMgr.createWatch CacheMgr.getWatchId
    dsimp only
    split
    · refine Moves.trans (.single h (.quiet (quiet_of_eq (sameTable_of_eq ?_ ?_) ?_ ?_ ?_ ?_)))
        (moves_stat (show Core env held L _ from ?_) (records_named rfl rfl rfl))
      · rfl
      · rfl
      · rfl
      · rfl
      · rfl
      · rfl
      · exact h
    · exact .single h (.quiet (quiet_of_eq (sameTable_of_eq rfl rfl) rfl rfl rfl rfl))
  | checkWatchAndSetCallback sp g w ack x =>
    show Moves env _ s (s.checkWatchAndSetCallback sp g w ack x).2
    unfold CacheMgr.checkWatchAndSetCallback
    split
    · refine Moves.trans (.single h (.quiet (quiet_of_eq (sameTable_of_eq ?_ ?_) ?_ ?_ ?_ ?_)))
        (moves_stat (show Core env held L _ from ?_) (records_named rfl rfl rfl))
      · rfl
      · rfl
      · rfl
      · rfl
      · rfl
      · rfl
      · exact h
    · exact moves_stat h (records_named rfl rfl rfl)
  | checkWatchAndClearCallback sp w =>
    show Moves env _ s (s.checkWatchAndClearCallback sp w).2
    unfold CacheMgr.checkWatchAndClearCallback
    split
    · exact .single h (.quiet (quiet_of_eq (sameTable_of_eq rfl rfl) rfl rfl rfl rfl))
    · exact .refl s
  | setCurrentTime tt =>
    exact .single h (.quiet (quiet_of_eq (sameTable_of_eq rfl rfl) rfl rfl rfl rfl))
  | connections alive =>
    exact .single h (.quiet (quiet_of_eq (sameTable_of_eq rfl rfl) rfl rfl rfl rfl))

/-- A step of the system is a sequence of moves. -/
theorem moves_step {x y : Sys} {l : Op × Outcome} (hx : ∃ lost, SysInv env lost x)
    (h : x.RoomStep env l y) : Moves env (l.1.scope env x.mgr) x.mgr y.mgr := by
  obtain ⟨held, L, -, -, hL, -, hroom, hr, hexec⟩ := SysInv.core hx h
  have hm := moves_exec hL hroom hr
  rw [hexec] at hm
  exact hm

end Xixi
