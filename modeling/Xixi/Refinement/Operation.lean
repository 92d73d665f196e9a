import Xixi.Refinement.Frame

/-!
# The cache manager refines the abstract store: every operation

The abstract store takes the same steps as the manager. `Action` lists them with
the arguments the store cannot know by itself (the content of a request item, the
item that `append` allocates, the keys a sweep finds), and `Acts` says where the
manager takes these from.

1. `Store.act`: the abstract step.
2. `Acts env s op a`: the operation `op` in the state `s` is the action `a`.
3. `exec_refines`: every operation keeps the invariant, is an action, and leaves
   the items in preparation alone.
-/

namespace Xixi

open Xixi.Lists StepLemmas RefinementLemmas FrameLemmas

inductive Action
  | silent (r : Outcome)
  | get (k : Key) (watchId : Nat)
  | getTouch (k : Key) (watchId expireTime : Nat)
  | updateFlags (k : Key) (cacheId flags : Nat)
  | updateExpiration (k : Key) (cacheId expireTime : Nat)
  | add (k : Key) (e : Entry) (watchId : Nat)
  | set (k : Key) (e : Entry) (watchId : Nat)
  | replace (k : Key) (e : Entry) (watchId : Nat)
  | append (k : Key) (cacheId : Nat) (new : Option Entry) (watchId : Nat)
  | loadFromFileLink (k : Key) (e : Entry) (watchId : Nat)
  | remove (k : Key) (cacheId : Nat)
  | delta (k : Key) (cacheId : Nat) (value : Int) (new : Option Entry)
  | flush (r : Nat × Nat) (ks : List Key)
  | checkExpired (gone : Nat → Bool) (ks : List Key)
  | watch (r : Outcome) (watchId : Nat) (q : List Nat × List NotifyType)
  | clock (currTime : Nat)

namespace Store

def act (st : Store) : Action → Outcome × Store
  | .silent r => (r, st)
  | .get k w => (st.get k w).map .get id
  | .getTouch k w t => (st.getTouch k w t).map .item id
  | .updateFlags k x fl => (st.updateFlags k x fl).map .base id
  | .updateExpiration k x t => (st.updateExpiration k x t).map .base id
  | .add k e w => (st.add k e w).map .update id
  | .set k e w => (st.set k e w).map .update id
  | .replace k e w => (st.replace k e w).map .update id
  | .append k x new w => (st.append k x new w).map .update id
  | .loadFromFileLink k e w => (st.loadFromFileLink k e w).map .item id
  | .remove k x => (st.remove k x).map .remove id
  | .delta k x v new => (st.delta k x v (formatInt64 v) new).map .delta id
  | .flush r ks => (.flush r, st.unlinkAll .flushed ks)
  | .checkExpired gone ks => (.done, (st.expireWatchs gone).unlinkAll .expired ks)
  | .watch r w q => (r, { st with pending := Function.update st.pending w (some q) })
  | .clock t => (.done, { st with currTime := t })

end Store

/-- The action of an operation. -/
inductive Acts (env : Env) (s : CacheMgr) : Op → Action → Prop
  | alloc {o g kl fl x ds es} (r : Outcome) : Acts env s (.alloc o g kl fl x ds es) (.silent r)
  | fill {p c} : Acts env s (.fill p c) (.silent .done)
  | get {g k w b} : Acts env s (.get g k w b) (.get (g, k) w)
  | getTouch {g k w x} :
      Acts env s (.getTouch g k w x) (.getTouch (g, k) w (CacheMgr.realtime s.currTime x))
  | updateFlags {g k x fl} : Acts env s (.updateFlags g k x fl) (.updateFlags (g, k) x fl)
  | updateExpiration {g k x y} : Acts env s (.updateExpiration g k x y)
      (.updateExpiration (g, k) x (CacheMgr.realtime s.currTime y))
  | add {o p w} : Acts env s (.update .add o p w) (.add (s.item p).ident ((s.item p).entry p) w)
  | set {o p w} : Acts env s (.update .set o p w) (.set (s.item p).ident ((s.item p).entry p) w)
  | replace {o p w} :
      Acts env s (.update .replace o p w) (.replace (s.item p).ident ((s.item p).entry p) w)
  | append {o p w} {new : Option Entry} (hnew : ∀ e old, new = some e →
      (abs env s).entry (s.item p).ident = some old →
      NewEntry (abs env s) e old.data (s.item p).data old.ext old.flags old.expireTime
        (((s.item p).dataSize + old.data.length) % 2 ^ 32) old.ext.length) :
      Acts env s (.update .append o p w) (.append (s.item p).ident (s.item p).cacheId new w)
  | prepend {o p w} {new : Option Entry} (hnew : ∀ e old, new = some e →
      (abs env s).entry (s.item p).ident = some old →
      NewEntry (abs env s) e (s.item p).data old.data old.ext old.flags old.expireTime
        (((s.item p).dataSize + old.data.length) % 2 ^ 32) old.ext.length) :
      Acts env s (.update .prepend o p w) (.append (s.item p).ident (s.item p).cacheId new w)
  | loadFromFileLink {o p w} : Acts env s (.loadFromFileLink o p w)
      (.loadFromFileLink (s.item p).ident ((s.item p).entry p) w)
  | remove {g k x} : Acts env s (.remove g k x) (.remove (g, k) x)
  | delta {o g k incr d x} {value : Int} {new : Option Entry} (hnew : ∀ e,
      (abs env s).entry (g, k) = some e →
      value = CacheMgr.deltaValue (s.item e.ptr) incr d ∧
      ∀ ne, new = some ne → NewEntry (abs env s) ne (formatInt64 value) [] e.ext e.flags
        e.expireTime (formatInt64 value).length e.ext.length) :
      Acts env s (.delta o g k incr d x) (.delta (g, k) x value new)
  | flush {g} {ks : List Key} (nodup : ks.Nodup)
      (keys : ∀ k, k ∈ ks ↔ k.1 = g ∧ ((abs env s).entry k).isSome) :
      Acts env s (.flush g)
        (.flush (ks.length % 2 ^ 32, (ks.map ((abs env s).totalSize env)).sum % 2 ^ 64) ks)
  | checkExpired {ks : List Key} (nodup : ks.Nodup)
      (keys : ∀ k ∈ ks, ∃ e, (abs env s).entry k = some e ∧ e.expireTime ≤ s.currTime) :
      Acts env s .checkExpired (.checkExpired (fun w =>
        (s.watchMap w).any fun watch => watch.isExpired s.currTime) ks)
  | checkExpiredNot : Acts env s .checkExpired (.silent .done)
  | releaseReference {p} : Acts env s (.releaseReference p) (.silent .done)
  | createWatch {g x id} (hid : id ≠ 0) (q : List Nat × List NotifyType) :
      Acts env s (.createWatch g x) (.watch (.watchId id) id q)
  | createWatchNot {g x} : Acts env s (.createWatch g x) (.silent (.watchId 0))
  | checkWatchAndSetCallback {sp g w ack x} (hlive : (abs env s).live w = true)
      (r : Option CheckOut) (q : List Nat × List NotifyType) :
      Acts env s (.checkWatchAndSetCallback sp g w ack x) (.watch (.check r) w q)
  | checkWatchAndSetCallbackNot {sp g w ack x} :
      Acts env s (.checkWatchAndSetCallback sp g w ack x) (.silent (.check none))
  | checkWatchAndClearCallback {sp w} (hlive : (abs env s).live w = true)
      (r : Option CheckOut) (q : List Nat × List NotifyType) :
      Acts env s (.checkWatchAndClearCallback sp w) (.watch (.check r) w q)
  | checkWatchAndClearCallbackNot {sp w} :
      Acts env s (.checkWatchAndClearCallback sp w) (.silent (.check none))
  | setCurrentTime {tt} (t : Nat) : Acts env s (.setCurrentTime tt) (.clock t)
  | connections {alive} : Acts env s (.connections alive) (.silent .done)

/-- What an operation needs of its arguments. -/
def Ready (env : Env) (held : Ptr → Nat) (s : CacheMgr) : Op → Prop
  | .fill p _ => 0 < held p ∧ (abs env s).Absent p
  | .update _ _ p _ => Request env held s p
  | .loadFromFileLink _ p _ => Request env held s p
  | .delta _ _ k _ _ _ => k.length < 2 ^ 16
  | .releaseReference p => 0 < held p
  | _ => True

/-- The reference that a mismatch exit does not release. -/
def leaked (env : Env) (s : CacheMgr) : Op → Option Ptr
  | .updateFlags g k x _ => mismatched (abs env s) (g, k) x
  | .updateExpiration g k x _ => mismatched (abs env s) (g, k) x
  | .update .append _ p _ => mismatched (abs env s) (s.item p).ident (s.item p).cacheId
  | .update .prepend _ p _ => mismatched (abs env s) (s.item p).ident (s.item p).cacheId
  | _ => none

/-- The references to an item after an operation with the outcome `r`. -/
def heldAfter (env : Env) (held : Ptr → Nat) (s : CacheMgr) (op : Op) (r : Outcome) : Ptr → Nat :=
  bumpOpt (bumpOpt (dropOpt held op.consumed) r.handed) (leaked env s op)

/-- The item that an operation works on for its caller. -/
def Op.subject : Op → Option Ptr
  | .fill p _ => some p
  | .update _ _ p _ => some p
  | .loadFromFileLink _ p _ => some p
  | .releaseReference p => some p
  | _ => none

/-- The operation is the action `a`, keeps the invariant, and leaves other items that
are held but not linked alone. -/
structure Simulated (env : Env) (held : Ptr → Nat) (s : CacheMgr) (op : Op) (a : Action) : Prop where
  acts : Acts env s op a
  inv : Inv env (heldAfter env held s op (s.exec env op).1) (s.exec env op).2
  act : (abs env s).act a = ((s.exec env op).1, abs env (s.exec env op).2)
  slot : ∀ q, (abs env s).Absent q → 0 < held q → op.subject ≠ some q →
    (s.exec env op).2.slot q = s.slot q

variable {env : Env} {held : Ptr → Nat} {L : ListId → List Ptr} {s : CacheMgr} {p q : Ptr} {op : Op}
  {o : Malloc}

namespace OperationLemmas

theorem bump_drop (h : 0 < held p) : bump (drop held p) p = held := by
  unfold bump drop
  rw [Function.update_self, Function.update_idem, Nat.sub_add_cancel h, Function.update_eq_self]

/-- From the outcome of one operation to the common form. -/
theorem simulated_of_refines {α : Type} {a : Action} {f : α → Outcome}
    {r : α × CacheMgr} {b : α × Store} (hacts : Acts env s op a)
    (hexec : s.exec env op = r.map f id) (hact : (abs env s).act a = b.map f id)
    (href : Refines env (heldAfter env held s op (f b.1)) r b)
    (hslot : ∀ q, (abs env s).Absent q → 0 < held q → op.subject ≠ some q → r.2.slot q = s.slot q) :
    Simulated env held s op a := by
  have hres := href.result
  refine ⟨hacts, ?_, ?_, ?_⟩
  · rw [hexec]
    show Inv env (heldAfter env held s op (f r.1)) r.2
    rw [hres]
    exact href.inv
  · rw [hexec, hact]
    show (f b.1, b.2) = (f r.1, abs env r.2)
    rw [hres, href.abs]
  · rw [hexec]
    exact hslot

/-- The manager does not touch its items, only a field the store does not keep. -/
theorem simulated_silent {r : Outcome} {s' : CacheMgr} (h : Inv env held s)
    (hacts : Acts env s op (.silent r)) (hexec : s.exec env op = (r, s'))
    (hcore : ∀ L, Core env held L s → Core env held L s') (habs : abs env s' = abs env s)
    (hslot : ∀ q, s'.slot q = s.slot q) (hc : op.consumed = none) (hh : r.handed = none)
    (hl : leaked env s op = none) : Simulated env held s op (.silent r) := by
  obtain ⟨L, hL⟩ := h
  refine ⟨hacts, ?_, ?_, fun q _ _ _ => ?_⟩
  · rw [hexec, heldAfter, hc, hl, hh]
    exact ⟨L, hcore L hL⟩
  · rw [hexec, habs]
    rfl
  · rw [hexec]
    exact hslot q

theorem ne_of_subject (hq : op.subject ≠ some q) (hp : op.subject = some p) : q ≠ p := by
  intro he
  exact hq (he ▸ hp)

theorem alloc_simulated (h : Inv env held s) (g kl fl x ds es : Nat) :
    Simulated env held s (.alloc o g kl fl x ds es)
      (.silent (s.exec env (.alloc o g kl fl x ds es)).1) := by
  obtain ⟨L, h⟩ := h
  have hexec : s.exec env (.alloc o g kl fl x ds es) =
      (s.doAlloc env o g kl fl (CacheMgr.realtime s.currTime x) ds es).map .alloc id := rfl
  refine ⟨.alloc _, ?_, ?_, fun q _ hq _ => ?_⟩
  · rw [hexec]
    cases hd : s.doAlloc env o g kl fl (CacheMgr.realtime s.currTime x) ds es with
    | mk r s' =>
      cases r with
      | none =>
        obtain ⟨c, rfl⟩ := Core.doAlloc_none hd
        exact ⟨L, h⟩
      | some p =>
        obtain ⟨L', h', -⟩ := (h.doAlloc_some hd).core
        exact ⟨L', h'⟩
  · rw [hexec]
    cases hd : s.doAlloc env o g kl fl (CacheMgr.realtime s.currTime x) ds es with
    | mk r s' =>
      cases r with
      | none =>
        obtain ⟨c, rfl⟩ := Core.doAlloc_none hd
        rfl
      | some p =>
        show (_, abs env s) = (_, abs env s')
        rw [(h.doAlloc_some hd).abs]
  · rw [hexec]
    exact CacheMgr.slot_doAlloc _ _ _ _ _ _ _ h (h.pos_of_held hq)

theorem fill_simulated (h : Inv env held s) (hu : 0 < held p) (hn : (abs env s).Absent p)
    (c : Contents) : Simulated env held s (.fill p c) (.silent .done) := by
  obtain ⟨L, h⟩ := h
  have hl := (absent_iff h).mp hn
  have h₁ := h.modify (f := fun it => it.fill c) (h.pos_of_held hu) rfl rfl fun hp => absurd hp hl
  have h₂ := h₁.setHash (x := env.hash32 ((s.item p).fill c).key ((s.item p).fill c).groupId) hl
  have hfill : s.fill env p c = { s.modify p fun it => it.fill c with
      cacheHashMap := { s.cacheHashMap with
        hashValue := Function.update s.cacheHashMap.hashValue p
          (env.hash32 ((s.item p).fill c).key ((s.item p).fill c).groupId) } } := by
    simp only [CacheMgr.fill, CacheMgr.item_modify_self]
    rfl
  refine ⟨.fill, ?_, ?_, fun q _ _ hq => ?_⟩
  · show Inv env held (s.fill env p c)
    rw [hfill]
    exact ⟨L, h₂⟩
  · show (Outcome.done, abs env s) = (Outcome.done, abs env (s.fill env p c))
    rw [hfill, ← abs_modify_of_not_linked h h₁ hl]
    refine Prod.ext rfl (abs_eq (abs_entry_congr h₂ h₁ (fun _ => Iff.rfl) fun _ _ => ⟨rfl, rfl⟩) rfl)
  · have hne : q ≠ p := ne_of_subject hq rfl
    show (s.fill env p c).slot q = _
    rw [hfill]
    exact Prod.ext (Function.update_of_ne hne ..) (Function.update_of_ne hne ..)

theorem releaseReference_simulated (h : Inv env held s) (hu : 0 < held p) :
    Simulated env held s (.releaseReference p) (.silent .done) := by
  obtain ⟨L, h⟩ := h
  rw [← bump_drop hu] at h
  obtain ⟨hi, ha⟩ := release_inv h
  refine ⟨.releaseReference, hi, ?_, fun q _ _ hq => ?_⟩
  · exact Prod.ext rfl ha.symm
  · exact CacheMgr.slot_release env s (ne_of_subject hq rfl)

theorem update_simulated (h : Inv env held s) (hroom : Room env held) (hr : Request env held s p)
    (verb : Verb) (w : Nat) : ∃ a, Simulated env held s (.update verb o p w) a := by
  obtain ⟨L, hL⟩ := h
  have hpos : ∀ q, 0 < held q → 0 < (s.item q).refCount := fun q hq => hL.pos_of_held hq
  have hne : ∀ q, (Op.update verb o p w).subject ≠ some q → q ≠ p :=
    fun q hq => ne_of_subject hq rfl
  cases verb with
  | add =>
    exact ⟨_, simulated_of_refines .add rfl rfl (add_refines ⟨L, hL⟩ hroom hr w)
      fun q hq _ hs => slot_add hq hr (hne q hs) w⟩
  | set =>
    exact ⟨_, simulated_of_refines .set rfl rfl (set_refines ⟨L, hL⟩ hroom hr w)
      fun q hq _ hs => slot_set hq hr (hne q hs) w⟩
  | replace =>
    exact ⟨_, simulated_of_refines .replace rfl rfl (replace_refines ⟨L, hL⟩ hroom hr w)
      fun q hq _ hs => slot_replaceOp hq hr (hne q hs) w⟩
  | append =>
    obtain ⟨new, href, hnew⟩ := append_refines (o := o) ⟨L, hL⟩ hroom hr w
    exact ⟨_, simulated_of_refines (.append hnew) rfl rfl href
      fun q hq hu hs => (slot_append hL hroom hq (hpos q hu) hr w).elim id
        (·.trans (CacheMgr.slot_addWatchIf _ w (hne q hs)))⟩
  | prepend =>
    obtain ⟨new, href, hnew⟩ := prepend_refines (o := o) ⟨L, hL⟩ hroom hr w
    exact ⟨_, simulated_of_refines (.prepend hnew) rfl rfl href
      fun q hq hu hs => (slot_prepend hL hroom hq (hpos q hu) hr w).elim id
        (·.trans (CacheMgr.slot_addWatchIf _ w (hne q hs)))⟩

theorem loadFromFileLink_simulated (h : Inv env held s) (hroom : Room env held)
    (hr : Request env held s p) (w : Nat) :
    ∃ a, Simulated env held s (.loadFromFileLink o p w) a := by
  have hheld := bump_drop hr.held
  have href := loadFromFileLink_refines (o := o) (hheld.symm ▸ h)
    (hheld.symm ▸ hroom) (hheld.symm ▸ hr) w
  exact ⟨_, simulated_of_refines .loadFromFileLink rfl rfl href
    fun q hq _ hs => slot_loadFromFileLink hq hr (ne_of_subject hs rfl) w⟩

theorem delta_simulated (h : Inv env held s) (hroom : Room env held) (g : Nat) {k : Bytes}
    (hk : k.length < 2 ^ 16) (incr : Bool) (d : Int) (x : Nat) :
    ∃ a, Simulated env held s (.delta o g k incr d x) a := by
  obtain ⟨L, hL⟩ := h
  obtain ⟨value, new, href, hnew⟩ := delta_refines (o := o) ⟨L, hL⟩ hroom (g, k) hk incr d x
  exact ⟨_, simulated_of_refines (.delta hnew) rfl rfl href
    fun q hq hu _ => slot_delta hL hroom hq (hL.pos_of_held hu) (g, k) incr d x⟩

theorem flush_simulated (h : Inv env held s) (g : Nat) :
    ∃ a, Simulated env held s (.flush g) a := by
  obtain ⟨ks, hnd, hks, hslot, href⟩ := flush_refines h g
  have hexec : s.exec env (.flush g) = (s.flush env g).map .flush id := rfl
  exact ⟨_, simulated_of_refines (.flush hnd hks) hexec rfl href fun q hq _ _ => hslot q hq⟩

theorem checkExpired_simulated (h : Inv env held s) : ∃ a, Simulated env held s .checkExpired a := by
  obtain ⟨ks, hnd, hks, hslot, hi, ha⟩ := checkExpired_refines h
  by_cases ht : s.currTime ≠ s.lastCheckExpiredTime
  · rw [if_pos ht] at ha
    exact ⟨_, .checkExpired hnd hks, hi, Prod.ext rfl ha.symm, fun q hq _ _ => hslot q hq⟩
  · rw [if_neg ht] at ha
    exact ⟨_, .checkExpiredNot, hi, Prod.ext rfl ha.symm, fun q hq _ _ => hslot q hq⟩

theorem live_abs {w : Nat} {watch : CacheWatch} (h : s.watchMap w = some watch) :
    (abs env s).live w = true := by
  simp [Store.live, abs, h]

/-- A change of one watch. -/
theorem watch_simulated {w : Nat} {r : Outcome} {s' : CacheMgr} {watch : CacheWatch}
    (h : Inv env held s) (hacts : Acts env s op (.watch r w (pend watch)))
    (hexec : s.exec env op = (r, s'))
    (hs' : ∃ n st sc, s' = { s with
      watchMap := Function.update s.watchMap w (some watch)
      lastWatchId := n
      stats := st
      sinkCalls := sc })
    (hc : op.consumed = none) (hh : r.handed = none) (hl : leaked env s op = none) :
    Simulated env held s op (.watch r w (pend watch)) := by
  obtain ⟨L, hL⟩ := h
  obtain ⟨n, st, sc, rfl⟩ := hs'
  refine ⟨hacts, ?_, ?_, fun q _ _ _ => ?_⟩
  · rw [hexec, heldAfter, hc, hl, hh]
    exact ⟨L, hL⟩
  · rw [hexec]
    refine Prod.ext rfl (Store.ext rfl (funext fun v => ?_) rfl rfl)
    show Function.update (abs env s).pending w (some (pend watch)) v =
      (Function.update s.watchMap w (some watch) v).map pend
    by_cases hv : v = w
    · subst hv
      simp
    · rw [Function.update_of_ne hv, Function.update_of_ne hv]
      rfl
  · rw [hexec]
    rfl

theorem createWatch_simulated (h : Inv env held s) (g x : Nat) :
    ∃ a, Simulated env held s (.createWatch g x) a := by
  obtain ⟨id, n, hid⟩ : ∃ id n, s.getWatchId = (id, { s with lastWatchId := n }) := ⟨_, _, rfl⟩
  by_cases h0 : id = 0
  · have hexec : s.exec env (.createWatch g x) = (.watchId 0, { s with lastWatchId := n }) := by
      simp [CacheMgr.exec, CacheMgr.createWatch, hid, h0]
    exact ⟨_, simulated_silent h .createWatchNot hexec (fun _ hL => hL) rfl (fun _ => rfl) rfl rfl rfl⟩
  · have hexec : s.exec env (.createWatch g x) = (.watchId id, { s with
        watchMap := Function.update s.watchMap id
          (some (CacheWatch.new id (CacheMgr.realtime s.currTime x)))
        lastWatchId := n
        stats := s.stats ++ [.createWatch g] }) := by
      simp [CacheMgr.exec, CacheMgr.createWatch, hid, h0, CacheMgr.stat]
    exact ⟨_, watch_simulated h (.createWatch h0 _) hexec ⟨_, _, _, rfl⟩ rfl rfl rfl⟩

theorem checkWatchAndSetCallback_simulated (h : Inv env held s) (sp : Sink) (g w ack x : Nat) :
    ∃ a, Simulated env held s (.checkWatchAndSetCallback sp g w ack x) a := by
  cases hw : s.watchMap w with
  | none =>
    have hexec : s.exec env (.checkWatchAndSetCallback sp g w ack x) =
        (.check none, s.stat (.checkWatchMiss g)) := by
      simp [CacheMgr.exec, CacheMgr.checkWatchAndSetCallback, hw]
    exact ⟨_, simulated_silent h .checkWatchAndSetCallbackNot hexec (fun _ hL => hL) rfl
      (fun _ => rfl) rfl rfl rfl⟩
  | some watch =>
    obtain ⟨watch', out, sink, hcheck⟩ : ∃ watch' out sink, watch.checkAndSetCallback s.sinkAlive sp
      ack (CacheMgr.realtime s.currTime x) = (watch', out, sink) := ⟨_, _, _, rfl⟩
    have hexec : s.exec env (.checkWatchAndSetCallback sp g w ack x) = (.check (some out), { s with
        watchMap := Function.update s.watchMap w (some watch')
        stats := s.stats ++ [.checkWatch g]
        sinkCalls := s.sinkCalls ++ (sink.map fun p => (p, watch.watchId)).toList }) := by
      simp [CacheMgr.exec, CacheMgr.checkWatchAndSetCallback, hw, hcheck, CacheMgr.stat]
    exact ⟨_, watch_simulated h (.checkWatchAndSetCallback (live_abs hw) (some out) _) hexec
      ⟨s.lastWatchId, _, _, rfl⟩ rfl rfl rfl⟩

theorem checkWatchAndClearCallback_simulated (h : Inv env held s) (sp : Sink) (w : Nat) :
    ∃ a, Simulated env held s (.checkWatchAndClearCallback sp w) a := by
  cases hw : s.watchMap w with
  | none =>
    have hexec : s.exec env (.checkWatchAndClearCallback sp w) = (.check none, s) := by
      simp [CacheMgr.exec, CacheMgr.checkWatchAndClearCallback, hw]
    exact ⟨_, simulated_silent h .checkWatchAndClearCallbackNot hexec (fun _ hL => hL) rfl
      (fun _ => rfl) rfl rfl rfl⟩
  | some watch =>
    obtain ⟨watch', out, hcheck⟩ : ∃ watch' out,
      watch.checkAndClearCallback s.sinkAlive sp = (watch', out) := ⟨_, _, rfl⟩
    have hexec : s.exec env (.checkWatchAndClearCallback sp w) = (.check (some out),
        { s with watchMap := Function.update s.watchMap w (some watch') }) := by
      simp [CacheMgr.exec, CacheMgr.checkWatchAndClearCallback, hw, hcheck]
    exact ⟨_, watch_simulated h (.checkWatchAndClearCallback (live_abs hw) (some out) _) hexec
      ⟨s.lastWatchId, s.stats, s.sinkCalls, rfl⟩ rfl rfl rfl⟩

end OperationLemmas

open OperationLemmas

/-- Every operation is an action of the abstract store. -/
theorem exec_refines (h : Inv env held s) (hroom : Room env held) (hr : Ready env held s op) :
    ∃ a, Simulated env held s op a := by
  cases op with
  | alloc o g kl fl x ds es => exact ⟨_, alloc_simulated h g kl fl x ds es⟩
  | fill p c => exact ⟨_, fill_simulated h hr.1 hr.2 c⟩
  | get g k w b =>
    exact ⟨_, simulated_of_refines .get rfl rfl (get_refines h hroom (g, k) w b)
      fun q hq _ _ => slot_get hq (g, k) w b⟩
  | getTouch g k w x =>
    exact ⟨_, simulated_of_refines .getTouch rfl rfl (getTouch_refines h hroom (g, k) w x)
      fun q hq _ _ => slot_getTouch hq (g, k) w x⟩
  | updateFlags g k x fl =>
    exact ⟨_, simulated_of_refines .updateFlags rfl rfl (updateFlags_refines h hroom (g, k) x fl)
      fun q hq _ _ => slot_updateFlags hq (g, k) x fl⟩
  | updateExpiration g k x y =>
    exact ⟨_, simulated_of_refines .updateExpiration rfl rfl
      (updateExpiration_refines h hroom (g, k) x y)
      fun q hq _ _ => slot_updateExpiration hq (g, k) x y⟩
  | update verb o p w => exact update_simulated h hroom hr verb w
  | loadFromFileLink o p w => exact loadFromFileLink_simulated h hroom hr w
  | remove g k x =>
    exact ⟨_, simulated_of_refines .remove rfl rfl (remove_refines h hroom (g, k) x)
      fun q hq _ _ => slot_removeOp hq (g, k) x⟩
  | delta o g k incr d x => exact delta_simulated h hroom g hr incr d x
  | flush g => exact flush_simulated h g
  | checkExpired => exact checkExpired_simulated h
  | releaseReference p => exact ⟨_, releaseReference_simulated h hr⟩
  | createWatch g x => exact createWatch_simulated h g x
  | checkWatchAndSetCallback sp g w ack x =>
    exact checkWatchAndSetCallback_simulated h sp g w ack x
  | checkWatchAndClearCallback sp w => exact checkWatchAndClearCallback_simulated h sp w
  | setCurrentTime tt =>
    obtain ⟨L, hL⟩ := h
    exact ⟨_, .setCurrentTime _, ⟨L, hL⟩, rfl, fun _ _ _ _ => rfl⟩
  | connections alive =>
    exact ⟨_, simulated_silent h .connections rfl (fun _ hL => hL) rfl (fun _ => rfl) rfl rfl rfl⟩

end Xixi
