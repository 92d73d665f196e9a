import Xixi.Peer.Handlers

/-!
# What an iteration does to responses and references

1. `Backend.counted`: a backend that keeps a record of the references that the peer takes and
   releases.
2. `Conn.Effect c c'`: an iteration resets the connection, queues one response, takes the item
   of an update, or does nothing of this.
3. `iterate_effect`: every iteration is of one of these kinds.
4. `Conn.Balanced c`: what has been taken and not been released is what the connection holds.
   `balanced_of_effect`: an iteration keeps it so.
-/

namespace Xixi.PeerCache
open Lib

inductive RefEvent
  | take (p : Ptr)
  | release (p : Ptr)
deriving DecidableEq, Repr

/-- The item that a call returns a reference to. -/
def Call.item : (k : Call) → k.Ret → Option Ptr
  | .get .., r => r.1.map Prod.fst
  | .getTouch .., r => r.1
  | .allocItem .., r => r
  | .updateFlags .., _ | .updateExpiration .., _ | .itemSizeOk .., _ | .fill .., _ | .update .., _
  | .remove .., _ | .delta .., _ | .flush .., _ | .stats .., _ | .createWatch .., _
  | .checkWatchAndSetCallback .., _ | .checkWatchAndClearCallback .., _ | .login .., _ => none

/-- The backend with a record of the references. -/
def Backend.counted {β : Type} (B : Backend β) : Backend (β × List RefEvent) where
  exec s k :=
    ((B.exec s.1 k).1, (B.exec s.1 k).2, s.2 ++ (k.item (B.exec s.1 k).1).toList.map .take)
  item s p := B.item s.1 p
  releaseReference s p := (B.releaseReference s.1 p, s.2 ++ [.release p])

/-- The response of `GET` and `GET_TOUCH`, which refers to the data of an item. -/
def Res.isGet : Res → Bool
  | .get .. => true
  | _ => false

/-- States in which the next iteration may give up what has been queued. -/
def PeerState.final : PeerState → Bool
  | .newCmd | .swallow | .closing | .closed => true
  | _ => false

namespace Conn

variable {β : Type} (c c' : Conn (β × List RefEvent))

/-- What happens to the references when `r` is queued. -/
inductive Settles (r : Res) : Prop
  | plain (refs : c'.mgr.2 = c.mgr.2) (items : c'.cacheItems = c.cacheItems) (get : r.isGet = false)
      (state : c.state ≠ .readBodyExtras)
  | base (it : Ptr) (refs : c'.mgr.2 = c.mgr.2 ++ [.take it, .release it])
      (items : c'.cacheItems = c.cacheItems) (get : r.isGet = false)
      (state : c.state ≠ .readBodyExtras)
  | kept (it : Ptr) (refs : c'.mgr.2 = c.mgr.2 ++ [.take it])
      (items : c'.cacheItems = c.cacheItems ++ [it]) (item : c'.cacheItem = some it)
      (get : r.isGet = true) (state : c.state ≠ .readBodyExtras)
  | updated (it : Ptr) (refs : c'.mgr.2 = c.mgr.2 ++ [.release it])
      (items : c'.cacheItems = c.cacheItems) (get : r.isGet = false)
      (item : c.cacheItem = some it) (state : c.state = .readBodyExtras)

/-- One response is queued. -/
structure Replies (r : Res) : Prop where
  writeBuf : c'.writeBuf = c.writeBuf ++ [r]
  log : ∃ ks : List Call, c'.log = c.log ++ (ks.map Event.call ++ [.queue r])
  state : c'.state = .write
  next : c'.nextState.final = true
  pending : c'.pending = c.pending
  settles : c.Settles c' r

/-- No response, and no reference. -/
structure Quiet : Prop where
  writeBuf : c'.writeBuf = c.writeBuf
  log : ∃ es : List Event, c'.log = c.log ++ es ∧ ∀ r, .queue r ∉ es
  pending : c'.pending = c.pending
  refs : c'.mgr.2 = c.mgr.2
  items : c'.cacheItems = c.cacheItems
  item : c'.cacheItem = c.cacheItem
  next : c.nextState.final = true → c'.nextState.final = true
  extras : c'.state = .readBodyExtras ↔ c.state = .readBodyExtras
  readPdu : c.state = .readBodyExtras → c'.readPdu = c.readPdu
  final : c'.run = true → c'.state.final = true → c.state.final = true

/-- The item of an update. -/
structure Allocates (it : Ptr) : Prop where
  writeBuf : c'.writeBuf = c.writeBuf
  log : ∃ k, c'.log = c.log ++ [Event.call k]
  next : c'.nextState = c.nextState
  pending : c'.pending = c.pending
  refs : c'.mgr.2 = c.mgr.2 ++ [.take it]
  items : c'.cacheItems = c.cacheItems
  item : c'.cacheItem = some it
  state : c.state ≠ .readBodyExtras
  extras : c'.state = .readBodyExtras
  update : ∃ op id g fl x w kl dl, c'.readPdu = some (.update op id g fl x w kl dl)

inductive Effect (B : Backend β) : Prop
  | reset (state : c.state = .newCmd) (eq : c' = c.resetForNewCmd B.counted)
  | quiet (state : c.state ≠ .newCmd) (h : c.Quiet c')
  | replies (r : Res) (h : c.Replies c' r)
  | allocates (it : Ptr) (h : c.Allocates c' it)

/-- In the middle of an update the item is there; `next_state_` is where a response leads. -/
structure Sound : Prop where
  next : c.nextState.final = true
  updating : c.state = .readBodyExtras → ∃ it op id g fl x w kl dl,
    c.cacheItem = some it ∧ c.readPdu = some (.update op id g fl x w kl dl)

namespace TrafficLemmas

variable {c c'} {B : Backend β}

/-- `c₁` is `c` but for some calls, none of which has returned an item. -/
structure Called (c c₁ : Conn (β × List RefEvent)) (ks : List Call) : Prop where
  writeBuf : c₁.writeBuf = c.writeBuf
  log : c₁.log = c.log ++ ks.map .call
  pending : c₁.pending = c.pending
  refs : c₁.mgr.2 = c.mgr.2
  items : c₁.cacheItems = c.cacheItems

theorem called_self : Called c c [] := ⟨rfl, (List.append_nil _).symm, rfl, rfl, rfl⟩

/-- A further call. -/
theorem Called.call {c₁ c₂ : Conn (β × List RefEvent)} {ks : List Call} {k : Call} {ret : k.Ret}
    (h : Called c c₁ ks) (hcall : c₁.call B.counted k = (ret, c₂)) (hret : k.item ret = none) :
    Called c c₂ (ks ++ [k]) := by
  have hc₂ : c₂ = (c₁.call B.counted k).2 := by rw [hcall]
  have hret' : (c₁.call B.counted k).1 = ret := by rw [hcall]
  have hrefs : c₂.mgr.2 = c₁.mgr.2 ++ (k.item ret).toList.map .take := by
    rw [hc₂, ← hret']
    rfl
  have hlog : c₂.log = c₁.log ++ [.call k] := by
    rw [hc₂]
    rfl
  rw [hret] at hrefs
  refine ⟨?_, ?_, ?_, ?_, ?_⟩
  · rw [hc₂]
    exact h.writeBuf
  · rw [hlog, h.log, List.map_append, List.append_assoc]
    rfl
  · rw [hc₂]
    exact h.pending
  · rw [hrefs, h.refs]
    exact List.append_nil _
  · rw [hc₂]
    exact h.items

theorem called_call {c₁ : Conn (β × List RefEvent)} {k : Call} {ret : k.Ret}
    (hcall : c.call B.counted k = (ret, c₁)) (hret : k.item ret = none) : Called c c₁ [k] :=
  called_self.call hcall hret

/-- A call that returns an item. -/
theorem refs_call {c₁ : Conn (β × List RefEvent)} {k : Call} {ret : k.Ret} {it : Ptr}
    (hcall : c.call B.counted k = (ret, c₁)) (hret : k.item ret = some it) :
    c₁ = { c with mgr := (c₁.mgr.1, c.mgr.2 ++ [.take it]), log := c.log ++ [.call k] } := by
  have hc₁ : c₁ = (c.call B.counted k).2 := by rw [hcall]
  have hret' : (c.call B.counted k).1 = ret := by rw [hcall]
  have hrefs : (c.call B.counted k).2.mgr.2 =
      c.mgr.2 ++ (k.item (c.call B.counted k).1).toList.map .take := rfl
  rw [hret', hret] at hrefs
  have hmgr : (c.call B.counted k).2.mgr = (c₁.mgr.1, c.mgr.2 ++ [.take it]) :=
    Prod.ext (by rw [← hc₁]) hrefs
  calc c₁ = (c.call B.counted k).2 := hc₁
    _ = { c with mgr := (c.call B.counted k).2.mgr, log := c.log ++ [.call k] } := rfl
    _ = _ := by rw [hmgr]

section Replies

variable {c₁ : Conn (β × List RefEvent)} {ks : List Call} {r : Res}

theorem replies_writeRes (h : Called c c₁ ks) (hs : c.state ≠ .readBodyExtras)
    (hr : r.isGet = false) : c.Replies (c₁.writeRes r) r := by
  refine ⟨?_, ⟨ks, ?_⟩, rfl, rfl, h.pending, .plain h.refs h.items hr hs⟩
  · show c₁.writeBuf ++ [r] = _
    rw [h.writeBuf]
  · show c₁.log ++ [.queue r] = _
    rw [h.log, List.append_assoc]

theorem replies_writeError {n : Nat} (h : Called c c₁ ks) (hs : c.state ≠ .readBodyExtras)
    (hr : r.isGet = false) : c.Replies (c₁.writeError r n true) r := by
  have hres := replies_writeRes h hs hr
  unfold writeError
  rw [if_pos rfl]
  dsimp only
  split
  · exact ⟨hres.writeBuf, hres.log, rfl, rfl, hres.pending, .plain h.refs h.items hr hs⟩
  · exact ⟨hres.writeBuf, hres.log, rfl, rfl, hres.pending, .plain h.refs h.items hr hs⟩

theorem replies_unknownCommand (h : Called c c₁ ks) (hs : c.state ≠ .readBodyExtras) :
    c.Replies c₁.unknownCommand .unknownCommand := by
  have hres := replies_writeError (n := 0) h hs (r := .unknownCommand) rfl
  exact ⟨hres.writeBuf, hres.log, hres.state, rfl, hres.pending, .plain h.refs h.items rfl hs⟩

/-- What follows the response leaves the queue alone. -/
theorem replies_congr {c'' : Conn (β × List RefEvent)} (h : c.Replies c' r)
    (hw : c''.writeBuf = c'.writeBuf) (hl : c''.log = c'.log) (hs : c''.state = c'.state)
    (hn : c''.nextState = c'.nextState) (hp : c''.pending = c'.pending) (hm : c''.mgr = c'.mgr) (hi : c''.cacheItems = c'.cacheItems)
    (hit : c''.cacheItem = c'.cacheItem) : c.Replies c'' r := by
  refine ⟨hw.trans h.writeBuf, hl ▸ h.log, hs.trans h.state, hn ▸ h.next, hp.trans h.pending, ?_⟩
  cases h.settles with
  | plain refs items get state => exact .plain (hm ▸ refs) (hi.trans items) get state
  | base it refs items get state => exact .base it (hm ▸ refs) (hi.trans items) get state
  | kept it refs items item get state =>
    exact .kept it (hm ▸ refs) (hi.trans items) (hit.trans item) get state
  | updated it refs items get item state =>
    exact .updated it (hm ▸ refs) (hi.trans items) get item state

end Replies

/-! ## The handlers -/

theorem isGet_baseRes (res : Nat → Res) (h : ∀ n, (res n).isGet = false) (r : Bool × Nat) :
    (baseRes res r).isGet = false := by
  rcases r with ⟨_ | _, n⟩
  · rfl
  · exact h n

section Handlers

variable (hs : c.state ≠ .readBodyExtras)

/-- The item is kept, and the response refers to its data. -/
theorem replies_kept {c₁ : Conn (β × List RefEvent)} {k : Call} {ret : k.Ret} {it : Ptr} {r : Res}
    (hs : c.state ≠ .readBodyExtras) (hcall : c.call B.counted k = (ret, c₁))
    (hret : k.item ret = some it) (hr : r.isGet = true) :
    c.Replies ((c₁.keepItem it).writeRes r) r := by
  have hc₁ := refs_call hcall hret
  rw [hc₁]
  refine ⟨rfl, ⟨[k], ?_⟩, rfl, rfl, rfl, .kept it rfl rfl rfl hr hs⟩
  exact List.append_assoc _ _ _

/-- A handler that answers, once the key is there. -/
theorem effect_withKey (hn : c.state ≠ .newCmd) {length : Nat} {data : Bytes}
    {handler : Bytes → Conn (β × List RefEvent)} (h : ∀ key, ∃ r, c.Replies (handler key) r) :
    c.Effect ((c.withKey length data handler).2.consume (c.withKey length data handler).1) B := by
  unfold withKey
  split
  · exact .quiet hn ⟨rfl, ⟨[], (List.append_nil _).symm, nofun⟩, rfl, rfl, rfl, rfl, id, Iff.rfl,
      fun _ => rfl, fun _ hx => hx⟩
  · obtain ⟨r, hr⟩ := h (data.take length)
    exact .replies r (replies_congr hr rfl rfl rfl rfl rfl rfl rfl rfl)

include hs

theorem replies_get (g w : UInt32) (key : Bytes) :
    ∃ r, c.Replies (c.processGetReqPduExtras B.counted g w key) r := by
  rw [processGetReqPduExtras]
  rcases hcall : c.call B.counted (.get g.toNat key w.toNat false) with ⟨⟨_ | ⟨it, x⟩, reason⟩, c₁⟩
  · exact ⟨_, replies_writeError (called_call hcall rfl) hs rfl⟩
  · exact ⟨_, replies_kept hs hcall rfl rfl⟩

theorem replies_getTouch (g w x : UInt32) (key : Bytes) :
    ∃ r, c.Replies (c.processGetTouchReqPduExtras B.counted g w x key) r := by
  rw [processGetTouchReqPduExtras]
  rcases hcall : c.call B.counted (.getTouch g.toNat key w.toNat x.toNat) with ⟨⟨_ | it, reason⟩, c₁⟩
  · exact ⟨_, replies_writeError (called_call hcall rfl) hs rfl⟩
  · exact ⟨_, replies_kept hs hcall rfl rfl⟩

theorem replies_getBase (g : UInt32) (key : Bytes) :
    ∃ r, c.Replies (c.processGetBaseReqPduExtras B.counted g key) r := by
  rw [processGetBaseReqPduExtras]
  rcases hcall : c.call B.counted (.get g.toNat key 0 true) with ⟨⟨_ | ⟨it, x⟩, reason⟩, c₁⟩
  · exact ⟨_, replies_writeError (called_call hcall rfl) hs rfl⟩
  · have hc₁ := refs_call hcall rfl
    dsimp only
    rw [hc₁]
    refine ⟨_, rfl, ⟨[.get g.toNat key 0 true], ?_⟩, rfl, rfl, rfl, .base it ?_ rfl rfl hs⟩
    · exact List.append_assoc _ _ _
    · exact List.append_assoc _ _ _

theorem replies_delete (pdu : Pdu) (id : UInt64) (g : UInt32) (key : Bytes) :
    ∃ r, c.Replies (c.processDeleteReqPduExtras B.counted pdu id g key) r := by
  rw [processDeleteReqPduExtras]
  rcases hcall : c.call B.counted (.remove g.toNat key id.toNat) with ⟨reason, c₁⟩
  have h := called_call hcall rfl
  have herror (reason : Reason) : ∃ r, c.Replies (c₁.writeError (.error reason) 0 true) r :=
    ⟨_, replies_writeError h hs rfl⟩
  cases reason with
  | success => exact ⟨_, replies_writeRes h hs rfl⟩
  | _ => exact herror _

theorem replies_delta (pdu : Pdu) (op : UInt8) (id : UInt64) (g : UInt32) (d : Int64)
    (key : Bytes) : ∃ r, c.Replies (c.processDeltaReqPduExtras B.counted pdu op id g d key) r := by
  rw [processDeltaReqPduExtras]
  rcases hcall : c.call B.counted (.delta g.toNat key (Pdu.incr op) d.toInt id.toNat) with
    ⟨⟨reason, id', value⟩, c₁⟩
  have h := called_call hcall rfl
  have herror (reason : Reason) : ∃ r, c.Replies (c₁.writeError (.error reason) 0 true) r :=
    ⟨_, replies_writeError h hs rfl⟩
  cases reason with
  | success => exact ⟨_, replies_writeRes h hs rfl⟩
  | _ => exact herror _

/-- The calls that are answered whatever they return. -/
theorem replies_call {k : Call} (res : k.Ret → Res) (hk : ∀ ret, k.item ret = none)
    (hres : ∀ ret, (res ret).isGet = false) :
    ∃ r, c.Replies ((c.call B.counted k).2.writeRes (res (c.call B.counted k).1)) r :=
  ⟨_, replies_writeRes (called_call (Prod.eta _).symm (hk _)) hs (hres _)⟩

theorem replies_checkWatch (g w x a : UInt32) :
    (∃ r, c.Replies (c.processCheckWatchReqPduFixed B.counted g w x a) r) ∨
      c.Quiet (c.processCheckWatchReqPduFixed B.counted g w x a) := by
  rw [processCheckWatchReqPduFixed]
  rcases hcall : c.call B.counted (.checkWatchAndSetCallback g.toNat w.toNat a.toNat x.toNat) with
    ⟨_ | out, c₁⟩
  · exact .inl ⟨_, replies_writeError (called_call hcall rfl) hs rfl⟩
  · have h := called_call hcall rfl
    dsimp only
    split
    · exact .inl ⟨_, replies_writeRes h hs rfl⟩
    · have hc₁ : c₁ = (c.call B.counted
          (.checkWatchAndSetCallback g.toNat w.toNat a.toNat x.toNat)).2 := by rw [hcall]
      refine .inr ⟨h.writeBuf, ⟨[_], h.log, fun r hr => by cases List.mem_singleton.mp hr⟩, h.pending,
        h.refs, h.items, ?_, ?_, ?_, fun hx => absurd hx hs, fun _ hx => by cases hx⟩
      · rw [hc₁]
        rfl
      · rw [hc₁]
        exact id
      · exact iff_of_false (fun hx => by cases hx) hs

theorem replies_updateFixed (pdu : Pdu) (g fl x : UInt32) (kl : UInt16) (dl : UInt32)
    (hpdu : ∃ op id g fl x w kl dl, c.readPdu = some (.update op id g fl x w kl dl)) :
    (∃ r, c.Replies (c.processUpdateReqPduFixed B.counted pdu g fl x kl dl) r) ∨
      ∃ it, c.Allocates (c.processUpdateReqPduFixed B.counted pdu g fl x kl dl) it := by
  rw [processUpdateReqPduFixed]
  rcases halloc : c.call B.counted (.allocItem g.toNat kl.toNat fl.toNat x.toNat dl.toNat 0) with
    ⟨_ | it, c₁⟩
  · have h₁ := called_call halloc rfl
    dsimp only
    rcases hok : c₁.call B.counted (.itemSizeOk kl.toNat dl.toNat 0) with ⟨_ | _, c₂⟩
    · have h₂ := h₁.call hok rfl
      exact .inl ⟨_, replies_writeError ⟨h₂.writeBuf, h₂.log, h₂.pending, h₂.refs, h₂.items⟩ hs rfl⟩
    · have h₂ := h₁.call hok rfl
      exact .inl ⟨_, replies_writeError ⟨h₂.writeBuf, h₂.log, h₂.pending, h₂.refs, h₂.items⟩ hs rfl⟩
  · have hc₁ := refs_call halloc rfl
    dsimp only
    rw [hc₁]
    exact .inr ⟨it, rfl, ⟨_, rfl⟩, rfl, rfl, rfl, rfl, rfl, hs, rfl, hpdu⟩

/-- A request whose fixed body is complete. -/
theorem effect_fixed (hn : c.state ≠ .newCmd) (pdu : Pdu) (hpdu : c.readPdu = some pdu) :
    c.Effect (c.processPduFixed B.counted pdu) B := by
  have hawait (n : Nat) : c.Effect (c.awaitExtras2 n) B :=
    .quiet hn ⟨rfl, ⟨[], (List.append_nil _).symm, nofun⟩, rfl, rfl, rfl, rfl, id,
      iff_of_false (fun hx => nomatch hx) hs, fun hx => absurd hx hs, fun _ hx => nomatch hx⟩
  cases pdu with
  | get | getTouch | getBase | updateFlags | updateExpiration | delete | delta | auth =>
    exact hawait _
  | update op id g fl x w kl dl =>
    have hany : ∃ op id g fl x w kl dl, c.readPdu = some (.update op id g fl x w kl dl) :=
      ⟨_, _, _, _, _, _, _, _, hpdu⟩
    rcases replies_updateFixed (B := B) hs (.update op id g fl x w kl dl) g fl x kl dl hany with
      ⟨r, h⟩ | ⟨it, h⟩
    · exact .replies r h
    · exact .allocates it h
  | flush g =>
    obtain ⟨r, h⟩ := replies_call (B := B) hs (k := .flush g.toNat)
      (fun ret => .flush ret.1 ret.2) (fun _ => rfl) fun _ => rfl
    exact .replies r h
  | stats op cl g =>
    obtain ⟨r, h⟩ := replies_call (B := B) hs (k := .stats op.toNat cl.toNat g.toNat)
      (fun ret => .stats ret) (fun _ => rfl) fun _ => rfl
    exact .replies r h
  | createWatch g x =>
    obtain ⟨r, h⟩ := replies_call (B := B) hs (k := .createWatch g.toNat x.toNat)
      (fun ret => .createWatch ret) (fun _ => rfl) fun _ => rfl
    exact .replies r h
  | checkWatch g w t x a =>
    rcases replies_checkWatch (B := B) hs g w x a with ⟨r, h⟩ | h
    · exact .replies r h
    · exact .quiet hn h
  | hello => exact .replies _ (replies_unknownCommand called_self hs)

/-- A request whose key is to come. -/
theorem effect_extras2 (hn : c.state ≠ .newCmd) (data : Bytes) (pdu : Option Pdu) :
    c.Effect ((c.processPduExtras2 B.counted data pdu).2.consume
      (c.processPduExtras2 B.counted data pdu).1) B := by
  have hunknown : c.Effect (c.unknownCommand.consume 0) B :=
    .replies _ (replies_congr (replies_unknownCommand called_self hs) rfl rfl rfl rfl rfl rfl rfl rfl)
  rcases pdu with _ | pdu
  · exact hunknown
  cases pdu with
  | get g w kl => exact effect_withKey hn fun key => replies_get hs g w key
  | getTouch g w x kl => exact effect_withKey hn fun key => replies_getTouch hs g w x key
  | getBase g kl => exact effect_withKey hn fun key => replies_getBase hs g key
  | updateFlags op id g fl kl =>
    exact effect_withKey hn fun key => replies_call hs
      (k := .updateFlags g.toNat key id.toNat fl.toNat) (fun ret => baseRes .updateFlags ret)
      (fun _ => rfl) fun ret => isGet_baseRes _ (fun _ => rfl) ret
  | updateExpiration op id g x kl =>
    exact effect_withKey hn fun key => replies_call hs
      (k := .updateExpiration g.toNat key id.toNat x.toNat)
      (fun ret => baseRes .updateExpiration ret) (fun _ => rfl)
      fun ret => isGet_baseRes _ (fun _ => rfl) ret
  | delete op id g kl => exact effect_withKey hn fun key => replies_delete hs _ id g key
  | delta op id g d kl => exact effect_withKey hn fun key => replies_delta hs _ op id g d key
  | auth n =>
    -- `AUTH` is one call, and the connection stays as it is
    show c.Effect ((c.withKey n.toNat data (c.processAuthReqPduExtras B.counted)).2.consume
      (c.withKey n.toNat data (c.processAuthReqPduExtras B.counted)).1) B
    unfold withKey
    split
    · exact .quiet hn ⟨rfl, ⟨[], (List.append_nil _).symm, nofun⟩, rfl, rfl, rfl, rfl, id, Iff.rfl,
        fun _ => rfl, fun _ hx => hx⟩
    · refine .quiet hn ⟨rfl, ⟨[.call (.login (data.take n.toNat))], rfl, ?_⟩, rfl, ?_, rfl, rfl, id,
        Iff.rfl, fun _ => rfl, fun _ hx => hx⟩
      · exact fun r hr => nomatch List.mem_singleton.mp hr
      · exact List.append_nil _
  | update | flush | stats | createWatch | checkWatch | hello => exact hunknown

end Handlers

/-- The operation of an update returns no item. -/
theorem called_runUpdate {c₁ : Conn (β × List RefEvent)} {ks : List Call} (h : Called c c₁ ks)
    (op : UInt8) (it : Ptr) (w : UInt32) :
    (∃ ks', Called c (c₁.runUpdate B.counted op it w).2 ks') ∧
      (c₁.runUpdate B.counted op it w).1.isGet = false := by
  unfold runUpdate
  cases Pdu.verb op with
  | none => exact ⟨⟨ks, h⟩, rfl⟩
  | some verb =>
    rcases hcall : c₁.call B.counted (.update verb it w.toNat) with ⟨⟨reason, id⟩, c₂⟩
    have h₂ := h.call hcall rfl
    dsimp only
    rw [hcall]
    cases reason with
    | success => exact ⟨⟨_, h₂⟩, rfl⟩
    | _ => exact ⟨⟨_, h₂⟩, rfl⟩

/-- An update whose item is complete. -/
theorem replies_updateExtras {it : Ptr} (pdu : Pdu) (op : UInt8) (id : UInt64) (w : UInt32)
    (kl : UInt16) (hs : c.state = .readBodyExtras) (hit : c.cacheItem = some it) :
    ∃ r, c.Replies (c.processUpdateReqPduExtras B.counted pdu op id w kl it) r := by
  let contents : Contents :=
    { key := c.readItemBuf.take kl.toNat, data := c.readItemBuf.drop kl.toNat
      ext := [], cacheId := id.toNat }
  have h₁ : Called c (c.call B.counted (.fill it contents)).2 [.fill it contents] :=
    called_call (Prod.eta _).symm rfl
  obtain ⟨⟨ks, h⟩, hr⟩ := called_runUpdate (B := B) h₁ op it w
  let c₁ := (c.call B.counted (.fill it contents)).2
  let r := (c₁.runUpdate B.counted op it w).1
  let c₂ := (c₁.runUpdate B.counted op it w).2
  refine ⟨r, ?_, ⟨ks, ?_⟩, rfl, rfl, h.pending, .updated it ?_ h.items hr hit hs⟩
  · show c₂.writeBuf ++ [r] = _
    rw [h.writeBuf]
  · show c₂.log ++ [.queue r] = _
    rw [h.log, List.append_assoc]
  · show c₂.mgr.2 ++ [.release it] = _
    rw [h.refs]

/-- Reads into the receive buffer. -/
theorem quiet_fillBuffer (n : Nat) : c.Quiet (c.fillBuffer n) := by
  unfold fillBuffer
  dsimp only
  split
  · exact ⟨rfl, ⟨[], (List.append_nil _).symm, nofun⟩, rfl, rfl, rfl, rfl, id, Iff.rfl, fun _ => rfl,
      fun _ hx => hx⟩
  · exact ⟨rfl, ⟨[], (List.append_nil _).symm, nofun⟩, rfl, rfl, rfl, rfl, id, Iff.rfl, fun _ => rfl,
      fun _ hx => hx⟩

theorem quiet_fillItem (n : Nat) : c.Quiet (c.fillItem n) := by
  unfold fillItem
  dsimp only
  split
  · exact ⟨rfl, ⟨[], (List.append_nil _).symm, nofun⟩, rfl, rfl, rfl, rfl, id, Iff.rfl, fun _ => rfl,
      fun _ hx => hx⟩
  · exact ⟨rfl, ⟨[], (List.append_nil _).symm, nofun⟩, rfl, rfl, rfl, rfl, id, Iff.rfl, fun _ => rfl,
      fun _ hx => hx⟩

theorem quiet_processWrite (hs : c.state = .write) (hnext : c.nextState ≠ .readBodyExtras) :
    c.Quiet c.processWrite := by
  have hnot : c.state ≠ .readBodyExtras := fun hx => nomatch hs.symm.trans hx
  unfold processWrite
  dsimp only
  split
  · split
    · exact ⟨rfl, ⟨[], (List.append_nil _).symm, nofun⟩, rfl, rfl, rfl, rfl, fun _ => rfl,
        iff_of_false (fun hx => nomatch hx) hnot, fun hx => absurd hx hnot, fun _ hx => nomatch hx⟩
    · exact ⟨rfl, ⟨[], (List.append_nil _).symm, nofun⟩, rfl, rfl, rfl, rfl, fun _ => rfl,
        iff_of_false hnext hnot, fun hx => absurd hx hnot, fun hx => nomatch hx⟩
  · exact ⟨rfl, ⟨[], (List.append_nil _).symm, nofun⟩, rfl, rfl, rfl, rfl, fun _ => rfl,
      iff_of_false hnext hnot, fun hx => absurd hx hnot, fun hx => nomatch hx⟩

/-- `process_header`. -/
theorem effect_header (hs : c.state = .readHeader) (data : Bytes) :
    c.Effect ({ c.processHeader data with
      processRequestCount := c.processRequestCount + 1 }.consume headLength) B := by
  have hn : c.state ≠ .newCmd := fun hx => nomatch hs.symm.trans hx
  have hnot : c.state ≠ .readBodyExtras := fun hx => nomatch hs.symm.trans hx
  have hheader : Called c { c with header := getU16 data } [] :=
    ⟨rfl, (List.append_nil _).symm, rfl, rfl, rfl⟩
  unfold processHeader
  dsimp only
  split
  · exact .replies _ (replies_congr (replies_writeRes hheader hnot (r := .hello) rfl)
      rfl rfl rfl rfl rfl rfl rfl rfl)
  · exact .quiet hn ⟨rfl, ⟨[], (List.append_nil _).symm, nofun⟩, rfl, rfl, rfl, rfl, id,
      iff_of_false (fun hx => nomatch hx) hnot, fun hx => absurd hx hnot, fun _ hx => nomatch hx⟩
  · exact .replies _ (replies_congr (replies_unknownCommand hheader hnot)
      rfl rfl rfl rfl rfl rfl rfl rfl)

/-- The fixed body is consumed and decoded first. -/
theorem effect_decoded {b : ReceiveBuffer} {taken : Bytes} {pdu : Option Pdu}
    (hn : c.state ≠ .newCmd) (hs : c.state ≠ .readBodyExtras)
    (h : Effect { c with readBuffer := b, taken := taken, readPdu := pdu } c' B) :
    c.Effect c' B := by
  cases h with
  | reset state _ => exact absurd state hn
  | quiet state h =>
    exact .quiet hn ⟨h.writeBuf, h.log, h.pending, h.refs, h.items, h.item, h.next, h.extras,
      fun hx => absurd hx hs, h.final⟩
  | replies r h =>
    refine .replies r ⟨h.writeBuf, h.log, h.state, h.next, h.pending, ?_⟩
    cases h.settles with
    | plain refs items get state => exact .plain refs items get state
    | base it refs items get state => exact .base it refs items get state
    | kept it refs items item get state => exact .kept it refs items item get state
    | updated it refs items get item state => exact .updated it refs items get item state
  | allocates it h =>
    exact .allocates it ⟨h.writeBuf, h.log, h.next, h.pending, h.refs, h.items, h.item, h.state,
      h.extras, h.update⟩

theorem quiet_stop (st : PeerState) (hs : c.state ≠ .readBodyExtras) (hst : st ≠ .readBodyExtras) :
    c.Quiet { c with state := st, run := false } :=
  ⟨rfl, ⟨[], (List.append_nil _).symm, nofun⟩, rfl, rfl, rfl, rfl, id, iff_of_false hst hs,
    fun hx => absurd hx hs, fun hx => nomatch hx⟩

theorem quiet_copyToItem : c.Quiet c.copyToItem :=
  ⟨rfl, ⟨[], (List.append_nil _).symm, nofun⟩, rfl, rfl, rfl, rfl, id, Iff.rfl, fun _ => rfl,
    fun _ hx => hx⟩

theorem quiet_swallowBuffer : c.Quiet c.swallowBuffer :=
  ⟨rfl, ⟨[_], rfl, fun _ hr => nomatch List.mem_singleton.mp hr⟩, rfl, rfl, rfl, rfl, id, Iff.rfl,
    fun _ => rfl, fun _ hx => hx⟩

/-- What has been swallowed is followed by a new request. -/
theorem quiet_swallowed (hs : c.state = .swallow) : c.Quiet { c with state := .newCmd } := by
  have hnot : c.state ≠ .readBodyExtras := fun hx => nomatch hs.symm.trans hx
  refine ⟨rfl, ⟨[], (List.append_nil _).symm, nofun⟩, rfl, rfl, rfl, rfl, id,
    iff_of_false (fun hx => nomatch hx) hnot, fun hx => absurd hx hnot, fun _ _ => ?_⟩
  rw [hs]
  rfl

end TrafficLemmas

open TrafficLemmas

variable {c c'} {B : Backend β}

/-- One iteration. -/
theorem iterate_effect (h : c.Sound) (n : Nat) : c.Effect (c.iterate B.counted n) B := by
  have hnext : c.nextState ≠ .readBodyExtras := by
    intro hx
    have hfinal := h.next
    rw [hx] at hfinal
    cases hfinal
  have hstep : ∀ st, c.state = st → c.Effect (c.iterate B.counted n) B := by
    intro st hst
    have hne {st' : PeerState} (hx : st ≠ st') : c.state ≠ st' := hst.trans_ne hx
    cases st with
    | newCmd =>
      rw [iterate, hst]
      exact .reset hst rfl
    | readHeader =>
      rw [iterate, hst]
      dsimp only
      split
      · exact effect_header hst _
      · exact .quiet (hne (by rintro ⟨⟩)) (quiet_fillBuffer n)
    | readBodyFixed =>
      rw [iterate, hst]
      dsimp only
      split
      · split
        · next pdu _ =>
          let c₂ : Conn (β × List RefEvent) := { c.consume c.nextDataLen with readPdu := some pdu }
          have he : c₂.Effect (c₂.processPduFixed B.counted pdu) B :=
            effect_fixed (c := c₂) (hne (by rintro ⟨⟩)) (hne (by rintro ⟨⟩)) pdu rfl
          exact effect_decoded (hne (by rintro ⟨⟩)) (hne (by rintro ⟨⟩)) he
        · have hconsumed : Called c (c.consume c.nextDataLen) [] :=
            ⟨rfl, (List.append_nil c.log).symm, rfl, rfl, rfl⟩
          exact .replies _ (replies_unknownCommand hconsumed (hne (by rintro ⟨⟩)))
      · exact .quiet (hne (by rintro ⟨⟩)) (quiet_fillBuffer n)
    | readBodyExtras =>
      rw [iterate, hst]
      dsimp only
      split
      · obtain ⟨it, op, id, g, fl, x, w, kl, dl, hit, hpdu⟩ := h.updating hst
        rw [hpdu, processPduExtras, hit]
        obtain ⟨r, hr⟩ := replies_updateExtras (B := B) (.update op id g fl x w kl dl) op id w kl hst hit
        exact .replies r hr
      · split
        · exact .quiet (hne (by rintro ⟨⟩)) quiet_copyToItem
        · exact .quiet (hne (by rintro ⟨⟩)) (quiet_fillItem n)
    | readBodyExtras2 =>
      rw [iterate, hst]
      dsimp only
      split
      · exact effect_extras2 (hne (by rintro ⟨⟩)) (hne (by rintro ⟨⟩)) _ _
      · exact .quiet (hne (by rintro ⟨⟩)) (quiet_fillBuffer n)
    | swallow =>
      rw [iterate, hst]
      dsimp only
      split
      · exact .quiet (hne (by rintro ⟨⟩)) (quiet_swallowed hst)
      · split
        · exact .quiet (hne (by rintro ⟨⟩)) quiet_swallowBuffer
        · exact .quiet (hne (by rintro ⟨⟩)) (quiet_fillBuffer n)
    | asyncWait =>
      rw [iterate, hst]
      exact .quiet (hne (by rintro ⟨⟩)) (quiet_stop .asyncWait (hne (by rintro ⟨⟩)) (by rintro ⟨⟩))
    | write =>
      rw [iterate, hst]
      exact .quiet (hne (by rintro ⟨⟩)) (quiet_processWrite hst hnext)
    | closing =>
      rw [iterate, hst]
      exact .quiet (hne (by rintro ⟨⟩)) (quiet_stop .closed (hne (by rintro ⟨⟩)) (by rintro ⟨⟩))
    | closed =>
      rw [iterate, hst]
      exact .quiet (hne (by rintro ⟨⟩)) (quiet_stop .closed (hne (by rintro ⟨⟩)) (by rintro ⟨⟩))
  exact hstep c.state rfl

/-- The middle of an update is entered with the item. -/
theorem sound_of_effect (h : c.Sound) (he : c.Effect c' B) : c'.Sound := by
  cases he with
  | reset state eq =>
    rw [eq]
    exact ⟨h.next, fun hx => nomatch hx⟩
  | quiet state hq =>
    refine ⟨hq.next h.next, fun hx => ?_⟩
    have hst := hq.extras.mp hx
    obtain ⟨it, op, id, g, fl, x, w, kl, dl, hit, hpdu⟩ := h.updating hst
    exact ⟨it, op, id, g, fl, x, w, kl, dl, hq.item.trans hit, (hq.readPdu hst).trans hpdu⟩
  | replies r hr => exact ⟨hr.next, fun hx => nomatch hr.state.symm.trans hx⟩
  | allocates it ha =>
    obtain ⟨op, id, g, fl, x, w, kl, dl, hpdu⟩ := ha.update
    exact ⟨ha.next ▸ h.next, fun _ => ⟨it, op, id, g, fl, x, w, kl, dl, ha.item, hpdu⟩⟩

/-! ## The references -/

variable (c) in
/-- The references of the connection: `cache_items_`, and `cache_item_` while an update is being
read. -/
def holding : List Ptr :=
  c.cacheItems ++ if c.state = .readBodyExtras then c.cacheItem.toList else []

variable (c) in
/-- Every reference taken has been released or is held. -/
def Balanced : Prop :=
  ∀ p, c.mgr.2.count (.take p) = c.mgr.2.count (.release p) + c.holding.count p

namespace TrafficLemmas

theorem holding_of_not (h : c.state ≠ .readBodyExtras) : c.holding = c.cacheItems := by
  rw [holding, if_neg h, List.append_nil]

theorem holding_extras {it : Ptr} (h : c.state = .readBodyExtras) (hit : c.cacheItem = some it) :
    c.holding = c.cacheItems ++ [it] := by
  rw [holding, if_pos h, hit]
  rfl

/-- The items of the list are released. -/
theorem foldl_releaseReference (s : β × List RefEvent) (l : List Ptr) :
    (l.foldl B.counted.releaseReference s).2 = s.2 ++ l.map .release := by
  induction l generalizing s with
  | nil => exact (List.append_nil _).symm
  | cons p l ih =>
    rw [List.foldl_cons, ih, List.map_cons]
    exact List.append_assoc _ _ _

theorem count_take_release (l : List Ptr) (p : Ptr) :
    (l.map RefEvent.release).count (.take p) = 0 := by
  rw [List.count_eq_zero]
  intro h
  obtain ⟨q, -, hq⟩ := List.mem_map.mp h
  exact nomatch hq

theorem count_release_release (l : List Ptr) (p : Ptr) :
    (l.map RefEvent.release).count (.release p) = l.count p :=
  List.count_map_of_injective l RefEvent.release (fun _ _ h => RefEvent.release.inj h) p

/-- `reset_for_new_cmd` and `cleanup`: `cache_items_` is released. -/
theorem balanced_release (h : c.Balanced) (hs : c.state ≠ .readBodyExtras) (p : Ptr) :
    (c.cacheItems.foldl B.counted.releaseReference c.mgr).2.count (.take p) =
      (c.cacheItems.foldl B.counted.releaseReference c.mgr).2.count (.release p) := by
  have hp := h p
  rw [holding_of_not hs] at hp
  rw [foldl_releaseReference, List.count_append, List.count_append, count_take_release,
    count_release_release, hp, Nat.add_zero]

/-- The record and what is held grow by the same. -/
theorem balanced_of_append {es : List RefEvent} (h : c.Balanced) (hrefs : c'.mgr.2 = c.mgr.2 ++ es)
    (heq : ∀ p, es.count (.take p) + c.holding.count p =
      es.count (.release p) + c'.holding.count p) : c'.Balanced := by
  intro p
  have hp := h p
  have he := heq p
  rw [hrefs, List.count_append, List.count_append, hp]
  omega

theorem count_take_take (l : List Ptr) (p : Ptr) :
    (l.map RefEvent.take).count (.take p) = l.count p :=
  List.count_map_of_injective l RefEvent.take (fun _ _ h => RefEvent.take.inj h) p

theorem count_release_take (l : List Ptr) (p : Ptr) :
    (l.map RefEvent.take).count (.release p) = 0 := by
  rw [List.count_eq_zero]
  intro h
  obtain ⟨q, -, hq⟩ := List.mem_map.mp h
  exact nomatch hq

/-- Items are taken and held. -/
theorem balanced_take {l : List Ptr} (h : c.Balanced)
    (hrefs : c'.mgr.2 = c.mgr.2 ++ l.map .take) (hold : c'.holding = c.holding ++ l) :
    c'.Balanced := by
  refine balanced_of_append h hrefs fun p => ?_
  rw [count_take_take, count_release_take, hold, List.count_append]
  omega

/-- Items that were held are released. -/
theorem balanced_drop {l : List Ptr} (h : c.Balanced)
    (hrefs : c'.mgr.2 = c.mgr.2 ++ l.map .release) (hold : c.holding = c'.holding ++ l) :
    c'.Balanced := by
  refine balanced_of_append h hrefs fun p => ?_
  rw [count_take_release, count_release_release, hold, List.count_append]
  omega

theorem balanced_same (h : c.Balanced) (hrefs : c'.mgr.2 = c.mgr.2)
    (hold : c'.holding = c.holding) : c'.Balanced := by
  intro p
  rw [hrefs, hold]
  exact h p

end TrafficLemmas

/-- An iteration keeps the balance. -/
theorem balanced_of_effect (h : c.Balanced) (he : c.Effect c' B) : c'.Balanced := by
  cases he with
  | reset state eq =>
    have hs : c.state ≠ .readBodyExtras := fun hx => nomatch state.symm.trans hx
    rw [eq]
    intro p
    have hheld : (c.resetForNewCmd B.counted).holding = [] := rfl
    rw [hheld]
    exact balanced_release h hs p
  | quiet state hq =>
    refine balanced_same h hq.refs ?_
    rw [holding, holding, hq.items, hq.item, if_congr hq.extras rfl rfl]
  | replies r hr =>
    have hs' : c'.state ≠ .readBodyExtras := fun hx => nomatch hr.state.symm.trans hx
    cases hr.settles with
    | plain refs items get state =>
      refine balanced_same h refs ?_
      rw [holding_of_not hs', holding_of_not state, items]
    | base it refs items get state =>
      refine balanced_of_append h refs fun p => ?_
      rw [holding_of_not hs', holding_of_not state, items]
      have hsplit : [RefEvent.take it, .release it] = [it].map .take ++ [it].map .release := rfl
      rw [hsplit, List.count_append, List.count_append, count_take_take, count_take_release,
        count_release_take, count_release_release, Nat.add_zero, Nat.zero_add]
    | kept it refs items item get state =>
      refine balanced_take (l := [it]) h refs ?_
      rw [holding_of_not hs', holding_of_not state, items]
    | updated it refs items get item state =>
      refine balanced_drop (l := [it]) h refs ?_
      rw [holding_of_not hs', holding_extras state item, items]
  | allocates it ha =>
    refine balanced_take (l := [it]) h ha.refs ?_
    rw [holding_extras ha.extras ha.item, holding_of_not ha.state, ha.items]

end Conn
end Xixi.PeerCache
