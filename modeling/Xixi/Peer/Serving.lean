import Xixi.Peer.Framing
import Xixi.Peer.Discipline
import Xixi.Peer.References

/-!
# What a connection does with the cache

A server that takes whole requests from a list. It knows neither bytes nor buffers nor states.

1. `Pdu.perform`: a request that is executed at once. An update gets its item first
   (`Pdu.allocate`), and is executed when the item has been read (`Pdu.complete`).
2. `Serving.next`: the server.
3. `Conn.Followed`: the server has come as far as the connection. Every step keeps it so.
4. `serving_of_run`: however the frames of the requests are cut into reads, a connection does to the
   cache what the server does, and queues the same responses.
-/

namespace Xixi.PeerCache
open Lib

/-! ## The server -/

/-- A response, the items that it refers to, and the cache. -/
structure Answer (β : Type) where
  res : Res
  kept : List Ptr
  cache : β

namespace Pdu

variable {β : Type} (B : Backend β) (b : β)

/-- The request is executed at once, an update only if there is no item for it. -/
def perform (key : Bytes) : Pdu → Option (Answer β)
  | .get g w _ =>
    match B.exec b (.get g.toNat key w.toNat false) with
    | ((some (it, x), _), b) =>
      let item := B.item b it
      some ⟨.get item.cacheId item.flags x item.dataSize item.data, [it], b⟩
    | ((none, reason), b) => some ⟨.error reason, [], b⟩
  | .getTouch g w x _ =>
    match B.exec b (.getTouch g.toNat key w.toNat x.toNat) with
    | ((some it, _), b) =>
      let item := B.item b it
      some ⟨.get item.cacheId item.flags x.toNat item.dataSize item.data, [it], b⟩
    | ((none, reason), b) => some ⟨.error reason, [], b⟩
  | .getBase g _ =>
    match B.exec b (.get g.toNat key 0 true) with
    | ((some (it, x), _), b) =>
      let item := B.item b it
      some ⟨.getBase item.cacheId item.flags x item.dataSize, [], B.releaseReference b it⟩
    | ((none, _), b) => some ⟨.error .notFound, [], b⟩
  | .update _ _ g fl x _ kl dl =>
    match B.exec b (.allocItem g.toNat kl.toNat fl.toNat x.toNat dl.toNat 0) with
    | (some _, _) => none
    | (none, b) =>
      match B.exec b (.itemSizeOk kl.toNat dl.toNat 0) with
      | (true, b) => some ⟨.error .outOfMemory, [], b⟩
      | (false, b) => some ⟨.error .tooLarge, [], b⟩
  | .updateFlags _ id g fl _ =>
    let (r, b) := B.exec b (.updateFlags g.toNat key id.toNat fl.toNat)
    some ⟨Conn.baseRes .updateFlags r, [], b⟩
  | .updateExpiration _ id g x _ =>
    let (r, b) := B.exec b (.updateExpiration g.toNat key id.toNat x.toNat)
    some ⟨Conn.baseRes .updateExpiration r, [], b⟩
  | .delete _ id g _ =>
    match B.exec b (.remove g.toNat key id.toNat) with
    | (.success, b) => some ⟨.delete, [], b⟩
    | (reason, b) => some ⟨.error reason, [], b⟩
  | .delta op id g d _ =>
    match B.exec b (.delta g.toNat key (incr op) d.toInt id.toNat) with
    | ((.success, id, value), b) => some ⟨.delta value id, [], b⟩
    | ((reason, _), b) => some ⟨.error reason, [], b⟩
  | .flush g =>
    let (r, b) := B.exec b (.flush g.toNat)
    some ⟨.flush r.1 r.2, [], b⟩
  | .stats op cl g =>
    let (result, b) := B.exec b (.stats op.toNat cl.toNat g.toNat)
    some ⟨.stats result, [], b⟩
  | .createWatch g x =>
    let (watchId, b) := B.exec b (.createWatch g.toNat x.toNat)
    some ⟨.createWatch watchId, [], b⟩
  | .hello => some ⟨.hello, [], b⟩
  | .auth _ | .checkWatch .. => none

/-- There is an item for the update. -/
def allocate : Pdu → Option (Ptr × β)
  | .update _ _ g fl x _ kl dl =>
    match B.exec b (.allocItem g.toNat kl.toNat fl.toNat x.toNat dl.toNat 0) with
    | (some it, b) => some (it, b)
    | (none, _) => none
  | _ => none

/-- The item has been read: it is filled, passed on and released. -/
def complete (it : Ptr) (extras : Bytes) : Pdu → Option (Answer β)
  | .update op id _ _ _ w kl _ =>
    let contents : Contents :=
      { key := extras.take kl.toNat, data := extras.drop kl.toNat, ext := [], cacheId := id.toNat }
    let b := (B.exec b (.fill it contents)).2
    match verb op with
    | some verb =>
      match B.exec b (.update verb it w.toNat) with
      | ((.success, cacheId), b) =>
        some ⟨.update (cacheId.getD 0), [], B.releaseReference b it⟩
      | ((reason, _), b) => some ⟨.error reason, [], B.releaseReference b it⟩
    | none => some ⟨.unknownCommand, [], B.releaseReference b it⟩
  | _ => none

end Pdu

/-- `item` is that of an update which has begun, and the responses refer to the items in `held`. -/
structure Serving (β : Type) where
  cache : β
  requests : List Request
  item : Option Ptr
  held : List Ptr
  responses : List Res

/-- The next request is executed, or an update begins or comes to its end; or the items are given
back. -/
inductive ServingAction
  | perform
  | allocate
  | complete
  | release
deriving DecidableEq, Repr

namespace Serving

variable {β : Type} (B : Backend β) (s : Serving β)

def answered (rest : List Request) (a : Answer β) : Serving β :=
  { cache := a.cache, requests := rest, item := none, held := s.held ++ a.kept
    responses := s.responses ++ [a.res] }

def next : ServingAction → Option (Serving β)
  | .perform =>
    match s.item, s.requests with
    | none, r :: rest => (r.pdu.perform B s.cache r.extras).map (s.answered rest)
    | _, _ => none
  | .allocate =>
    match s.item, s.requests with
    | none, r :: _ =>
      (r.pdu.allocate B s.cache).map fun x => { s with item := some x.1, cache := x.2 }
    | _, _ => none
  | .complete =>
    match s.item, s.requests with
    | some it, r :: rest => (r.pdu.complete B s.cache it r.extras).map (s.answered rest)
    | _, _ => none
  | .release => some { s with cache := s.held.foldl B.releaseReference s.cache, held := [] }

def Step (a : ServingAction) (s' : Serving β) : Prop := s.next B a = some s'

def start (b : β) (rs : List Request) : Serving β := ⟨b, rs, none, [], []⟩

variable {B s} {r : Request} {rest : List Request} {a : Answer β}

theorem next_perform (hitem : s.item = none) (hnext : s.requests = r :: rest)
    (ha : r.pdu.perform B s.cache r.extras = some a) :
    s.next B .perform = some (s.answered rest a) := by
  rw [next, hitem, hnext]
  exact congrArg (Option.map _) ha

theorem next_allocate {it : Ptr} {b : β} (hitem : s.item = none) (hnext : s.requests = r :: rest)
    (ha : r.pdu.allocate B s.cache = some (it, b)) :
    s.next B .allocate = some { s with item := some it, cache := b } := by
  rw [next, hitem, hnext]
  exact congrArg (Option.map _) ha

theorem next_complete {it : Ptr} (hitem : s.item = some it) (hnext : s.requests = r :: rest)
    (ha : r.pdu.complete B s.cache it r.extras = some a) :
    s.next B .complete = some (s.answered rest a) := by
  rw [next, hitem, hnext]
  exact congrArg (Option.map _) ha

end Serving

/-! ## A connection as a server -/

def Event.response : Event → Option Res
  | .queue r => some r
  | .call _ | .swallow _ => none

namespace Conn

variable {β : Type}

/-- The responses that have been queued so far. -/
def responses (c : Conn β) : List Res := c.log.filterMap Event.response

/-- What is left of the requests is told by the number of the responses. -/
def serving (rs : List Request) (c : Conn β) : Serving β :=
  ⟨c.mgr, rs.drop c.responses.length, c.preparing, c.cacheItems, c.responses⟩

/-- The server has come as far as the connection. (After an error it may still have the item of an
update.) -/
structure ServedBy (rs : List Request) (c : Conn β) (s : Serving β) : Prop where
  cache : s.cache = c.mgr
  requests : s.requests = rs.drop c.responses.length
  held : s.held = c.cacheItems
  responses : s.responses = c.responses

/-- The server has come as far as the connection; a connection that is gone goes no further. -/
def Followed (B : Backend β) (b : β) (rs : List Request) (c : Conn β) : Prop :=
  (c.Serves rs False ∧ ∃ t, Run (Serving.Step B) (.start b rs) t (c.serving rs)) ∨
    c.Dead ∧ ∃ t s, Run (Serving.Step B) (.start b rs) t s ∧ c.ServedBy rs s

/-- One response, and nothing but it. -/
structure Gives (c c' : Conn β) (a : Answer β) : Prop where
  mgr : c'.mgr = a.cache
  items : c'.cacheItems = c.cacheItems ++ a.kept
  responses : c'.responses = c.responses ++ [a.res]
  state : c'.state ≠ .readBodyExtras

/-- The server notices nothing. -/
structure Unnoticed (c c' : Conn β) : Prop where
  mgr : c'.mgr = c.mgr
  items : c'.cacheItems = c.cacheItems
  responses : c'.responses = c.responses
  preparing : c'.preparing = c.preparing

namespace ServingLemmas
open PlaceLemmas StreamLemmas ConnectionLemmas FramingLemmas

variable {B : Backend β} {c c₁ c' : Conn β} {a : Answer β} {pdu : Pdu}

theorem filterMap_calls (ks : List Call) :
    (ks.map Event.call).filterMap Event.response = [] := by
  induction ks with
  | nil => rfl
  | cons _ _ ih => exact ih

theorem filterMap_swallows (chunks : List Bytes) :
    (chunks.map Event.swallow).filterMap Event.response = [] := by
  induction chunks with
  | nil => rfl
  | cons _ _ ih => exact ih

/-! ### The handlers -/

theorem gives_of_calls (ks : List Call) (hmgr : c'.mgr = a.cache)
    (hitems : c'.cacheItems = c.cacheItems ++ a.kept)
    (hlog : c'.log = c.log ++ ks.map .call ++ [.queue a.res]) (hstate : c'.state = .write) :
    c.Gives c' a := by
  refine ⟨hmgr, hitems, ?_, fun h => by cases hstate.symm.trans h⟩
  rw [responses, hlog, List.filterMap_append, List.filterMap_append, filterMap_calls,
    List.append_nil]
  rfl

/-- A handler that makes one call, and keeps no item. -/
theorem gives_of_call (k : Call) (hmgr : c'.mgr = a.cache) (hitems : c'.cacheItems = c.cacheItems)
    (hkept : a.kept = []) (hlog : c'.log = c.log ++ [.call k] ++ [.queue a.res])
    (hstate : c'.state = .write) : c.Gives c' a :=
  gives_of_calls [k] hmgr (by rw [hitems, hkept, List.append_nil]) hlog hstate

/-- A handler that makes two calls. -/
theorem gives_of_two (k k' : Call) (hmgr : c'.mgr = a.cache) (hitems : c'.cacheItems = c.cacheItems)
    (hkept : a.kept = []) (hlog : c'.log = c.log ++ [.call k] ++ [.call k'] ++ [.queue a.res])
    (hstate : c'.state = .write) : c.Gives c' a :=
  gives_of_calls [k, k'] hmgr (by rw [hitems, hkept, List.append_nil])
    (by rw [hlog, List.append_assoc c.log]; rfl) hstate

theorem call_eq {k : Call} {ret : k.Ret} {b : β} (h : B.exec c.mgr k = (ret, b)) :
    c.call B k = (ret, { c with mgr := b, log := c.log ++ [.call k] }) := by
  rw [call, h]

/-- `c` gives what the request is answered with. -/
def Performs (B : Backend β) (c : Conn β) (pdu : Pdu) (key : Bytes) (c' : Conn β) : Prop :=
  ∃ a, pdu.perform B c.mgr key = some a ∧ c.Gives c' a

theorem performs_get (g w : UInt32) (kl : UInt16) (key : Bytes) :
    Performs B c (.get g w kl) key (c.processGetReqPduExtras B g w key) := by
  rw [processGetReqPduExtras, Performs, Pdu.perform]
  rcases h : B.exec c.mgr (.get g.toNat key w.toNat false) with ⟨⟨_ | ⟨it, x⟩, reason⟩, b⟩
  · rw [call_eq h]
    exact ⟨_, rfl, gives_of_call _ rfl rfl rfl rfl rfl⟩
  · rw [call_eq h]
    exact ⟨_, rfl, gives_of_calls [_] rfl rfl rfl rfl⟩

theorem performs_getTouch (g w x : UInt32) (kl : UInt16) (key : Bytes) :
    Performs B c (.getTouch g w x kl) key (c.processGetTouchReqPduExtras B g w x key) := by
  rw [processGetTouchReqPduExtras, Performs, Pdu.perform]
  rcases h : B.exec c.mgr (.getTouch g.toNat key w.toNat x.toNat) with ⟨⟨_ | it, reason⟩, b⟩
  · rw [call_eq h]
    exact ⟨_, rfl, gives_of_call _ rfl rfl rfl rfl rfl⟩
  · rw [call_eq h]
    exact ⟨_, rfl, gives_of_calls [_] rfl rfl rfl rfl⟩

theorem performs_getBase (g : UInt32) (kl : UInt16) (key : Bytes) :
    Performs B c (.getBase g kl) key (c.processGetBaseReqPduExtras B g key) := by
  rw [processGetBaseReqPduExtras, Performs, Pdu.perform]
  rcases h : B.exec c.mgr (.get g.toNat key 0 true) with ⟨⟨_ | ⟨it, x⟩, reason⟩, b⟩
  · rw [call_eq h]
    exact ⟨_, rfl, gives_of_call _ rfl rfl rfl rfl rfl⟩
  · rw [call_eq h]
    exact ⟨_, rfl, gives_of_call _ rfl rfl rfl rfl rfl⟩

theorem performs_delete (op : UInt8) (id : UInt64) (g : UInt32) (kl : UInt16) (key : Bytes) :
    Performs B c (.delete op id g kl) key
      (c.processDeleteReqPduExtras B (.delete op id g kl) id g key) := by
  rw [processDeleteReqPduExtras, Performs, Pdu.perform]
  rcases h : B.exec c.mgr (.remove g.toNat key id.toNat) with ⟨reason, b⟩
  rw [call_eq h]
  cases reason with
  | _ => exact ⟨_, rfl, gives_of_call _ rfl rfl rfl rfl rfl⟩

theorem performs_delta (op : UInt8) (id : UInt64) (g : UInt32) (d : Int64) (kl : UInt16)
    (key : Bytes) :
    Performs B c (.delta op id g d kl) key
      (c.processDeltaReqPduExtras B (.delta op id g d kl) op id g d key) := by
  rw [processDeltaReqPduExtras, Performs, Pdu.perform]
  rcases h : B.exec c.mgr (.delta g.toNat key (Pdu.incr op) d.toInt id.toNat) with
    ⟨⟨reason, cacheId, value⟩, b⟩
  rw [call_eq h]
  cases reason with
  | _ => exact ⟨_, rfl, gives_of_call _ rfl rfl rfl rfl rfl⟩

/-- A request with a key, once the key is there. -/
theorem performs_keyed {data : Bytes} (hk : pdu.keyed = true)
    (hlen : pdu.extrasLength ≤ data.length) : ∃ c',
    c.processPduExtras2 B data (some pdu) = (pdu.extrasLength, c') ∧
      Performs B c pdu (data.take pdu.extrasLength) c' := by
  cases pdu with
  | get => exact ⟨_, HandlersLemmas.withKey_of_le hlen _, performs_get ..⟩
  | getTouch => exact ⟨_, HandlersLemmas.withKey_of_le hlen _, performs_getTouch ..⟩
  | getBase => exact ⟨_, HandlersLemmas.withKey_of_le hlen _, performs_getBase ..⟩
  | updateFlags | updateExpiration =>
    exact ⟨_, HandlersLemmas.withKey_of_le hlen _, _, rfl, gives_of_call _ rfl rfl rfl rfl rfl⟩
  | delete => exact ⟨_, HandlersLemmas.withKey_of_le hlen _, performs_delete ..⟩
  | delta => exact ⟨_, HandlersLemmas.withKey_of_le hlen _, performs_delta ..⟩
  | update | flush | auth | stats | createWatch | checkWatch | hello => cases hk

/-- A request that is its fixed body. -/
theorem performs_plain (hp : pdu.plain = true) (key : Bytes) :
    Performs B c pdu key (c.processPduFixed B pdu) := by
  cases pdu with
  | flush | stats | createWatch => exact ⟨_, rfl, gives_of_call _ rfl rfl rfl rfl rfl⟩
  | get | getTouch | getBase | update | updateFlags | updateExpiration | delete | delta | auth
  | checkWatch | hello => cases hp

theorem writeError_eq (c : Conn β) (r : Res) (n : Nat) : ∃ swallow next,
    c.writeError r n true =
      { c.addWriteBuf r with state := .write, swallowSize := swallow, nextState := next } := by
  rw [writeError, if_pos rfl]
  split
  · exact ⟨_, _, rfl⟩
  · exact ⟨_, _, rfl⟩

/-- An update gets its item, or it is answered. -/
theorem allocates_or_performs {op : UInt8} {id : UInt64} {g fl x w : UInt32} {kl : UInt16}
    {dl : UInt32} (hpdu : pdu = .update op id g fl x w kl dl) (key : Bytes) :
    (∃ it b, pdu.allocate B c.mgr = some (it, b) ∧ (c.processPduFixed B pdu).mgr = b ∧
      (c.processPduFixed B pdu).cacheItems = c.cacheItems ∧
      (c.processPduFixed B pdu).responses = c.responses ∧
      (c.processPduFixed B pdu).preparing = some it) ∨
    Performs B c pdu key (c.processPduFixed B pdu) := by
  subst hpdu
  rw [Performs, Pdu.allocate, Pdu.perform, processPduFixed, processUpdateReqPduFixed]
  rcases h : B.exec c.mgr (.allocItem g.toNat kl.toNat fl.toNat x.toNat dl.toNat 0) with ⟨_ | it, b⟩
  · right
    rw [call_eq h]
    dsimp only
    rcases h₂ : B.exec b (.itemSizeOk kl.toNat dl.toNat 0) with ⟨_ | _, b₂⟩
    all_goals
      rw [call_eq h₂]
      dsimp only
      refine ⟨_, rfl, ?_⟩
      obtain ⟨swallow, next, heq⟩ := writeError_eq _ _ _
      rw [Pdu.reply, heq]
      exact gives_of_two _ _ rfl rfl rfl rfl rfl
  · left
    rw [call_eq h]
    refine ⟨it, b, rfl, rfl, rfl, ?_, rfl⟩
    exact (List.filterMap_append ..).trans (List.append_nil _)

/-- An update whose item has been read. -/
theorem completes {op : UInt8} {id : UInt64} {g fl x w : UInt32} {kl : UInt16}
    {dl : UInt32} {it : Ptr} (hpdu : pdu = .update op id g fl x w kl dl)
    (hit : c.cacheItem = some it) :
    ∃ a, pdu.complete B c.mgr it c.readItemBuf = some a ∧
      c.Gives (c.processPduExtras B (some pdu)) a := by
  subst hpdu
  rw [processPduExtras, hit, Pdu.complete]
  dsimp only
  rw [processUpdateReqPduExtras]
  dsimp only
  rcases hfill : B.exec c.mgr (.fill it
    { key := c.readItemBuf.take kl.toNat, data := c.readItemBuf.drop kl.toNat
      ext := [], cacheId := id.toNat }) with ⟨u, b⟩
  rw [call_eq hfill]
  dsimp only
  rw [runUpdate]
  cases hverb : Pdu.verb op with
  | none => exact ⟨_, rfl, gives_of_call _ rfl rfl rfl rfl rfl⟩
  | some verb =>
    dsimp only
    rcases hupdate : B.exec b (.update verb it w.toNat) with ⟨⟨reason, cacheId⟩, b₂⟩
    rw [call_eq hupdate]
    cases reason with
    | _ => exact ⟨_, rfl, gives_of_two _ _ rfl rfl rfl rfl rfl⟩

theorem performs_of_unnoticed {key : Bytes} (h : c.Unnoticed c₁) (hp : Performs B c₁ pdu key c') :
    Performs B c pdu key c' := by
  obtain ⟨a, ha, hg⟩ := hp
  rw [h.mgr] at ha
  exact ⟨a, ha, hg.mgr, h.items ▸ hg.items, h.responses ▸ hg.responses, hg.state⟩

/-! ### One iteration -/

theorem preparing_of_ne (hs : c.state ≠ .readBodyExtras) : c.preparing = none := if_neg hs

theorem unnoticed_of_not (hmgr : c'.mgr = c.mgr) (hitems : c'.cacheItems = c.cacheItems)
    (hlog : c'.log = c.log) (hs : c.state ≠ .readBodyExtras) (hs' : c'.state ≠ .readBodyExtras) :
    c.Unnoticed c' := by
  refine ⟨hmgr, hitems, ?_, (preparing_of_ne hs').trans (preparing_of_ne hs).symm⟩
  rw [responses, hlog, responses]

theorem unnoticed_fillBuffer (c : Conn β) (n : Nat) : c.Unnoticed (c.fillBuffer n) := by
  obtain ⟨b, s, r, got, heq, -⟩ := fillBuffer_eq c n
  rw [heq]
  exact ⟨rfl, rfl, rfl, rfl⟩

theorem unnoticed_fillItem (c : Conn β) (n : Nat) : c.Unnoticed (c.fillItem n) := by
  rcases fillItem_eq c n with heq | ⟨got, s, heq, -⟩ <;> rw [heq]
  · exact ⟨rfl, rfl, rfl, rfl⟩
  · exact ⟨rfl, rfl, rfl, rfl⟩

theorem unnoticed_write (hs : c.state = .write) (hn : c.nextState ≠ .readBodyExtras) :
    c.Unnoticed c.processWrite := by
  have hstate : c.state ≠ .readBodyExtras := by
    rw [hs]
    decide
  by_cases hnew : c.nextState = .newCmd
  · rcases processWrite_newCmd hnew with ⟨-, -, heq⟩ | ⟨-, heq⟩ <;> rw [heq]
    · exact unnoticed_of_not rfl rfl rfl hstate (by rintro ⟨⟩)
    · exact unnoticed_of_not rfl rfl rfl hstate (by rintro ⟨⟩)
  · rw [processWrite_other hnew]
    exact unnoticed_of_not rfl rfl rfl hstate hn

theorem unnoticed_swallow (c : Conn β) : c.Unnoticed c.swallowBuffer := by
  refine ⟨rfl, rfl, ?_, rfl⟩
  exact (List.filterMap_append ..).trans (List.append_nil _)

theorem unnoticed_leave (hp : c.pending = none) (hover : ¬ c.Over) : c.Unnoticed (c.leave B) := by
  have hclosed : c.state ≠ .closed := fun hs => hover (.inr (.inr hs))
  by_cases hw : c.writeBuf = []
  · rw [leave_read hp hclosed (fun hs => hover (.inl hs)) hw]
    exact ⟨rfl, rfl, rfl, rfl⟩
  · rw [leave_write hp hclosed hw]
    exact ⟨rfl, rfl, rfl, rfl⟩

section Requests

variable {rs : List Request} {ok : Prop} {done rest : List Request} {es : List (List Event)}
  {bytes : Bytes} {part : List Event} {r : Request} {n : Nat} {b : β}

theorem responses_served {extras : Bytes} {e : List Event} (h : Served pdu extras e) :
    (e.filterMap Event.response).length = 1 := by
  cases h with
  | hello | call | watch => rfl
  | update it r =>
    show ((_ ++ [Event.queue r]).filterMap Event.response).length = 1
    rw [List.filterMap_append, filterMap_calls]
    rfl
  | rejected chunks =>
    rw [List.filterMap_append, filterMap_swallows]
    rfl

theorem responses_servedAll (h : ServedAll rs es) :
    (es.flatten.filterMap Event.response).length = rs.length := by
  induction h with
  | nil => rfl
  | cons hserved _ ih =>
    rw [List.flatten_cons, List.filterMap_append, List.length_append, responses_served hserved, ih,
      List.length_cons, Nat.add_comm]

theorem requests_of_position (h : c.Position rs ok done rest es bytes part)
    (hpart : part.filterMap Event.response = []) : rs.drop c.responses.length = rest := by
  have hlen : c.responses.length = done.length := by
    rw [responses, h.log, List.filterMap_append, hpart, List.append_nil]
    exact responses_servedAll h.served
  rw [hlen, h.split, List.drop_left]

theorem serving_unnoticed (h : c.Unnoticed c') : c'.serving rs = c.serving rs := by
  rw [serving, serving, h.mgr, h.items, h.responses, h.preparing]

theorem run_unnoticed (h : c.Unnoticed c') :
    ∃ t, Run (Serving.Step B) (c.serving rs) t (c'.serving rs) := by
  rw [serving_unnoticed h]
  exact ⟨[], .nil _⟩

theorem serving_gives (hrest : rs.drop c.responses.length = r :: rest) (h : c.Gives c' a) :
    c'.serving rs = (c.serving rs).answered rest a := by
  have hdrop : rs.drop (c.responses ++ [a.res]).length = rest := by
    rw [List.length_append, List.length_singleton, ← List.tail_drop, hrest, List.tail_cons]
  rw [serving, h.mgr, h.items, h.responses, hdrop, preparing_of_ne h.state]
  rfl

theorem run_perform (hrest : rs.drop c.responses.length = r :: rest) (hprep : c.preparing = none)
    (h : Performs B c r.pdu r.extras c') :
    ∃ t, Run (Serving.Step B) (c.serving rs) t (c'.serving rs) := by
  obtain ⟨a, ha, hg⟩ := h
  have hstep : Serving.Step B (c.serving rs) .perform (c'.serving rs) := by
    rw [serving_gives hrest hg]
    exact Serving.next_perform hprep hrest ha
  exact ⟨_, Run.single hstep⟩

theorem run_allocate {it : Ptr} {b : β} (hrest : rs.drop c.responses.length = r :: rest)
    (hprep : c.preparing = none) (ha : r.pdu.allocate B c.mgr = some (it, b)) (hmgr : c'.mgr = b)
    (hitems : c'.cacheItems = c.cacheItems) (hresp : c'.responses = c.responses)
    (hprep' : c'.preparing = some it) :
    ∃ t, Run (Serving.Step B) (c.serving rs) t (c'.serving rs) := by
  have heq : c'.serving rs = { c.serving rs with item := some it, cache := b } := by
    rw [serving, hmgr, hitems, hresp, hprep']
    rfl
  have hstep : Serving.Step B (c.serving rs) .allocate (c'.serving rs) := by
    rw [heq]
    exact Serving.next_allocate hprep hrest ha
  exact ⟨_, Run.single hstep⟩

theorem run_complete {it : Ptr} (hrest : rs.drop c.responses.length = r :: rest)
    (hprep : c.preparing = some it) (ha : r.pdu.complete B c.mgr it r.extras = some a)
    (hg : c.Gives c' a) : ∃ t, Run (Serving.Step B) (c.serving rs) t (c'.serving rs) := by
  have hstep : Serving.Step B (c.serving rs) .complete (c'.serving rs) := by
    rw [serving_gives hrest hg]
    exact Serving.next_complete hprep hrest ha
  exact ⟨_, Run.single hstep⟩

theorem run_reset (hs : c.state = .newCmd) :
    ∃ t, Run (Serving.Step B) (c.serving rs) t ((c.resetForNewCmd B).serving rs) := by
  have hprep : c.preparing = none := preparing_of_ne (by rw [hs]; decide)
  refine ⟨_, Run.single (a := .release) ?_⟩
  rw [Serving.Step, Serving.next]
  dsimp only [serving]
  rw [hprep]
  rfl

theorem run_header (h : c.Position rs ok done rest es [] []) (hs : c.state = .readHeader)
    (hl : headLength ≤ c.nextDataLen ∨ headLength ≤ c.readBuffer.data.length) :
    ∃ t, Run (Serving.Step B) (c.serving rs) t ((c.iterate B n).serving rs) := by
  have hstate : c.state ≠ .readBodyExtras := by
    rw [hs]
    decide
  rw [iterate, hs]
  dsimp only
  split
  · next hlen =>
    have htwo : headLength ≤ c.readBuffer.data.length := hl.elim (fun h => h.trans hlen) id
    have hall : putU16 (getU16 c.readBuffer.data) ++ (c.consume headLength).unread =
        encodeAll rest := by
      rw [putU16_getU16 htwo, ← h.stream]
      exact unread_consume headLength
    obtain ⟨r, rest', hrest, hcode⟩ := exists_of_code hall
    have hof : Choice.ofCode (getU16 c.readBuffer.data) = some r.pdu.choice := by
      rw [← hcode, Choice.ofCode_code]
    by_cases hhello : r.pdu.choice = .helloReq
    · rw [processHeader_hello (hhello ▸ hof)]
      have hpdu : r.pdu = .hello := by
        cases hpdu : r.pdu <;> rw [hpdu] at hhello <;> first | rfl | cases hhello
      refine run_perform ((requests_of_position h rfl).trans hrest) (preparing_of_ne hstate) ?_
      rw [hpdu]
      exact ⟨_, rfl, gives_of_calls [] rfl (List.append_nil _).symm
        (congrArg (· ++ _) (List.append_nil _).symm) rfl⟩
    · rw [processHeader_some hof hhello]
      exact run_unnoticed (unnoticed_of_not rfl rfl rfl hstate (by rintro ⟨⟩))
  · exact run_unnoticed (unnoticed_fillBuffer c n)

theorem run_extras2 {pdu : Pdu} (h : c.Position rs ok done rest es pdu.head [])
    (hs : c.state = .readBodyExtras2) (hp : c.readPdu = some pdu) (hk : pdu.keyed = true)
    (hl : c.nextDataLen = pdu.extrasLength) :
    ∃ t, Run (Serving.Step B) (c.serving rs) t ((c.iterate B n).serving rs) := by
  rw [iterate, hs]
  dsimp only
  split
  · next hlen =>
    rw [hl] at hlen
    obtain ⟨c', heq, hperf⟩ := performs_keyed (B := B) (c := c) hk hlen
    rw [hp, heq]
    dsimp only
    obtain ⟨r, rest', hrest, rfl, htail⟩ := position_next h (List.append_nil _).symm
    have hcut : c.readBuffer.data.take r.pdu.extrasLength = r.extras := by
      rw [List.nil_append, ← unread_consume r.pdu.extrasLength] at htail
      refine (List.append_inj htail ?_).1
      rw [List.length_take_of_le hlen, r.length_extras]
    rw [hcut] at hperf
    obtain ⟨a, ha, hg⟩ := hperf
    refine run_perform ((requests_of_position h rfl).trans hrest) (preparing_of_ne ?_)
      ⟨a, ha, hg.mgr, hg.items, hg.responses, hg.state⟩
    rw [hs]
    decide
  · exact run_unnoticed (unnoticed_fillBuffer c n)

variable (hrs : ∀ r ∈ rs, r.Framed)
include hrs

/-- The fixed body is there: a request is executed, or goes on. -/
theorem run_fixed {choice : Choice} (h : c.Position rs ok done rest es (putU16 choice.code) [])
    (hs : c.state = .readBodyFixed) (hne : choice ≠ .helloReq) (hh : c.header = choice.code)
    (hl : c.nextDataLen = choice.fixedBodySize) (ht : c.taken = putU16 choice.code) :
    ∃ t, Run (Serving.Step B) (c.serving rs) t ((c.iterate B n).serving rs) := by
  have hstate : c.state ≠ .readBodyExtras := by
    rw [hs]
    decide
  rw [iterate, hs]
  dsimp only
  split
  · next hlen =>
    obtain ⟨pdu, hchoice, hdecode, hdec⟩ := decoded_fixed hh hl ht hlen
    rw [hdecode]
    dsimp only
    obtain ⟨r, rest', hrest, rfl, -⟩ := exists_of_head (hdec.stream.trans h.stream)
    have hframed := hrs r (position_mem h hrest)
    have hnext := (requests_of_position h rfl).trans hrest
    have hprep := preparing_of_ne hstate
    have hsame : c.Unnoticed { c.consume c.nextDataLen with readPdu := some r.pdu } :=
      ⟨rfl, rfl, rfl, rfl⟩
    generalize { c.consume c.nextDataLen with readPdu := some r.pdu } = c₁ at hdec hsame ⊢
    cases hpdu : r.pdu with
    | get | getTouch | getBase | updateFlags | updateExpiration | delete | delta =>
      exact run_unnoticed ⟨hsame.mgr, hsame.items, hsame.responses,
        (preparing_of_ne (by rintro ⟨⟩)).trans hprep.symm⟩
    | flush | stats | createWatch =>
      rw [← hpdu]
      refine run_perform hnext hprep (performs_of_unnoticed hsame (performs_plain ?_ _))
      rw [hpdu]
      rfl
    | update =>
      rw [← hpdu]
      rcases allocates_or_performs (B := B) (c := c₁) hpdu r.extras with
        ⟨it, b, halloc, hmgr, hitems, hresp, hprep'⟩ | hperf
      · rw [hsame.mgr] at halloc
        exact run_allocate hnext hprep halloc hmgr (hitems.trans hsame.items)
          (hresp.trans hsame.responses) hprep'
      · exact run_perform hnext hprep (performs_of_unnoticed hsame hperf)
    | auth => exact absurd (congrArg Pdu.choice hpdu) hframed.auth
    | checkWatch => exact absurd (congrArg Pdu.choice hpdu) hframed.checkWatch
    | hello => exact absurd (hchoice.symm.trans (congrArg Pdu.choice hpdu)) hne
  · exact run_unnoticed (unnoticed_fillBuffer c n)

theorem run_extras {op : UInt8} {id : UInt64} {g fl x w : UInt32} {kl : UInt16} {dl : UInt32}
    {it : Ptr}
    (h : c.Position rs ok done rest es ((Pdu.update op id g fl x w kl dl).head ++ c.readItemBuf)
      [.call (allocCall g fl x kl dl)])
    (hs : c.state = .readBodyExtras) (hp : c.readPdu = some (.update op id g fl x w kl dl))
    (hi : c.cacheItem = some it)
    (hl : c.readItemBuf.length + c.nextDataLen = (kl.toNat + dl.toNat) % 2 ^ 32) :
    ∃ t, Run (Serving.Step B) (c.serving rs) t ((c.iterate B n).serving rs) := by
  rw [iterate, hs]
  dsimp only
  split
  · next hzero =>
    obtain ⟨r, rest', hrest, hpdu, htail⟩ := position_next h rfl
    have hlen : c.readItemBuf.length = r.extras.length := by
      rw [r.length_extras, ← Nat.mod_eq_of_lt (hrs r (position_mem h hrest)).length, hpdu]
      rwa [hzero, Nat.add_zero] at hl
    obtain ⟨hbuf, -⟩ := List.append_inj htail hlen
    obtain ⟨a, ha, hg⟩ := completes (B := B) hpdu hi
    rw [hbuf] at ha
    rw [hp, ← hpdu]
    refine run_complete ((requests_of_position h rfl).trans hrest) ?_ ha hg
    rw [preparing, if_pos hs, hi]
  · split
    · exact run_unnoticed ⟨rfl, rfl, rfl, rfl⟩
    · exact run_unnoticed (unnoticed_fillItem c n)

/-- The server follows an iteration. -/
theorem run_iterate (h : c.Position rs ok done rest es bytes part) (n : Nat) :
    ∃ t, Run (Serving.Step B) (c.serving rs) t ((c.iterate B n).serving rs) := by
  have hnot := (position_not_over hrs h).1
  have hplace := h.place
  cases hplace with
  | between hs =>
    rcases hs with hs | ⟨hs, hn⟩
    · rw [iterate, hs]
      exact run_reset hs
    · rw [iterate, hs]
      exact run_unnoticed (unnoticed_write hs (by rw [hn]; decide))
  | header hs _ hl => exact run_header h hs hl
  | fixed hs hne hh hl ht => exact run_fixed hrs h hs hne hh hl ht
  | extras hs hp hi hl => exact run_extras hrs h hs hp hi hl
  | extras2 hs hp hk hl => exact run_extras2 h hs hp hk hl
  | auth _ _ _ _ =>
    obtain ⟨r, rest', hrest, hpdu, -⟩ := position_next h rfl
    exact absurd (congrArg Pdu.choice hpdu) (hrs r (position_mem h hrest)).auth
  | swallow _ hs =>
    rcases hs with hs | ⟨hs, hn⟩
    · rw [iterate, hs]
      dsimp only
      have hstate : c.state ≠ .readBodyExtras := by
        rw [hs]
        decide
      split
      · exact run_unnoticed (unnoticed_of_not rfl rfl rfl hstate (by rintro ⟨⟩))
      · split
        · exact run_unnoticed (unnoticed_swallow c)
        · exact run_unnoticed (unnoticed_fillBuffer c n)
    · rw [iterate, hs]
      exact run_unnoticed (unnoticed_write hs (by rw [hn]; decide))
  | parked hs => exact absurd (.inl hs) hnot
  | ending hs =>
    rcases hs with hs | hs | hs
    · exact absurd (.inr (.inl hs)) hnot
    · exact absurd (.inr (.inr hs)) hnot
    · exact absurd hs (position_not_over hrs h).2

theorem run_step {act : Action} (h : c.Serves rs False) (hstep : c.Step B act c')
    (herr : act ≠ .handleError) :
    ∃ t, Run (Serving.Step B) (c.serving rs) t (c'.serving rs) := by
  obtain ⟨hperm, rfl⟩ := hstep
  obtain ⟨done, rest, es, bytes, part, hpos⟩ := h.position
  cases act with
  | turn n =>
    obtain ⟨t, hrun⟩ := run_iterate (B := B) hrs hpos n
    have hmoves := iterate_place (B := B) hpos.place (fun hx : False => hx.elim) n
    have hpend := (Moves.turned hmoves).pending.trans (h.quiet hperm)
    obtain ⟨_, _, _, _, _, hpos'⟩ := position_iterate (B := B) hrs hpos (fun hx => hx.elim) n
    rw [next, turn]
    split
    · exact ⟨t, hrun⟩
    · rw [serving_unnoticed (unnoticed_leave hpend (position_not_over hrs hpos').1)]
      exact ⟨t, hrun⟩
  | handleRead n => exact run_unnoticed ⟨rfl, rfl, rfl, rfl⟩
  | handleWrite => exact run_unnoticed ⟨rfl, rfl, rfl, rfl⟩
  | handleError => exact absurd rfl herr
  | handleTimer w => exact absurd (.inl hperm.2.1) (position_not_over hrs hpos).1

/-- After an error of the socket the items are given back. -/
theorem run_error (h : c.Serves rs False) (hstep : c.Step B .handleError c') :
    c'.Dead ∧ ∃ t s, Run (Serving.Step B) (c.serving rs) t s ∧ c'.ServedBy rs s := by
  refine ⟨(dead_of_error hrs h hstep).1, ?_⟩
  obtain ⟨-, rfl⟩ := hstep
  obtain ⟨done, rest, es, bytes, part, hpos⟩ := h.position
  have hasync : c.state ≠ .asyncWait := fun hs => (position_not_over hrs hpos).1 (.inl hs)
  have heq : c.next B .handleError = { c with pending := none }.destroy B := if_pos hasync
  rw [heq]
  have hstep : Serving.Step B (c.serving rs) .release
      { c.serving rs with cache := c.cacheItems.foldl B.releaseReference c.mgr, held := [] } := by
    rw [Serving.Step]
    rfl
  exact ⟨_, _, Run.single hstep, rfl, rfl, rfl, rfl⟩

theorem followed_step {act : Action} (h : Followed B b rs c) (hstep : c.Step B act c') :
    Followed B b rs c' := by
  rcases h with ⟨h, t, hrun⟩ | ⟨hdead, -⟩
  · by_cases herr : act = .handleError
    · subst herr
      obtain ⟨hdead, t', s, hlast, hs⟩ := run_error hrs h hstep
      exact .inr ⟨hdead, _, s, hrun.trans hlast, hs⟩
    · obtain ⟨t', hlast⟩ := run_step hrs h hstep herr
      exact .inl ⟨serves_step hrs h (fun hx => hx.elim) hstep herr, _, hrun.trans hlast⟩
  · exact absurd hdead (not_dead_of_permitted hstep.1)

omit hrs in
theorem followed_start {data socket : Bytes} (hstream : data ++ socket = encodeAll rs) :
    Followed B b rs (start b data socket) := by
  by_cases hlen : data.length ≤ 2048
  · refine .inl ⟨serves_start hlen hstream, ?_⟩
    rw [start, if_pos (show _ ≤ ReceiveBuffer.new.getReadBufSize from hlen)]
    exact ⟨[], .nil _⟩
  · rw [start, if_neg (show ¬ _ ≤ ReceiveBuffer.new.getReadBufSize from hlen)]
    exact .inr ⟨⟨rfl, rfl, by rintro ⟨⟩⟩, [], _, .nil _, rfl, rfl, rfl, rfl⟩

end Requests

end ServingLemmas

open ServingLemmas FramingLemmas

/-- At any time the server can have come as far as the connection. -/
theorem servedBy_of_run {B : Backend β} {rs : List Request} (hrs : ∀ r ∈ rs, r.Framed) {b : β}
    {data socket : Bytes} {t : List (Conn β × Action)} {c : Conn β}
    (hstream : data ++ socket = encodeAll rs) (hrun : Run (Step B) (start b data socket) t c) :
    ∃ t' s, Run (Serving.Step B) (.start b rs) t' s ∧ c.ServedBy rs s := by
  have h : Followed B b rs c :=
    hrun.invariant (fun _ _ _ h hstep => followed_step hrs h hstep) (followed_start hstream)
  rcases h with ⟨-, t', hrun'⟩ | ⟨-, h⟩
  · exact ⟨t', _, hrun', rfl, rfl, rfl, rfl⟩
  · exact h

/-- However the frames of the requests are cut into reads, and whatever the cache does: what the
connection has done to the cache is what the server does with the requests in their order, and its
responses are those of the server. If every shortcut was prompt, no request is left when the
connection waits for input that does not come. -/
theorem serving_of_run {B : Backend β} {rs : List Request} (hrs : ∀ r ∈ rs, r.Framed) {b : β}
    {data socket : Bytes} {t : List (Conn β × Action)} {c : Conn β}
    (hstream : data ++ socket = encodeAll rs) (hrun : Run (Step B) (start b data socket) t c) :
    ∃ t' s, Run (Serving.Step B) (.start b rs) t' s ∧ c.ServedBy rs s ∧
      ((∀ x ∈ t, ∀ n, x.2 = .turn n → x.1.Prompt) → c.run = false → c.pending = some .read →
        c.socket = [] → s.requests = []) := by
  obtain ⟨t', s, hrun', hs⟩ := servedBy_of_run hrs hstream hrun
  refine ⟨t', s, hrun', hs, fun hprompt hstop hpend hsock => ?_⟩
  rw [hs.requests]
  rcases serves_of_run B hrs hstream hrun (fun _ : True => hprompt) with hserves | hgone
  · obtain ⟨done, rest, es, bytes, part, hpos⟩ := hserves.position
    obtain ⟨hserved, hlog⟩ := servedAll_of_stopped hpos trivial (hserves.waits hstop hpend) hsock
    rw [responses, hlog, responses_servedAll hserved, List.drop_length]
  · cases hgone.1.2.1.symm.trans hpend

/-- Two requests in one read, and the write of their responses. -/
def twoRequests : List Action :=
  List.replicate 9 (.turn 0) ++ [.handleWrite, .turn 0, .turn 0]

/-- A key is set, and then a group is flushed. -/
theorem serving_set_flush :
    let c := twoRequests.foldl (next smallBackend)
      (opened (encodeAll [setRequest, flushRequest]) [])
    c.responses = [.update 1, .flush 0 0] ∧ ∃ t s, Run (Serving.Step smallBackend)
      (.start ((Sys.small .uint16).mgr, 0) [setRequest, flushRequest]) t s ∧ s.requests = [] ∧
        s.responses = c.responses := by
  intro c
  have hok : Admitted (fun (c : Conn (CacheMgr × Nat)) a => c.Permitted a ∧ c.Prompt)
      (next smallBackend) (opened (encodeAll [setRequest, flushRequest]) []) twoRequests := by
    decide +kernel
  obtain ⟨t, hreach, hprompt⟩ := hok.run_of_and
  have hrs : ∀ r ∈ [setRequest, flushRequest], r.Framed := by
    intro r hr
    rcases List.mem_cons.mp hr with rfl | hr
    · exact ⟨by decide, by decide, by decide⟩
    · rw [List.mem_singleton.mp hr]
      exact ⟨by decide, by decide, by decide⟩
  obtain ⟨t', s, hrun', hs, hrest⟩ := serving_of_run hrs (List.append_nil _) hreach
  refine ⟨by decide +kernel, t', s, hrun', ?_, hs.responses⟩
  exact hrest (fun x hx _ _ => hprompt x hx) (by decide +kernel) (by decide +kernel)
    (by decide +kernel)

end Conn
end Xixi.PeerCache
