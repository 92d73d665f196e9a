import Xixi.Peer.Pdu
import Xixi.Operation

/-!
# The connection

`Peer_Cache`: the loop of `process`, one iteration at a time, and the handlers of the
socket around it. The socket holds the bytes that the client has sent and the peer has
not read; how many of them a read returns is up to the socket, so every iteration takes
that number as an argument and every way to cut the stream into reads is a choice of
these numbers.

The cache manager and the authentication are seen through the calls that the peer makes
(`Call`); `Backend` answers them and may do anything between two of them, as other
connections do. Scratch buffers (`cache_buf_.prepare`) and the receive buffer are always
granted.
-/

namespace Xixi.PeerCache
open Lib

inductive PeerState
  | newCmd
  | readHeader
  | readBodyFixed
  | readBodyExtras
  | readBodyExtras2
  | swallow
  | asyncWait
  | write
  | closing
  | closed
deriving DecidableEq, Repr

/-! ## What the peer calls and what it answers -/

/-- The calls to `cache_mgr_` and `auth_`. -/
inductive Call
  | get (groupId : Nat) (key : Bytes) (watchId : Nat) (isBase : Bool)
  | getTouch (groupId : Nat) (key : Bytes) (watchId expiration : Nat)
  | updateFlags (groupId : Nat) (key : Bytes) (cacheId flags : Nat)
  | updateExpiration (groupId : Nat) (key : Bytes) (cacheId expiration : Nat)
  | allocItem (groupId keyLength flags expiration dataSize extSize : Nat)
  | itemSizeOk (keyLength dataSize extSize : Nat)
  | fill (p : Ptr) (c : Contents)
  | update (verb : Verb) (p : Ptr) (watchId : Nat)
  | remove (groupId : Nat) (key : Bytes) (cacheId : Nat)
  | delta (groupId : Nat) (key : Bytes) (incr : Bool) (delta : Int) (cacheId : Nat)
  | flush (groupId : Nat)
  | stats (opFlag classId groupId : Nat)
  | createWatch (groupId maxNextCheckInterval : Nat)
  | checkWatchAndSetCallback (groupId watchId ackSequence maxNextCheckInterval : Nat)
  | checkWatchAndClearCallback (watchId : Nat)
  | login (base64 : Bytes)
deriving DecidableEq, Repr

/-- What a call returns. -/
def Call.Ret : Call → Type
  | .get .. => Option (Ptr × Nat) × Reason
  | .getTouch .. => Option Ptr × Reason
  | .updateFlags .. => Bool × Nat
  | .updateExpiration .. => Bool × Nat
  | .allocItem .. => Option Ptr
  | .itemSizeOk .. => Bool
  | .fill .. => Unit
  | .update .. => Reason × Option Nat
  | .remove .. => Reason
  | .delta .. => Reason × Nat × Int
  | .flush .. => Nat × Nat
  | .stats .. => Bytes
  | .createWatch .. => Nat
  | .checkWatchAndSetCallback .. => Option CheckOut
  | .checkWatchAndClearCallback .. => Option CheckOut
  | .login .. => Unit

structure Backend (β : Type) where
  exec : β → (k : Call) → k.Ret × β
  /-- What stands behind a pointer that the peer holds. -/
  item : β → Ptr → CacheItem
  releaseReference : β → Ptr → β

/-- The cache manager as the peer `sp` sees it. `o i` is the outcome of `malloc` for the
`i`-th call that allocates; `stats` and `login` stand for the statistics and the
authentication. -/
def cacheMgrBackend (env : Env) (sp : Sink) (o : Nat → Malloc)
    (stats : CacheMgr → Nat → Nat → Nat → Bytes × CacheMgr) (login : Bytes → CacheMgr → CacheMgr) :
    Backend (CacheMgr × Nat) where
  exec s
    | .get g k w b => (s.1.get env g k w b).map id (·, s.2)
    | .getTouch g k w x => (s.1.getTouch env g k w x).map id (·, s.2)
    | .updateFlags g k i fl => (s.1.updateFlags env g k i fl).map id (·, s.2)
    | .updateExpiration g k i x => (s.1.updateExpiration env g k i x).map id (·, s.2)
    | .allocItem g kl fl x ds es => (s.1.allocItem env (o s.2) g kl fl x ds es).map id (·, s.2 + 1)
    | .itemSizeOk kl ds es => (s.1.itemSizeOk env kl ds es).map id (·, s.2)
    | .fill p c => ((), s.1.fill env p c, s.2)
    | .update verb p w => (s.1.update env (o s.2) p w verb).map id (·, s.2 + 1)
    | .remove g k i => (s.1.remove env g k i).map id (·, s.2)
    | .delta g k incr d i => (s.1.delta env (o s.2) g k incr d i).map id (·, s.2 + 1)
    | .flush g => (s.1.flush env g).map id (·, s.2)
    | .stats op cl g => (stats s.1 op cl g).map id (·, s.2)
    | .createWatch g x => (s.1.createWatch g x).map id (·, s.2)
    | .checkWatchAndSetCallback g w a x =>
      (s.1.checkWatchAndSetCallback sp g w a x).map id (·, s.2)
    | .checkWatchAndClearCallback w => (s.1.checkWatchAndClearCallback sp w).map id (·, s.2)
    | .login base64 => ((), login base64 s.1, s.2)
  item s p := s.1.item p
  releaseReference s p := (s.1.releaseReference env p, s.2)

/-- A response as it is handed to `add_write_buf`. -/
inductive Res
  | error (reason : Reason)
  /-- `XIXI_REASON_UNKNOWN_COMMAND`. -/
  | unknownCommand
  | hello
  | delete
  | get (cacheId flags expiration dataLength : Nat) (data : Bytes)
  | getBase (cacheId flags expiration dataLength : Nat)
  | update (cacheId : Nat)
  | updateFlags (cacheId : Nat)
  | updateExpiration (cacheId : Nat)
  | delta (value : Int) (cacheId : Nat)
  | flush (flushCount flushSize : Nat)
  | stats (result : Bytes)
  | createWatch (watchId : Nat)
  | checkWatch (out : CheckOut)
deriving DecidableEq, Repr

/-- What the peer does, as seen from outside: a call, a response put into `write_buf_`,
and bytes thrown away in `PEER_STATE_SWALLOW`. -/
inductive Event
  | call (k : Call)
  | queue (r : Res)
  | swallow (bytes : Bytes)
deriving DecidableEq, Repr

/-! ## What a request asks for -/

namespace Pdu

/-- `reply()`, the same of every request that has one: the flag is not looked at. -/
def reply (_ : Pdu) : Bool := true

/-- `sub_op()` of an update, as the operation that it selects. -/
def verb (opFlag : UInt8) : Option Verb :=
  match (opFlag &&& 7).toNat with
  | 0 => some .set
  | 1 => some .add
  | 2 => some .replace
  | 3 => some .append
  | 4 => some .prepend
  | _ => none

/-- A `CHECK_WATCH` of this watch. -/
def checks (w : UInt32) : Pdu → Bool
  | .checkWatch _ w' _ _ _ => w' == w
  | _ => false

/-- `sub_op() == XIXI_DELTA_SUB_OP_INCR`. -/
def incr (opFlag : UInt8) : Bool := opFlag &&& 1 == 0

end Pdu

/-! ## The receive buffer -/

/-- `Receive_Buffer<2048, 8192>`: the distance of `read_curr_` from `read_buf_`, the
`read_data_size_` bytes that start there, and `read_buf_size_`. -/
structure ReceiveBuffer where
  offset : Nat
  data : Bytes
  size : Nat
deriving DecidableEq, Repr

namespace ReceiveBuffer

def new : ReceiveBuffer := ⟨0, [], 2048⟩

def getReadBufSize (b : ReceiveBuffer) : Nat := b.size - b.offset - b.data.length

def handleProcessed (b : ReceiveBuffer) : ReceiveBuffer :=
  let b := { b with offset := 0 }
  let b := if b.getReadBufSize < 2048 then { b with size := b.size * 2 } else b
  if 8192 < b.size ∧ b.data.length < 2048 then { b with size := 2048 } else b

/-- `read_curr_ += n; read_data_size_ -= n`. -/
def advance (b : ReceiveBuffer) (n : Nat) : ReceiveBuffer :=
  { b with offset := b.offset + n, data := b.data.drop n }

end ReceiveBuffer

/-! ## The peer -/

/-- The asynchronous operation that is under way; `op_count_` is 1 while there is one. -/
inductive Io
  | read
  | write
deriving DecidableEq, Repr

structure Conn (β : Type) where
  state : PeerState
  nextState : PeerState
  nextDataLen : Nat
  /-- `read_pdu_header_.choice`. -/
  header : UInt16
  readPdu : Option Pdu
  /-- What has been written through `read_item_buf_`. -/
  readItemBuf : Bytes
  cacheItem : Option Ptr
  cacheItems : List Ptr
  swallowSize : Nat
  readBuffer : ReceiveBuffer
  writeBuf : List Res
  pending : Option Io
  /-- `process` is running. -/
  run : Bool
  processRequestCount : Nat
  mgr : β
  /-- The bytes that the client has sent and the peer has not read. -/
  socket : Bytes
  /-- History: the bytes of the current request that have been consumed. -/
  taken : Bytes
  /-- History: what the peer has done so far. -/
  log : List Event

namespace Conn

variable {β : Type} (B : Backend β) (c : Conn β)

def call (k : Call) : k.Ret × Conn β :=
  let (r, mgr) := B.exec c.mgr k
  (r, { c with mgr := mgr, log := c.log ++ [.call k] })

/-- `add_write_buf`. -/
def addWriteBuf (r : Res) : Conn β :=
  { c with writeBuf := c.writeBuf ++ [r], log := c.log ++ [.queue r] }

/-- A response, and on to the next request. -/
def writeRes (r : Res) : Conn β :=
  { c.addWriteBuf r with state := .write, nextState := .newCmd }

def writeError (r : Res) (swallow : Nat) (reply : Bool) : Conn β :=
  if reply then
    let c := { c.addWriteBuf r with state := .write }
    if 0 < swallow then { c with swallowSize := swallow, nextState := .swallow }
    else { c with nextState := .newCmd }
  else if 0 < swallow then
    { c with swallowSize := swallow, state := .swallow, nextState := .newCmd }
  else { c with state := .newCmd, nextState := .newCmd }

/-- The default branch of the switches. -/
def unknownCommand : Conn β := { c.writeError .unknownCommand 0 true with nextState := .closing }

/-! ### The handlers -/

/-- A handler of `process_pdu_extras2`: the key is the first `length` bytes of the data,
nothing happens while they are not there, and they are what it has consumed. -/
def withKey (length : Nat) (data : Bytes) (handler : Bytes → Conn β) : Nat × Conn β :=
  if data.length < length then (0, c) else (length, handler (data.take length))

/-- `cache_item_` and `cache_items_` take the item, the response refers to it. -/
def keepItem (it : Ptr) : Conn β :=
  { c with cacheItem := some it, cacheItems := c.cacheItems ++ [it] }

def processGetReqPduExtras (groupId watchId : UInt32) (key : Bytes) : Conn β :=
  match c.call B (.get groupId.toNat key watchId.toNat false) with
  | ((some (it, expiration), _), c) =>
    let item := B.item c.mgr it
    (c.keepItem it).writeRes (.get item.cacheId item.flags expiration item.dataSize item.data)
  | ((none, reason), c) => c.writeError (.error reason) 0 true

def processGetTouchReqPduExtras (groupId watchId expiration : UInt32) (key : Bytes) : Conn β :=
  match c.call B (.getTouch groupId.toNat key watchId.toNat expiration.toNat) with
  | ((some it, _), c) =>
    let item := B.item c.mgr it
    (c.keepItem it).writeRes
      (.get item.cacheId item.flags expiration.toNat item.dataSize item.data)
  | ((none, reason), c) => c.writeError (.error reason) 0 true

def processGetBaseReqPduExtras (groupId : UInt32) (key : Bytes) : Conn β :=
  match c.call B (.get groupId.toNat key 0 true) with
  | ((some (it, expiration), _), c) =>
    let item := B.item c.mgr it
    let c := { c with mgr := B.releaseReference c.mgr it }
    c.writeRes (.getBase item.cacheId item.flags expiration item.dataSize)
  | ((none, _), c) => c.writeError (.error .notFound) 0 true

/-- `write_error` or the response of an operation that may not reply. -/
def reply (pdu : Pdu) (answer : Conn β) : Conn β :=
  if pdu.reply then answer else { c with state := .newCmd, nextState := .newCmd }

def processUpdateReqPduFixed (pdu : Pdu) (groupId flags expiration : UInt32) (keyLength : UInt16)
    (dataLength : UInt32) : Conn β :=
  let dataLen := (keyLength.toNat + dataLength.toNat) % 2 ^ 32
  match c.call B (.allocItem groupId.toNat keyLength.toNat flags.toNat expiration.toNat
    dataLength.toNat 0) with
  | (none, c) =>
    match c.call B (.itemSizeOk keyLength.toNat dataLength.toNat 0) with
    | (true, c) => { c with cacheItem := none }.writeError (.error .outOfMemory) dataLen pdu.reply
    | (false, c) => { c with cacheItem := none }.writeError (.error .tooLarge) dataLen pdu.reply
  | (some it, c) =>
    { c with cacheItem := some it, readItemBuf := [], nextDataLen := dataLen,
             state := .readBodyExtras }

/-- The operation of an update, on the item that has been filled. -/
def runUpdate (opFlag : UInt8) (it : Ptr) (watchId : UInt32) : Res × Conn β :=
  match Pdu.verb opFlag with
  | some verb =>
    match c.call B (.update verb it watchId.toNat) with
    | ((.success, cacheId), c) => (.update (cacheId.getD 0), c)
    | ((reason, _), c) => (.error reason, c)
  | none => (.unknownCommand, c)

def processUpdateReqPduExtras (pdu : Pdu) (opFlag : UInt8) (cacheId : UInt64) (watchId : UInt32)
    (keyLength : UInt16) (it : Ptr) : Conn β :=
  let contents : Contents :=
    { key := c.readItemBuf.take keyLength.toNat, data := c.readItemBuf.drop keyLength.toNat
      ext := [], cacheId := cacheId.toNat }
  let (_, c) := c.call B (.fill it contents)
  let (r, c) := c.runUpdate B opFlag it watchId
  let c := c.reply pdu (c.writeRes r)
  { c with mgr := B.releaseReference c.mgr it, cacheItem := none }

/-- The answer of `update_flags` and `update_expiration`. -/
def baseRes (res : Nat → Res) : Bool × Nat → Res
  | (true, cacheId) => res cacheId
  | (false, cacheId) => .error (if cacheId ≠ 0 then .mismatch else .notFound)

def processUpdateFlagsReqPduExtras (pdu : Pdu) (cacheId : UInt64) (groupId flags : UInt32)
    (key : Bytes) : Conn β :=
  let (r, c) := c.call B (.updateFlags groupId.toNat key cacheId.toNat flags.toNat)
  c.reply pdu (c.writeRes (baseRes .updateFlags r))

def processUpdateExpirationReqPduExtras (pdu : Pdu) (cacheId : UInt64)
    (groupId expiration : UInt32) (key : Bytes) : Conn β :=
  let (r, c) := c.call B (.updateExpiration groupId.toNat key cacheId.toNat expiration.toNat)
  c.reply pdu (c.writeRes (baseRes .updateExpiration r))

def processDeleteReqPduExtras (pdu : Pdu) (cacheId : UInt64) (groupId : UInt32) (key : Bytes) :
    Conn β :=
  match c.call B (.remove groupId.toNat key cacheId.toNat) with
  | (.success, c) => c.reply pdu (c.writeRes .delete)
  | (reason, c) => c.reply pdu (c.writeError (.error reason) 0 true)

/-- The state is left as it is. -/
def processAuthReqPduExtras (base64 : Bytes) : Conn β := (c.call B (.login base64)).2

def processDeltaReqPduExtras (pdu : Pdu) (opFlag : UInt8) (cacheId : UInt64) (groupId : UInt32)
    (delta : Int64) (key : Bytes) : Conn β :=
  match c.call B (.delta groupId.toNat key (Pdu.incr opFlag) delta.toInt cacheId.toNat) with
  | ((.success, cacheId, value), c) => c.reply pdu (c.writeRes (.delta value cacheId))
  | ((reason, _), c) => c.reply pdu (c.writeError (.error reason) 0 true)

def processHelloReqPduFixed : Conn β := c.writeRes .hello

def processCreateWatchReqPduFixed (groupId maxNextCheckInterval : UInt32) : Conn β :=
  let (watchId, c) := c.call B (.createWatch groupId.toNat maxNextCheckInterval.toNat)
  c.writeRes (.createWatch watchId)

def processCheckWatchReqPduFixed (groupId watchId maxNextCheckInterval ackSequence : UInt32) :
    Conn β :=
  match c.call B (.checkWatchAndSetCallback groupId.toNat watchId.toNat ackSequence.toNat
    maxNextCheckInterval.toNat) with
  | (none, c) => c.writeError (.error .watchNotFound) 0 true
  | (some out, c) =>
    if 0 < out.updatedList.length then c.writeRes (.checkWatch out)
    else { c with state := .asyncWait }

def processFlushReqPduFixed (groupId : UInt32) : Conn β :=
  let (r, c) := c.call B (.flush groupId.toNat)
  c.writeRes (.flush r.1 r.2)

def processStatsReqPduFixed (opFlag classId : UInt8) (groupId : UInt32) : Conn β :=
  let (result, c) := c.call B (.stats opFlag.toNat classId.toNat groupId.toNat)
  c.writeRes (.stats result)

/-! ### The states that read -/

/-- `process_header`; it consumes the header. -/
def processHeader (data : Bytes) : Conn β :=
  let c := { c with header := getU16 data }
  match Choice.ofCode c.header with
  | some .helloReq => c.processHelloReqPduFixed
  | some choice => { c with nextDataLen := choice.fixedBodySize, state := .readBodyFixed }
  | none => c.unknownCommand

/-- The extra bytes are the key, or what `AUTH` brings. -/
def awaitExtras2 (length : Nat) : Conn β :=
  { c with nextDataLen := length, state := .readBodyExtras2 }

def processPduFixed : Pdu → Conn β
  | .get _ _ kl => c.awaitExtras2 kl.toNat
  | .getTouch _ _ _ kl => c.awaitExtras2 kl.toNat
  | .update op id g fl x w kl dl => c.processUpdateReqPduFixed B (.update op id g fl x w kl dl) g fl x kl dl
  | .updateFlags _ _ _ _ kl => c.awaitExtras2 kl.toNat
  | .updateExpiration _ _ _ _ kl => c.awaitExtras2 kl.toNat
  | .delete _ _ _ kl => c.awaitExtras2 kl.toNat
  | .auth n => c.awaitExtras2 n.toNat
  | .delta _ _ _ _ kl => c.awaitExtras2 kl.toNat
  | .getBase _ kl => c.awaitExtras2 kl.toNat
  | .flush g => c.processFlushReqPduFixed B g
  | .stats op cl g => c.processStatsReqPduFixed B op cl g
  | .createWatch g x => c.processCreateWatchReqPduFixed B g x
  | .checkWatch g w _ x a => c.processCheckWatchReqPduFixed B g w x a
  | .hello => c.unknownCommand

def processPduExtras : Option Pdu → Conn β
  | some (.update op id g fl x w kl dl) =>
    match c.cacheItem with
    | some it => c.processUpdateReqPduExtras B (.update op id g fl x w kl dl) op id w kl it
    | none => c.unknownCommand
  | _ => c.unknownCommand

def processPduExtras2 (data : Bytes) : Option Pdu → Nat × Conn β
  | some (.get g w kl) => c.withKey kl.toNat data (c.processGetReqPduExtras B g w)
  | some (.getTouch g w x kl) => c.withKey kl.toNat data (c.processGetTouchReqPduExtras B g w x)
  | some (.updateFlags op id g fl kl) =>
    c.withKey kl.toNat data (c.processUpdateFlagsReqPduExtras B (.updateFlags op id g fl kl) id g fl)
  | some (.updateExpiration op id g x kl) =>
    c.withKey kl.toNat data
      (c.processUpdateExpirationReqPduExtras B (.updateExpiration op id g x kl) id g x)
  | some (.delete op id g kl) =>
    c.withKey kl.toNat data (c.processDeleteReqPduExtras B (.delete op id g kl) id g)
  | some (.auth n) => c.withKey n.toNat data (c.processAuthReqPduExtras B)
  | some (.delta op id g d kl) =>
    c.withKey kl.toNat data (c.processDeltaReqPduExtras B (.delta op id g d kl) op id g d)
  | some (.getBase g kl) => c.withKey kl.toNat data (c.processGetBaseReqPduExtras B g)
  | _ => (0, c.unknownCommand)

def resetForNewCmd : Conn β :=
  { c with
    readPdu := none
    cacheItem := none
    mgr := c.cacheItems.foldl B.releaseReference c.mgr
    cacheItems := []
    readItemBuf := []
    nextDataLen := headLength
    state := .readHeader
    taken := [] }

/-- The first `n` bytes of the receive buffer are done with. -/
def consume (n : Nat) : Conn β :=
  { c with readBuffer := c.readBuffer.advance n, taken := c.taken ++ c.readBuffer.data.take n }

/-- `handle_processed` and a `read_some` into the receive buffer; the socket has `n` bytes
ready. -/
def fillBuffer (n : Nat) : Conn β :=
  let b := c.readBuffer.handleProcessed
  let got := c.socket.take (min n b.getReadBufSize)
  if got.length = 0 then { c with readBuffer := b, run := false }
  else { c with readBuffer := { b with data := b.data ++ got }, socket := c.socket.drop got.length }

/-- `read_some` into the item. -/
def fillItem (n : Nat) : Conn β :=
  let got := c.socket.take (min n c.nextDataLen)
  if got.length = 0 then { c with run := false }
  else { c with
    readItemBuf := c.readItemBuf ++ got
    nextDataLen := c.nextDataLen - got.length
    socket := c.socket.drop got.length
    taken := c.taken ++ got }

/-- What the receive buffer has of the item is copied. -/
def copyToItem : Conn β :=
  let tmp := min c.readBuffer.data.length c.nextDataLen
  { c with readItemBuf := c.readItemBuf ++ c.readBuffer.data.take tmp
           nextDataLen := c.nextDataLen - tmp }.consume tmp

def swallowBuffer : Conn β :=
  let tmp := min c.readBuffer.data.length c.swallowSize
  { c with swallowSize := c.swallowSize - tmp
           log := c.log ++ [Event.swallow (c.readBuffer.data.take tmp)] }.consume tmp

/-- `PEER_STATUS_WRITE`: with a further header in the buffer the next request follows at
once, and `reset_for_new_cmd` is skipped. -/
def processWrite : Conn β :=
  let c := { c with state := c.nextState, nextState := .newCmd }
  if c.state = .newCmd ∧ c.processRequestCount < 32 then
    if headLength ≤ c.readBuffer.data.length then { c with state := .readHeader, taken := [] }
    else { c with run := false }
  else { c with run := false }

/-- One iteration of the loop of `process`. -/
def iterate (n : Nat) : Conn β :=
  match c.state with
  | .newCmd => c.resetForNewCmd B
  | .readHeader =>
    if c.nextDataLen ≤ c.readBuffer.data.length then
      { c.processHeader c.readBuffer.data with
        processRequestCount := c.processRequestCount + 1 }.consume headLength
    else c.fillBuffer n
  | .readBodyFixed =>
    if c.nextDataLen ≤ c.readBuffer.data.length then
      let pdu := decodePdu c.header c.readBuffer.data
      let c := c.consume c.nextDataLen
      match pdu with
      | some pdu => { c with readPdu := some pdu }.processPduFixed B pdu
      | none => c.unknownCommand
    else c.fillBuffer n
  | .readBodyExtras =>
    if c.nextDataLen = 0 then c.processPduExtras B c.readPdu
    else if 0 < c.readBuffer.data.length then c.copyToItem
    else c.fillItem n
  | .readBodyExtras2 =>
    if c.nextDataLen ≤ c.readBuffer.data.length then
      let (tmp, c) := c.processPduExtras2 B c.readBuffer.data c.readPdu
      c.consume tmp
    else c.fillBuffer n
  | .swallow =>
    if c.swallowSize = 0 then { c with state := .newCmd }
    else if 0 < c.readBuffer.data.length then c.swallowBuffer
    else c.fillBuffer n
  | .asyncWait => { c with run := false }
  | .write => c.processWrite
  | .closing => { c with state := .closed, run := false }
  | .closed => { c with run := false }

/-! ### Around the loop -/

/-- `cleanup` in the destructor: nobody refers to the peer any more. -/
def destroy : Conn β :=
  { c with cacheItem := none, mgr := c.cacheItems.foldl B.releaseReference c.mgr, cacheItems := [] }

def tryRead : Conn β :=
  if c.pending = none then
    { c with pending := some .read, readBuffer := c.readBuffer.handleProcessed }
  else c

def tryWrite : Bool × Conn β :=
  if c.pending = none ∧ c.writeBuf ≠ [] then
    (true, { c with pending := some .write, writeBuf := [] })
  else (false, c)

/-- What `start`, `handle_read` and `handle_write` do after `process`. -/
def leave : Conn β :=
  let c :=
    if c.state ≠ .asyncWait then
      if c.state ≠ .closed then
        let (wrote, c) := c.tryWrite
        if wrote then c else c.tryRead
      else c
    else c.tryWrite.2
  if c.pending = none ∧ c.state ≠ .asyncWait then c.destroy B else c

/-- One iteration, and what follows the loop when it was the last. -/
def turn (n : Nat) : Conn β :=
  let c := c.iterate B n
  if c.run then c else c.leave B

/-- `start` on the bytes that came with the connection; more of them than the receive
buffer takes and the peer is gone. -/
def start (b : β) (data socket : Bytes) : Conn β :=
  let c : Conn β :=
    { state := .newCmd, nextState := .newCmd, nextDataLen := headLength, header := 0
      readPdu := none, readItemBuf := [], cacheItem := none, cacheItems := [], swallowSize := 0
      readBuffer := .new, writeBuf := [], pending := none, run := false
      processRequestCount := 0, mgr := b, socket := socket, taken := [], log := [] }
  if data.length ≤ c.readBuffer.getReadBufSize then
    { c with readBuffer := { c.readBuffer with data := data }, run := true }
  else c

/-- Into `process`. -/
def enter : Conn β := { c with run := true, processRequestCount := 0 }

def handleRead (n : Nat) : Conn β :=
  let got := c.socket.take (min n c.readBuffer.getReadBufSize)
  { c with
    pending := none
    readBuffer := { c.readBuffer with data := c.readBuffer.data ++ got }
    socket := c.socket.drop got.length }.enter

def handleWrite : Conn β := { c with pending := none }.enter

/-- `handle_read` and `handle_write` with an error. -/
def handleError : Conn β :=
  let c := { c with pending := none }
  if c.state ≠ .asyncWait then c.destroy B else c

def handleTimer (watchId : UInt32) : Conn β :=
  match c.call B (.checkWatchAndClearCallback watchId.toNat) with
  | (none, c) => (c.writeError (.error .watchNotFound) 0 true).tryWrite.2
  | (some out, c) =>
    { c.addWriteBuf (.checkWatch out) with state := .newCmd, nextState := .newCmd }.tryWrite.2

end Conn

/-! ## Runs of a connection -/

/-- `turn` is one iteration inside `process`; the others are the completions that the
socket and the timer report. -/
inductive Action
  | turn (n : Nat)
  | handleRead (n : Nat)
  | handleWrite
  | handleError
  | handleTimer (watchId : UInt32)
deriving DecidableEq, Repr

namespace Conn

variable {β : Type} (B : Backend β) (c : Conn β)

def next : Action → Conn β
  | .turn n => c.turn B n
  | .handleRead n => c.handleRead n
  | .handleWrite => c.handleWrite
  | .handleError => c.handleError B
  | .handleTimer w => c.handleTimer B w

/-- `lock_` is held while `process` runs; a completion belongs to an operation that is
under way; the timer is set by `CHECK_WATCH`. -/
def Permitted : Action → Prop
  | .turn _ => c.run = true
  | .handleRead _ => c.run = false ∧ c.pending = some .read
  | .handleWrite => c.run = false ∧ c.pending = some .write
  | .handleError => c.run = false ∧ c.pending ≠ none
  | .handleTimer w => c.run = false ∧ c.state = .asyncWait ∧ c.readPdu.any (Pdu.checks w) = true

instance : DecidablePred c.Permitted
  | .turn _ => inferInstanceAs (Decidable (c.run = true))
  | .handleRead _ => inferInstanceAs (Decidable (c.run = false ∧ c.pending = some .read))
  | .handleWrite => inferInstanceAs (Decidable (c.run = false ∧ c.pending = some .write))
  | .handleError => inferInstanceAs (Decidable (c.run = false ∧ c.pending ≠ none))
  | .handleTimer w => inferInstanceAs (Decidable (c.run = false ∧ c.state = .asyncWait ∧
      c.readPdu.any (Pdu.checks w) = true))

def Step (a : Action) (c' : Conn β) : Prop := c.Permitted a ∧ c' = c.next B a

end Conn
end Xixi.PeerCache
