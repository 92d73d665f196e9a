import Xixi.Http.Reply
import Xixi.Peer.Machine
import Xixi.System

/-!
# The connection (`Peer_Http`)

As for `Peer_Cache`: the loop of `process`, one iteration at a time, and the handlers of the socket
around it. The cache manager and the file system are seen through the calls that the peer makes.

1. `execute`: the handlers of the operations.
2. `Conn.iterate`: one iteration of `process`.
3. `Conn.Step`: an action of the socket, the timer or the loop.
-/

namespace Xixi.Http
open Lib
open PeerCache (PeerState ReceiveBuffer Io)

/-- The calls to `cache_mgr_`, and what is asked of the file system. -/
inductive Call
  | cache (k : PeerCache.Call)
  | loadFromFile (groupId : Nat) (key : Text) (watchId expiration : Nat)
  /-- `exists` and `is_directory`. -/
  | status (filename : Bytes)
deriving DecidableEq, Repr

/-- What a call returns. `load_from_file` has an item or a reason; a file that does not exist, or
cannot be looked at, has no status. -/
def Call.Ret : Call → Type
  | .cache k => k.Ret
  | .loadFromFile .. => Except Xixi.Reason Ptr
  | .status _ => Option Bool

structure Backend (β : Type) where
  exec : β → (k : Call) → k.Ret × β
  item : β → Ptr → CacheItem
  releaseReference : β → Ptr → β

/-- A file, with what it contains, or a directory. -/
inductive File
  | data (bytes : Bytes)
  | directory
deriving DecidableEq, Repr

/-- `load_from_file`; `files` has what is found under a name. -/
def CacheMgr.loadFromFile (env : Env) (settings : Settings) (files : Bytes → Option File)
    (o : Nat → Malloc) (s : CacheMgr × Nat) (groupId : Nat) (key : Text) (watchId expiration : Nat) :
    Except Xixi.Reason Ptr × (CacheMgr × Nat) :=
  match files (settings.homeDir ++ ascii "webapps" ++ cString key.mem) with
  | some (.data bytes) =>
    let mimeType := ((getSuffix key.bytes).bind settings.mimeType).getD []
    match s.1.allocItem env (o s.2) groupId key.length 0 expiration bytes.length mimeType.length with
    | (none, m) =>
      let (ok, m) := m.itemSizeOk env key.length bytes.length mimeType.length
      (.error (if ok then .outOfMemory else .tooLarge), (m, s.2 + 1))
    | (some it, m) =>
      let m := m.fill env it { key := key.bytes, data := bytes, ext := mimeType, cacheId := 0 }
      match m.loadFromFileLink env (o (s.2 + 1)) it watchId with
      | ((some it, _), m) => (.ok it, (m, s.2 + 2))
      | ((none, reason), m) => (.error reason, (m, s.2 + 2))
  | _ => (.error .notFound, s)

/-- The cache manager, as the peer `sp` sees it, with these files. -/
def cacheMgrBackend (env : Env) (settings : Settings) (files : Bytes → Option File) (sp : Sink)
    (o : Nat → Malloc) (stats : CacheMgr → Nat → Nat → Nat → Bytes × CacheMgr) :
    Backend (CacheMgr × Nat) :=
  let B := PeerCache.cacheMgrBackend env sp o stats fun _ s => s
  { exec := fun s k =>
      match k with
      | .cache k => B.exec s k
      | .loadFromFile g key w x => CacheMgr.loadFromFile env settings files o s g key w x
      | .status filename => ((files filename).map (· == .directory), s)
    item := B.item
    releaseReference := B.releaseReference }

/-! ## The handlers -/

section Handlers

variable {β : Type} (B : Backend β) (s : Settings)

/-- `get_touch` or `get`, and the expiration that the response will have. -/
def lookup (m : β) (p : Params) (key : Text) (isBase : Bool) :
    (Option (Ptr × Nat) × Xixi.Reason) × β :=
  if p.touchFlag then
    let ((it, reason), m) :=
      B.exec m (.cache (.getTouch p.groupId key.bytes p.watchId p.expiration))
    ((it.map fun it => (it, p.expiration), reason), m)
  else B.exec m (.cache (.get p.groupId key.bytes p.watchId isBase))

def loadFromFile (m : β) (p : Params) (key : Text) : Except Xixi.Reason (Ptr × Nat) × β :=
  let expiration := if p.touchFlag then p.expiration else s.defaultCacheExpiration
  let (r, m) := B.exec m (.loadFromFile p.groupId key p.watchId expiration)
  (r.map fun it => (it, expiration), m)

def getWelcomeFile (p : Params) (isBase : Bool) (m : β) :
    List Bytes → Except Xixi.Reason (Ptr × Nat) × β
  | [] => (.error .notFound, m)
  | welcome :: rest =>
    let key := Text.copy (p.key.bytes ++ welcome)
    match lookup B m p key isBase with
    | ((some r, _), m) => (.ok r, m)
    | ((none, _), m) =>
      match loadFromFile B s m p key with
      | (.error .notFound, m) => getWelcomeFile p isBase m rest
      | (r, m) => (r, m)

/-- The path leads out of its directory. -/
def escapes : List Bytes → Nat → Bool
  | [], _ => false
  | e :: es, pathCount =>
    if e = ascii ".." then pathCount ≤ 1 || escapes es (pathCount - 1)
    else if e = ascii "." then escapes es pathCount
    else escapes es (pathCount + 1)

def getCacheItem (m : β) (p : Params) (isBase : Bool) : Except Reason (Ptr × Nat) × β :=
  match lookup B m p p.key isBase with
  | ((some r, _), m) => (.ok r, m)
  | ((none, reason), m) =>
    if 0 < p.key.length ∧ p.key.mem.head? = some '/'.toUInt8 then
      let path := cString p.key.mem
      if escapes (s.pathElements path) 0 then (.error (.cache .notFound), m)
      else
        match B.exec m (.status (s.homeDir ++ ascii "webapps" ++ path)) with
        | (none, m) => (.error (.cache .notFound), m)
        | (some true, m) =>
          if p.key.bytes.getLast? = some '/'.toUInt8 then
            let (r, m) := getWelcomeFile B s p isBase m s.welcomeFileList
            (r.mapError .cache, m)
          else (.error .movedPermanently, m)
        | (some false, m) =>
          let (r, m) := loadFromFile B s m p p.key
          (r.mapError .cache, m)
    else (.error (.cache reason), m)

/-- `get_mime_type`; the text goes up to its first terminator when it is printed. -/
def getMimeType (ext : Bytes) (key : Bytes) : Bytes :=
  if 0 < ext.length ∧ ext.length ≤ 128 then ext
  else
    match (getSuffix key).bind s.mimeType with
    | some mimeType => if mimeType.length ≤ 128 then mimeType else s.defaultMimeType
    | none => s.defaultMimeType

/-- What `deflate` makes of the data, if it is worth sending. -/
def gzip (p : Params) (mimeType data : Bytes) : Option (Nat × Bytes) :=
  if p.http.method ≠ some .head ∧ p.http.acceptGzip ∧ s.minGzipSize ≤ data.length ∧
      data.length ≤ s.maxGzipSize ∧ s.isGzipMimeType mimeType ∧ data ≠ [] then
    (s.deflate data).bind fun z =>
      if gzipSize z = 0 ∨ data.length ≤ (gzipSize z + 50) % 2 ^ 32 then none
      else some (s.crc32 data, z)
  else none

/-- What a handler leaves behind: the response (there is none while the connection waits for a
watch), `cache_item_`, the cache and the parameters. -/
structure Done (β : Type) where
  reply : Option Reply
  cacheItem : Option Ptr
  mgr : β
  params : Params

variable (m : β) (p : Params) (item : Option Ptr)

def processGet : Done β :=
  match getCacheItem B s m p false with
  | (.ok (it, expiration), m) =>
    let i := B.item m it
    let mimeType := getMimeType s i.ext p.key.bytes
    let reply :=
      if Reply.etag i.cacheId = p.http.entityTag then
        .notModified mimeType i.cacheId i.flags expiration
      else
        .content (p.http.method = some .head) mimeType i.cacheId i.flags expiration it i.data
          (gzip s p mimeType i.data)
    ⟨some reply, some it, m, p⟩
  | (.error .movedPermanently, m) => ⟨some (.movedPermanently p.key), item, m, p⟩
  | (.error reason, m) => ⟨some (.error reason), item, m, p⟩

def processGetBase : Done β :=
  match getCacheItem B s m p true with
  | (.ok (it, expiration), m) =>
    let i := B.item m it
    let mimeType := getMimeType s i.ext p.key.bytes
    ⟨some (.getBase mimeType i.cacheId i.flags expiration i.dataSize), item,
      B.releaseReference m it, p⟩
  | (.error reason, m) => ⟨some (.error reason), item, m, p⟩

/-- The texts are copied into the item, so they have to be there. -/
def processUpdate (verb : Verb) : Option (Done β) :=
  match B.exec m (.cache (.allocItem p.groupId p.key.length p.flags p.expiration p.value.length
    p.valueContentType.length)) with
  | (none, m) =>
    match B.exec m (.cache (.itemSizeOk p.key.length p.value.length p.valueContentType.length)) with
    | (true, m) => some ⟨some (.error (.cache .outOfMemory)), none, m, p⟩
    | (false, m) => some ⟨some (.error (.cache .tooLarge)), none, m, p⟩
  | (some it, m) =>
    if p.key.Inside ∧ p.value.Inside then
      let contents : Contents :=
        { key := p.key.bytes, data := p.value.bytes, ext := p.valueContentType, cacheId := p.cacheId }
      let (_, m) := B.exec m (.cache (.fill it contents))
      match B.exec m (.cache (.update verb it p.watchId)) with
      | ((.success, cacheId), m) =>
        some ⟨some (.update (cacheId.getD 0)), none, B.releaseReference m it, p⟩
      | ((reason, _), m) =>
        some ⟨some (.error (.cache reason)), none, B.releaseReference m it, p⟩
    else none

def processDelete : Done β :=
  match B.exec m (.cache (.remove p.groupId p.key.bytes p.cacheId)) with
  | (.success, m) => ⟨some .delete, item, m, p⟩
  | (reason, m) => ⟨some (.error (.cache reason)), item, m, p⟩

/-- `cache_id_` goes in and comes out. -/
def processDelta (incr : Bool) : Done β :=
  match B.exec m (.cache (.delta p.groupId p.key.bytes incr p.delta p.cacheId)) with
  | ((.success, cacheId, value), m) =>
    ⟨some (.delta value cacheId), item, m, { p with cacheId := cacheId }⟩
  | ((reason, cacheId, _), m) =>
    ⟨some (.error (.cache reason)), item, m, { p with cacheId := cacheId }⟩

/-- The answer of `update_flags` and `update_expiration`. -/
def baseReply (reply : Nat → Reply) : Bool × Nat → Reply
  | (true, cacheId) => reply cacheId
  | (false, cacheId) => .error (.cache (if cacheId ≠ 0 then .mismatch else .notFound))

def processUpdateFlags : Done β :=
  let (r, m) := B.exec m (.cache (.updateFlags p.groupId p.key.bytes p.cacheId p.flags))
  ⟨some (baseReply .updateFlags r), item, m, p⟩

def processTouch : Done β :=
  let (r, m) := B.exec m (.cache (.updateExpiration p.groupId p.key.bytes p.cacheId p.expiration))
  ⟨some (baseReply .touch r), item, m, p⟩

def processCreateWatch : Done β :=
  let (watchId, m) := B.exec m (.cache (.createWatch p.groupId p.interval))
  ⟨some (.createWatch watchId), item, m, p⟩

def processWatch : Done β :=
  match B.exec m (.cache
    (.checkWatchAndSetCallback p.groupId p.watchId p.ackSequence p.interval)) with
  | (none, m) => ⟨some (.error (.cache .watchNotFound)), item, m, p⟩
  | (some out, m) =>
    if 0 < out.updatedList.length then ⟨some (.updateList out.updatedList), item, m, p⟩
    else ⟨none, item, m, p⟩

def processFlush : Done β :=
  let (r, m) := B.exec m (.cache (.flush p.groupId))
  ⟨some (.flush r.1 r.2), item, m, p⟩

/-- `class_id` of the request is not set; `classId` is what the stack holds there. -/
def processStats (classId : UInt8) : Done β :=
  let (result, m) := B.exec m (.cache (.stats (p.subOp % 256) classId.toNat p.groupId))
  ⟨some (.stats result), item, m, p⟩

/-- A handler that reads the key. -/
def withKey (d : Done β) : Option (Done β) := if p.key.Inside then some d else none

/-- The handler of an operation; no result when it leaves the memory of the request. -/
def execute (classId : UInt8) : Operation → Option (Done β)
  | .error reason => some ⟨some (.error reason), item, m, p⟩
  | .get => withKey p (processGet B s m p item)
  | .getBase => withKey p (processGetBase B s m p item)
  | .update verb => processUpdate B m p verb
  | .delete => withKey p (processDelete B m p item)
  | .delta incr => withKey p (processDelta B m p item incr)
  | .flush => some (processFlush B m p item)
  | .touch => withKey p (processTouch B m p item)
  | .updateFlags => withKey p (processUpdateFlags B m p item)
  | .stats => some (processStats B m p item classId)
  | .watch => some (processWatch B m p item)
  | .createWatch => some (processCreateWatch B m p item)

end Handlers

/-! ## The peer -/

/-- An operation that has been executed: the bytes of its request, the cache before, the
parameters, and the response. -/
structure Served (β : Type) where
  bytes : Bytes
  mgr : β
  operation : Operation
  params : Params
  reply : Option Reply

/-- What the peer does, as seen from outside: it takes the bytes from `position` on for the head of
a request, executes an operation, and answers for a watch when the timer goes off. -/
inductive Event (β : Type)
  | head (position : Nat)
  | served (x : Served β)
  | notified (x : Served β)

structure Conn (β : Type) where
  state : PeerState
  nextState : PeerState
  nextDataLen : Nat
  params : Params
  /-- What has been written through `read_item_buf_`. -/
  postData : Bytes
  cacheItem : Option Ptr
  readBuffer : ReceiveBuffer
  writeBuf : List Piece
  pending : Option Io
  /-- `process` is running. -/
  run : Bool
  processReqestCount : Nat
  mgr : β
  /-- The bytes that the client has sent and the peer has not read. -/
  socket : Bytes
  /-- A handler or the parser has left the memory of the request. -/
  undefined : Bool
  /-- History: how many bytes have been consumed. -/
  position : Nat
  /-- History: the bytes of the current request that have been consumed. -/
  taken : Bytes
  /-- History: what the peer has done so far. -/
  log : List (Event β)

namespace Conn

variable {β : Type} (B : Backend β) (s : Settings) (c : Conn β)

/-- A response, and on to the next request. -/
def writeRes (r : Reply) : Conn β :=
  { c with
    writeBuf := r.addTo c.params.http.keepalive c.writeBuf
    state := .write
    nextState := .newCmd }

/-- The parser has found an operation and its parameters. -/
def serve (classId : UInt8) (operation : Operation) (p : Params) : Conn β :=
  match execute B s c.mgr p c.cacheItem classId operation with
  | none => { c with undefined := true, run := false }
  | some d =>
    let c : Conn β := { c with
      params := d.params
      cacheItem := d.cacheItem
      mgr := d.mgr
      log := c.log ++ [.served ⟨c.taken, c.mgr, operation, p, d.reply⟩] }
    match d.reply with
    | some r => c.writeRes r
    | none => { c with state := .asyncWait }

def resetForNewCmd : Conn β :=
  { c with
    mgr := c.cacheItem.elim c.mgr (B.releaseReference c.mgr)
    cacheItem := none
    params := .new
    postData := []
    nextDataLen := 2
    state := .readHeader
    taken := [] }

/-- The first `n` bytes of the receive buffer are done with. -/
def consume (n : Nat) : Conn β :=
  { c with
    readBuffer := c.readBuffer.advance n
    position := c.position + n
    taken := c.taken ++ c.readBuffer.data.take n }

/-- The first `n` bytes of the receive buffer are taken for the head of a request. -/
def takeHead (n : Nat) : Conn β :=
  { c.consume n with
    processReqestCount := c.processReqestCount + 1
    log := c.log ++ [.head c.position] }

/-- `process_request_header`. -/
def processHead (classId : UInt8) (header : Bytes) : Conn β :=
  match processRequestHeader s c.params header with
  | (.error reason, p) => c.serve B s classId (.error reason) p
  | (.readBody, p) =>
    { c with params := p, postData := [], nextDataLen := p.contentLength, state := .readBodyExtras }
  | (.command, p) =>
    let (operation, p) := processCommand s p
    c.serve B s classId operation p

/-- `handle_processed` and a `read_some` into the receive buffer; the socket has `n` bytes
ready. -/
def fillBuffer (n : Nat) : Conn β :=
  let b := c.readBuffer.handleProcessed
  let got := c.socket.take (min n b.getReadBufSize)
  if got.length = 0 then { c with readBuffer := b, run := false }
  else { c with readBuffer := { b with data := b.data ++ got }, socket := c.socket.drop got.length }

/-- `read_some` into the body. -/
def fillBody (n : Nat) : Conn β :=
  let got := c.socket.take (min n c.nextDataLen)
  if got.length = 0 then { c with run := false }
  else { c with
    postData := c.postData ++ got
    nextDataLen := c.nextDataLen - got.length
    socket := c.socket.drop got.length
    position := c.position + got.length
    taken := c.taken ++ got }

/-- What the receive buffer has of the body is copied. -/
def copyToBody : Conn β :=
  let tmp := min c.readBuffer.data.length c.nextDataLen
  { c with postData := c.postData ++ c.readBuffer.data.take tmp
           nextDataLen := c.nextDataLen - tmp }.consume tmp

/-- `PEER_STATUS_WRITE`: with ten bytes in the buffer, and no head read since `process` was
entered, the next request follows at once, and `reset_for_new_cmd` is skipped. -/
def processWrite : Conn β :=
  let next := if c.params.http.keepalive then c.nextState else .closing
  let c := { c with state := next, nextState := .newCmd }
  if c.state = .newCmd ∧ c.processReqestCount < 1 then
    if 10 ≤ c.readBuffer.data.length then { c with state := .readHeader, taken := [] }
    else { c with run := false }
  else { c with run := false }

/-- One iteration of the loop of `process`. -/
def iterate (n : Nat) (classId : UInt8) : Conn β :=
  match c.state with
  | .newCmd => c.resetForNewCmd B
  | .readHeader =>
    match memfind c.readBuffer.data (crlf ++ crlf) with
    | some (header, _) => (c.takeHead (header.length + 4)).processHead B s classId header
    | none =>
      if 8192 ≤ c.readBuffer.data.length then
        (c.takeHead c.readBuffer.data.length).serve B s classId (.error (.cache .tooLarge)) c.params
      else c.fillBuffer n
  | .readBodyExtras =>
    if c.nextDataLen = 0 then
      match processPost s c.params c.postData with
      | some (operation, p) => c.serve B s classId operation p
      | none => { c with undefined := true, run := false }
    else if 0 < c.readBuffer.data.length then c.copyToBody
    else c.fillBody n
  | .asyncWait => { c with run := false }
  | .write => c.processWrite
  | .closing => { c with state := .closed, run := false }
  | .closed | .readBodyFixed | .readBodyExtras2 | .swallow => { c with run := false }

/-! ### Around the loop -/

/-- `cleanup` in the destructor: nobody refers to the peer any more. -/
def destroy : Conn β :=
  { c with mgr := c.cacheItem.elim c.mgr (B.releaseReference c.mgr), cacheItem := none }

def tryRead : Conn β :=
  if c.pending = none then
    { c with pending := some .read, readBuffer := c.readBuffer.handleProcessed }
  else c

def tryWrite : Bool × Conn β :=
  if c.pending = none ∧ c.writeBuf ≠ [] then
    (true, { c with pending := some .write, writeBuf := [] })
  else (false, c)

/-- What `start`, `handle_read` and `handle_write` do after `process`. -/
def leave : Conn β :=
  let c :=
    if c.state ≠ .asyncWait then
      if c.state ≠ .closed then
        let (wrote, c) := c.tryWrite
        if wrote then c else c.tryRead
      else c
    else c.tryWrite.2
  if c.pending = none ∧ c.state ≠ .asyncWait then c.destroy B else c

/-- One iteration, and what follows the loop when it was the last. -/
def turn (n : Nat) (classId : UInt8) : Conn β :=
  let c := c.iterate B s n classId
  if c.run ∨ c.undefined then c else c.leave B

/-- `start` on the bytes that came with the connection; more of them than the receive
buffer takes and the peer is gone. -/
def start (b : β) (data socket : Bytes) : Conn β :=
  let c : Conn β :=
    { state := .newCmd, nextState := .newCmd, nextDataLen := 2, params := .new, postData := []
      cacheItem := none, readBuffer := .new, writeBuf := [], pending := none, run := false
      processReqestCount := 0, mgr := b, socket := socket, undefined := false, position := 0
      taken := [], log := [] }
  if data.length ≤ c.readBuffer.getReadBufSize then
    { c with readBuffer := { c.readBuffer with data := data }, run := true }
  else c

/-- Into `process`. -/
def enter : Conn β := { c with run := true, processReqestCount := 0 }

def handleRead (n : Nat) : Conn β :=
  let got := c.socket.take (min n c.readBuffer.getReadBufSize)
  { c with
    pending := none
    readBuffer := { c.readBuffer with data := c.readBuffer.data ++ got }
    socket := c.socket.drop got.length }.enter

def handleWrite : Conn β := { c with pending := none }.enter

/-- `handle_read` and `handle_write` with an error. -/
def handleError : Conn β :=
  let c := { c with pending := none }
  if c.state ≠ .asyncWait then c.destroy B else c

/-- The answer for a watch when the timer goes off. -/
def timerReply : Option CheckOut → Reply
  | none => .error (.cache .watchNotFound)
  | some out => .updateList out.updatedList

/-- The answer is queued. -/
def notify (watchId : Nat) : Conn β :=
  let (out, m) := B.exec c.mgr (.cache (.checkWatchAndClearCallback watchId))
  let served : Served β := ⟨c.taken, c.mgr, .watch, c.params, some (timerReply out)⟩
  { c with mgr := m, log := c.log ++ [Event.notified served] }.writeRes (timerReply out)

def handleTimer (watchId : Nat) : Conn β := (c.notify B watchId).tryWrite.2

end Conn

/-! ## Runs of a connection -/

/-- `turn` is one iteration inside `process`, with what the stack holds where `process_stats`
leaves it; the others are the completions that the socket and the timer report. -/
inductive Action
  | turn (n : Nat) (classId : UInt8)
  | handleRead (n : Nat)
  | handleWrite
  | handleError
  | handleTimer (watchId : Nat)
deriving DecidableEq, Repr

namespace Conn

variable {β : Type} (B : Backend β) (s : Settings) (c : Conn β)

def next : Action → Conn β
  | .turn n classId => c.turn B s n classId
  | .handleRead n => c.handleRead n
  | .handleWrite => c.handleWrite
  | .handleError => c.handleError B
  | .handleTimer w => c.handleTimer B w

/-- `lock_` is held while `process` runs; a completion belongs to an operation that is under way;
the timer is set by the request that waits. -/
def Permitted : Action → Prop
  | .turn _ _ => c.run = true
  | .handleRead _ => c.run = false ∧ c.pending = some .read ∧ c.undefined = false
  | .handleWrite => c.run = false ∧ c.pending = some .write ∧ c.undefined = false
  | .handleError => c.run = false ∧ c.pending ≠ none ∧ c.undefined = false
  | .handleTimer w =>
    c.run = false ∧ c.state = .asyncWait ∧ c.params.watchId = w ∧ c.undefined = false

instance : DecidablePred c.Permitted
  | .turn _ _ => inferInstanceAs (Decidable (c.run = true))
  | .handleRead _ => inferInstanceAs (Decidable (_ ∧ _ ∧ _))
  | .handleWrite => inferInstanceAs (Decidable (_ ∧ _ ∧ _))
  | .handleError => inferInstanceAs (Decidable (_ ∧ _ ∧ _))
  | .handleTimer _ => inferInstanceAs (Decidable (_ ∧ _ ∧ _ ∧ _))

def Step (a : Action) (c' : Conn β) : Prop := c.Permitted a ∧ c' = c.next B s a

end Conn

/-! ## A small server -/

/-- The settings of a server without files, and without compression. -/
def Settings.small : Settings where
  itemSizeMax := 1048576
  managerBaseUrl := ascii "/manager/"
  homeDir := ascii "/xixibase/"
  welcomeFileList := [ascii "index.html"]
  defaultCacheExpiration := 0
  minGzipSize := 512
  maxGzipSize := 0
  mimeType _ := none
  isGzipMimeType _ := false
  defaultMimeType := ascii "text/html"
  defaultMimeType_le := by decide +kernel
  pathElements _ := []
  deflate _ := none
  crc32 _ := 0
  behindWatch := []

/-- A peer of the small manager. -/
def smallBackend : Backend (CacheMgr × Nat) :=
  cacheMgrBackend (.colliding .uint16) .small (fun _ => none) 7 (fun _ => .zeros)
    fun s _ _ _ => ([], s)

/-- The connection that has been opened with these bytes, `socket` being on the way. -/
def Conn.opened (data socket : Bytes) : Conn (CacheMgr × Nat) :=
  .start ((Sys.small .uint16).mgr, 0) data socket

end Xixi.Http
