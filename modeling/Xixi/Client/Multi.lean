import Xixi.Client.Protocol
import Xixi.Lib.Run

/-!
# Batches of the Java client (`MultiGet.java` and its siblings)

A batch puts as many requests into `outBuffer` as it takes and writes it to a socket that does not
block, whenever the socket is writable. When a write has taken nothing, the buffer is filled again.

After a write of 0 bytes with nothing left to encode the code asks for reading only; here the socket
can be written to again.

1. `Connection.processRequest`: what is done when the socket is writable.
2. `Connection.Calm`: a write takes nothing only if nothing was left.
3. `sent_of_run`: in a run of such writes the frames are sent one after the other.
4. `UpdateConnection`: the connection of `MultiUpdate`, which keeps the item that did not fit.
   `processRequest_some`: it is the one that comes next, so that a batch of updates is a `Multi`.
5. `lossless_of_run`: in a run of patient writes every frame is sent, when nothing is left.
6. `Request.TellsKey`: a frame announces as many bytes of the key as it has. `keyLength_told`:
   when a single operation and when a batch sends only such frames.
7. `keyLength_lies`: a key of 65536 bytes, and a write that takes nothing.
-/

namespace Xixi.Client
open Lib PeerCache

/-! ## The length of the key in a frame -/

namespace Request

/-- Where `key_length` stands in a frame, if there is one. -/
def keyLengthOffset : Request → Option Nat
  | .get .. => some (2 + 8)
  | .getTouch .. => some (2 + 12)
  | .getBase .. => some (2 + 4)
  | .update .. => some (2 + 25)
  | .updateFlags .. | .updateExpiration .. => some (2 + 17)
  | .delete .. => some (2 + 13)
  | .delta .. => some (2 + 21)
  | .flush .. | .stats .. | .createWatch .. | .checkWatch .. => none

/-- What the operation puts, with its data. -/
def chunks (q : Request) : List Bytes :=
  match q with
  | .update _ _ _ _ _ _ _ data => q.puts ++ [data]
  | _ => q.puts

/-- The bytes of a request. -/
def bytes (q : Request) : Bytes := q.puts.flatten ++ q.data

/-- The frame announces as many bytes of the key as it has. -/
def TellsKey (q : Request) (frame : Bytes) : Prop :=
  ∀ n, q.keyLengthOffset = some n → (getU16 (frame.drop n)).toNat = q.key.length

/-- How much stands in front of the key. -/
def headLength (q : Request) : Nat := 2 + q.pdu.choice.fixedBodySize

end Request

/-! ## Batches -/

/-- What is asked of `MultiGet`, `MultiDelete` and `MultiUpdateExpiration`, on one connection, and
what a `MultiUpdate` comes to: an item of an update is `cacheID`, the flags and `expiration`, the
key and the data. -/
inductive Multi
  | get (groupId : Int32) (keys : List Bytes)
  | update (verb : Verb) (groupId : Int32) (items : List (Int64 × Int32 × Int32 × Bytes × Bytes))
  | delete (groupId : Int32) (items : List (Int64 × Bytes))
  | updateExpiration (groupId : Int32) (items : List (Int64 × Int32 × Bytes))
deriving DecidableEq, Repr

namespace Multi

/-- The requests of a batch; none of them asks for a watch. -/
def requests : Multi → List Request
  | .get g keys => keys.map fun key => .get g 0 key
  | .update verb g items => items.map fun (id, fl, x, key, data) => .update verb id g fl x 0 key data
  | .delete g items => items.map fun (id, key) => .delete id g key
  | .updateExpiration g items => items.map fun (id, x, key) => .updateExpiration id g x key

/-- What `totalLen` adds to the lengths of the key and the data. -/
def overhead : Multi → Nat
  | .get .. => 12
  | .update .. => 33
  | .delete .. => 17
  | .updateExpiration .. => 21

/-- `totalLen`, an `int`. -/
def totalLen (b : Multi) (q : Request) : Int :=
  (Int32.ofNat (b.overhead + q.key.length + q.data.length)).toInt

/-- The puts of one request behind what has been put; `none` is `BufferOverflowException`. -/
def putRequest (limit : Nat) (content : Bytes) (q : Request) : Option Bytes :=
  (q.chunks.foldlM Socket.put ⟨limit, content, []⟩).map Socket.content

/-- The loop of `encode`. -/
def encodeLoop (b : Multi) (limit : Nat) (content : Bytes) : List Request → Option (Bytes × List Request)
  | [] => some (content, [])
  | q :: rest =>
    if (limit : Int) - content.length < b.totalLen q then some (content, q :: rest)
    else (putRequest limit content q).bind fun content => encodeLoop b limit content rest

/-- `encode`, into a buffer with this limit: what has been put, and the requests that are left. -/
def encode (b : Multi) (limit : Nat) : List Request → Option (Bytes × List Request)
  | [] => none
  | q :: rest =>
    let limit := if (limit : Int) < b.totalLen q then (b.totalLen q).toNat else limit
    (putRequest limit [] q).bind fun content => b.encodeLoop limit content rest

end Multi

/-- `Connection` of a batch: what has been put into `outBuffer`, how much of it has been written, the
requests that have not been put, and what has been written to the socket so far. -/
structure Connection where
  content : Bytes
  position : Nat
  rest : List Request
  sent : Bytes
deriving DecidableEq, Repr

namespace Connection

variable (b : Multi) (c : Connection)

/-- `init`, with a buffer of this size: the write buffer of the socket, or 64 KiB for
`MultiUpdate`. -/
def init (limit : Nat) : Option Connection :=
  (b.encode limit b.requests).map fun (content, rest) => ⟨content, 0, rest, []⟩

/-- `socket.write(outBuffer)`, that takes `n` bytes or all that are left. -/
def write (n : Nat) : Connection :=
  let n := min n (c.content.length - c.position)
  { c with
    position := c.position + n
    sent := c.sent ++ (c.content.drop c.position).take n }

/-- `processRequest`. `n` and `m` are what the socket takes in the two writes. After `flip` the
limit of the buffer is where its position was. -/
def processRequest (n m : Nat) : Option Connection :=
  if 0 < min n (c.content.length - c.position) then some (c.write n)
  else if c.rest = [] then some c
  else (b.encode c.position c.rest).map fun (content, rest) =>
    ({ c with content := content, position := 0, rest := rest } : Connection).write m

def Step (a : Nat × Nat) (c' : Connection) : Prop := c.processRequest b a.1 a.2 = some c'

/-- The first write takes nothing only if nothing was left. -/
def Calm (a : Nat × Nat) : Prop := a.1 = 0 → c.position = c.content.length

/-- While there are requests that have not been put, a write takes nothing only if nothing was
left. -/
def Patient (a : Nat × Nat) : Prop := c.rest ≠ [] → c.Calm a

instance (a : Nat × Nat) : Decidable (c.Patient a) := inferInstanceAs (Decidable (_ → _ → _))

/-- What has been sent are the frames in turn, and all of them when every request has been put and
the buffer has been written. -/
structure Lossless : Prop where
  inOrder : c.sent <+: (b.requests.map Request.bytes).flatten
  whole : c.rest = [] → c.position = c.content.length → c.sent = (b.requests.map Request.bytes).flatten

/-- The requests whose frame starts before the first `n` bytes end. -/
def reached : Nat → List Request → List Request
  | _, [] => []
  | n, q :: rest => if n = 0 then [] else q :: reached (n - q.bytes.length) rest

/-- What has been sent are the frames in turn, and each that has been sent, if only in part,
announces its key as it is. -/
def Honest : Prop :=
  c.sent <+: (b.requests.map Request.bytes).flatten ∧
    ∀ q ∈ reached c.sent.length b.requests, q.TellsKey q.bytes

end Connection

/-! ## What a batch sends -/

namespace MultiLemmas

theorem flatten_chunks (q : Request) : q.chunks.flatten = q.bytes := by
  cases q with
  | update verb id g fl x w key data =>
    rw [Request.chunks, List.flatten_append, List.flatten_singleton]
    rfl
  | get _ _ _ | getTouch _ _ _ _ | getBase _ _ | updateFlags _ _ _ _ | updateExpiration _ _ _ _
  | delete _ _ _ | delta _ _ _ _ _ | flush _ | stats _ _ _ | createWatch _ _
  | checkWatch _ _ _ _ _ => exact (List.append_nil _).symm

theorem content_of_put {l : List Bytes} {s s' : Socket} (h : l.foldlM Socket.put s = some s') :
    s'.content = s.content ++ l.flatten := by
  induction l generalizing s with
  | nil =>
    rw [← Option.some.inj h]
    exact (List.append_nil _).symm
  | cons bytes l ih =>
    rw [List.foldlM_cons, Socket.put] at h
    split at h
    · rw [ih h, List.flatten_cons, List.append_assoc]
    · cases h

theorem putRequest_some {limit : Nat} {content content' : Bytes} {q : Request}
    (h : Multi.putRequest limit content q = some content') : content' = content ++ q.bytes := by
  obtain ⟨s, hs, rfl⟩ := Option.map_eq_some_iff.mp h
  rw [content_of_put hs, flatten_chunks]

variable {b : Multi}

theorem encodeLoop_some {limit : Nat} {content content' : Bytes} {l rest : List Request}
    (h : b.encodeLoop limit content l = some (content', rest)) :
    ∃ new, l = new ++ rest ∧ content' = content ++ (new.map Request.bytes).flatten := by
  induction l generalizing content with
  | nil =>
    obtain ⟨rfl, rfl⟩ := Prod.mk.inj (Option.some.inj h)
    exact ⟨[], rfl, (List.append_nil _).symm⟩
  | cons q l ih =>
    rw [Multi.encodeLoop] at h
    split at h
    · obtain ⟨rfl, rfl⟩ := Prod.mk.inj (Option.some.inj h)
      exact ⟨[], rfl, (List.append_nil _).symm⟩
    · obtain ⟨content₁, hput, hloop⟩ := Option.bind_eq_some_iff.mp h
      obtain ⟨new, rfl, rfl⟩ := ih hloop
      refine ⟨q :: new, rfl, ?_⟩
      rw [putRequest_some hput, List.map_cons, List.flatten_cons, List.append_assoc]

theorem encode_some {limit : Nat} {content : Bytes} {l rest : List Request}
    (h : b.encode limit l = some (content, rest)) :
    ∃ new, l = new ++ rest ∧ content = (new.map Request.bytes).flatten := by
  cases l with
  | nil => exact nomatch h
  | cons q l =>
    obtain ⟨content₁, hput, hloop⟩ := Option.bind_eq_some_iff.mp h
    obtain ⟨new, rfl, rfl⟩ := encodeLoop_some hloop
    refine ⟨q :: new, rfl, ?_⟩
    rw [putRequest_some hput, List.map_cons, List.flatten_cons, List.nil_append]

/-- The requests `done` have been sent or wait in the buffer. -/
structure Sending (b : Multi) (c : Connection) : Prop where
  position : c.position ≤ c.content.length
  sent : ∃ done, b.requests = done ++ c.rest ∧
    c.sent ++ c.content.drop c.position = (done.map Request.bytes).flatten

variable {c c' : Connection}

theorem sending_write (h : Sending b c) (n : Nat) : Sending b (c.write n) := by
  obtain ⟨done, hdone, hsent⟩ := h.sent
  have hn : min n (c.content.length - c.position) ≤ c.content.length - c.position :=
    Nat.min_le_right _ _
  refine ⟨?_, done, hdone, ?_⟩
  · show c.position + min n (c.content.length - c.position) ≤ c.content.length
    have := h.position
    omega
  · generalize hw : min n (c.content.length - c.position) = w
    have hwrite : c.write n = { c with
        position := c.position + w, sent := c.sent ++ (c.content.drop c.position).take w } := by
      rw [Connection.write, hw]
    rw [hwrite]
    show c.sent ++ (c.content.drop c.position).take w ++ c.content.drop (c.position + w) = _
    rw [← List.drop_drop, List.append_assoc, List.take_append_drop, hsent]

theorem sending_init {limit : Nat} (h : Connection.init b limit = some c) : Sending b c := by
  obtain ⟨⟨content, rest⟩, henc, rfl⟩ := Option.map_eq_some_iff.mp h
  obtain ⟨new, hnew, hcontent⟩ := encode_some henc
  exact ⟨Nat.zero_le _, new, hnew, hcontent⟩

/-- One call of `processRequest`. -/
theorem sending_step {a : Nat × Nat} (h : Sending b c) (hcalm : c.Patient a) (hstep : c.Step b a c') :
    Sending b c' := by
  rw [Connection.Step, Connection.processRequest] at hstep
  split at hstep
  · rw [← Option.some.inj hstep]
    exact sending_write h a.1
  · next hnone =>
    split at hstep
    · rw [← Option.some.inj hstep]
      exact h
    · next hrest =>
      obtain ⟨⟨content, rest⟩, henc, rfl⟩ := Option.map_eq_some_iff.mp hstep
      obtain ⟨new, hnew, hcontent⟩ := encode_some henc
      obtain ⟨done, hdone, hsent⟩ := h.sent
      -- the buffer has been sent as a whole
      have hall : c.position = c.content.length := by
        rcases Nat.eq_zero_or_pos a.1 with hzero | hpos
        · exact hcalm hrest hzero
        · have := h.position
          omega
      rw [hall, List.drop_length, List.append_nil] at hsent
      refine sending_write ⟨Nat.zero_le _, done ++ new, ?_, ?_⟩ a.2
      · rw [hdone, hnew, List.append_assoc]
      · show c.sent ++ content = _
        rw [hsent, hcontent, List.map_append, List.flatten_append]

/-- In a run of patient writes. -/
theorem sending_run {limit : Nat} {c₀ : Connection} {t : List (Connection × (Nat × Nat))}
    (hinit : Connection.init b limit = some c₀) (hrun : Run (Connection.Step b) c₀ t c)
    (hcalm : ∀ x ∈ t, x.1.Patient x.2) : Sending b c := by
  have hstep : ∀ c a c', Sending b c → c.Patient a ∧ c.Step b a c' → Sending b c' :=
    fun _ _ _ h hx => sending_step h hx.1 hx.2
  exact (hrun.restrict hcalm).invariant hstep (sending_init hinit)

theorem sent_within (h : Sending b c) : c.sent <+: (b.requests.map Request.bytes).flatten := by
  obtain ⟨done, hdone, hsent⟩ := h.sent
  have hpre : c.sent <+: (done.map Request.bytes).flatten := ⟨_, hsent⟩
  rw [hdone, List.map_append, List.flatten_append]
  exact hpre.trans (List.prefix_append _ _)

theorem lossless_of_sending (h : Sending b c) : c.Lossless b := by
  refine ⟨sent_within h, fun hrest hall => ?_⟩
  obtain ⟨done, hdone, hsent⟩ := h.sent
  rw [hrest, List.append_nil] at hdone
  rw [hall, List.drop_length, List.append_nil] at hsent
  rw [hsent, hdone]

end MultiLemmas

open MultiLemmas

/-- In a run of writes that take nothing only if nothing was left, the frames are sent one after
the other. -/
theorem Connection.sent_of_run {b : Multi} {limit : Nat} {c₀ c : Connection}
    {t : List (Connection × (Nat × Nat))} (hinit : init b limit = some c₀)
    (hrun : Run (Step b) c₀ t c) (hcalm : ∀ x ∈ t, x.1.Calm x.2) :
    c.sent <+: (b.requests.map Request.bytes).flatten :=
  sent_within (sending_run hinit hrun fun x hx _ => hcalm x hx)

/-! ## Updates (`MultiUpdate.java`) -/

/-- What `encode` reads of a `MultiUpdateItem`. -/
structure MultiUpdateItem (V : Type) where
  cacheId : Int64
  expiration : Int32
  value : V
deriving DecidableEq

/-- What a `MultiUpdate` writes on one connection: `items` with `keyBuffers`, and what
`transCoder.encode` makes of a value, the bytes and the flags. -/
structure UpdateBatch (V : Type) where
  verb : Verb
  groupId : Int32
  transCoder : V → Bytes × Int32
  items : List (MultiUpdateItem V × Bytes)

/-- `item`, `keyBuf`, `data` and `flags` of the connection: they stay from one call of `encode` to
the next. -/
structure Carried (V : Type) where
  item : MultiUpdateItem V
  keyBuf : Bytes
  data : Bytes
  flags : Int32
deriving DecidableEq

/-- What is read and encoded for an item. -/
def UpdateBatch.read {V : Type} (b : UpdateBatch V) (item : MultiUpdateItem V × Bytes) :
    Carried V :=
  let (data, flags) := b.transCoder item.1.value
  ⟨item.1, item.2, data, flags⟩

/-- The fields of `MultiUpdate.Connection`; nothing is carried as long as they are `null`. What has
been put into `outBuffer`, how much of it has been written, and what has been written to the socket
so far are as in `Connection`. -/
structure UpdateConnection (V : Type) where
  currKeyIndex : Nat
  carried : Option (Carried V)
  dataSize : Nat
  content : Bytes
  position : Nat
  sent : Bytes
deriving DecidableEq

namespace UpdateConnection

variable {V : Type} (b : UpdateBatch V) (c : UpdateConnection V)

/-- The item at `currKeyIndex` is read; `none` is `IndexOutOfBoundsException`. -/
def load : Option (UpdateConnection V) :=
  b.items[c.currKeyIndex]?.map fun item =>
    { c with carried := some (b.read item), dataSize := (b.read item).data.length }

/-- `totalLen`, an `int`. -/
def totalLen (keyBuf : Bytes) : Int := (Int32.ofNat (33 + keyBuf.length + c.dataSize)).toInt

/-- What is put for the item. -/
def puts (x : Carried V) : List Bytes :=
  [putByte categoryCache, putByte Kind.update.reqType, putByte (subOp b.verb ||| replyFlag),
    putLong x.item.cacheId, putInt b.groupId, putInt x.flags, putInt x.item.expiration, putInt 0,
    putShort (Request.shortLength x.keyBuf), putInt (.ofNat c.dataSize), x.keyBuf, x.data]

/-- The puts of the item, and `currKeyIndex++`; `none` is `BufferOverflowException`. -/
def putFrame (limit : Nat) (x : Carried V) : Option (UpdateConnection V) :=
  ((c.puts b x).foldlM Socket.put ⟨limit, c.content, []⟩).map fun s =>
    { c with content := s.content, currKeyIndex := c.currKeyIndex + 1 }

/-- The loop of `encode`; each turn but the last puts an item. -/
def encodeLoop (limit : Nat) : Nat → UpdateConnection V → Option (UpdateConnection V)
  | 0, c => some c
  | turns + 1, c =>
    if c.currKeyIndex < b.items.length then
      (c.load b).bind fun c =>
        c.carried.bind fun x =>
          -- the item is left for the next call
          if (limit : Int) - c.content.length < c.totalLen x.keyBuf then some c
          else (c.putFrame b limit x).bind (encodeLoop limit turns)
    else some c

/-- `encode`, into a buffer with this limit. -/
def encode (limit : Nat) : Option (UpdateConnection V) :=
  (if c.dataSize = 0 then c.load b else some c).bind fun c =>
    c.carried.bind fun x =>
      let totalLen := c.totalLen x.keyBuf
      let limit := if (limit : Int) < totalLen then totalLen.toNat else limit
      (({ c with content := [] } : UpdateConnection V).putFrame b limit x).bind
        (encodeLoop b limit b.items.length)

/-- The connection with its first values. -/
def start : UpdateConnection V := ⟨0, none, 0, [], 0, []⟩

/-- `init`, with a buffer of this size, 64 KiB. -/
def init (limit : Nat) : Option (UpdateConnection V) := start.encode b limit

/-- `socket.write(outBuffer)`, as in `Connection`. -/
def write (n : Nat) : UpdateConnection V :=
  let n := min n (c.content.length - c.position)
  { c with
    position := c.position + n
    sent := c.sent ++ (c.content.drop c.position).take n }

/-- `processRequest`. `n` and `m` are what the socket takes in the two writes. -/
def processRequest (n m : Nat) : Option (UpdateConnection V) :=
  if 0 < min n (c.content.length - c.position) then some (c.write n)
  else if b.items.length ≤ c.currKeyIndex then some c
  else (c.encode b c.position).map fun c => ({ c with position := 0 } : UpdateConnection V).write m

def Step (a : Nat × Nat) (c' : UpdateConnection V) : Prop := c.processRequest b a.1 a.2 = some c'

/-- While there are items that have not been put, a write takes nothing only if nothing was left. -/
def Patient (a : Nat × Nat) : Prop :=
  c.currKeyIndex < b.items.length → a.1 = 0 → c.position = c.content.length

instance (a : Nat × Nat) : Decidable (c.Patient b a) := inferInstanceAs (Decidable (_ → _ → _))

end UpdateConnection

/-- The request of an item. -/
def UpdateBatch.request {V : Type} (b : UpdateBatch V) (item : MultiUpdateItem V × Bytes) :
    Request :=
  let x := b.read item
  .update b.verb x.item.cacheId b.groupId x.flags x.item.expiration 0 x.keyBuf x.data

/-- What has been sent are the frames of the items in turn, and all of them when every item has been
put and the buffer has been written. -/
structure UpdateConnection.Lossless {V : Type} (b : UpdateBatch V) (c : UpdateConnection V) :
    Prop where
  inOrder : c.sent <+: (b.items.map fun item => (b.request item).bytes).flatten
  whole : b.items.length ≤ c.currKeyIndex → c.position = c.content.length →
    c.sent = (b.items.map fun item => (b.request item).bytes).flatten

namespace MultiLemmas

variable {V : Type} {b : UpdateBatch V} {c c' : UpdateConnection V}
  {item : MultiUpdateItem V × Bytes} {limit : Nat}

/-- The same batch as a list of requests. -/
def multi (b : UpdateBatch V) : Multi :=
  .update b.verb b.groupId (b.items.map fun item =>
    let x := b.read item
    (x.item.cacheId, x.flags, x.item.expiration, x.keyBuf, x.data))

/-- The connection without what it carries. -/
def plain (b : UpdateBatch V) (c : UpdateConnection V) : Connection :=
  ⟨c.content, c.position, (multi b).requests.drop c.currKeyIndex, c.sent⟩

/-- The fields are those of this item. -/
structure Loaded (b : UpdateBatch V) (c : UpdateConnection V) (item : MultiUpdateItem V × Bytes) :
    Prop where
  here : b.items[c.currKeyIndex]? = some item
  carried : c.carried = some (b.read item)
  size : c.dataSize = (b.read item).data.length

/-- What is carried belongs to the item that comes next, if there is one, or is read again. -/
def Carries (b : UpdateBatch V) (c : UpdateConnection V) : Prop :=
  c.currKeyIndex < b.items.length → c.dataSize = 0 ∨ ∃ item, Loaded b c item

/-- `encode` or its loop has come to `c'`, as that of the plain connection has. -/
structure Encoded (b : UpdateBatch V) (c c' : UpdateConnection V)
    (r : Option (Bytes × List Request)) : Prop where
  result : r = some (c'.content, (multi b).requests.drop c'.currKeyIndex)
  carries : Carries b c'
  position : c'.position = c.position
  sent : c'.sent = c.sent

theorem requests_multi (b : UpdateBatch V) : (multi b).requests = b.items.map b.request := by
  rw [multi, Multi.requests, List.map_map]
  rfl

theorem drop_requests (h : b.items[c.currKeyIndex]? = some item) :
    (multi b).requests.drop c.currKeyIndex =
      b.request item :: (multi b).requests.drop (c.currKeyIndex + 1) := by
  obtain ⟨hlt, hitem⟩ := List.getElem?_eq_some_iff.mp h
  rw [requests_multi, List.drop_eq_getElem_cons (by rwa [List.length_map]), List.getElem_map, hitem]

theorem loaded_of_load (h : c.load b = some c') : ∃ item, Loaded b c' item ∧
    c' = { c with carried := some (b.read item), dataSize := (b.read item).data.length } := by
  obtain ⟨item, hitem, rfl⟩ := Option.map_eq_some_iff.mp h
  exact ⟨item, ⟨hitem, rfl, rfl⟩, rfl⟩

theorem totalLen_loaded (h : Loaded b c item) :
    c.totalLen (b.read item).keyBuf = (multi b).totalLen (b.request item) := by
  rw [UpdateConnection.totalLen, h.size]
  rfl

/-- What is put is the request of the item. -/
theorem putFrame_loaded (h : Loaded b c item) (hput : c.putFrame b limit (b.read item) = some c') :
    Multi.putRequest limit c.content (b.request item) = some c'.content ∧
      c' = { c with content := c'.content, currKeyIndex := c.currKeyIndex + 1 } := by
  have hputs : c.puts b (b.read item) = (b.request item).chunks := by
    rw [UpdateConnection.puts, h.size]
    rfl
  rw [UpdateConnection.putFrame, hputs] at hput
  obtain ⟨s, hs, rfl⟩ := Option.map_eq_some_iff.mp hput
  exact ⟨Option.map_eq_some_iff.mpr ⟨s, hs, rfl⟩, rfl⟩

theorem encoded_end (h : b.items.length ≤ c.currKeyIndex) :
    Encoded b c c ((multi b).encodeLoop limit c.content
      ((multi b).requests.drop c.currKeyIndex)) := by
  have hnone : (multi b).requests.drop c.currKeyIndex = [] := by
    rw [requests_multi]
    exact List.drop_eq_nil_of_le (by rwa [List.length_map])
  refine ⟨?_, fun hlt => absurd hlt (Nat.not_lt.mpr h), rfl, rfl⟩
  rw [hnone]
  rfl

/-- The loop comes to the same end, and what it carries is the item that did not fit. -/
theorem encodeLoop_some_update {turns : Nat} (hturns : b.items.length ≤ c.currKeyIndex + turns)
    (h : c.encodeLoop b limit turns = some c') :
    Encoded b c c' ((multi b).encodeLoop limit c.content
      ((multi b).requests.drop c.currKeyIndex)) := by
  induction turns generalizing c with
  | zero =>
    rw [← Option.some.inj h]
    exact encoded_end hturns
  | succ turns ih =>
    rw [UpdateConnection.encodeLoop] at h
    split at h
    · obtain ⟨c₁, hload, h⟩ := Option.bind_eq_some_iff.mp h
      obtain ⟨item, hloaded, rfl⟩ := loaded_of_load hload
      have hhere : b.items[c.currKeyIndex]? = some item := hloaded.here
      rw [hloaded.carried, Option.bind_some, totalLen_loaded hloaded] at h
      rw [drop_requests hhere, Multi.encodeLoop]
      split at h
      · next hfull =>
        rw [← Option.some.inj h, if_pos hfull, ← drop_requests hhere]
        exact ⟨rfl, fun _ => .inr ⟨item, hloaded⟩, rfl, rfl⟩
      · next hroom =>
        obtain ⟨c₂, hput, hloop⟩ := Option.bind_eq_some_iff.mp h
        obtain ⟨hrequest, hsame⟩ := putFrame_loaded hloaded hput
        have hnext : c₂.currKeyIndex = c.currKeyIndex + 1 := by rw [hsame]
        have hrest := ih (by omega) hloop
        rw [hnext] at hrest
        rw [if_neg hroom]
        refine ⟨?_, hrest.carries, ?_, ?_⟩
        · exact (congrArg (Option.bind · _) hrequest).trans hrest.result
        · exact hrest.position.trans (by rw [hsame])
        · exact hrest.sent.trans (by rw [hsame])
    · next hend =>
      rw [← Option.some.inj h]
      exact encoded_end (Nat.not_lt.mp hend)

/-- `encode` puts what the plain one puts: the item that it carries is the next one. -/
theorem encode_some_update (hc : c.dataSize = 0 ∨ ∃ item, Loaded b c item)
    (h : c.encode b limit = some c') :
    Encoded b c c' ((multi b).encode limit ((multi b).requests.drop c.currKeyIndex)) := by
  obtain ⟨c₁, hread, h⟩ := Option.bind_eq_some_iff.mp h
  obtain ⟨item, hloaded, hsame⟩ : ∃ item, Loaded b c₁ item ∧
      c₁ = { c with carried := c₁.carried, dataSize := c₁.dataSize } := by
    split at hread
    · obtain ⟨item, hloaded, hsame⟩ := loaded_of_load hread
      exact ⟨item, hloaded, by rw [hsame]⟩
    · next hsize =>
      obtain ⟨item, hloaded⟩ := hc.resolve_left hsize
      rw [← Option.some.inj hread]
      exact ⟨item, hloaded, rfl⟩
  have hindex : c₁.currKeyIndex = c.currKeyIndex := by rw [hsame]
  rw [hloaded.carried, Option.bind_some, totalLen_loaded hloaded] at h
  obtain ⟨c₂, hput, hloop⟩ := Option.bind_eq_some_iff.mp h
  have hfresh : Loaded b { c₁ with content := [], carried := some (b.read item) } item :=
    ⟨hloaded.here, rfl, hloaded.size⟩
  obtain ⟨hrequest, hsame'⟩ := putFrame_loaded hfresh hput
  have hnext : c₂.currKeyIndex = c.currKeyIndex + 1 := by rw [hsame', ← hindex]
  have hrest := encodeLoop_some_update (by omega) hloop
  rw [hnext] at hrest
  rw [← hindex, drop_requests hloaded.here, hindex]
  refine ⟨?_, hrest.carries, ?_, ?_⟩
  · exact (congrArg (Option.bind · _) hrequest).trans hrest.result
  · exact hrest.position.trans (by rw [hsame', hsame])
  · exact hrest.sent.trans (by rw [hsame', hsame])

theorem carries_write (h : Carries b c) (n : Nat) : Carries b (c.write n) := by
  intro hlt
  rcases h hlt with hsize | ⟨item, hhere, hcarried, hsize⟩
  · exact .inl hsize
  · exact .inr ⟨item, hhere, hcarried, hsize⟩

theorem init_some (h : UpdateConnection.init b limit = some c) :
    Connection.init (multi b) limit = some (plain b c) ∧ Carries b c := by
  have hencoded := encode_some_update (.inl rfl) h
  rw [UpdateConnection.start, List.drop_zero] at hencoded
  refine ⟨?_, hencoded.carries⟩
  rw [Connection.init, hencoded.result, plain, hencoded.position, hencoded.sent]
  rfl

/-- A call of `processRequest` is one of the plain connection. -/
theorem processRequest_some {n m : Nat} (hc : Carries b c)
    (h : c.processRequest b n m = some c') :
    (plain b c).processRequest (multi b) n m = some (plain b c') ∧ Carries b c' := by
  have hrest : (plain b c).rest = [] ↔ b.items.length ≤ c.currKeyIndex := by
    rw [plain, requests_multi, List.drop_eq_nil_iff, List.length_map]
  rw [UpdateConnection.processRequest] at h
  rw [Connection.processRequest]
  split at h
  · next htaken =>
    rw [← Option.some.inj h]
    exact ⟨if_pos htaken, carries_write hc n⟩
  · next hnone =>
    have hplain : ¬ 0 < min n ((plain b c).content.length - (plain b c).position) := hnone
    rw [if_neg hplain]
    split at h
    · next hend =>
      rw [← Option.some.inj h, if_pos (hrest.mpr hend)]
      exact ⟨rfl, hc⟩
    · next hmore =>
      obtain ⟨c₁, hencode, rfl⟩ := Option.map_eq_some_iff.mp h
      have hencoded := encode_some_update (hc (Nat.not_le.mp hmore)) hencode
      rw [if_neg (mt hrest.mp hmore)]
      have hwrite : plain b (UpdateConnection.write { c₁ with position := 0 } m) = Connection.write
          ⟨c₁.content, 0, (multi b).requests.drop c₁.currKeyIndex, c.sent⟩ m := by
        rw [← hencoded.sent]
        rfl
      refine ⟨?_, carries_write (fun hlt => ?_) m⟩
      · show ((multi b).encode c.position ((multi b).requests.drop c.currKeyIndex)).map _ = _
        rw [hencoded.result, Option.map_some, hwrite]
        rfl
      · rcases hencoded.carries hlt with hsize | ⟨item, hhere, hcarried, hsize⟩
        · exact .inl hsize
        · exact .inr ⟨item, hhere, hcarried, hsize⟩

/-- A run of patient writes is one of the plain connection. -/
theorem sending_plain {c₀ : UpdateConnection V} {t : List (UpdateConnection V × (Nat × Nat))}
    (hinit : UpdateConnection.init b limit = some c₀) (hrun : Run (UpdateConnection.Step b) c₀ t c)
    (hpatient : ∀ x ∈ t, x.1.Patient b x.2) : Sending (multi b) (plain b c) := by
  obtain ⟨hplain, hcarries⟩ := init_some hinit
  have hstep : ∀ (c : UpdateConnection V) a c', Sending (multi b) (plain b c) ∧ Carries b c →
      c.Patient b a ∧ c.Step b a c' → Sending (multi b) (plain b c') ∧ Carries b c' := by
    rintro c a c' ⟨hsending, hc⟩ ⟨hcalm, hstep⟩
    obtain ⟨hplain, hc'⟩ := processRequest_some hc hstep
    refine ⟨sending_step hsending (fun hrest => hcalm ?_) hplain, hc'⟩
    rw [plain, requests_multi, Ne, List.drop_eq_nil_iff, List.length_map] at hrest
    exact Nat.not_le.mp hrest
  exact ((hrun.restrict hpatient).invariant hstep ⟨sending_init hplain, hcarries⟩).1

end MultiLemmas

open MultiLemmas

/-- In a run of patient writes nothing is lost, neither of a batch of requests nor of one of updates
that carries over what did not fit. -/
theorem Connection.lossless_of_run {V : Type} (b : Multi) (u : UpdateBatch V) (limit : Nat) :
    (∀ (c₀ c : Connection) (t : List (Connection × (Nat × Nat))), init b limit = some c₀ →
      Run (Step b) c₀ t c → (∀ x ∈ t, x.1.Patient x.2) → c.Lossless b) ∧
    ∀ (c₀ c : UpdateConnection V) (t : List (UpdateConnection V × (Nat × Nat))),
      UpdateConnection.init u limit = some c₀ → Run (UpdateConnection.Step u) c₀ t c →
        (∀ x ∈ t, x.1.Patient u x.2) → c.Lossless u := by
  constructor
  · intro c₀ c t hinit hrun hpatient
    exact lossless_of_sending (sending_run hinit hrun hpatient)
  · intro c₀ c t hinit hrun hpatient
    obtain ⟨hpre, hwhole⟩ := lossless_of_sending (sending_plain hinit hrun hpatient)
    rw [requests_multi, List.map_map] at hpre hwhole
    refine ⟨hpre, fun hend hall => hwhole ?_ hall⟩
    rw [plain, requests_multi]
    exact List.drop_eq_nil_of_le (by rwa [List.length_map])

/-- Two keys that do not fit the buffer together. And three updates, of which the second one is
carried over with its value and the third one, whose value is empty, is read again; a write that
takes nothing stands before either. -/
theorem Connection.lossless_small :
    let b : Multi := .get 1 [[107], [108]]
    let u : UpdateBatch Bytes := ⟨.set, 1, fun data => (data, 7),
      [(⟨0, 0, []⟩, [107]), (⟨0, 9, [120, 121]⟩, [108]), (⟨5, 0, []⟩, [109])]⟩
    (∃ c : Connection, c.Lossless b ∧
      c.sent = (Request.get 1 0 [107]).bytes ++ (Request.get 1 0 [108]).bytes) ∧
    ∃ c : UpdateConnection Bytes, c.Lossless u ∧
      c.sent = (Request.update .set 0 1 7 0 0 [107] []).bytes ++
        (Request.update .set 0 1 7 9 0 [108] [120, 121]).bytes ++
        (Request.update .set 5 1 7 0 0 [109] []).bytes := by
  intro b u
  have hlossless := lossless_of_run b u
  constructor
  · let q : Request := .get 1 0 [107]
    let q' : Request := .get 1 0 [108]
    let c₀ : Connection := ⟨q.bytes, 0, [q'], []⟩
    let c₁ : Connection := ⟨q.bytes, 13, [q'], q.bytes⟩
    let c₂ : Connection := ⟨q'.bytes, 13, [], q.bytes ++ q'.bytes⟩
    have hinit : init b 20 = some c₀ := by decide +kernel
    have hstep₀ : c₀.Step b (100, 0) c₁ := by
      show c₀.processRequest b 100 0 = some c₁
      decide +kernel
    have hstep₁ : c₁.Step b (0, 13) c₂ := by
      show c₁.processRequest b 0 13 = some c₂
      decide +kernel
    have hall : ∀ x ∈ [(c₀, (100, 0)), (c₁, (0, 13))], x.1.Patient x.2 := by decide +kernel
    exact ⟨c₂, (hlossless 20).1 c₀ c₂ _ hinit ((Run.single hstep₀).snoc hstep₁) hall, rfl⟩
  · let q : Request := .update .set 0 1 7 0 0 [107] []
    let q' : Request := .update .set 0 1 7 9 0 [108] [120, 121]
    let q'' : Request := .update .set 5 1 7 0 0 [109] []
    let x : Carried Bytes := ⟨⟨0, 9, [120, 121]⟩, [108], [120, 121], 7⟩
    let x' : Carried Bytes := ⟨⟨5, 0, []⟩, [109], [], 7⟩
    let c₀ : UpdateConnection Bytes := ⟨1, some x, 2, q.bytes, 0, []⟩
    let c₁ : UpdateConnection Bytes := ⟨1, some x, 2, q.bytes, 34, q.bytes⟩
    let c₂ : UpdateConnection Bytes := ⟨2, some x', 0, q'.bytes, 3, q.bytes ++ q'.bytes.take 3⟩
    let c₃ : UpdateConnection Bytes := ⟨2, some x', 0, q'.bytes, 36, q.bytes ++ q'.bytes⟩
    let c₄ : UpdateConnection Bytes :=
      ⟨3, some x', 0, q''.bytes, 34, q.bytes ++ q'.bytes ++ q''.bytes⟩
    have hinit : UpdateConnection.init u 40 = some c₀ := by decide +kernel
    have hstep₀ : c₀.Step u (100, 0) c₁ := by
      show c₀.processRequest u 100 0 = some c₁
      decide +kernel
    have hstep₁ : c₁.Step u (0, 3) c₂ := by
      show c₁.processRequest u 0 3 = some c₂
      decide +kernel
    have hstep₂ : c₂.Step u (40, 0) c₃ := by
      show c₂.processRequest u 40 0 = some c₃
      decide +kernel
    have hstep₃ : c₃.Step u (0, 34) c₄ := by
      show c₃.processRequest u 0 34 = some c₄
      decide +kernel
    have hall : ∀ y ∈ [(c₀, (100, 0)), (c₁, (0, 3)), (c₂, (40, 0)), (c₃, (0, 34))],
        y.1.Patient u y.2 := by
      decide +kernel
    have hrun := (((Run.single hstep₀).snoc hstep₁).snoc hstep₂).snoc hstep₃
    exact ⟨c₄, (hlossless 40).2 c₀ c₄ _ hinit hrun hall, rfl⟩

/-- A write that takes nothing while half of the first frame is left: it is never sent. -/
theorem Connection.not_lossless_zero :
    ∃ c₀ c : Connection, ∃ t, init (.get 0 [[107], [108]]) 13 = some c₀ ∧
      Run (Step (.get 0 [[107], [108]])) c₀ t c ∧ ¬ c.Lossless (.get 0 [[107], [108]]) := by
  let b : Multi := .get 0 [[107], [108]]
  let q : Request := .get 0 0 [107]
  let q' : Request := .get 0 0 [108]
  let c₀ : Connection := ⟨q.bytes, 0, [q'], []⟩
  let c₁ : Connection := ⟨q.bytes, 5, [q'], q.bytes.take 5⟩
  let c₂ : Connection := ⟨q'.bytes, 13, [], q.bytes.take 5 ++ q'.bytes⟩
  have hinit : init b 13 = some c₀ := by decide +kernel
  have hstep₀ : c₀.Step b (5, 0) c₁ := by
    show c₀.processRequest b 5 0 = some c₁
    decide +kernel
  have hstep₁ : c₁.Step b (0, 13) c₂ := by
    show c₁.processRequest b 0 13 = some c₂
    decide +kernel
  refine ⟨c₀, c₂, _, hinit, (Run.single hstep₀).snoc hstep₁, fun h => ?_⟩
  have hnot : ¬ c₂.sent <+: (b.requests.map Request.bytes).flatten := by decide +kernel
  exact hnot h.inOrder

/-! ## The length of the key -/

namespace MultiLemmas

/-- The field as it stands in the frame. -/
theorem getU16_bytes {q : Request} {n : Nat} (h : q.keyLengthOffset = some n) :
    getU16 (q.bytes.drop n) = UInt16.ofNat q.key.length := by
  -- a field is skipped as a whole
  have skip (l rest : Bytes) (k n : Nat) (hl : l.length = k) :
      (l ++ rest).drop (n + k) = rest.drop n := by
    rw [Nat.add_comm, ← List.drop_drop, List.drop_left' hl]
  have skip8 (x : UInt8) (rest : Bytes) (n : Nat) := skip _ rest _ n (length_putU8 x)
  have skip16 (x : UInt16) (rest : Bytes) (n : Nat) := skip _ rest _ n (length_putU16 x)
  have skip32 (x : UInt32) (rest : Bytes) (n : Nat) := skip _ rest _ n (length_putU32 x)
  have skip64 (x : UInt64) (rest : Bytes) (n : Nat) := skip _ rest _ n (length_putU64 x)
  rw [Request.bytes, Request.flatten_puts, List.append_assoc]
  cases q with
  | flush _ | stats _ _ _ | createWatch _ _ | checkWatch _ _ _ _ _ => exact nomatch h
  | get _ _ _ | getTouch _ _ _ _ | getBase _ _ | update _ _ _ _ _ _ _ _ | updateFlags _ _ _ _
  | updateExpiration _ _ _ _ | delete _ _ _ | delta _ _ _ _ _ =>
    obtain rfl := Option.some.inj h
    simp only [Request.pdu, Pdu.fixedBody, List.append_assoc, Request.key, skip8, skip16, skip32,
      skip64, List.drop_zero, getU16_putU16]

theorem tellsKey_iff {q : Request} (h : q.keyLengthOffset.isSome) :
    q.TellsKey q.bytes ↔ q.key.length < 65536 := by
  obtain ⟨n, hn⟩ := Option.isSome_iff_exists.mp h
  have hfield := getU16_bytes hn
  have hmod : (UInt16.ofNat q.key.length).toNat = q.key.length % 65536 := UInt16.toNat_ofNat'
  constructor
  · intro ht
    have hlen := ht n hn
    rw [hfield, hmod] at hlen
    rw [← hlen]
    exact Nat.mod_lt _ (by norm_num)
  · intro hlt m hm
    obtain rfl : n = m := Option.some.inj (hn.symm.trans hm)
    rw [hfield, hmod, Nat.mod_eq_of_lt hlt]

theorem length_puts_eq (q : Request) : q.puts.flatten.length = q.headLength + q.key.length := by
  rw [Request.flatten_puts, List.length_append, List.length_append, length_putU16,
    Pdu.length_fixedBody, Request.headLength, Nat.add_assoc]

/-- Every request of a batch has a key. -/
theorem keyed_of_mem {b : Multi} {q : Request} (h : q ∈ b.requests) : q.keyLengthOffset.isSome := by
  cases b with
  | get g keys =>
    obtain ⟨key, -, rfl⟩ := List.mem_map.mp h
    rfl
  | update verb g items =>
    obtain ⟨item, -, rfl⟩ := List.mem_map.mp h
    rfl
  | delete g items =>
    obtain ⟨item, -, rfl⟩ := List.mem_map.mp h
    rfl
  | updateExpiration g items =>
    obtain ⟨item, -, rfl⟩ := List.mem_map.mp h
    rfl

theorem mem_of_reached {n : Nat} {l : List Request} {q : Request}
    (h : q ∈ Connection.reached n l) : q ∈ l := by
  induction l generalizing n with
  | nil => exact h
  | cons q' l ih =>
    rw [Connection.reached] at h
    split at h
    · exact nomatch h
    · rcases List.mem_cons.mp h with rfl | h
      · exact List.mem_cons_self
      · exact List.mem_cons_of_mem _ (ih h)

end MultiLemmas

/-- A single operation announces its key as it is, if it sends anything, exactly when the key is
shorter than 65536 bytes or does not fit the write buffer. A batch does so for every frame that it
has sent, in a run of writes that take nothing only if nothing was left, exactly when the keys of
these frames are shorter than 65536 bytes. -/
theorem keyLength_told (q : Request) (b : Multi) (capacity limit : Nat) :
    (q.keyLengthOffset.isSome →
      ((∀ sent, q.emit capacity = some sent → q.TellsKey sent) ↔
        q.key.length < 65536 ∨ capacity < q.headLength + q.key.length)) ∧
    ∀ (c₀ c : Connection) (t : List (Connection × (Nat × Nat))),
      Connection.init b limit = some c₀ → Run (Connection.Step b) c₀ t c →
        (∀ x ∈ t, x.1.Calm x.2) →
          (c.Honest b ↔ ∀ q ∈ Connection.reached c.sent.length b.requests, q.key.length < 65536) := by
  constructor
  · intro hkeyed
    rw [Request.emit_eq, length_puts_eq]
    by_cases hfit : q.headLength + q.key.length ≤ capacity
    · rw [if_pos hfit, ← tellsKey_iff hkeyed, or_iff_left (Nat.not_lt.mpr hfit)]
      constructor
      · exact fun h => h _ rfl
      · rintro h sent hsent
        rw [← Option.some.inj hsent]
        exact h
    · rw [if_neg hfit]
      exact iff_of_true nofun (.inr (Nat.lt_of_not_le hfit))
  · intro c₀ c t hinit hrun hcalm
    have hpre := Connection.sent_of_run hinit hrun hcalm
    constructor
    · intro h q hq
      exact (tellsKey_iff (keyed_of_mem (mem_of_reached hq))).mp (h.2 q hq)
    · intro h
      exact ⟨hpre, fun q hq => (tellsKey_iff (keyed_of_mem (mem_of_reached hq))).mpr (h q hq)⟩

/-- `get` of a key of one byte, and two keys that do not fit the buffer together. -/
theorem keyLength_told_short :
    let q : Request := .get 1 0 [107]
    let b : Multi := .get 1 [[107], [108, 109]]
    let q' : Request := .get 1 0 [108, 109]
    (∀ sent, q.emit 32768 = some sent → q.TellsKey sent) ∧
      (⟨q'.bytes, 3, [], q.bytes ++ q'.bytes.take 3⟩ : Connection).Honest b := by
  intro q b q'
  let c₀ : Connection := ⟨q.bytes, 0, [q'], []⟩
  let c₁ : Connection := ⟨q.bytes, 13, [q'], q.bytes⟩
  let c₂ : Connection := ⟨q'.bytes, 3, [], q.bytes ++ q'.bytes.take 3⟩
  have hinit : Connection.init b 20 = some c₀ := by decide +kernel
  have hstep₀ : c₀.Step b (100, 0) c₁ := by
    show c₀.processRequest b 100 0 = some c₁
    decide +kernel
  have hstep₁ : c₁.Step b (0, 3) c₂ := by
    show c₁.processRequest b 0 3 = some c₂
    decide +kernel
  have hall : c₁.position = c₁.content.length := by decide +kernel
  have hshort : ∀ q ∈ Connection.reached c₂.sent.length b.requests, q.key.length < 65536 := by
    decide +kernel
  refine ⟨((keyLength_told q b 32768 20).1 rfl).mpr (.inl (by decide)), ?_⟩
  refine ((keyLength_told q b 32768 20).2 c₀ c₂ _ hinit ((Run.single hstep₀).snoc hstep₁) ?_).mpr hshort
  intro x hx
  rcases List.mem_append.mp hx with hx | hx
  · rw [List.mem_singleton.mp hx]
    exact fun h => nomatch h
  · rw [List.mem_singleton.mp hx]
    exact fun _ => hall

/-- A key of 65536 bytes in a batch of its own. -/
theorem MultiLemmas.sends_long {key : Bytes} (hkey : key.length = 65536) :
    let q : Request := .get 0 0 key
    let b : Multi := .get 0 [key]
    ∃ c₀ c : Connection, Connection.init b 32768 = some c₀ ∧ c₀.Step b (q.bytes.length, 0) c ∧
      c.sent = q.bytes ∧ getU16 (c.sent.drop 10) = 0 ∧ ¬ q.TellsKey c.sent := by
  intro q b
  have hputs : q.puts.flatten.length = 65548 := by
    rw [length_puts_eq]
    show 12 + key.length = 65548
    rw [hkey]
  have hlen : q.bytes.length = 65548 := by
    rw [Request.bytes, List.length_append, hputs]
    rfl
  have htotal : b.totalLen q = 65548 := by
    have hsum : b.overhead + q.key.length + q.data.length = 65548 := by
      show 12 + key.length + 0 = 65548
      rw [hkey]
    rw [Multi.totalLen, hsum]
    rfl
  have hput : Multi.putRequest 65548 [] q = some q.bytes := by
    have hfit : ([] : Bytes).length + q.chunks.flatten.length ≤ 65548 := by
      rw [flatten_chunks, hlen]
      exact Nat.le_refl _
    rw [Multi.putRequest, ProtocolLemmas.foldlM_put _ _ (Nat.zero_le _), if_pos hfit, flatten_chunks]
    rfl
  have hinit : Connection.init b 32768 = some ⟨q.bytes, 0, [], []⟩ := by
    have hrequests : b.requests = [q] := rfl
    have hlimit : (if ((32768 : Nat) : Int) < 65548 then (65548 : Int).toNat else 32768) = 65548 :=
      rfl
    rw [Connection.init, hrequests, Multi.encode, htotal]
    dsimp only
    rw [hlimit, hput]
    rfl
  have hwrite : (⟨q.bytes, 0, [], []⟩ : Connection).processRequest b q.bytes.length 0 =
      some ⟨q.bytes, q.bytes.length, [], q.bytes⟩ := by
    have hall : min q.bytes.length (q.bytes.length - 0) = q.bytes.length := Nat.min_self _
    have hpos : 0 < q.bytes.length := by
      rw [hlen]
      norm_num
    rw [Connection.processRequest, if_pos (hall.symm ▸ hpos), Connection.write]
    simp only [hall, List.drop_zero, List.take_length, Nat.zero_add, List.nil_append]
  have hfield : getU16 (q.bytes.drop 10) = 0 := by
    have hfield := getU16_bytes (q := q) rfl
    have hlong : q.key.length = 65536 := hkey
    rw [hlong] at hfield
    exact hfield
  refine ⟨_, _, hinit, hwrite, rfl, hfield, fun h => ?_⟩
  have hshort : key.length < 65536 := (tellsKey_iff (q := q) rfl).mp h
  rw [hkey] at hshort
  exact Nat.lt_irrefl _ hshort

/-- A key of 65536 bytes is sent with `key_length` 0, by a batch with the default write buffer. And
when a write takes nothing while there is something left, the rest of a frame is thrown away: the
key of the first frame is not sent, and the second frame follows. -/
theorem keyLength_lies :
    (let q : Request := .get 0 0 (List.replicate 65536 107)
     let b : Multi := .get 0 [List.replicate 65536 107]
     ∃ c₀ c : Connection, Connection.init b 32768 = some c₀ ∧ c₀.Step b (q.bytes.length, 0) c ∧
       c.sent = q.bytes ∧ getU16 (c.sent.drop 10) = 0 ∧ ¬ q.TellsKey c.sent) ∧
    let b : Multi := .get 0 [[107], [108]]
    ∃ c₀ c₁ c : Connection, Connection.init b 13 = some c₀ ∧ c₀.Step b (5, 0) c₁ ∧
      c₁.Step b (0, 13) c ∧ c.sent = (Request.get 0 0 [107]).bytes.take 5 ++ (Request.get 0 0 [108]).bytes := by
  constructor
  · exact sends_long List.length_replicate
  · intro b
    refine ⟨⟨(Request.get 0 0 [107]).bytes, 0, [.get 0 0 [108]], []⟩,
      ⟨(Request.get 0 0 [107]).bytes, 5, [.get 0 0 [108]], (Request.get 0 0 [107]).bytes.take 5⟩,
      ⟨(Request.get 0 0 [108]).bytes, 13, [],
        (Request.get 0 0 [107]).bytes.take 5 ++ (Request.get 0 0 [108]).bytes⟩, ?_, ?_, ?_, rfl⟩
    · decide +kernel
    · show Connection.processRequest b _ 5 0 = some _
      decide +kernel
    · show Connection.processRequest b _ 0 13 = some _
      decide +kernel

end Xixi.Client
