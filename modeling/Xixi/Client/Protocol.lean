import Xixi.Client.Numbers
import Xixi.Peer.Response

/-!
# The wire format of the Java client (`Protocol.java`, `TCPSocket.java`)

An operation of the client puts a request into the write buffer of its socket, flushes it, and
reads the response.

1. `Request.emit`: what is sent; `none` is the exception of a buffer that overflows. `emit_eq`: the
   whole frame is sent as soon as all of it but the data fits the buffer.
2. `Kind.read`: how the response is read.
3. `formats_agree`: the server reads the request that the client has sent, and the client reads
   the response that the server has encoded.
-/

namespace Xixi.Client
open Lib PeerCache

/-! ## Requests -/

/-- The operations of `Protocol`. -/
inductive Kind
  | get
  | getTouch
  | getBase
  | update
  | updateFlags
  | updateExpiration
  | delete
  | delta
  | flush
  | stats
  | createWatch
  | checkWatch
deriving DecidableEq, Repr

namespace Kind

/-- `XIXI_TYPE_GET_REQ` and its siblings. -/
def reqType : Kind → Int8
  | .get => 1
  | .getTouch => 2
  | .getBase => 4
  | .update => 6
  | .updateFlags => 8
  | .updateExpiration => 10
  | .delete => 12
  | .delta => 14
  | .flush => 16
  | .stats => 20
  | .createWatch => 22
  | .checkWatch => 24

/-- The same operation at the server. -/
def choice : Kind → Choice
  | .get => .getReq
  | .getTouch => .getTouchReq
  | .getBase => .getBaseReq
  | .update => .updateReq
  | .updateFlags => .updateFlagsReq
  | .updateExpiration => .updateExpirationReq
  | .delete => .deleteReq
  | .delta => .deltaReq
  | .flush => .flushReq
  | .stats => .statsReq
  | .createWatch => .createWatchReq
  | .checkWatch => .checkWatchReq

/-- `XIXI_TYPE_GET_RES` and its siblings. -/
def resType : Kind → Int8
  | .get | .getTouch => 3
  | .getBase => 5
  | .update => 7
  | .updateFlags => 9
  | .updateExpiration => 11
  | .delete => 13
  | .delta => 15
  | .flush => 17
  | .stats => 21
  | .createWatch => 23
  | .checkWatch => 25

end Kind

/-- `XIXI_CATEGORY_CACHE`. -/
def categoryCache : Int8 := 2

/-- `XIXI_UPDATE_SUB_OP_SET` and its siblings. -/
def subOp : Verb → Int8
  | .set => 0
  | .add => 1
  | .replace => 2
  | .append => 3
  | .prepend => 4

/-- `XIXI_UPDATE_REPLY` and its siblings. -/
def replyFlag : Int8 := -128

/-- What an operation of the client writes; `key` is what `encodeKey` has returned and `data` what
`encode` has. `incr` tells `XIXI_DELTA_SUB_OP_INCR` from `XIXI_DELTA_SUB_OP_DECR`. -/
inductive Request
  | get (groupId watchId : Int32) (key : Bytes)
  | getTouch (groupId watchId expiration : Int32) (key : Bytes)
  | getBase (groupId : Int32) (key : Bytes)
  | update (verb : Verb) (cacheId : Int64) (groupId flags expiration watchId : Int32)
      (key data : Bytes)
  | updateFlags (cacheId : Int64) (groupId flags : Int32) (key : Bytes)
  | updateExpiration (cacheId : Int64) (groupId expiration : Int32) (key : Bytes)
  | delete (cacheId : Int64) (groupId : Int32) (key : Bytes)
  | delta (incr : Bool) (cacheId : Int64) (groupId : Int32) (delta : Int64) (key : Bytes)
  | flush (groupId : Int32)
  | stats (opFlag classId : Int8) (groupId : Int32)
  | createWatch (groupId maxNextCheckInterval : Int32)
  | checkWatch (groupId watchId checkTimeout maxNextCheckInterval ackSequence : Int32)
deriving DecidableEq, Repr

namespace Request

def kind : Request → Kind
  | .get .. => .get
  | .getTouch .. => .getTouch
  | .getBase .. => .getBase
  | .update .. => .update
  | .updateFlags .. => .updateFlags
  | .updateExpiration .. => .updateExpiration
  | .delete .. => .delete
  | .delta .. => .delta
  | .flush .. => .flush
  | .stats .. => .stats
  | .createWatch .. => .createWatch
  | .checkWatch .. => .checkWatch

def key : Request → Bytes
  | .get _ _ key | .getTouch _ _ _ key | .getBase _ key | .update _ _ _ _ _ _ key _
  | .updateFlags _ _ _ key | .updateExpiration _ _ _ key | .delete _ _ key | .delta _ _ _ _ key => key
  | .flush .. | .stats .. | .createWatch .. | .checkWatch .. => []

def data : Request → Bytes
  | .update _ _ _ _ _ _ _ data => data
  | _ => []

/-- `(short) keyBuf.length`. -/
def shortLength (key : Bytes) : Int16 := (Int32.ofNat key.length).toInt16

/-- What stands between the type and the key. -/
def fields : Request → List Bytes
  | .get g w key => [putInt g, putInt w, putShort (shortLength key)]
  | .getTouch g w x key => [putInt g, putInt w, putInt x, putShort (shortLength key)]
  | .getBase g key => [putInt g, putShort (shortLength key)]
  | .update verb id g fl x w key data =>
    [putByte (subOp verb ||| replyFlag), putLong id, putInt g, putInt fl, putInt x, putInt w,
      putShort (shortLength key), putInt (.ofNat data.length)]
  | .updateFlags id g fl key =>
    [putByte replyFlag, putLong id, putInt g, putInt fl, putShort (shortLength key)]
  | .updateExpiration id g x key =>
    [putByte replyFlag, putLong id, putInt g, putInt x, putShort (shortLength key)]
  | .delete id g key => [putByte (0 ||| replyFlag), putLong id, putInt g, putShort (shortLength key)]
  | .delta incr id g d key =>
    [putByte ((if incr then 0 else 1) ||| replyFlag), putLong id, putInt g, putLong d,
      putShort (shortLength key)]
  | .flush g => [putInt g]
  | .stats op cl g => [putByte op, putByte cl, putInt g]
  | .createWatch g x => [putInt g, putInt x]
  | .checkWatch g w t x a => [putInt g, putInt w, putInt t, putInt x, putInt a]

/-- The puts into the write buffer, one after the other. -/
def puts (q : Request) : List Bytes :=
  putByte categoryCache :: putByte q.kind.reqType :: (q.fields ++ [q.key])

end Request

/-! ## The write buffer -/

/-- `writeBuffer` of a socket with `capacity` bytes, and what has been written to the channel. -/
structure Socket where
  capacity : Nat
  content : Bytes
  sent : Bytes
deriving DecidableEq, Repr

namespace Socket

/-- `writeBuffer.put`: `none` is `BufferOverflowException`. -/
def put (s : Socket) (bytes : Bytes) : Option Socket :=
  if s.content.length + bytes.length ≤ s.capacity then some { s with content := s.content ++ bytes }
  else none

/-- `writeToChannel`. -/
def flush (s : Socket) : Socket := { s with content := [], sent := s.sent ++ s.content }

/-- The loop of `write`; every turn but the last takes at least one byte. `none` is the
exception. -/
def writeLoop : Nat → Socket → Bytes → Option Socket
  | 0, s, _ => some s
  | turns + 1, s, bytes =>
    if bytes = [] then some s
    else
      let s := if s.capacity - s.content.length = 0 then s.flush else s
      let remain := s.capacity - s.content.length
      if remain = 0 then none
      else
        let w := min bytes.length remain
        (s.put (bytes.take w)).bind fun s => writeLoop turns s (bytes.drop w)

def write (s : Socket) (bytes : Bytes) : Option Socket :=
  if bytes.length ≤ s.capacity - s.content.length then s.put bytes
  else writeLoop bytes.length s bytes

/-- The bytes that have been written, to the channel or to the buffer. -/
def written (s : Socket) : Bytes := s.sent ++ s.content

end Socket

/-- What an operation sends, with a write buffer of this capacity. -/
def Request.emit (q : Request) (capacity : Nat) : Option Bytes := do
  let s ← q.puts.foldlM Socket.put ⟨capacity, [], []⟩
  let s ← match q with
    | .update _ _ _ _ _ _ _ data => s.write data
    | _ => some s
  some s.flush.sent

/-! ## What is sent -/

namespace ProtocolLemmas

theorem foldlM_put (l : List Bytes) (s : Socket) (h : s.content.length ≤ s.capacity) :
    l.foldlM Socket.put s =
      if s.content.length + l.flatten.length ≤ s.capacity then
        some { s with content := s.content ++ l.flatten }
      else none := by
  induction l generalizing s with
  | nil =>
    rw [if_pos (by simpa using h)]
    simp
  | cons bytes l ih =>
    rw [List.foldlM_cons, Socket.put, List.flatten_cons, List.length_append]
    split
    · next hfit =>
      rw [Option.bind_eq_bind, Option.bind_some, ih _ (by simpa using hfit)]
      simp only [List.length_append, List.append_assoc, Nat.add_assoc]
    · next hfull =>
      rw [if_neg fun hx => hfull (by omega)]
      rfl

theorem writeLoop_written {turns : Nat} {s : Socket} {bytes : Bytes} (hturns : bytes.length ≤ turns)
    (hpos : 0 < s.capacity) (h : s.content.length ≤ s.capacity) :
    ∃ s', Socket.writeLoop turns s bytes = some s' ∧ s'.written = s.written ++ bytes := by
  induction turns generalizing s bytes with
  | zero =>
    have hnil : bytes = [] := List.length_eq_zero_iff.mp (Nat.le_zero.mp hturns)
    exact ⟨s, rfl, by rw [hnil, List.append_nil]⟩
  | succ turns ih =>
    rw [Socket.writeLoop]
    split
    · next hnil => exact ⟨s, rfl, by rw [hnil, List.append_nil]⟩
    · next hne =>
      have hlen : 0 < bytes.length := List.length_pos_iff.mpr hne
      -- after the flush, if there was one, there is room
      obtain ⟨s₁, hs₁, hcap, hroom, hwritten⟩ : ∃ s₁ : Socket,
          (if s.capacity - s.content.length = 0 then s.flush else s) = s₁ ∧
            s₁.capacity = s.capacity ∧ s₁.content.length < s₁.capacity ∧ s₁.written = s.written := by
        split
        · exact ⟨_, rfl, rfl, hpos, List.append_nil _⟩
        · next hroom => exact ⟨_, rfl, rfl, by omega, rfl⟩
      rw [hs₁]
      dsimp only
      have hsome : ¬ s₁.capacity - s₁.content.length = 0 := by omega
      rw [if_neg hsome]
      generalize hw : min bytes.length (s₁.capacity - s₁.content.length) = w
      have hwle : w ≤ bytes.length := hw ▸ Nat.min_le_left _ _
      have hwroom : w ≤ s₁.capacity - s₁.content.length := hw ▸ Nat.min_le_right _ _
      have hwpos : 0 < w := hw ▸ Nat.lt_min.mpr ⟨hlen, Nat.pos_of_ne_zero hsome⟩
      have htake : (bytes.take w).length = w := List.length_take_of_le hwle
      have hfit : s₁.content.length + (bytes.take w).length ≤ s₁.capacity := by omega
      rw [Socket.put, if_pos hfit, Option.bind_some]
      have hdrop : (bytes.drop w).length ≤ turns := by
        rw [List.length_drop]
        omega
      have hroom' : (s₁.content ++ bytes.take w).length ≤ s₁.capacity := by
        rw [List.length_append]
        exact hfit
      obtain ⟨s', hs', hall⟩ := ih (s := { s₁ with content := s₁.content ++ bytes.take w }) hdrop
        (hcap ▸ hpos) hroom'
      refine ⟨s', hs', ?_⟩
      calc s'.written = s₁.sent ++ (s₁.content ++ bytes.take w) ++ bytes.drop w := hall
        _ = s₁.written ++ (bytes.take w ++ bytes.drop w) := by
          simp only [Socket.written, List.append_assoc]
        _ = s.written ++ bytes := by rw [List.take_append_drop, hwritten]

theorem write_written {s : Socket} {bytes : Bytes} (hpos : 0 < s.capacity)
    (h : s.content.length ≤ s.capacity) :
    ∃ s', s.write bytes = some s' ∧ s'.written = s.written ++ bytes := by
  rw [Socket.write]
  split
  · next hroom =>
    refine ⟨{ s with content := s.content ++ bytes }, ?_, ?_⟩
    · rw [Socket.put, if_pos (by omega)]
    · exact (List.append_assoc _ _ _).symm
  · exact writeLoop_written (Nat.le_refl _) hpos h

/-- There is always something in front of the key. -/
theorem length_puts (q : Request) : 0 < q.puts.flatten.length := by
  rw [Request.puts, List.flatten_cons, List.length_append]
  exact Nat.lt_of_lt_of_le (by decide) (Nat.le_add_right _ _)

end ProtocolLemmas

open ProtocolLemmas

/-- The frame is sent as a whole if what stands in front of the data fits the buffer; otherwise
nothing is. -/
theorem Request.emit_eq (q : Request) (capacity : Nat) :
    q.emit capacity =
      if q.puts.flatten.length ≤ capacity then some (q.puts.flatten ++ q.data) else none := by
  rw [emit, foldlM_put _ _ (Nat.zero_le _)]
  simp only [List.length_nil, Nat.zero_add, List.nil_append]
  by_cases hfit : q.puts.flatten.length ≤ capacity
  · rw [if_pos hfit, if_pos hfit, Option.bind_eq_bind, Option.bind_some]
    have hpos : 0 < capacity := (length_puts q).trans_le hfit
    cases q with
    | update verb id g fl x w key data =>
      let s : Socket := ⟨capacity, (update verb id g fl x w key data).puts.flatten, []⟩
      have hwrite : ∃ s', s.write data = some s' ∧ s'.written = s.written ++ data :=
        write_written hpos hfit
      obtain ⟨s', hs', hall⟩ := hwrite
      show (s.write data).bind (fun s => some s.flush.sent) = _
      rw [hs']
      exact congrArg some hall
    | get _ _ _ | getTouch _ _ _ _ | getBase _ _ | updateFlags _ _ _ _ | updateExpiration _ _ _ _
    | delete _ _ _ | delta _ _ _ _ _ | flush _ | stats _ _ _ | createWatch _ _
    | checkWatch _ _ _ _ _ =>
      exact congrArg some (List.append_nil _).symm
  · rw [if_neg hfit, if_neg hfit]
    rfl

namespace Request

/-- The fixed body of the request as the server sees it. -/
def pdu : Request → Pdu
  | .get g w key => .get g.toUInt32 w.toUInt32 (.ofNat key.length)
  | .getTouch g w x key => .getTouch g.toUInt32 w.toUInt32 x.toUInt32 (.ofNat key.length)
  | .getBase g key => .getBase g.toUInt32 (.ofNat key.length)
  | .update verb id g fl x w key data =>
    .update (subOp verb ||| replyFlag).toUInt8 id.toUInt64 g.toUInt32 fl.toUInt32 x.toUInt32
      w.toUInt32 (.ofNat key.length) (.ofNat data.length)
  | .updateFlags id g fl key =>
    .updateFlags replyFlag.toUInt8 id.toUInt64 g.toUInt32 fl.toUInt32 (.ofNat key.length)
  | .updateExpiration id g x key =>
    .updateExpiration replyFlag.toUInt8 id.toUInt64 g.toUInt32 x.toUInt32 (.ofNat key.length)
  | .delete id g key =>
    .delete (0 ||| replyFlag).toUInt8 id.toUInt64 g.toUInt32 (.ofNat key.length)
  | .delta incr id g d key =>
    .delta ((if incr then 0 else 1) ||| replyFlag).toUInt8 id.toUInt64 g.toUInt32 d
      (.ofNat key.length)
  | .flush g => .flush g.toUInt32
  | .stats op cl g => .stats op.toUInt8 cl.toUInt8 g.toUInt32
  | .createWatch g x => .createWatch g.toUInt32 x.toUInt32
  | .checkWatch g w t x a =>
    .checkWatch g.toUInt32 w.toUInt32 t.toUInt32 x.toUInt32 a.toUInt32

theorem putShort_shortLength (key : Bytes) :
    putShort (shortLength key) = putU16 (.ofNat key.length) := by
  have hbits : (shortLength key).toUInt16 = UInt16.ofNat key.length := by
    apply UInt16.toBitVec_inj.mp
    show (BitVec.ofNat 32 key.length).signExtend 16 = BitVec.ofNat 16 key.length
    rw [BitVec.signExtend_eq_setWidth_of_le _ (by decide)]
    apply BitVec.eq_of_toNat_eq
    simp only [BitVec.toNat_setWidth, BitVec.toNat_ofNat]
    exact Nat.mod_mod_of_dvd _ (by norm_num)
  rw [putShort, hbits]

/-- The category and the type are the choice. -/
theorem putByte_choice (q : Request) :
    putByte categoryCache ++ putByte q.kind.reqType = putU16 q.pdu.choice.code := by
  have hkind : ∀ k : Kind, putByte categoryCache ++ putByte k.reqType = putU16 k.choice.code := by
    intro k
    cases k <;> decide
  have hchoice : q.pdu.choice = q.kind.choice := by
    cases q <;> rfl
  rw [hchoice, hkind]

theorem flatten_fields (q : Request) : q.fields.flatten = q.pdu.fixedBody := by
  cases q <;> simp only [fields, pdu, Pdu.fixedBody, putShort_shortLength, List.flatten_cons,
    List.flatten_nil, List.append_nil] <;> rfl

theorem flatten_puts (q : Request) :
    q.puts.flatten = putU16 q.pdu.choice.code ++ (q.pdu.fixedBody ++ q.key) := by
  have hflat : q.puts.flatten = putByte categoryCache ++ putByte q.kind.reqType ++
      (q.fields.flatten ++ q.key) := by
    rw [puts, List.flatten_cons, List.flatten_cons, List.flatten_append, List.flatten_singleton,
      ← List.append_assoc]
  rw [hflat, putByte_choice, flatten_fields]

/-- The fixed body announces the key and the data. -/
theorem length_key_data {q : Request} (hkey : q.key.length < 65536) (hdata : q.data.length < 2 ^ 31) :
    (q.key ++ q.data).length = q.pdu.extrasLength ∧ q.key.length = q.pdu.keyLength := by
  have hk : (UInt16.ofNat q.key.length).toNat = q.key.length := by
    rw [UInt16.toNat_ofNat', Nat.mod_eq_of_lt hkey]
  have hd : (UInt32.ofNat q.data.length).toNat = q.data.length := by
    rw [UInt32.toNat_ofNat', Nat.mod_eq_of_lt (hdata.trans (by norm_num))]
  rw [List.length_append]
  cases q with
  | update verb id g fl x w key data => exact ⟨(congrArg₂ (· + ·) hk hd).symm, hk.symm⟩
  | get _ _ _ | getTouch _ _ _ _ | getBase _ _ | updateFlags _ _ _ _ | updateExpiration _ _ _ _
  | delete _ _ _ | delta _ _ _ _ _ => exact ⟨hk.symm, hk.symm⟩
  | flush _ | stats _ _ _ | createWatch _ _ | checkWatch _ _ _ _ _ => exact ⟨rfl, rfl⟩

/-- The request as a frame of the protocol. -/
def frame (q : Request) (hkey : q.key.length < 65536) (hdata : q.data.length < 2 ^ 31) :
    PeerCache.Request :=
  ⟨q.pdu, q.key ++ q.data, (length_key_data hkey hdata).1⟩

theorem encode_frame {q : Request} (hkey : q.key.length < 65536) (hdata : q.data.length < 2 ^ 31) :
    (q.frame hkey hdata).encode = q.puts.flatten ++ q.data := by
  rw [flatten_puts, PeerCache.Request.encode, PeerCache.Request.header, frame, List.append_assoc,
    List.append_assoc]

/-- The server has the operation and the values of the fields that the client has. -/
def Same : Request → Pdu → Prop
  | .get g w key, .get g' w' kl => g' = g.toUInt32 ∧ w' = w.toUInt32 ∧ kl.toNat = key.length
  | .getTouch g w x key, .getTouch g' w' x' kl =>
    g' = g.toUInt32 ∧ w' = w.toUInt32 ∧ x' = x.toUInt32 ∧ kl.toNat = key.length
  | .getBase g key, .getBase g' kl => g' = g.toUInt32 ∧ kl.toNat = key.length
  | .update verb id g fl x w key data, .update op id' g' fl' x' w' kl dl =>
    Pdu.verb op = some verb ∧ id' = id.toUInt64 ∧ g' = g.toUInt32 ∧ fl' = fl.toUInt32 ∧
      x' = x.toUInt32 ∧ w' = w.toUInt32 ∧ kl.toNat = key.length ∧ dl.toNat = data.length
  | .updateFlags id g fl key, .updateFlags _ id' g' fl' kl =>
    id' = id.toUInt64 ∧ g' = g.toUInt32 ∧ fl' = fl.toUInt32 ∧ kl.toNat = key.length
  | .updateExpiration id g x key, .updateExpiration _ id' g' x' kl =>
    id' = id.toUInt64 ∧ g' = g.toUInt32 ∧ x' = x.toUInt32 ∧ kl.toNat = key.length
  | .delete id g key, .delete _ id' g' kl =>
    id' = id.toUInt64 ∧ g' = g.toUInt32 ∧ kl.toNat = key.length
  | .delta incr id g d key, .delta op id' g' d' kl =>
    Pdu.incr op = incr ∧ id' = id.toUInt64 ∧ g' = g.toUInt32 ∧ d' = d ∧ kl.toNat = key.length
  | .flush g, .flush g' => g' = g.toUInt32
  | .stats op cl g, .stats op' cl' g' => op' = op.toUInt8 ∧ cl' = cl.toUInt8 ∧ g' = g.toUInt32
  | .createWatch g x, .createWatch g' x' => g' = g.toUInt32 ∧ x' = x.toUInt32
  | .checkWatch g w t x a, .checkWatch g' w' t' x' a' =>
    g' = g.toUInt32 ∧ w' = w.toUInt32 ∧ t' = t.toUInt32 ∧ x' = x.toUInt32 ∧ a' = a.toUInt32
  | _, _ => False

theorem same_pdu {q : Request} (hkey : q.key.length < 65536) (hdata : q.data.length < 2 ^ 31) :
    q.Same q.pdu := by
  have hk : (UInt16.ofNat q.key.length).toNat = q.key.length := by
    rw [UInt16.toNat_ofNat', Nat.mod_eq_of_lt hkey]
  have hd : (UInt32.ofNat q.data.length).toNat = q.data.length := by
    rw [UInt32.toNat_ofNat', Nat.mod_eq_of_lt (hdata.trans (by norm_num))]
  cases q with
  | get _ _ _ => exact ⟨rfl, rfl, hk⟩
  | getTouch _ _ _ _ => exact ⟨rfl, rfl, rfl, hk⟩
  | getBase _ _ => exact ⟨rfl, hk⟩
  | update verb id g fl x w key data =>
    have hverb : Pdu.verb (subOp verb ||| replyFlag).toUInt8 = some verb := by
      cases verb <;> rfl
    exact ⟨hverb, rfl, rfl, rfl, rfl, rfl, hk, hd⟩
  | updateFlags _ _ _ _ => exact ⟨rfl, rfl, rfl, hk⟩
  | updateExpiration _ _ _ _ => exact ⟨rfl, rfl, rfl, hk⟩
  | delete _ _ _ => exact ⟨rfl, rfl, hk⟩
  | delta incr id g d key =>
    have hincr : Pdu.incr ((if incr then 0 else 1 : Int8) ||| replyFlag).toUInt8 = incr := by
      cases incr <;> rfl
    exact ⟨hincr, rfl, rfl, rfl, hk⟩
  | flush _ => exact rfl
  | stats _ _ _ => exact ⟨rfl, rfl, rfl⟩
  | createWatch _ _ => exact ⟨rfl, rfl⟩
  | checkWatch _ _ _ _ _ => exact ⟨rfl, rfl, rfl, rfl, rfl⟩

/-- The server reads the request that the client has sent. -/
theorem readRequest_emit {q : Request} (h : Host) {capacity : Nat} {sent : Bytes} (rest : Bytes)
    (hkey : q.key.length < 65536) (hdata : q.data.length < 2 ^ 31)
    (hsent : q.emit capacity = some sent) :
    ∃ pdu, h.readRequest (sent ++ rest) = some (pdu, q.key, q.data, rest) ∧ q.Same pdu := by
  rw [emit_eq] at hsent
  split at hsent
  · have hframe : sent = (q.frame hkey hdata).encode :=
      (Option.some.inj hsent).symm.trans (encode_frame hkey hdata).symm
    have hlen : q.key.length = (q.frame hkey hdata).pdu.keyLength := (length_key_data hkey hdata).2
    have htake : (q.key ++ q.data).take (q.frame hkey hdata).pdu.keyLength = q.key :=
      List.take_left' hlen
    have hdrop : (q.key ++ q.data).drop (q.frame hkey hdata).pdu.keyLength = q.data :=
      List.drop_left' hlen
    refine ⟨q.pdu, ?_, same_pdu hkey hdata⟩
    rw [hframe, Host.readRequest_encode]
    show some (q.pdu, (q.key ++ q.data).take _, (q.key ++ q.data).drop _, rest) = _
    rw [htake, hdrop]
  · exact nomatch hsent

end Request

/-! ## Responses -/

/-- What reads from the socket; the state are the bytes that the server has sent and the client has
not read. `none` is an exception. -/
abbrev Reader := StateT Bytes Option

/-- `read(b, 0, n)`. -/
def readBytes (n : Nat) : Reader Bytes := fun s =>
  if s.length < n then none else some (s.take n, s.drop n)

def readByte : Reader Int8 := do
  let b ← readBytes 1
  return (b.headD 0).toInt8

def readShort : Reader Int16 := do
  let b ← readBytes 2
  return decodeShort b

def readInt : Reader Int32 := do
  let b ← readBytes 4
  return decodeInt b

def readLong : Reader Int64 := do
  let b ← readBytes 8
  return decodeLong b

/-- `read(len)`; there is no array of a negative size. -/
def read (len : Int32) : Reader Bytes := fun s =>
  if len < 0 then none else readBytes len.toNatClampNeg s

/-- What an operation has read. -/
inductive Reply
  | error (reason : Int16)
  | get (cacheId : Int64) (flags expiration dataSize : Int32) (data : Bytes)
  /-- `get` returns `null` without an error. -/
  | null
  | getBase (cacheId : Int64) (flags expiration valueSize : Int32)
  | cacheId (cacheId : Int64)
  | deleted
  | delta (cacheId value : Int64)
  | flush (flushCount : Int32) (flushSize : Int64)
  | stats (buf : Bytes)
  | createWatch (watchId : Int32)
  | checkWatch (sequence : Int32) (updates : List (Int64 × Int8))
deriving DecidableEq, Repr

/-- The loop of `checkWatch`. -/
def readUpdates : Nat → Reader (List (Int64 × Int8))
  | 0 => return []
  | n + 1 => do
    let cacheId ← readLong
    let type ← readByte
    let updates ← readUpdates n
    return (cacheId, type) :: updates

namespace Kind

/-- What stands behind the type. -/
def readBody : Kind → Reader Reply
  | .get | .getTouch => do
    let cacheId ← readLong
    let flags ← readInt
    let expiration ← readInt
    let dataSize ← readInt
    if 0 ≤ dataSize then
      let data ← read dataSize
      return .get cacheId flags expiration dataSize data
    else return .null
  | .getBase => do
    let cacheId ← readLong
    let flags ← readInt
    let expiration ← readInt
    let valueSize ← readInt
    return .getBase cacheId flags expiration valueSize
  | .update | .updateFlags | .updateExpiration => do
    let cacheId ← readLong
    return .cacheId cacheId
  | .delete => return .deleted
  | .delta => do
    let cacheId ← readLong
    let value ← readLong
    return .delta cacheId value
  | .flush => do
    let flushCount ← readInt
    let flushSize ← readLong
    return .flush flushCount flushSize
  | .stats => do
    let size ← readInt
    let buf ← read size
    return .stats buf
  | .createWatch => do
    let watchId ← readInt
    return .createWatch watchId
  | .checkWatch => do
    let sequence ← readInt
    let updateCount ← readInt
    if updateCount < 0 then failure
    let updates ← readUpdates updateCount.toNatClampNeg
    return .checkWatch sequence updates

/-- A response. -/
def read (k : Kind) : Reader Reply := do
  let category ← readByte
  let type ← readByte
  if category = categoryCache ∧ type = k.resType then k.readBody
  else
    let reason ← readShort
    return .error reason

/-- The responses that an operation may get. -/
def Answered : Kind → ResPdu → Prop
  | _, .error _ => True
  | .get, .get .. | .getTouch, .get .. => True
  | .getBase, .getBase .. => True
  | .update, .update _ => True
  | .updateFlags, .updateFlags _ => True
  | .updateExpiration, .updateExpiration _ => True
  | .delete, .delete => True
  | .delta, .delta .. => True
  | .flush, .flush .. => True
  | .stats, .stats _ => True
  | .createWatch, .createWatch _ => True
  | .checkWatch, .checkWatch .. => True
  | _, _ => False

end Kind

/-- The lengths that a Java array can have. -/
def Sendable : ResPdu → Prop
  | .get _ _ _ n data => data.length = n.toNat ∧ data.length < 2 ^ 31
  | .stats result => result.length < 2 ^ 31
  | .checkWatch _ updates => updates.length < 2 ^ 28
  | _ => True

/-- The values of a response as the client sees them. -/
def reply : ResPdu → Reply
  | .error reason => .error reason.toInt16
  | .get id fl x n data => .get id.toInt64 fl.toInt32 x.toInt32 n.toInt32 data
  | .getBase id fl x n => .getBase id.toInt64 fl.toInt32 x.toInt32 n.toInt32
  | .update id | .updateFlags id | .updateExpiration id => .cacheId id.toInt64
  | .hello | .delete => .deleted
  | .delta value id => .delta id.toInt64 value
  | .flush count size => .flush count.toInt32 size.toInt64
  | .stats result => .stats result
  | .createWatch w => .createWatch w.toInt32
  | .checkWatch sequence updates =>
    .checkWatch sequence.toInt32 (updates.map fun u => (u.1.toInt64, u.2.toInt8))

namespace ReaderLemmas

variable {α β : Type}

theorem bind_of {m : Reader α} {f : α → Reader β} {s s' : Bytes} {a : α} (h : m s = some (a, s')) :
    (m >>= f) s = f a s' := by
  show (m s).bind _ = _
  rw [h]
  rfl

theorem readBytes_append {l rest : Bytes} {n : Nat} (h : l.length = n) :
    readBytes n (l ++ rest) = some (l, rest) := by
  have hlong : ¬ (l ++ rest).length < n := by
    rw [List.length_append, h]
    exact Nat.not_lt.mpr (Nat.le_add_right _ _)
  rw [readBytes, if_neg hlong, List.take_left' h, List.drop_left' h]

theorem readByte_put (x : UInt8) (rest : Bytes) :
    readByte (putU8 x ++ rest) = some (x.toInt8, rest) := by
  rw [readByte, bind_of (readBytes_append (length_putU8 x))]
  show some ((UInt8.ofNat x.toNat).toInt8, rest) = _
  rw [UInt8.ofNat_toNat]

theorem readShort_put (x : UInt16) (rest : Bytes) :
    readShort (putU16 x ++ rest) = some (x.toInt16, rest) := by
  have hget : getU16 (putU16 x) = x := by
    have := getU16_putU16 x []
    rwa [List.append_nil] at this
  rw [readShort, bind_of (readBytes_append (length_putU16 x)), decodeShort_eq (length_putU16 x), hget]
  rfl

theorem readInt_put (x : UInt32) (rest : Bytes) :
    readInt (putU32 x ++ rest) = some (x.toInt32, rest) := by
  have hget : getU32 (putU32 x) = x := by
    have := getU32_putU32 x []
    rwa [List.append_nil] at this
  rw [readInt, bind_of (readBytes_append (length_putU32 x)), decodeInt_eq (length_putU32 x), hget]
  rfl

theorem readLong_put (x : UInt64) (rest : Bytes) :
    readLong (putU64 x ++ rest) = some (x.toInt64, rest) := by
  have hget : getU64 (putU64 x) = x := by
    have := getU64_putU64 x []
    rwa [List.append_nil] at this
  rw [readLong, bind_of (readBytes_append (length_putU64 x)), decodeLong_eq (length_putU64 x), hget]
  rfl

/-- A length that is no negative `int`. -/
theorem toInt_of_lt {n : UInt32} (h : n.toNat < 2 ^ 31) : n.toInt32.toInt = n.toNat := by
  show n.toBitVec.toInt = n.toBitVec.toNat
  apply BitVec.toInt_eq_toNat_of_lt
  show 2 * n.toNat < 2 ^ 32
  omega

theorem read_append {l rest : Bytes} {n : UInt32} (h : l.length = n.toNat) (hlt : n.toNat < 2 ^ 31) :
    read n.toInt32 (l ++ rest) = some (l, rest) := by
  have hint := toInt_of_lt hlt
  have hpos : ¬ n.toInt32 < 0 := by
    rw [Int32.lt_iff_toInt_lt, hint]
    exact Int.not_lt.mpr (Int.natCast_nonneg _)
  have hlen : n.toInt32.toNatClampNeg = n.toNat := by
    rw [Int32.toNatClampNeg, hint, Int.toNat_natCast]
  rw [read, if_neg hpos, hlen, readBytes_append h]

theorem readUpdates_encode (h : Host) (updates : List (UInt64 × UInt8)) (rest : Bytes) :
    readUpdates updates.length (ResPdu.encodeUpdates h updates ++ rest) =
      some (updates.map fun u => (u.1.toInt64, u.2.toInt8), rest) := by
  induction updates with
  | nil => rfl
  | cons u updates ih =>
    obtain ⟨id, type⟩ := u
    rw [ResPdu.encodeUpdates_cons, List.append_assoc, List.append_assoc, List.length_cons, readUpdates,
      bind_of (readLong_put _ _), bind_of (readByte_put _ _), bind_of ih]
    rfl

/-- The choice of the response that is waited for. -/
theorem read_choice {k : Kind} {c : UInt16} (rest : Bytes)
    (hc : putU16 c = putU8 2 ++ putU8 k.resType.toUInt8) :
    k.read (putU16 c ++ rest) = k.readBody rest := by
  have hcond : (2 : UInt8).toInt8 = categoryCache ∧ k.resType.toUInt8.toInt8 = k.resType := ⟨rfl, rfl⟩
  rw [Kind.read, hc, List.append_assoc, bind_of (readByte_put _ _), bind_of (readByte_put _ _),
    if_pos hcond]

theorem read_error (k : Kind) (reason : UInt16) (rest : Bytes) :
    k.read (putU16 (0 + 0) ++ (putU16 reason ++ rest)) = some (.error reason.toInt16, rest) := by
  have hc : putU16 (0 + 0) = putU8 0 ++ putU8 0 := rfl
  have hother : ¬ ((0 : UInt8).toInt8 = categoryCache ∧ (0 : UInt8).toInt8 = k.resType) :=
    fun hx => absurd hx.1 (by decide)
  rw [Kind.read, hc, List.append_assoc, bind_of (readByte_put _ _), bind_of (readByte_put _ _),
    if_neg hother, bind_of (readShort_put _ _)]
  rfl

/-- The choice of every other response is the one that is waited for. -/
theorem choice_of_answered {k : Kind} {r : ResPdu} (hk : k.Answered r) (hr : ∀ reason, r ≠ .error reason) :
    putU16 r.choice = putU8 2 ++ putU8 k.resType.toUInt8 := by
  have hall : ∀ k : Kind, putU16 (0x200 + k.resType.toUInt8.toUInt16) =
      putU8 2 ++ putU8 k.resType.toUInt8 := by
    intro k
    cases k <;> decide
  have hchoice : r.choice = 0x200 + k.resType.toUInt8.toUInt16 := by
    cases k <;> cases r <;> first | exact absurd rfl (hr _) | exact hk.elim | rfl
  rw [hchoice, hall]

theorem readBody_get {id : UInt64} {fl x n : UInt32} {data : Bytes} (rest : Bytes)
    (hr : Sendable (.get id fl x n data)) :
    Kind.readBody .get (putU64 id ++ (putU32 fl ++ (putU32 x ++ (putU32 n ++ (data ++ rest))))) =
      some (.get id.toInt64 fl.toInt32 x.toInt32 n.toInt32 data, rest) := by
  have hlt : n.toNat < 2 ^ 31 := hr.1 ▸ hr.2
  have hpos : 0 ≤ n.toInt32 := by
    rw [Int32.le_iff_toInt_le, toInt_of_lt hlt]
    exact Int.natCast_nonneg _
  rw [Kind.readBody, bind_of (readLong_put _ _), bind_of (readInt_put _ _),
    bind_of (readInt_put _ _), bind_of (readInt_put _ _), if_pos hpos, bind_of (read_append hr.1 hlt)]
  rfl

theorem readBody_stats {result : Bytes} (rest : Bytes) (hr : Sendable (.stats result)) :
    Kind.readBody .stats (putU32 (.ofNat result.length) ++ (result ++ rest)) =
      some (.stats result, rest) := by
  have hlen : result.length < 2 ^ 31 := hr
  have hn : (UInt32.ofNat result.length).toNat = result.length := by
    rw [UInt32.toNat_ofNat', Nat.mod_eq_of_lt (hlen.trans (by norm_num))]
  rw [Kind.readBody, bind_of (readInt_put _ _), bind_of (read_append hn.symm (hn.symm ▸ hlen))]
  rfl

theorem readBody_checkWatch {sequence : UInt32} {updates : List (UInt64 × UInt8)} (h : Host)
    (rest : Bytes) (hr : Sendable (.checkWatch sequence updates)) :
    Kind.readBody .checkWatch (putU32 sequence ++
        (putU32 (.ofNat updates.length) ++ (ResPdu.encodeUpdates h updates ++ rest))) =
      some (.checkWatch sequence.toInt32 (updates.map fun u => (u.1.toInt64, u.2.toInt8)), rest) := by
  have hlen : updates.length < 2 ^ 28 := hr
  have hn : (UInt32.ofNat updates.length).toNat = updates.length := by
    rw [UInt32.toNat_ofNat', Nat.mod_eq_of_lt (hlen.trans (by norm_num))]
  have hint : (UInt32.ofNat updates.length).toInt32.toInt = updates.length := by
    rw [toInt_of_lt, hn]
    rw [hn]
    exact hlen.trans (by norm_num)
  have hpos : ¬ (UInt32.ofNat updates.length).toInt32 < 0 := by
    rw [Int32.lt_iff_toInt_lt, hint]
    exact Int.not_lt.mpr (Int.natCast_nonneg _)
  have hcount : (UInt32.ofNat updates.length).toInt32.toNatClampNeg = updates.length := by
    rw [Int32.toNatClampNeg, hint, Int.toNat_natCast]
  rw [Kind.readBody, bind_of (readInt_put _ _), bind_of (readInt_put _ _), if_neg hpos, hcount]
  exact bind_of (readUpdates_encode h updates rest)

end ReaderLemmas

open ReaderLemmas

/-- The client reads the response that the server has encoded. -/
theorem read_encode (h : Host) {k : Kind} {r : ResPdu} (rest : Bytes) (hk : k.Answered r)
    (hr : Sendable r) : k.read (r.encode h ++ rest) = some (reply r, rest) := by
  by_cases herr : ∃ reason, r = .error reason
  · obtain ⟨reason, rfl⟩ := herr
    simp only [ResPdu.encode, Host.encodeUInt16_eq, List.append_assoc]
    exact read_error k reason rest
  have hchoice := choice_of_answered hk fun reason hx => herr ⟨reason, hx⟩
  rw [ResPdu.encode.eq_def, List.append_assoc, Host.encodeUInt16_eq, read_choice _ hchoice]
  simp only [Host.encodeUInt16_eq, Host.encodeUInt32_eq, Host.encodeUInt64_eq]
  cases r with
  | error reason => exact absurd ⟨reason, rfl⟩ herr
  | hello => cases k <;> exact hk.elim
  | delete => cases k <;> first | exact hk.elim | rfl
  | get id fl x n data =>
    simp only [List.append_assoc]
    cases k <;> first | exact hk.elim | exact readBody_get rest hr
  | getBase id fl x n =>
    simp only [List.append_assoc]
    cases k <;> first | exact hk.elim | skip
    rw [Kind.readBody, bind_of (readLong_put _ _), bind_of (readInt_put _ _),
      bind_of (readInt_put _ _), bind_of (readInt_put _ _)]
    rfl
  | update id | updateFlags id | updateExpiration id =>
    cases k <;> first | exact hk.elim | skip
    rw [Kind.readBody, bind_of (readLong_put _ _)]
    rfl
  | delta value id =>
    simp only [List.append_assoc]
    cases k <;> first | exact hk.elim | skip
    rw [Kind.readBody, bind_of (readLong_put _ _), bind_of (readLong_put _ _)]
    rfl
  | flush count size =>
    simp only [List.append_assoc]
    cases k <;> first | exact hk.elim | skip
    rw [Kind.readBody, bind_of (readInt_put _ _), bind_of (readLong_put _ _)]
    rfl
  | stats result =>
    simp only [List.append_assoc]
    cases k <;> first | exact hk.elim | exact readBody_stats rest hr
  | createWatch w =>
    cases k <;> first | exact hk.elim | skip
    rw [Kind.readBody, bind_of (readInt_put _ _)]
    rfl
  | checkWatch sequence updates =>
    simp only [List.append_assoc]
    cases k <;> first | exact hk.elim | exact readBody_checkWatch h rest hr

/-- Whatever the client sends, the server reads the same operation with the same key, data and
fields, and nothing of what stands behind it; whatever the server encodes, the client reads the
same values, and nothing of what stands behind it. -/
theorem formats_agree (h : Host) :
    (∀ (q : Request) (capacity : Nat) (sent rest : Bytes), q.key.length < 65536 →
      q.data.length < 2 ^ 31 → q.emit capacity = some sent →
        ∃ pdu, h.readRequest (sent ++ rest) = some (pdu, q.key, q.data, rest) ∧ q.Same pdu) ∧
    ∀ (k : Kind) (r : ResPdu) (rest : Bytes), k.Answered r → Sendable r →
      k.read (r.encode h ++ rest) = some (reply r, rest) :=
  ⟨fun _ _ _ rest hkey hdata hsent => Request.readRequest_emit h rest hkey hdata hsent,
    fun _ _ rest hk hr => read_encode h rest hk hr⟩

/-- `SET` of a key of three bytes with two bytes of data, and a list of one update. -/
theorem formats_agree_set :
    let q : Request := .update .set 5 1 0 60 9 [107, 101, 121] [118, 49]
    let r : ResPdu := .checkWatch 7 [(5, 2)]
    (∃ pdu, Host.little.readRequest (q.puts.flatten ++ q.data ++ [2]) =
      some (pdu, [107, 101, 121], [118, 49], [2]) ∧ q.Same pdu) ∧
      Kind.checkWatch.read (r.encode .little ++ [2]) = some (.checkWatch 7 [(5, 2)], [2]) := by
  intro q r
  have hsent : q.emit 32768 = some (q.puts.flatten ++ q.data) := by decide +kernel
  exact ⟨(formats_agree .little).1 q 32768 _ [2] (by decide) (by decide) hsent,
    (formats_agree .little).2 .checkWatch r [2] trivial (by decide : (1 : Nat) < 2 ^ 28)⟩

end Xixi.Client
