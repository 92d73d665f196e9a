import Xixi.Client.Channel
import Xixi.Client.Protocol

/-!
# What a batch reads (`MultiGet.java`)

The server answers the requests of a connection in turn. `processResponse` is called whenever the
socket is readable, until `isDone`.

1. `Core.next`: what is done when the buffer of a state is full. `phases`: the `if`s of
   `processResponse`.
2. `Response.bytes`: a response as the server encodes it.
3. `Right`: the items of the responses that have been read are where they belong.
   `Assigned`: so it is after every call, and the last response ends the reading.
4. `assigned_iff`: no response that has been found is without data, or has more than an array holds.
-/

namespace Xixi.MultiGet

open Lib NonBlocking PeerCache

/-! ## The connection -/

/-- `STATE_READ_HEAD` and its siblings. -/
inductive State
  | readHead
  | readFixedBody
  | readError
  | readData
deriving DecidableEq, Repr

/-- What a `CacheItem` is made of. -/
structure CacheItem (K O : Type) where
  key : K
  cacheId : Int64
  expiration : Int32
  groupId : Int32
  flags : Int32
  value : O
  objectSize : Int32
  valueSize : Int32
deriving DecidableEq

/-- What `multiGet` has added to a connection, `keys` and `keyIndexs`, of `total` keys in all. It
makes a connection for the first key, and no index is used twice. -/
structure Batch (K : Type) where
  groupId : Int32
  total : Nat
  added : List (K × Nat)
  nonempty : added ≠ []
  nodup : (added.map Prod.snd).Nodup
  inRange : ∀ x ∈ added, x.2 < total

/-- `thrown` is an exception that leaves `processResponse`. -/
structure Core (K O : Type) where
  state : State
  cacheId : Int64
  flags : Int32
  expiration : Int32
  dataSize : Int32
  processedCount : Nat
  isDone : Bool
  thrown : Bool
  result : List (Option (CacheItem K O))
  lastError : Option String
deriving DecidableEq

variable {K O : Type}

/-- A buffer that is `null` is one of no bytes. -/
structure Connection (K O : Type) where
  core : Core K O
  header : ByteBuffer
  fixed : ByteBuffer
  errorRes : ByteBuffer
  data : ByteBuffer
deriving DecidableEq

namespace Core

variable (b : Batch K) (decode : Bytes → Int32 → Option (O × Int32)) (s : Core K O)

def start : Core K O :=
  ⟨.readHead, 0, 0, 0, 0, 0, false, false, List.replicate b.total none, none⟩

def onHeader (header : Bytes) : Core K O :=
  let category := getU8 header
  let type := getU8 (header.drop 1)
  if category = 2 ∧ type = 3 then { s with state := .readFixedBody } else { s with state := .readError }

/-- There is no array of a negative size. -/
def onFixed (fixed : Bytes) : Core K O :=
  let s := { s with
    cacheId := (getU64 fixed).toInt64
    flags := (getU32 (fixed.drop 8)).toInt32
    expiration := (getU32 (fixed.drop 12)).toInt32
    dataSize := (getU32 (fixed.drop 16)).toInt32 }
  if s.dataSize.toInt < 0 then { s with thrown := true } else { s with state := .readData }

def onError (errorRes : Bytes) : Core K O :=
  match b.added[s.processedCount]? with
  | none => { s with thrown := true }
  | some (_, index) =>
    { s with
      result := s.result.set index none
      processedCount := s.processedCount + 1
      lastError := some ("processResponse, response error reason=" ++
        toString (getU16 errorRes).toInt16.toInt)
      state := .readHead
      isDone := s.isDone || b.added.length == s.processedCount + 1 }

/-- When `decode` throws, the exception is logged. -/
def onData (data : Bytes) : Core K O :=
  match b.added[s.processedCount]? with
  | none => { s with thrown := true }
  | some (key, index) =>
    { s with
      result :=
        match decode data s.flags with
        | some (obj, objectSize) => s.result.set index (some
            ⟨key, s.cacheId, s.expiration, b.groupId, s.flags, obj, objectSize, s.dataSize⟩)
        | none => s.result
      processedCount := s.processedCount + 1
      state := .readHead
      isDone := s.isDone || b.added.length == s.processedCount + 1 }

/-- What is done with a full buffer. -/
def next (bytes : Bytes) : Core K O :=
  match s.state with
  | .readHead => s.onHeader bytes
  | .readFixedBody => s.onFixed bytes
  | .readError => s.onError b bytes
  | .readData => s.onData b decode bytes

def halted : Bool := s.isDone || s.thrown

/-- `HEADER_LENGTH`, `FIXED_LENGTH`, `ERROR_RES_LENGTH` and `dataSize`. -/
def need : Nat :=
  if s.halted then 0
  else
    match s.state with
    | .readHead => 2
    | .readFixedBody => 20
    | .readError => 2
    | .readData => s.dataSize.toNatClampNeg

def stages : Stages (Core K O) UInt8 := ⟨need, next b decode⟩

end Core

namespace Connection

variable (b : Batch K) (decode : Bytes → Int32 → Option (O × Int32))

def start : Connection K O := ⟨.start b, .allocate 2, .allocate 20, .allocate 2, .allocate 0⟩

def headPhase : Phase (Connection K O) where
  here c := c.core.state == .readHead
  buffer := header
  put c dst := { c with header := dst }
  full c bytes :=
    let core := c.core.onHeader bytes
    if core.state = .readFixedBody then ({ c with core, fixed := .allocate 20 }, true)
    else ({ c with core, errorRes := .allocate 2 }, true)

def fixedPhase : Phase (Connection K O) where
  here c := c.core.state == .readFixedBody
  buffer := fixed
  put c dst := { c with fixed := dst }
  full c bytes :=
    let core := c.core.onFixed bytes
    if core.halted then ({ c with core }, false)
    else ({ c with core, data := .allocate core.dataSize.toNatClampNeg }, true)

def errorPhase : Phase (Connection K O) where
  here c := c.core.state == .readError
  buffer := errorRes
  put c dst := { c with errorRes := dst }
  full c bytes :=
    let core := c.core.onError b bytes
    if core.halted then ({ c with core }, false) else ({ c with core, header := .allocate 2 }, true)

def dataPhase : Phase (Connection K O) where
  here c := c.core.state == .readData
  buffer := data
  put c dst := { c with data := dst }
  full c bytes :=
    let core := c.core.onData b decode bytes
    ({ c with core, data := .allocate 0, header := .allocate 2 }, !core.halted)

/-- The body of the loop of `processResponse`. -/
def phases : List (Phase (Connection K O)) := [headPhase, fixedPhase, errorPhase b, dataPhase b decode]

/-- The buffer of the state. -/
def buffer (c : Connection K O) : ByteBuffer :=
  match c.core.state with
  | .readHead => c.header
  | .readFixedBody => c.fixed
  | .readError => c.errorRes
  | .readData => c.data

def reader : Reader (Core K O) (Connection K O) where
  stages := Core.stages b decode
  core := core
  buffer := buffer
  halted := Core.halted

end Connection

/-! ## What the server sends -/

/-- A response to `GET`; `data_length` has 32 bits. -/
inductive Response
  | success (cacheId : UInt64) (flags expiration : UInt32) (data : Bytes) (fits : data.length < 2 ^ 32)
  | error (reason : UInt16)

namespace Response

def pdu : Response → ResPdu
  | success id fl x data _ => .get id fl x (.ofNat data.length) data
  | error reason => .error reason

/-- On a server of this kind. -/
def bytes (h : Host) (r : Response) : Bytes := r.pdu.encode h

/-- There is data, and not more than an array holds. -/
def Readable : Response → Prop
  | success _ _ _ data _ => 0 < data.length ∧ data.length < 2 ^ 31
  | error _ => True

instance : DecidablePred Readable
  | success _ _ _ data _ => inferInstanceAs (Decidable (0 < data.length ∧ data.length < 2 ^ 31))
  | error _ => inferInstanceAs (Decidable True)

/-- The item that the response gives for its key; `null` when there is none or it is not decoded. -/
def outcome (groupId : Int32) (decode : Bytes → Int32 → Option (O × Int32)) (key : K) :
    Response → Option (CacheItem K O)
  | success id fl x data _ => (decode data fl.toInt32).map fun (obj, objectSize) =>
    ⟨key, id.toInt64, x.toInt32, groupId, fl.toInt32, obj, objectSize,
      (UInt32.ofNat data.length).toInt32⟩
  | error _ => none

end Response

section Spec
variable (h : Host) (b : Batch K) (decode : Bytes → Int32 → Option (O × Int32)) (rs : List Response)
  (rest : Bytes)

/-- The responses, and what the server sends behind them. -/
def stream : Bytes := rs.flatMap (Response.bytes h) ++ rest

/-- The outcome of each of the first `n` responses is in the slot of its key. -/
structure Results (n : Nat) (result : List (Option (CacheItem K O))) : Prop where
  own : ∀ j x, b.added[j]? = some x →
    result[x.2]? = some (if j < n then (rs[j]?).bind (Response.outcome b.groupId decode x.1) else none)
  others : ∀ slot < b.total, slot ∉ b.added.map Prod.snd → result[slot]? = some none
  length : result.length = b.total

/-- `left` has not been read yet. -/
structure Right (s : Core K O) (left : Bytes) : Prop where
  suffix : left <:+ stream h rs rest
  notBeyond : rest.length ≤ left.length
  count : s.processedCount =
    ended (Response.bytes h) rs ((stream h rs rest).length - left.length)
  results : Results b decode rs s.processedCount s.result
  done : s.isDone = true ↔ left.length = rest.length
  noThrow : s.thrown = false

/-- However the bytes arrive in the calls, every call leaves the items right, and one in which
everything arrives is the last one. -/
def Assigned : Prop :=
  ∀ t c left, Run ((Connection.reader b decode).Step (Connection.phases b decode))
      (Connection.start b, stream h rs rest) t (c, left) →
    Right h b decode rs rest c.core left ∧
      (c.core.isDone = false → ∀ grants, Reader.Fed ⟨left, grants⟩ →
        (call (Connection.phases b decode) c left grants).conn.core.isDone = true)

end Spec

/-! ## The `if`s of the connection -/

namespace MultiGetLemmas

variable {b : Batch K} {decode : Bytes → Int32 → Option (O × Int32)}

@[simp] theorem halted_onHeader (s : Core K O) (bytes : Bytes) :
    (s.onHeader bytes).halted = s.halted := by
  unfold Core.onHeader
  dsimp only
  split
  · rfl
  · rfl

theorem state_onHeader (s : Core K O) (bytes : Bytes) :
    (s.onHeader bytes).state = .readFixedBody ∨ (s.onHeader bytes).state = .readError := by
  unfold Core.onHeader
  dsimp only
  split
  · exact .inl rfl
  · exact .inr rfl

theorem state_onFixed (s : Core K O) (bytes : Bytes) :
    (s.onFixed bytes).halted = true ∧ (s.onFixed bytes).state = s.state ∨
      (s.onFixed bytes).halted = s.halted ∧ (s.onFixed bytes).state = .readData := by
  unfold Core.onFixed
  dsimp only
  split
  · exact .inl ⟨Bool.or_true _, rfl⟩
  · exact .inr ⟨rfl, rfl⟩

theorem state_onError (s : Core K O) (bytes : Bytes) :
    (s.onError b bytes).halted = true ∧ (s.onError b bytes).state = s.state ∨
      (s.onError b bytes).state = .readHead := by
  unfold Core.onError
  split
  · exact .inl ⟨Bool.or_true _, rfl⟩
  · exact .inr rfl

theorem state_onData (b : Batch K) (decode : Bytes → Int32 → Option (O × Int32)) (s : Core K O)
    (bytes : Bytes) :
    (s.onData b decode bytes).halted = true ∧ (s.onData b decode bytes).state = s.state ∨
      (s.onData b decode bytes).state = .readHead := by
  unfold Core.onData
  split
  · exact .inl ⟨Bool.or_true _, rfl⟩
  · exact .inr rfl

/-- How much is read in the state, while the connection reads. -/
theorem need_of {s : Core K O} {state : State} (hactive : s.halted = false) : s.state = state →
    s.need = match state with
      | .readHead => 2
      | .readFixedBody => 20
      | .readError => 2
      | .readData => s.dataSize.toNatClampNeg := by
  rintro rfl
  rw [Core.need, hactive]
  exact if_neg Bool.false_ne_true

theorem next_of {s : Core K O} {state : State} (bytes : Bytes) : s.state = state →
    s.next b decode bytes = match state with
      | .readHead => s.onHeader bytes
      | .readFixedBody => s.onFixed bytes
      | .readError => s.onError b bytes
      | .readData => s.onData b decode bytes := by
  rintro rfl
  rfl

theorem buffer_of {c : Connection K O} {state : State} : c.core.state = state →
    c.buffer = match state with
      | .readHead => c.header
      | .readFixedBody => c.fixed
      | .readError => c.errorRes
      | .readData => c.data := by
  rintro rfl
  rfl

theorem core_fullHead (c : Connection K O) (bytes : Bytes) :
    (Connection.headPhase.full c bytes).1.core = c.core.onHeader bytes := by
  dsimp only [Connection.headPhase]
  split
  · rfl
  · rfl

theorem isPhase_head : (Connection.reader b decode).IsPhase Connection.headPhase := by
  have hnext : ∀ (c : Connection K O) bytes, Connection.headPhase.here c = true →
      c.core.next b decode bytes = c.core.onHeader bytes := fun c bytes h => next_of bytes (beq_iff_eq.mp h)
  refine ⟨fun c h => (buffer_of (beq_iff_eq.mp h)).symm, fun _ _ => rfl,
    fun c dst h => buffer_of (c := { c with header := dst }) (beq_iff_eq.mp h),
    fun c dst bytes h => (core_fullHead _ bytes).trans (hnext c bytes h).symm, fun c dst bytes h hactive => ?_,
    fun c dst bytes h hactive => ?_⟩
  · change (c.core.next b decode bytes).halted = false at hactive
    show Connection.buffer _ = ⟨[], (c.core.next b decode bytes).need⟩
    rw [hnext c bytes h] at hactive ⊢
    dsimp only [Connection.headPhase]
    split
    · next hfixed =>
      rw [buffer_of hfixed, need_of hactive hfixed]
      rfl
    · next hother =>
      have herror := (state_onHeader c.core bytes).resolve_left hother
      rw [buffer_of herror, need_of hactive herror]
      rfl
  · have hgoesOn : (Connection.headPhase.full { c with header := dst } bytes).2 = true := by
      dsimp only [Connection.headPhase]
      split
      · rfl
      · rfl
    change c.core.halted = false at hactive
    show _ = !(c.core.next b decode bytes).halted
    rw [hnext c bytes h, halted_onHeader, hactive]
    exact hgoesOn

theorem core_fullFixed (c : Connection K O) (bytes : Bytes) :
    (Connection.fixedPhase.full c bytes).1.core = c.core.onFixed bytes := by
  dsimp only [Connection.fixedPhase]
  split
  · rfl
  · rfl

theorem isPhase_fixed : (Connection.reader b decode).IsPhase Connection.fixedPhase := by
  have hnext : ∀ (c : Connection K O) bytes, Connection.fixedPhase.here c = true →
      c.core.next b decode bytes = c.core.onFixed bytes := fun c bytes h => next_of bytes (beq_iff_eq.mp h)
  refine ⟨fun c h => (buffer_of (beq_iff_eq.mp h)).symm, fun _ _ => rfl,
    fun c dst h => buffer_of (c := { c with fixed := dst }) (beq_iff_eq.mp h),
    fun c dst bytes h => (core_fullFixed _ bytes).trans (hnext c bytes h).symm, fun c dst bytes h hactive => ?_,
    fun c dst bytes h _ => ?_⟩
  · change (c.core.next b decode bytes).halted = false at hactive
    show Connection.buffer _ = ⟨[], (c.core.next b decode bytes).need⟩
    rw [hnext c bytes h] at hactive ⊢
    have hdata : (c.core.onFixed bytes).state = .readData := by
      rcases state_onFixed c.core bytes with ⟨hhalted, -⟩ | ⟨-, hdata⟩
      · exact absurd (hactive.symm.trans hhalted) Bool.false_ne_true
      · exact hdata
    dsimp only [Connection.fixedPhase]
    rw [hactive, if_neg Bool.false_ne_true, buffer_of hdata, need_of hactive hdata]
    rfl
  · show _ = !(c.core.next b decode bytes).halted
    rw [hnext c bytes h]
    dsimp only [Connection.fixedPhase]
    split
    · next hhalted => rw [hhalted, Bool.not_true]
    · next hactive => rw [Bool.eq_false_iff.mpr hactive, Bool.not_false]

theorem core_fullError (c : Connection K O) (bytes : Bytes) :
    ((Connection.errorPhase b).full c bytes).1.core = c.core.onError b bytes := by
  dsimp only [Connection.errorPhase]
  split
  · rfl
  · rfl

theorem isPhase_error : (Connection.reader b decode).IsPhase (Connection.errorPhase b) := by
  have hnext : ∀ (c : Connection K O) bytes, (Connection.errorPhase b).here c = true →
      c.core.next b decode bytes = c.core.onError b bytes :=
    fun c bytes h => next_of bytes (beq_iff_eq.mp h)
  refine ⟨fun c h => (buffer_of (beq_iff_eq.mp h)).symm, fun _ _ => rfl,
    fun c dst h => buffer_of (c := { c with errorRes := dst }) (beq_iff_eq.mp h),
    fun c dst bytes h => (core_fullError _ bytes).trans (hnext c bytes h).symm, fun c dst bytes h hactive => ?_,
    fun c dst bytes h _ => ?_⟩
  · change (c.core.next b decode bytes).halted = false at hactive
    show Connection.buffer _ = ⟨[], (c.core.next b decode bytes).need⟩
    rw [hnext c bytes h] at hactive ⊢
    have hhead : (c.core.onError b bytes).state = .readHead := by
      rcases state_onError c.core bytes with ⟨hhalted, -⟩ | hhead
      · exact absurd (hactive.symm.trans hhalted) Bool.false_ne_true
      · exact hhead
    dsimp only [Connection.errorPhase]
    rw [hactive, if_neg Bool.false_ne_true, buffer_of hhead, need_of hactive hhead]
    rfl
  · show _ = !(c.core.next b decode bytes).halted
    rw [hnext c bytes h]
    dsimp only [Connection.errorPhase]
    split
    · next hhalted => rw [hhalted, Bool.not_true]
    · next hactive => rw [Bool.eq_false_iff.mpr hactive, Bool.not_false]

theorem isPhase_data : (Connection.reader b decode).IsPhase (Connection.dataPhase b decode) := by
  have hnext : ∀ (c : Connection K O) bytes, (Connection.dataPhase b decode).here c = true →
      c.core.next b decode bytes = c.core.onData b decode bytes :=
    fun c bytes h => next_of bytes (beq_iff_eq.mp h)
  refine ⟨fun c h => (buffer_of (beq_iff_eq.mp h)).symm, fun _ _ => rfl,
    fun c dst h => buffer_of (c := { c with data := dst }) (beq_iff_eq.mp h),
    fun c dst bytes h => (hnext c bytes h).symm, fun c dst bytes h hactive => ?_,
    fun c dst bytes h _ => ?_⟩
  · change (c.core.next b decode bytes).halted = false at hactive
    show Connection.buffer _ = ⟨[], (c.core.next b decode bytes).need⟩
    rw [hnext c bytes h] at hactive ⊢
    have hhead : (c.core.onData b decode bytes).state = .readHead := by
      rcases state_onData b decode c.core bytes with ⟨hhalted, -⟩ | hhead
      · exact absurd (hactive.symm.trans hhalted) Bool.false_ne_true
      · exact hhead
    dsimp only [Connection.dataPhase]
    rw [buffer_of hhead, need_of hactive hhead]
    rfl
  · show _ = !(c.core.next b decode bytes).halted
    rw [hnext c bytes h]
    rfl

/-- An exception leaves the state as it is, and the last item a header to be read. -/
theorem loops : (Connection.reader b decode).Loops (Connection.phases b decode) := by
  refine ⟨fun p hp => ?_, fun c _ => ?_, ?_⟩
  · simp only [Connection.phases, List.mem_cons, List.not_mem_nil, or_false] at hp
    rcases hp with rfl | rfl | rfl | rfl
    · exact isPhase_head
    · exact isPhase_fixed
    · exact isPhase_error
    · exact isPhase_data
  · cases hstate : c.core.state with
    | readHead => exact ⟨_, List.mem_cons_self, beq_iff_eq.mpr hstate⟩
    | readFixedBody => exact ⟨_, List.mem_cons_of_mem _ List.mem_cons_self, beq_iff_eq.mpr hstate⟩
    | readError =>
      refine ⟨Connection.errorPhase b, ?_, beq_iff_eq.mpr hstate⟩
      exact List.mem_cons_of_mem _ (List.mem_cons_of_mem _ List.mem_cons_self)
    | readData =>
      refine ⟨Connection.dataPhase b decode, ?_, beq_iff_eq.mpr hstate⟩
      exact List.mem_cons_of_mem _ (List.mem_cons_of_mem _ (List.mem_cons_of_mem _ List.mem_cons_self))
  · have hhead : ∀ q, (Connection.reader b decode).Ends Connection.headPhase q := by
      intro q c dst bytes hhere hactive hhalted
      change (c.core.next b decode bytes).halted = true at hhalted
      change c.core.halted = false at hactive
      rw [next_of bytes (beq_iff_eq.mp hhere)] at hhalted
      dsimp only at hhalted
      rw [halted_onHeader] at hhalted
      exact absurd (hactive.symm.trans hhalted) Bool.false_ne_true
    have hfixed : ∀ q : Phase (Connection K O),
        (∀ c : Connection K O, c.core.state = .readFixedBody → q.here c = false) →
        (Connection.reader b decode).Ends Connection.fixedPhase q := by
      intro q hq c dst bytes hhere hactive hhalted
      change (c.core.next b decode bytes).halted = true at hhalted
      change c.core.halted = false at hactive
      rw [next_of bytes (beq_iff_eq.mp hhere)] at hhalted
      refine hq _ ?_
      rw [core_fullFixed]
      rcases state_onFixed c.core bytes with ⟨-, hsame⟩ | ⟨hkept, -⟩
      · exact hsame.trans (beq_iff_eq.mp hhere)
      · exact absurd ((hkept.trans hactive).symm.trans hhalted) Bool.false_ne_true
    have herror : (Connection.reader b decode).Ends (Connection.errorPhase b)
        (Connection.dataPhase b decode) := by
      intro c dst bytes hhere _ _
      show (((Connection.errorPhase b).full _ bytes).1.core.state == .readData) = false
      rw [core_fullError, beq_eq_false_iff_ne]
      change (c.core.onError b bytes).state ≠ _
      rcases state_onError (b := b) c.core bytes with ⟨-, hsame⟩ | hhead
      · rw [hsame, beq_iff_eq.mp hhere]
        exact fun h => nomatch h
      · rw [hhead]
        exact fun h => nomatch h
    have hother : ∀ {state state' : State}, state ≠ state' → ∀ c : Connection K O,
        c.core.state = state → (c.core.state == state') = false := by
      rintro state state' hne c rfl
      exact beq_eq_false_iff_ne.mpr hne
    refine .cons (fun q _ => hhead q) (.cons (fun q hq => hfixed q ?_) (.cons (fun q hq => ?_) (.cons ?_ .nil)))
    · rcases List.mem_cons.mp hq with rfl | hq
      · exact hother fun h => nomatch h
      · rw [List.mem_singleton.mp hq]
        exact hother fun h => nomatch h
    · rw [List.mem_singleton.mp hq]
      exact herror
    · exact fun q hq => absurd hq List.not_mem_nil

/-! ## From one response to the next one -/

/-- What the server sends in front of the data. -/
def fixedBody (id : UInt64) (fl x n : UInt32) : Bytes :=
  putU64 id ++ (putU32 fl ++ (putU32 x ++ putU32 n))

theorem length_fixedBody (id : UInt64) (fl x n : UInt32) : (fixedBody id fl x n).length = 20 := by
  simp only [fixedBody, List.length_append, length_putU64, length_putU32]

theorem bytes_success (h : Host) {id : UInt64} {fl x : UInt32} {data : Bytes}
    (fits : data.length < 2 ^ 32) : (Response.success id fl x data fits).bytes h =
      [2, 3] ++ (fixedBody id fl x (.ofNat data.length) ++ data) := by
  have hchoice : putU16 (0x200 + 3) = [2, 3] := rfl
  simp only [Response.bytes, Response.pdu, ResPdu.encode, ResPdu.choice, Host.encodeUInt16_eq,
    Host.encodeUInt32_eq, Host.encodeUInt64_eq, hchoice, fixedBody, List.append_assoc]

theorem bytes_error (h : Host) (reason : UInt16) :
    (Response.error reason).bytes h = [0, 0] ++ putU16 reason := by
  have hchoice : putU16 (0 + 0) = [0, 0] := rfl
  simp only [Response.bytes, Response.pdu, ResPdu.encode, ResPdu.choice, Host.encodeUInt16_eq, hchoice]

theorem onHeader_found (s : Core K O) : s.onHeader [2, 3] = { s with state := .readFixedBody } := by
  have hfound : getU8 [2, 3] = 2 ∧ getU8 ([2, 3].drop 1) = 3 := by decide
  unfold Core.onHeader
  exact if_pos hfound

theorem onHeader_error (s : Core K O) : s.onHeader [0, 0] = { s with state := .readError } := by
  have herror : ¬ (getU8 [0, 0] = 2 ∧ getU8 ([0, 0].drop 1) = 3) := by decide
  unfold Core.onHeader
  exact if_neg herror

theorem onFixed_body (s : Core K O) (id : UInt64) (fl x n : UInt32) :
    s.onFixed (fixedBody id fl x n) =
      let s := { s with
        cacheId := id.toInt64, flags := fl.toInt32, expiration := x.toInt32, dataSize := n.toInt32 }
      if n.toInt32.toInt < 0 then { s with thrown := true } else { s with state := .readData } := by
  have hflags : (fixedBody id fl x n).drop 8 = putU32 fl ++ (putU32 x ++ putU32 n) := drop_putU64 _ _
  have hexpiration : (fixedBody id fl x n).drop 12 = putU32 x ++ putU32 n := by
    rw [← List.drop_drop (i := 4) (j := 8), hflags, drop_putU32]
  have hsize : (fixedBody id fl x n).drop 16 = putU32 n ++ [] := by
    rw [← List.drop_drop (i := 4) (j := 12), hexpiration, drop_putU32, List.append_nil]
  have hid : getU64 (fixedBody id fl x n) = id := getU64_putU64 _ _
  simp only [Core.onFixed, hid, hflags, hexpiration, hsize, getU32_putU32]

/-- Nothing has been done with the response yet. -/
structure Waits (s s' : Core K O) : Prop where
  count : s'.processedCount = s.processedCount
  result : s'.result = s.result
  isDone : s'.isDone = s.isDone
  thrown : s'.thrown = s.thrown
  need : 0 < s'.need

variable {s s' : Core K O} {bs left more buf : Bytes} {h : Host} {id : UInt64} {fl x n : UInt32}
  {data : Bytes} {fits : data.length < 2 ^ 32}

theorem next_fixed (s : Core K O) (bytes : Bytes) :
    (Core.stages b decode).next { s with state := .readFixedBody } bytes =
      ({ s with state := .readFixedBody } : Core K O).onFixed bytes := rfl

/-- The front of a response with data. -/
theorem reads_success (hstate : s.state = .readHead) (hactive : s.halted = false)
    (hstream : bs ++ left = (Response.success id fl x data fits).bytes h ++ more)
    (hreads : Reads (Core.stages b decode) s bs s' buf) :
    Waits s s' ∨ ∃ bs', bs.length = 22 + bs'.length ∧ bs' ++ left = data ++ more ∧
      Reads (Core.stages b decode)
        (({ s with state := .readFixedBody } : Core K O).onFixed (fixedBody id fl x (.ofNat data.length)))
        bs' s' buf := by
  have hneed : s.need = 2 := need_of hactive hstate
  have hnext : (Core.stages b decode).next s [2, 3] = { s with state := .readFixedBody } :=
    (next_of _ hstate).trans (onHeader_found s)
  have hneed' : ({ s with state := .readFixedBody } : Core K O).need = 20 :=
    need_of (s := { s with state := .readFixedBody }) hactive rfl
  have hpos : 0 < s.need := hneed ▸ Nat.two_pos
  have hpos' : 0 < ({ s with state := .readFixedBody } : Core K O).need := hneed' ▸ by decide
  rw [bytes_success, List.append_assoc, List.append_assoc] at hstream
  have hseg : ([2, 3] : Bytes).length = s.need := hneed.symm
  have hfront := hreads.front hpos hseg hstream
  rcases hfront with ⟨-, rfl⟩ | ⟨bs₁, rfl, hstream₁, hreads₁⟩
  · exact .inl ⟨rfl, rfl, rfl, rfl, hpos⟩
  rw [hnext] at hreads₁
  have hfront' := hreads₁.front hpos' ((length_fixedBody _ _ _ _).trans hneed'.symm) hstream₁
  rcases hfront' with ⟨-, rfl⟩ | ⟨bs₂, rfl, hstream₂, hreads₂⟩
  · exact .inl ⟨rfl, rfl, rfl, rfl, hpos'⟩
  rw [next_fixed] at hreads₂
  refine .inr ⟨bs₂, ?_, hstream₂, hreads₂⟩
  rw [List.length_append, List.length_append, length_fixedBody, ← Nat.add_assoc]
  rfl

theorem toNat_length (fits : data.length < 2 ^ 32) :
    (UInt32.ofNat data.length).toNat = data.length := by
  rw [UInt32.toNat_ofNat', Nat.mod_eq_of_lt fits]

theorem toInt_length (fits : data.length < 2 ^ 32) (hlt : data.length < 2 ^ 31) :
    (UInt32.ofNat data.length).toInt32.toInt = data.length := by
  have hn := toNat_length fits
  rw [Client.ReaderLemmas.toInt_of_lt (by rwa [hn]), hn]

/-- The front of the item has been read. -/
def found (s : Core K O) (id : UInt64) (fl x n : UInt32) : Core K O :=
  { s with
    cacheId := id.toInt64, flags := fl.toInt32, expiration := x.toInt32, dataSize := n.toInt32
    state := .readData }

theorem onFixed_readable (s : Core K O) (fits : data.length < 2 ^ 32) (hlt : data.length < 2 ^ 31) :
    s.onFixed (fixedBody id fl x (.ofNat data.length)) = found s id fl x (.ofNat data.length) := by
  rw [onFixed_body]
  exact if_neg (toInt_length fits hlt ▸ Int.not_lt.mpr (Int.natCast_nonneg _))

theorem need_found (hactive : s.halted = false) (fits : data.length < 2 ^ 32)
    (hlt : data.length < 2 ^ 31) : (found s id fl x (.ofNat data.length)).need = data.length := by
  have hneed := need_of (s := found s id fl x (.ofNat data.length)) hactive rfl
  rw [hneed]
  show (UInt32.ofNat data.length).toInt32.toInt.toNat = data.length
  rw [toInt_length fits hlt, Int.toNat_natCast]

/-- More data than an array holds, or none. -/
theorem need_unreadable (hr : ¬ (Response.success id fl x data fits).Readable) :
    (s.onFixed (fixedBody id fl x (.ofNat data.length))).need = 0 := by
  rcases Nat.lt_or_ge data.length (2 ^ 31) with hlt | hge
  · have hzero : data.length = 0 := by
      by_contra hne
      exact hr ⟨Nat.pos_of_ne_zero hne, hlt⟩
    rw [onFixed_readable s fits hlt]
    cases hactive : s.halted with
    | true => exact if_pos hactive
    | false => exact (need_found hactive fits hlt).trans hzero
  · have hneg : (UInt32.ofNat data.length).toInt32.toInt < 0 := by
      show (UInt32.ofNat data.length).toBitVec.toInt < 0
      have hn : (UInt32.ofNat data.length).toBitVec.toNat = data.length := toNat_length fits
      rw [BitVec.toInt_eq_toNat_cond, hn, if_neg (by omega)]
      omega
    rw [onFixed_body]
    dsimp only
    rw [if_pos hneg, Core.need, Core.halted, Bool.or_true]
    exact if_pos rfl

/-- The front of an error. -/
theorem reads_error {reason : UInt16} (hstate : s.state = .readHead) (hactive : s.halted = false)
    (hstream : bs ++ left = (Response.error reason).bytes h ++ more)
    (hreads : Reads (Core.stages b decode) s bs s' buf) :
    Waits s s' ∨ ∃ bs', bs.length = 4 + bs'.length ∧ bs' ++ left = more := by
  have hneed : s.need = 2 := need_of hactive hstate
  have hnext : (Core.stages b decode).next s [0, 0] = { s with state := .readError } :=
    (next_of _ hstate).trans (onHeader_error s)
  have hneed' : ({ s with state := .readError } : Core K O).need = 2 :=
    need_of (s := { s with state := .readError }) hactive rfl
  have hpos : 0 < s.need := hneed ▸ Nat.two_pos
  have hpos' : 0 < ({ s with state := .readError } : Core K O).need := hneed' ▸ Nat.two_pos
  rw [bytes_error, List.append_assoc] at hstream
  have hseg : ([0, 0] : Bytes).length = s.need := hneed.symm
  have hfront := hreads.front hpos hseg hstream
  rcases hfront with ⟨-, rfl⟩ | ⟨bs₁, rfl, hstream₁, hreads₁⟩
  · exact .inl ⟨rfl, rfl, rfl, rfl, hpos⟩
  rw [hnext] at hreads₁
  have hfront' := hreads₁.front hpos' ((length_putU16 reason).trans hneed'.symm) hstream₁
  rcases hfront' with ⟨-, rfl⟩ | ⟨bs₂, rfl, hstream₂, -⟩
  · exact .inl ⟨rfl, rfl, rfl, rfl, hpos'⟩
  refine .inr ⟨bs₂, ?_, hstream₂⟩
  rw [List.length_append, List.length_append, length_putU16, ← Nat.add_assoc]
  rfl

/-- Within a response. -/
theorem reads_part {r : Response} (hr : r.Readable) (hstate : s.state = .readHead)
    (hactive : s.halted = false) (hpre : bs <+: r.bytes h) (hlt : bs.length < (r.bytes h).length)
    (hreads : Reads (Core.stages b decode) s bs s' buf) : Waits s s' := by
  obtain ⟨left, hstream⟩ := hpre
  have hall : bs ++ left = r.bytes h ++ [] := hstream.trans (List.append_nil _).symm
  have hleft : left ≠ [] := by
    rintro rfl
    rw [List.append_nil] at hstream
    exact hlt.ne (congrArg List.length hstream)
  cases r with
  | error reason =>
    rcases reads_error hstate hactive hall hreads with hwaits | ⟨bs', -, hend⟩
    · exact hwaits
    · exact absurd (List.append_eq_nil_iff.mp hend).2 hleft
  | success id fl x data fits =>
    rcases reads_success hstate hactive hall hreads with hwaits | ⟨bs', -, hend, hreads'⟩
    · exact hwaits
    · rw [onFixed_readable _ fits hr.2] at hreads'
      have hneed : (found s id fl x (.ofNat data.length)).need = data.length :=
        need_found hactive fits hr.2
      have hpos := Nat.lt_of_lt_of_eq hr.1 hneed.symm
      rcases hreads'.front hpos hneed.symm hend with ⟨-, rfl⟩ | ⟨bs₂, -, hend', -⟩
      · exact ⟨rfl, rfl, rfl, rfl, hpos⟩
      · exact absurd (List.append_eq_nil_iff.mp hend').2 hleft

/-- A response that is not readable is never got over. -/
theorem reads_unreadable {r : Response} (hr : ¬ r.Readable) (hstate : s.state = .readHead)
    (hactive : s.halted = false) (hstream : bs ++ left = r.bytes h ++ more)
    (hreads : Reads (Core.stages b decode) s bs s' buf) : s'.isDone = s.isDone := by
  cases r with
  | error reason => exact absurd trivial hr
  | success id fl x data fits =>
    rcases reads_success hstate hactive hstream hreads with hwaits | ⟨bs', -, -, hreads'⟩
    · exact hwaits.isDone
    · have hzero := need_unreadable (s := ({ s with state := .readFixedBody } : Core K O)) hr
      rw [onFixed_body] at hreads' hzero
      rw [(hreads'.of_zero hzero).1]
      dsimp only
      split
      · rfl
      · rfl

/-! ## The items -/

variable {rs : List Response} {i : Nat} {r : Response} {key : K} {index : Nat}
  {result : List (Option (CacheItem K O))}

theorem index_inj {j : Nat} {x : K × Nat} (hx : b.added[j]? = some x)
    (hi : b.added[i]? = some (key, index)) (h : x.2 = index) : j = i := by
  have hindex : ∀ {k : Nat} {y : K × Nat}, b.added[k]? = some y →
      (b.added.map Prod.snd)[k]? = some y.2 := by
    intro k y hk
    rw [List.getElem?_map, hk]
    rfl
  obtain ⟨hlt, -⟩ := List.getElem?_eq_some_iff.mp (hindex hx)
  exact (List.getElem?_inj hlt b.nodup).mp ((hindex hx).trans (h ▸ (hindex hi).symm))

/-- The next item is put where it belongs. -/
theorem results_set (hres : Results b decode rs i result) (hr : rs[i]? = some r)
    (hx : b.added[i]? = some (key, index)) :
    Results b decode rs (i + 1) (result.set index (r.outcome b.groupId decode key)) := by
  refine ⟨fun j x hj => ?_, fun slot hslot hother => ?_, List.length_set.trans hres.length⟩
  · by_cases hsame : x.2 = index
    · obtain rfl := index_inj hj hx hsame
      obtain rfl := Option.some.inj (hj.symm.trans hx)
      have hlt : index < result.length := hres.length ▸ b.inRange _ (List.mem_of_getElem? hx)
      rw [List.getElem?_set_self hlt, if_pos (Nat.lt_succ_self _), hr]
      rfl
    · have hne : j ≠ i := by
        rintro rfl
        exact hsame (congrArg Prod.snd (Option.some.inj (hj.symm.trans hx)))
      rw [List.getElem?_set_ne (Ne.symm hsame), hres.own j x hj]
      rcases Nat.lt_or_gt_of_ne hne with hlt | hgt
      · rw [if_pos hlt, if_pos (Nat.lt_succ_of_lt hlt)]
      · rw [if_neg (Nat.not_lt_of_gt hgt), if_neg (Nat.not_lt.mpr hgt)]
  · have hne : index ≠ slot := by
      rintro rfl
      exact hother (List.mem_map_of_mem (f := Prod.snd) (List.mem_of_getElem? hx))
    rw [List.getElem?_set_ne hne]
    exact hres.others slot hslot hother

/-- Where an item is missing, `null` has been put. -/
theorem set_none (hres : Results b decode rs i result) (hx : b.added[i]? = some (key, index)) :
    result.set index none = result := by
  have hget : result[index]? = some none := by
    rw [hres.own i _ hx, if_neg (Nat.lt_irrefl i)]
  obtain ⟨hlt, hnone⟩ := List.getElem?_eq_some_iff.mp hget
  rw [← hnone, List.set_getElem_self]

/-- In front of the response with the number `i`. -/
structure At (b : Batch K) (decode : Bytes → Int32 → Option (O × Int32)) (rs : List Response)
    (i : Nat) (s : Core K O) : Prop where
  state : s.state = .readHead
  count : s.processedCount = i
  isDone : s.isDone = (rs.length == i)
  thrown : s.thrown = false
  results : Results b decode rs i s.result

/-- Within it. -/
structure Within (b : Batch K) (decode : Bytes → Int32 → Option (O × Int32)) (rs : List Response)
    (i : Nat) (s : Core K O) : Prop where
  count : s.processedCount = i
  isDone : s.isDone = false
  thrown : s.thrown = false
  need : 0 < s.need
  results : Results b decode rs i s.result

theorem at_start (hlen : rs.length = b.added.length) : At b decode rs 0 (Core.start b : Core K O) := by
  refine ⟨rfl, rfl, ?_, rfl, fun j x hj => ?_, fun slot hslot _ => ?_, List.length_replicate⟩
  · have hne : rs.length ≠ 0 := by
      rw [hlen]
      exact fun h => b.nonempty (List.length_eq_zero_iff.mp h)
    exact (beq_eq_false_iff_ne.mpr hne).symm
  · rw [if_neg (Nat.not_lt_zero j)]
    exact List.getElem?_replicate_of_lt (b.inRange _ (List.mem_of_getElem? hj))
  · exact List.getElem?_replicate_of_lt hslot

theorem at_active (hat : At b decode rs i s) (hi : rs[i]? = some r) : s.halted = false := by
  have hlt := (List.getElem?_eq_some_iff.mp hi).1
  rw [Core.halted, hat.isDone, hat.thrown, Bool.or_false, beq_eq_false_iff_ne]
  exact hlt.ne'

theorem onError_eq (hcount : s.processedCount = i) (hx : b.added[i]? = some (key, index))
    (bytes : Bytes) :
    (s.onError b bytes).state = .readHead ∧ (s.onError b bytes).processedCount = i + 1 ∧
      (s.onError b bytes).isDone = (s.isDone || b.added.length == i + 1) ∧
      (s.onError b bytes).thrown = s.thrown ∧
      (s.onError b bytes).result = s.result.set index none := by
  subst hcount
  unfold Core.onError
  rw [hx]
  exact ⟨rfl, rfl, rfl, rfl, rfl⟩

theorem onData_eq (decode : Bytes → Int32 → Option (O × Int32)) (hcount : s.processedCount = i)
    (hx : b.added[i]? = some (key, index)) (bytes : Bytes) :
    (s.onData b decode bytes).state = .readHead ∧ (s.onData b decode bytes).processedCount = i + 1 ∧
      (s.onData b decode bytes).isDone = (s.isDone || b.added.length == i + 1) ∧
      (s.onData b decode bytes).thrown = s.thrown := by
  subst hcount
  unfold Core.onData
  rw [hx]
  exact ⟨rfl, rfl, rfl, rfl⟩

/-- The item of a response that has been found. -/
theorem results_onData (hres : Results b decode rs i s.result)
    (hi : rs[i]? = some (.success id fl x data fits)) (hcount : s.processedCount = i)
    (hx : b.added[i]? = some (key, index)) : Results b decode rs (i + 1)
      ((found s id fl x (.ofNat data.length)).onData b decode data).result := by
  have hset := results_set hres hi hx
  have hfound : b.added[(found s id fl x (.ofNat data.length)).processedCount]? = some (key, index) :=
    hcount ▸ hx
  rw [Response.outcome] at hset
  unfold Core.onData
  rw [hfound]
  cases hdecode : decode data fl.toInt32 with
  | none =>
    rw [hdecode, Option.map_none, set_none hres hx] at hset
    have hsame : decode data (found s id fl x (.ofNat data.length)).flags = none := hdecode
    dsimp only
    rw [hsame]
    exact hset
  | some out =>
    rw [hdecode] at hset
    have hsame : decode data (found s id fl x (.ofNat data.length)).flags = some out := hdecode
    dsimp only
    rw [hsame]
    exact hset

/-- The end of a response. -/
theorem at_succ (hlen : rs.length = b.added.length) (hat : At b decode rs i s) (hi : rs[i]? = some r)
    (hstate : s'.state = .readHead) (hcount : s'.processedCount = i + 1)
    (hdone : s'.isDone = (s.isDone || b.added.length == i + 1)) (hthrown : s'.thrown = s.thrown)
    (hres : Results b decode rs (i + 1) s'.result) : At b decode rs (i + 1) s' := by
  have hactive : s.isDone = false := (Bool.or_eq_false_iff.mp (at_active hat hi)).1
  refine ⟨hstate, hcount, ?_, hthrown.trans hat.thrown, hres⟩
  rw [hdone, hactive, Bool.false_or, hlen]

/-- A response is read as a whole. -/
theorem reads_whole (hlen : rs.length = b.added.length) (hr : r.Readable) (hi : rs[i]? = some r)
    (hat : At b decode rs i s) :
    ∃ s', At b decode rs (i + 1) s' ∧ Reads (Core.stages b decode) s (r.bytes h) s' [] := by
  have hactive := at_active hat hi
  have hneed : s.need = 2 := need_of hactive hat.state
  have hpos : 0 < s.need := hneed ▸ Nat.two_pos
  obtain ⟨⟨key, index⟩, hxi⟩ : ∃ x, b.added[i]? = some x :=
    ⟨_, List.getElem?_eq_getElem (hlen ▸ (List.getElem?_eq_some_iff.mp hi).1)⟩
  have hcount := hat.count
  cases r with
  | error reason =>
    have hnext : (Core.stages b decode).next s [0, 0] = { s with state := .readError } :=
      (next_of _ hat.state).trans (onHeader_error s)
    have hneed' : ({ s with state := .readError } : Core K O).need = 2 :=
      need_of (s := { s with state := .readError }) hactive rfl
    have hpos' : 0 < ({ s with state := .readError } : Core K O).need := hneed' ▸ Nat.two_pos
    have hnext' : (Core.stages b decode).next { s with state := .readError } (putU16 reason) =
        ({ s with state := .readError } : Core K O).onError b (putU16 reason) := rfl
    have hend : At b decode rs (i + 1)
        (({ s with state := .readError } : Core K O).onError b (putU16 reason)) := by
      obtain ⟨hstate, hcount, hdone, hthrown, hresult⟩ :=
        onError_eq (s := { s with state := .readError }) hcount hxi (putU16 reason)
      refine at_succ hlen hat hi hstate hcount hdone hthrown ?_
      rw [hresult]
      exact results_set hat.results hi hxi
    have hseg' : (putU16 reason).length = ({ s with state := .readError } : Core K O).need := by
      rw [length_putU16, hneed']
    have hlast := Reads.go (m := Core.stages b decode) hseg' hpos' (.refl _)
    rw [List.append_nil, hnext'] at hlast
    refine ⟨_, hend, ?_⟩
    rw [bytes_error]
    have hseg : ([0, 0] : Bytes).length = s.need := hneed.symm
    exact .go hseg hpos (by rwa [hnext])
  | success id fl x data fits =>
    have hnext : (Core.stages b decode).next s [2, 3] = { s with state := .readFixedBody } :=
      (next_of _ hat.state).trans (onHeader_found s)
    have hneed₁ : ({ s with state := .readFixedBody } : Core K O).need = 20 :=
      need_of (s := { s with state := .readFixedBody }) hactive rfl
    have hpos₁ : 0 < ({ s with state := .readFixedBody } : Core K O).need := hneed₁ ▸ by decide
    have hnext₁ : (Core.stages b decode).next { s with state := .readFixedBody }
        (fixedBody id fl x (.ofNat data.length)) = found s id fl x (.ofNat data.length) :=
      (next_fixed s _).trans (onFixed_readable _ fits hr.2)
    have hneed₂ : (found s id fl x (.ofNat data.length)).need = data.length :=
      need_found hactive fits hr.2
    have hpos₂ : 0 < (found s id fl x (.ofNat data.length)).need := Nat.lt_of_lt_of_eq hr.1 hneed₂.symm
    have hnext₂ : (Core.stages b decode).next (found s id fl x (.ofNat data.length)) data =
        (found s id fl x (.ofNat data.length)).onData b decode data := rfl
    have hend : At b decode rs (i + 1)
        ((found s id fl x (.ofNat data.length)).onData b decode data) := by
      obtain ⟨hstate, hcount, hdone, hthrown⟩ :=
        onData_eq decode (s := found s id fl x (.ofNat data.length)) hcount hxi data
      exact at_succ hlen hat hi hstate hcount hdone hthrown
        (results_onData hat.results hi hat.count hxi)
    have hlast := Reads.go (m := Core.stages b decode) hneed₂.symm hpos₂ (.refl _)
    rw [List.append_nil, hnext₂] at hlast
    have hseg₁ : (fixedBody id fl x (.ofNat data.length)).length =
        ({ s with state := .readFixedBody } : Core K O).need := by
      rw [length_fixedBody, hneed₁]
    have hseg : ([2, 3] : Bytes).length = s.need := hneed.symm
    refine ⟨_, hend, ?_⟩
    rw [bytes_success]
    refine .go hseg hpos ?_
    rw [hnext]
    refine .go hseg₁ hpos₁ ?_
    rwa [hnext₁]

/-! ## Every response in turn -/

theorem within_part (hr : r.Readable) (hi : rs[i]? = some r) (hat : At b decode rs i s)
    (hpre : bs <+: r.bytes h) (hlt : bs.length < (r.bytes h).length)
    (hreads : Reads (Core.stages b decode) s bs s' buf) : Within b decode rs i s' := by
  have hactive := at_active hat hi
  have hwaits := reads_part hr hat.state hactive hpre hlt hreads
  refine ⟨hwaits.count.trans hat.count, ?_, hwaits.thrown.trans hat.thrown, hwaits.need,
    hwaits.result.symm ▸ hat.results⟩
  exact hwaits.isDone.trans (Bool.or_eq_false_iff.mp hactive).1

theorem serves (h : Host) (hlen : rs.length = b.added.length) (hr : ∀ r ∈ rs, r.Readable) :
    (Connection.reader b decode).Serves (Core.start b) (Response.bytes h) rs (At b decode rs)
      (Within b decode rs) := by
  refine ⟨at_start hlen,
    fun i r s hi hat => reads_whole hlen (hr r (List.mem_of_getElem? hi)) hi hat,
    fun i r s bs s' buf hi hat hpre hlt => within_part (hr r (List.mem_of_getElem? hi)) hi hat hpre hlt,
    fun i s hwithin => ⟨?_, hwithin.need⟩, fun s hat => ?_⟩
  · show (s.isDone || s.thrown) = false
    rw [hwithin.isDone, hwithin.thrown]
    rfl
  · have hhalted : s.halted = true := by
      rw [Core.halted, hat.isDone, beq_self_eq_true, Bool.true_or]
    exact ⟨hhalted, if_pos hhalted⟩

end MultiGetLemmas

open MultiGetLemmas

variable {h : Host} {b : Batch K} {decode : Bytes → Int32 → Option (O × Int32)} {rs : List Response}
  {rest left : Bytes} {c : Connection K O}

theorem follows_start (h : Host) (b : Batch K) (decode : Bytes → Int32 → Option (O × Int32))
    (rs : List Response) (rest : Bytes) :
    (Connection.reader b decode).Follows (Core.start b) (stream h rs rest) (Connection.start b)
      (stream h rs rest) :=
  ⟨[], [], rfl, .refl _, fun _ => rfl⟩

/-- A connection that follows the responses has put the items where they belong. -/
theorem right_of_follows (hlen : rs.length = b.added.length) (hr : ∀ r ∈ rs, r.Readable)
    (hf : (Connection.reader b decode).Follows (Core.start b) (stream h rs rest) c left) :
    Right h b decode rs rest c.core left := by
  obtain ⟨i, hi, hsuffix, hstage⟩ := Reader.stage_of_follows (serves h hlen hr) hf
  change Within b decode rs i c.core ∧ _ ∨ At b decode rs i c.core ∧ _ at hstage
  rcases hstage with ⟨hwithin, hbehind⟩ | ⟨hat, hend, rfl⟩
  · refine ⟨hsuffix, hbehind.le, hwithin.count.trans hi, hwithin.count.symm ▸ hwithin.results, ?_,
      hwithin.thrown⟩
    rw [hwithin.isDone]
    exact ⟨fun h => absurd h Bool.false_ne_true, fun h => absurd h hbehind.ne'⟩
  · refine ⟨hsuffix, le_rfl, hat.count.trans hi, hat.count.symm ▸ hat.results, ?_, hat.thrown⟩
    rw [hat.isDone, hend, beq_self_eq_true]
    exact ⟨fun _ => rfl, fun _ => rfl⟩

/-- Behind a response that is not readable the connection is never done. -/
theorem not_done_of_follows (hlen : rs.length = b.added.length) {r : Response} (hmem : r ∈ rs)
    (hr : ¬ r.Readable)
    (hf : (Connection.reader b decode).Follows (Core.start b) (stream h rs rest) c left) :
    c.core.isDone = false := by
  obtain ⟨consumed, buf, hstream, hreads, -⟩ := hf
  change Reads (Core.stages b decode) (Core.start b) consumed c.core buf at hreads
  -- the first of them
  obtain ⟨r, hfirst⟩ : ∃ r, rs.find? (fun r => !decide r.Readable) = some r :=
    Option.isSome_iff_exists.mp (List.find?_isSome.mpr ⟨r, hmem, by simpa using hr⟩)
  obtain ⟨hr, pre, post, rfl, hpre⟩ := List.find?_eq_some_iff_append.mp hfirst
  have hreadable : ∀ r ∈ pre, r.Readable := fun r hr => by simpa using hpre r hr
  have hr : ¬ r.Readable := by simpa using hr
  have hin : ∀ {i : Nat} {r' : Response}, pre[i]? = some r' → (pre ++ r :: post)[i]? = some r' := by
    intro i r' hi
    rw [List.getElem?_append_left (List.getElem?_eq_some_iff.mp hi).1, hi]
  have hnext : (pre ++ r :: post)[pre.length]? = some r := by
    rw [List.getElem?_append_right le_rfl, Nat.sub_self]
    rfl
  rw [stream, List.flatMap_append, List.flatMap_cons, List.append_assoc, List.append_assoc] at hstream
  have hall := hreads.messages (At b decode (pre ++ r :: post)) (Within b decode (pre ++ r :: post))
    (fun i r s hi hat => reads_whole hlen (hreadable r (List.mem_of_getElem? hi)) (hin hi) hat)
    (fun i r s bs s' buf hi hat hpre hlt =>
      within_part (hreadable r (List.mem_of_getElem? hi)) (hin hi) hat hpre hlt)
    (at_start hlen) hstream
  rcases hall with ⟨-, hwithin⟩ | ⟨-, s₁, bs, hat, hreads', hstream'⟩
  · exact hwithin.isDone
  · have hactive := at_active hat hnext
    rw [reads_unreadable hr hat.state hactive hstream' hreads']
    exact (Bool.or_eq_false_iff.mp hactive).1

/-- The items are assigned if and only if every response can be read. -/
theorem assigned_iff (hlen : rs.length = b.added.length) :
    Assigned (O := O) h b decode rs rest ↔ ∀ r ∈ rs, r.Readable := by
  constructor
  · intro hassigned r hmem
    by_contra hr
    have hactive : (Connection.reader b decode).halted (Core.start b) = false := rfl
    have hfed : Reader.Fed ⟨stream h rs rest, List.replicate (stream h rs rest).length 1⟩ := by
      refine ⟨fun n hn => ?_, List.length_replicate.ge⟩
      rw [List.eq_of_mem_replicate hn]
      exact Nat.one_pos
    have hdone := (hassigned [] _ _ (.nil _)).2 rfl _ hfed
    have hf := Reader.call_follows (List.replicate (stream h rs rest).length 1) loops hactive
      (follows_start h b decode rs rest)
    exact Bool.false_ne_true ((not_done_of_follows hlen hmem hr hf).symm.trans hdone)
  · intro hr t c left hrun
    have hf := Reader.follows_run loops hrun (follows_start h b decode rs rest)
    have hright := right_of_follows hlen hr hf
    refine ⟨hright, fun hactive grants hfed => ?_⟩
    have hactive : (Connection.reader b decode).halted c.core = false := by
      show (c.core.isDone || c.core.thrown) = false
      rw [hactive, hright.noThrow]
      rfl
    have hf' := Reader.call_follows grants loops hactive hf
    have hhalted := Reader.halted_of_blocked (serves h hlen hr) hf'
      (Reader.call_blocked loops hactive hf hfed)
    have hthrown := (right_of_follows hlen hr hf').noThrow
    exact (Bool.or_eq_true_iff.mp hhalted).resolve_right (hthrown ▸ Bool.false_ne_true)

end Xixi.MultiGet
