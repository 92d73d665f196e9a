import Xixi.Client.Protocol
import Xixi.Lib.Realize

/-!
# Reading with blocking (`TCPSocket.java`)

`Protocol` reads a response field by field. A socket gives it the bytes out of a buffer of 8192,
which it fills from the channel with whatever has arrived.

1. `TCPSocket.readBytes`: `read(b, 0, len)`, with the reads of the channel. `Kind.receive` reads a
   response from any socket; from the bytes themselves this is `Kind.read`.
2. `readBytes_realizes`: a socket gives the bytes of the stream in turn.
3. `receive_of_stream`: an operation reads from a socket what it would read from the bytes, however
   they are cut.
-/

namespace Xixi.Client
open Lib PeerCache

/-- `arrivals` is what the reads of the channel still get: an empty one is a read that gets nothing,
and behind the last one the channel is at its end. -/
structure TCPSocket where
  writeBufferSize : Nat
  readBuffer : Bytes
  arrivals : List Bytes
deriving DecidableEq, Repr

namespace TCPSocket

/-- The capacity of `readBuffer`. -/
def readBufferSize : Nat := 8 * 1024

/-- A new socket, on whose channel nothing has arrived. -/
def new (writeBufferSize : Nat) : TCPSocket := ⟨writeBufferSize, [], []⟩

/-- The loop of `readFromChannel`: the reads that get nothing are repeated. -/
def channelLoop : Nat → List Bytes → Bytes × List Bytes
  | 0, arrivals => ([], arrivals)
  | _ + 1, [] => ([], [])
  | turns + 1, [] :: arrivals => channelLoop turns arrivals
  | _ + 1, (b :: bytes) :: arrivals =>
    let bytes := b :: bytes
    (bytes.take readBufferSize, if bytes.length ≤ readBufferSize then arrivals
      else bytes.drop readBufferSize :: arrivals)

def readFromChannel (s : TCPSocket) : TCPSocket :=
  let x := channelLoop 100 s.arrivals
  { s with readBuffer := x.1, arrivals := x.2 }

/-- The loop of `read(b, off, len)`; every turn takes at least one byte. `none` is the exception. -/
def readLoop : Nat → Nat → TCPSocket → Option (Bytes × TCPSocket)
  | 0, _, s => some ([], s)
  | turns + 1, remain, s =>
    if remain = 0 then some ([], s)
    else
      let s := if s.readBuffer = [] then s.readFromChannel else s
      if s.readBuffer = [] then none
      else
        let r := min s.readBuffer.length remain
        (readLoop turns (remain - r) { s with readBuffer := s.readBuffer.drop r }).map fun x =>
          (s.readBuffer.take r ++ x.1, x.2)

/-- `read(b, 0, len)`. -/
def readBytes (len : Nat) : StateT TCPSocket Option Bytes := fun s => readLoop len len s

/-- `close`, when the pool takes the socket. -/
def close (s : TCPSocket) : TCPSocket := { s with readBuffer := [] }

/-- What the server has sent and the operation has not read. -/
def unread (s : TCPSocket) : Bytes := s.readBuffer ++ s.arrivals.flatten

/-- `readFromChannel` does not give up: no hundred reads in a row get nothing. -/
def Lively (s : TCPSocket) : Prop := ¬ List.replicate 100 [] <:+: s.arrivals

instance (s : TCPSocket) : Decidable s.Lively :=
  inferInstanceAs (Decidable (¬ List.replicate 100 [] <:+: s.arrivals))

end TCPSocket

/-! ## Responses from any socket -/

section Receive
variable {σ : Type} (readBytes : Nat → StateT σ Option Bytes)

def receiveByte : StateT σ Option Int8 := do
  let b ← readBytes 1
  return (b.headD 0).toInt8

def receiveShort : StateT σ Option Int16 := do
  let b ← readBytes 2
  return decodeShort b

def receiveInt : StateT σ Option Int32 := do
  let b ← readBytes 4
  return decodeInt b

def receiveLong : StateT σ Option Int64 := do
  let b ← readBytes 8
  return decodeLong b

/-- `read(len)`; there is no array of a negative size. -/
def receive (len : Int32) : StateT σ Option Bytes :=
  if len < 0 then failure else readBytes len.toNatClampNeg

/-- The loop of `checkWatch`. -/
def receiveUpdates : Nat → StateT σ Option (List (Int64 × Int8))
  | 0 => return []
  | n + 1 => do
    let cacheId ← receiveLong readBytes
    let type ← receiveByte readBytes
    let updates ← receiveUpdates n
    return (cacheId, type) :: updates

namespace Kind

/-- What stands behind the type. -/
def receiveBody : Kind → StateT σ Option Reply
  | .get | .getTouch => do
    let cacheId ← receiveLong readBytes
    let flags ← receiveInt readBytes
    let expiration ← receiveInt readBytes
    let dataSize ← receiveInt readBytes
    if 0 ≤ dataSize then
      let data ← Client.receive readBytes dataSize
      return .get cacheId flags expiration dataSize data
    else return .null
  | .getBase => do
    let cacheId ← receiveLong readBytes
    let flags ← receiveInt readBytes
    let expiration ← receiveInt readBytes
    let valueSize ← receiveInt readBytes
    return .getBase cacheId flags expiration valueSize
  | .update | .updateFlags | .updateExpiration => do
    let cacheId ← receiveLong readBytes
    return .cacheId cacheId
  | .delete => return .deleted
  | .delta => do
    let cacheId ← receiveLong readBytes
    let value ← receiveLong readBytes
    return .delta cacheId value
  | .flush => do
    let flushCount ← receiveInt readBytes
    let flushSize ← receiveLong readBytes
    return .flush flushCount flushSize
  | .stats => do
    let size ← receiveInt readBytes
    let buf ← Client.receive readBytes size
    return .stats buf
  | .createWatch => do
    let watchId ← receiveInt readBytes
    return .createWatch watchId
  | .checkWatch => do
    let sequence ← receiveInt readBytes
    let updateCount ← receiveInt readBytes
    if updateCount < 0 then failure
    let updates ← receiveUpdates readBytes updateCount.toNatClampNeg
    return .checkWatch sequence updates

/-- A response. -/
def receive (k : Kind) : StateT σ Option Reply := do
  let category ← receiveByte readBytes
  let type ← receiveByte readBytes
  if category = categoryCache ∧ type = k.resType then k.receiveBody readBytes
  else
    let reason ← receiveShort readBytes
    return .error reason

end Kind
end Receive

/-- From the bytes themselves a response is read as before. -/
theorem receive_read (k : Kind) : k.receive Client.readBytes = k.read := by
  have hupdates : ∀ n, receiveUpdates Client.readBytes n = readUpdates n := by
    intro n
    induction n with
    | zero => rfl
    | succ n ih =>
      rw [receiveUpdates, ih]
      rfl
  have hlen : ∀ len, Client.receive Client.readBytes len = Client.read len := by
    intro len
    funext s
    rw [Client.receive, Client.read]
    split
    · rfl
    · rfl
  have hbody : k.receiveBody Client.readBytes = k.readBody := by
    unfold Kind.receiveBody
    simp only [hlen, hupdates]
    cases k with
    | _ => rfl
  rw [Kind.receive, hbody]
  rfl

/-! ## Any socket whose bytes are those of another one -/

namespace ReceiveLemmas

variable {σ τ : Type} {view : σ → τ} {ok : σ → Prop} {take : Nat → StateT σ Option Bytes}
  {take' : Nat → StateT τ Option Bytes} (h : ∀ n, Realizes view ok (take n) (take' n))
include h

theorem receiveByte_realizes : Realizes view ok (receiveByte take) (receiveByte take') :=
  .bind (h 1) fun _ => .pure _

theorem receiveShort_realizes : Realizes view ok (receiveShort take) (receiveShort take') :=
  .bind (h 2) fun _ => .pure _

theorem receiveInt_realizes : Realizes view ok (receiveInt take) (receiveInt take') :=
  .bind (h 4) fun _ => .pure _

theorem receiveLong_realizes : Realizes view ok (receiveLong take) (receiveLong take') :=
  .bind (h 8) fun _ => .pure _

theorem receive_realizes (len : Int32) :
    Realizes view ok (Client.receive take len) (Client.receive take' len) :=
  .ite .failure (h _)

theorem receiveUpdates_realizes (n : Nat) :
    Realizes view ok (receiveUpdates take n) (receiveUpdates take' n) := by
  induction n with
  | zero => exact .pure _
  | succ n ih =>
    exact .bind (receiveLong_realizes h) fun _ => .bind (receiveByte_realizes h) fun _ =>
      .bind ih fun _ => .pure _

theorem receiveBody_realizes (k : Kind) :
    Realizes view ok (k.receiveBody take) (k.receiveBody take') := by
  have hint := receiveInt_realizes h
  have hlong := receiveLong_realizes h
  cases k with
  | get | getTouch =>
    refine .bind hlong fun _ => .bind hint fun _ => .bind hint fun _ => .bind hint fun size => ?_
    exact .ite (.bind (receive_realizes h size) fun _ => .pure _) (.pure _)
  | getBase =>
    exact .bind hlong fun _ => .bind hint fun _ => .bind hint fun _ => .bind hint fun _ => .pure _
  | update | updateFlags | updateExpiration => exact .bind hlong fun _ => .pure _
  | delete => exact .pure _
  | delta => exact .bind hlong fun _ => .bind hlong fun _ => .pure _
  | flush => exact .bind hint fun _ => .bind hlong fun _ => .pure _
  | stats => exact .bind hint fun size => .bind (receive_realizes h size) fun _ => .pure _
  | createWatch => exact .bind hint fun _ => .pure _
  | checkWatch =>
    refine .bind hint fun _ => .bind hint fun count => ?_
    refine .ite (.bind .failure fun _ => ?_) ?_
    all_goals exact .bind (receiveUpdates_realizes h _) fun _ => .pure _

/-- A response is read through the view if the bytes are. -/
theorem kind_receive_realizes (k : Kind) : Realizes view ok (k.receive take) (k.receive take') := by
  refine .bind (receiveByte_realizes h) fun _ => .bind (receiveByte_realizes h) fun _ => ?_
  exact .ite (receiveBody_realizes h k) (.bind (receiveShort_realizes h) fun _ => .pure _)

end ReceiveLemmas

/-! ## The socket and its stream -/

namespace TCPSocketLemmas
open TCPSocket

variable {s : TCPSocket} {arrivals : List Bytes} {turns : Nat}

/-- The reads of the channel lose nothing. -/
theorem channelLoop_append (turns : Nat) (arrivals : List Bytes) :
    (channelLoop turns arrivals).1 ++ (channelLoop turns arrivals).2.flatten =
      arrivals.flatten := by
  induction turns generalizing arrivals with
  | zero => rfl
  | succ turns ih =>
    obtain _ | ⟨_ | ⟨b, bytes⟩, arrivals⟩ := arrivals
    · rfl
    · exact ih arrivals
    · rw [channelLoop]
      dsimp only
      split
      · next hshort => rw [List.take_of_length_le hshort, List.flatten_cons]
      · rw [List.flatten_cons, List.flatten_cons, ← List.append_assoc, List.take_append_drop]

/-- They get nothing if there is nothing any more, or if they give up. -/
theorem of_channelLoop_nil (h : (channelLoop turns arrivals).1 = []) :
    arrivals.flatten = [] ∨ List.replicate turns [] <+: arrivals := by
  induction turns generalizing arrivals with
  | zero => exact .inr (List.nil_prefix)
  | succ turns ih =>
    obtain _ | ⟨_ | ⟨b, bytes⟩, arrivals⟩ := arrivals
    · exact .inl rfl
    · rcases ih h with hnil | hpre
      · exact .inl hnil
      · exact .inr ((List.prefix_cons_inj []).mpr hpre)
    · cases h

theorem not_infix_of_suffix {p l l' : List Bytes} (h : ¬ p <:+: l) (hl : l' <:+ l) : ¬ p <:+: l' :=
  fun hx => h (hx.trans hl.isInfix)

/-- What is left does not begin with more reads that get nothing. -/
theorem channelLoop_lively {n : Nat} (hn : 0 < n) (h : ¬ List.replicate n [] <:+: arrivals) :
    ¬ List.replicate n [] <:+: (channelLoop turns arrivals).2 := by
  induction turns generalizing arrivals with
  | zero => exact h
  | succ turns ih =>
    obtain _ | ⟨_ | ⟨b, bytes⟩, arrivals⟩ := arrivals
    · exact h
    · exact ih (not_infix_of_suffix h (List.suffix_cons [] arrivals))
    · have hrest := not_infix_of_suffix h (List.suffix_cons (b :: bytes) arrivals)
      rw [channelLoop]
      dsimp only
      split
      · exact hrest
      · next hlong =>
        intro hx
        rcases List.infix_cons_iff.mp hx with hpre | hx
        · obtain ⟨n, rfl⟩ := Nat.exists_eq_succ_of_ne_zero hn.ne'
          rw [List.replicate_succ, List.cons_prefix_cons] at hpre
          have hlen := congrArg List.length hpre.1
          rw [List.length_drop] at hlen
          exact hlong (Nat.sub_eq_zero_iff_le.mp hlen.symm)
        · exact hrest hx

theorem unread_readFromChannel (h : s.readBuffer = []) : s.readFromChannel.unread = s.unread := by
  rw [unread, unread, h]
  exact channelLoop_append 100 s.arrivals

/-- A number of bytes of which some are at hand. -/
theorem readBytes_append {bytes rest : Bytes} {n : Nat} (h : bytes.length ≤ n) :
    Client.readBytes n (bytes ++ rest) =
      (Client.readBytes (n - bytes.length) rest).map fun x => (bytes ++ x.1, x.2) := by
  rw [Client.readBytes, Client.readBytes, List.length_append]
  by_cases hlen : bytes.length + rest.length < n
  · rw [if_pos hlen, if_pos (by omega)]
    rfl
  · rw [if_neg hlen, if_neg (by omega), List.take_append, List.drop_append,
      List.take_of_length_le h, List.drop_eq_nil_of_le h]
    rfl

/-- A turn takes some of the bytes, or there are none. -/
theorem readLoop_succ (turns : Nat) {n : Nat} (hn : 0 < n) (s : TCPSocket) :
    (readLoop (turns + 1) n s = none ∧ (s.Lively → s.unread = [])) ∨
      ∃ bytes s₂, bytes ≠ [] ∧ bytes.length ≤ n ∧ s.unread = bytes ++ unread s₂ ∧
        (s.Lively → s₂.Lively) ∧ readLoop (turns + 1) n s =
          (readLoop turns (n - bytes.length) s₂).map fun x => (bytes ++ x.1, x.2) := by
  obtain ⟨s₁, hs₁, hunread, hlively, hempty⟩ : ∃ s₁,
      (if s.readBuffer = [] then s.readFromChannel else s) = s₁ ∧ s₁.unread = s.unread ∧
        (s.Lively → s₁.Lively) ∧ (s₁.readBuffer = [] → s.Lively → s.unread = []) := by
    split
    · next hnil =>
      refine ⟨_, rfl, unread_readFromChannel hnil, channelLoop_lively (by decide), ?_⟩
      intro hget hl
      rcases of_channelLoop_nil hget with hall | hpre
      · rw [unread, hnil, hall]
        rfl
      · exact absurd hpre.isInfix hl
    · next hsome => exact ⟨_, rfl, rfl, id, fun hnil => absurd hnil hsome⟩
  rw [readLoop, if_neg hn.ne', hs₁]
  dsimp only
  split
  · next hnil => exact .inl ⟨rfl, hempty hnil⟩
  · next hsome =>
    generalize hr : min s₁.readBuffer.length n = r
    have hle : r ≤ s₁.readBuffer.length := hr ▸ Nat.min_le_left _ _
    have hlen : (s₁.readBuffer.take r).length = r := List.length_take_of_le hle
    have hpos : 0 < r := hr ▸ Nat.lt_min.mpr ⟨List.length_pos_iff.mpr hsome, hn⟩
    refine .inr ⟨s₁.readBuffer.take r, { s₁ with readBuffer := s₁.readBuffer.drop r }, ?_, ?_, ?_,
      hlively, ?_⟩
    · exact List.length_pos_iff.mp (hlen.symm ▸ hpos)
    · exact hlen.le.trans (hr ▸ Nat.min_le_right _ _)
    · rw [← hunread, unread, unread, ← List.append_assoc, List.take_append_drop]
    · rw [hlen]

/-- A socket gives the bytes of its stream, and the channel is not given up too early. -/
theorem readLoop_realizes {n : Nat} (h : n ≤ turns) :
    Realizes unread Lively (readLoop turns n) (Client.readBytes n) := by
  induction turns generalizing n with
  | zero =>
    obtain rfl := Nat.le_zero.mp h
    exact .pure []
  | succ turns ih =>
    rcases Nat.eq_zero_or_pos n with rfl | hn
    · exact .pure []
    · have hnext {bytes : Bytes} (hne : bytes ≠ []) :
          Realizes unread Lively (readLoop turns (n - bytes.length))
            (Client.readBytes (n - bytes.length)) := by
        refine ih ?_
        have := List.length_pos_iff.mpr hne
        omega
      refine ⟨fun {s s' a} hread => ?_, fun {s s' a} hs hread => ?_, fun {s} hs hread => ?_⟩
      all_goals
        rcases readLoop_succ turns hn s with ⟨hnone, hend⟩ |
          ⟨bytes, s₂, hne, hle, hunread, hlively, heq⟩
      · cases hread.symm.trans hnone
      · rw [heq] at hread
        obtain ⟨⟨more, s₃⟩, hmore, hx⟩ := Option.map_eq_some_iff.mp hread
        cases hx
        rw [hunread, readBytes_append hle, (hnext hne).result hmore]
        rfl
      · cases hread.symm.trans hnone
      · rw [heq] at hread
        obtain ⟨⟨more, s₃⟩, hmore, hx⟩ := Option.map_eq_some_iff.mp hread
        cases hx
        exact (hnext hne).kept (hlively hs) hmore
      · rw [hend hs]
        exact if_pos hn
      · rw [heq] at hread
        rw [hunread, readBytes_append hle,
          (hnext hne).returns (hlively hs) (Option.map_eq_none_iff.mp hread)]
        rfl

end TCPSocketLemmas

open TCPSocketLemmas ReceiveLemmas

theorem readBytes_realizes (n : Nat) :
    Realizes TCPSocket.unread TCPSocket.Lively (TCPSocket.readBytes n) (Client.readBytes n) :=
  readLoop_realizes le_rfl

/-- However the bytes are cut, what an operation reads from a socket is what it reads from the
bytes, and it leaves the same bytes. It returns whenever it does there, as long as no hundred reads
in a row get nothing. -/
theorem receive_of_stream (k : Kind) (s : TCPSocket) :
    (∀ r s', k.receive TCPSocket.readBytes s = some (r, s') →
      k.read s.unread = some (r, s'.unread)) ∧
    (s.Lively → k.receive TCPSocket.readBytes s = none → k.read s.unread = none) := by
  have h := kind_receive_realizes readBytes_realizes k
  rw [receive_read] at h
  exact ⟨fun _ _ => h.result, h.returns⟩

/-- The response to `CREATE_WATCH` in four pieces, one of them empty, and with a byte behind it. -/
theorem receive_of_cut :
    let s : TCPSocket := ⟨32768, [], [[2], [], [23, 0], [0, 0, 9, 7]]⟩
    Kind.createWatch.read s.unread = some (.createWatch 9, [7]) ∧
      Kind.createWatch.read ({ s with arrivals := [[2], [23, 0]] } : TCPSocket).unread = none := by
  intro s
  have hall : Kind.createWatch.receive TCPSocket.readBytes s =
      some (.createWatch 9, ⟨32768, [7], []⟩) := by
    decide +kernel
  have hcut : Kind.createWatch.receive TCPSocket.readBytes { s with arrivals := [[2], [23, 0]] } =
      none := by
    decide +kernel
  exact ⟨(receive_of_stream .createWatch s).1 _ _ hall,
    (receive_of_stream .createWatch _).2 (by decide) hcut⟩

end Xixi.Client
