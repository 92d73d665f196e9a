import Xixi.Client.Multi
import Xixi.Client.TCPSocket

/-!
# Calls (`Protocol.java`)

Any number of callers, each with a socket of its own that it uses again and again. An operation
sends its request, and reads its response some time later. Meanwhile the server has executed the
request, or the connection is broken.

1. `Calls.next`: a caller sends a request, the server executes one, a caller reads its response, an
   idle socket is closed. A response arrives in pieces, and may be cut short.
2. `Line.Good`: where a request with its response can be.
3. `replies_of_run`: what an operation returns is the server's answer to its own request, each
   request is executed at most once, and a socket that goes back to the pool is clean.
-/

namespace Xixi.Client
open Lib PeerCache

/-- `XIXI_REASON_UNKNOWN_COMMAND`, upon which the socket is closed. -/
def Reply.unknownCommand : Reply → Bool
  | .error reason => reason == 8
  | _ => false

/-- A socket and its other end. `calling` is the operation that waits for its response, and `inbox`
what has been sent and the server has not read. The rest is history: the last request that has been
sent, and the state in which the server has executed it. -/
structure Line (σ : Type) where
  socket : TCPSocket
  isOpen : Bool
  calling : Option Request
  inbox : Bytes
  request : Option Request
  executed : Option σ

namespace Line

variable {σ : Type} (l : Line σ)

def new (writeBufferSize : Nat) : Line σ := ⟨.new writeBufferSize, true, none, [], none, none⟩

/-- The request is put into the write buffer and sent. If the buffer overflows nothing is sent, and
the socket goes back to the pool. -/
def send (q : Request) : Line σ :=
  match q.emit l.socket.writeBufferSize with
  | none => { l with socket := l.socket.close }
  | some bytes =>
    { l with calling := some q, inbox := l.inbox ++ bytes, request := some q, executed := none }

/-- What the operation that waits reads; `none` is an `IOException`. (It is also an array of a
negative size, for which no `Sendable` response asks.) -/
def reply : Option (Reply × TCPSocket) :=
  l.calling.bind fun q => q.kind.receive TCPSocket.readBytes l.socket

/-- The response is read, and the socket is closed or goes back to the pool. `throws` tells whether
what is done with the response throws an `IOException`. -/
def finish (throws : Reply → Bool) : Line σ :=
  match l.reply with
  | none => { l with isOpen := false, calling := none }
  | some (r, socket) =>
    { l with socket := socket.close, isOpen := !(r.unknownCommand || throws r), calling := none }

end Line

/-- The server, and the sockets of its clients. -/
structure Calls (ι σ : Type) where
  server : σ
  line : ι → Line σ

inductive CallAction (ι : Type)
  | send (i : ι) (q : Request)
  /-- A request is executed, and the response arrives in these pieces. -/
  | execute (i : ι) (pieces : List Bytes)
  | finish (i : ι)
  /-- An idle socket is closed by the pool. -/
  | close (i : ι)

namespace Calls

variable {ι σ : Type} [DecidableEq ι] (h : Host) (serve : σ → Pdu → Bytes → Bytes → ResPdu × σ)
  (throws : Reply → Bool)

def onLine (x : Calls ι σ) (i : ι) (l : Line σ) : Calls ι σ :=
  { x with line := Function.update x.line i l }

/-- The server takes a request from the socket, if there is one. -/
def execute (x : Calls ι σ) (i : ι) (pieces : List Bytes) : Calls ι σ :=
  let l := x.line i
  match h.readRequest l.inbox with
  | none => x
  | some (pdu, key, data, rest) =>
    { server := (serve x.server pdu key data).2
      line := Function.update x.line i { l with
        socket := { l.socket with arrivals := l.socket.arrivals ++ pieces }
        inbox := rest
        executed := some x.server } }

def next (x : Calls ι σ) : CallAction ι → Calls ι σ
  | .send i q => x.onLine i ((x.line i).send q)
  | .execute i pieces => x.execute h serve i pieces
  | .finish i => x.onLine i ((x.line i).finish throws)
  | .close i => x.onLine i { x.line i with isOpen := false }

/-- An idle socket is taken for an operation. What arrives of a response is the beginning of it. -/
def Permitted (x : Calls ι σ) : CallAction ι → Prop
  | .send i q => (x.line i).isOpen = true ∧ (x.line i).calling = none ∧
      q.key.length < 65536 ∧ q.data.length < 2 ^ 31
  | .execute i pieces => ∃ pdu key data rest,
      h.readRequest (x.line i).inbox = some (pdu, key, data, rest) ∧
        pieces.flatten <+: (serve x.server pdu key data).1.encode h
  | .finish i => (x.line i).calling ≠ none
  | .close i => (x.line i).isOpen = true ∧ (x.line i).calling = none

instance (x : Calls ι σ) : (a : CallAction ι) → Decidable (x.Permitted h serve a)
  | .send .. => inferInstanceAs (Decidable (_ ∧ _ ∧ _ ∧ _))
  | .execute i pieces =>
    match hread : h.readRequest (x.line i).inbox with
    | none => .isFalse fun ⟨_, _, _, _, hsome, _⟩ => by cases hread.symm.trans hsome
    | some (pdu, key, data, rest) =>
      decidable_of_iff (pieces.flatten <+: (serve x.server pdu key data).1.encode h)
        ⟨fun hpieces => ⟨pdu, key, data, rest, hread, hpieces⟩,
          fun ⟨_, _, _, _, hsome, hpieces⟩ => by
            cases hread.symm.trans hsome
            exact hpieces⟩
  | .finish i => inferInstanceAs (Decidable ((x.line i).calling ≠ none))
  | .close _ => inferInstanceAs (Decidable (_ ∧ _))

def Step (x : Calls ι σ) (a : CallAction ι) (y : Calls ι σ) : Prop :=
  x.Permitted h serve a ∧ y = x.next h serve throws a

/-- No operation has begun. -/
def start (server : σ) (writeBufferSize : ι → Nat) : Calls ι σ :=
  ⟨server, fun i => .new (writeBufferSize i)⟩

end Calls

/-- The server answers a request with something that its operation understands. -/
def Understood {σ : Type} (serve : σ → Pdu → Bytes → Bytes → ResPdu × σ) : Prop :=
  ∀ s (q : Request), q.kind.Answered (serve s q.pdu q.key q.data).1 ∧
    Sendable (serve s q.pdu q.key q.data).1

/-! ## Requests and responses as bytes -/

namespace CallLemmas

/-- What is sent is read as it was meant, and nothing is left. -/
theorem readRequest_bytes (h : Host) {q : Request} (hkey : q.key.length < 65536)
    (hdata : q.data.length < 2 ^ 31) :
    h.readRequest q.bytes = some (q.pdu, q.key, q.data, []) := by
  have hlen : q.key.length = (q.frame hkey hdata).pdu.keyLength :=
    (Request.length_key_data hkey hdata).2
  have htake : (q.key ++ q.data).take (q.frame hkey hdata).pdu.keyLength = q.key :=
    List.take_left' hlen
  have hdrop : (q.key ++ q.data).drop (q.frame hkey hdata).pdu.keyLength = q.data :=
    List.drop_left' hlen
  have hread := h.readRequest_encode (q.frame hkey hdata) []
  rw [List.append_nil, Request.encode_frame] at hread
  refine hread.trans ?_
  show some (q.pdu, (q.key ++ q.data).take _, (q.key ++ q.data).drop _, ([] : Bytes)) = _
  rw [htake, hdrop]

theorem readRequest_nil (h : Host) : h.readRequest [] = none := rfl

theorem emit_some {q : Request} {capacity : Nat} {bytes : Bytes}
    (h : q.emit capacity = some bytes) : bytes = q.bytes := by
  rw [Request.emit_eq] at h
  split at h
  · exact (Option.some.inj h).symm
  · cases h

/-- What is read of the beginning of a stream is read of all of it. -/
theorem read_append {k : Kind} {bytes more rest : Bytes} {r : Reply}
    (hread : k.read bytes = some (r, rest)) : k.read (bytes ++ more) = some (r, rest ++ more) := by
  have hbytes : ∀ n, Realizes (· ++ more) (fun _ => False) (readBytes n) (readBytes n) := by
    intro n
    refine ⟨fun {s s' a} hs => ?_, fun hs => hs.elim, fun hs => hs.elim⟩
    unfold readBytes at hs ⊢
    split at hs
    · cases hs
    · next hlen =>
      cases hs
      have hle := Nat.le_of_not_lt hlen
      rw [if_neg (by rw [List.length_append]; omega), List.take_append_of_le_length hle,
        List.drop_append_of_le_length hle]
  rw [← receive_read] at hread ⊢
  exact (ReceiveLemmas.kind_receive_realizes hbytes k).result hread

theorem read_nil (k : Kind) : k.read [] = none := by
  cases k <;> rfl

/-- Of the beginning of an answer nothing else is read than the answer, and only all of it. -/
theorem read_prefix (h : Host) {k : Kind} {res : ResPdu} {bytes rest : Bytes} {r : Reply}
    (hk : k.Answered res) (hres : Sendable res) (hpre : bytes <+: res.encode h)
    (hread : k.read bytes = some (r, rest)) : r = Client.reply res ∧ rest = [] := by
  obtain ⟨more, hmore⟩ := hpre
  have hall := read_encode h [] hk hres
  rw [List.append_nil, ← hmore, read_append hread] at hall
  obtain ⟨rfl, hrest⟩ := Prod.mk.inj (Option.some.inj hall)
  exact ⟨rfl, (List.append_eq_nil_iff.mp hrest).1⟩

theorem unread_append (s : TCPSocket) (pieces : List Bytes) :
    { s with arrivals := s.arrivals ++ pieces : TCPSocket }.unread =
      s.unread ++ pieces.flatten := by
  rw [TCPSocket.unread, TCPSocket.unread, List.flatten_append, List.append_assoc]

/-- A socket on which nothing is left stays so when it goes back to the pool. -/
theorem unread_close {s : TCPSocket} (h : s.unread = []) : s.close.unread = [] :=
  (List.append_eq_nil_iff.mp h).2

end CallLemmas

/-! ## Where a request can be -/

section Runs
variable {ι σ : Type} [DecidableEq ι] {h : Host} {serve : σ → Pdu → Bytes → Bytes → ResPdu × σ}
  {throws : Reply → Bool}

/-- Between two steps. -/
inductive Line.Good (h : Host) (serve : σ → Pdu → Bytes → Bytes → ResPdu × σ) (l : Line σ) : Prop
  | clean (hcalling : l.calling = none) (hinbox : l.inbox = []) (hunread : l.socket.unread = [])
  | sent {q : Request} (hrequest : l.request = some q) (hexecuted : l.executed = none)
      (hcalling : l.calling = some q ∨ l.isOpen = false ∧ l.calling = none)
      (hkey : q.key.length < 65536) (hdata : q.data.length < 2 ^ 31) (hinbox : l.inbox = q.bytes)
      (hunread : l.socket.unread = [])
  | executed {q : Request} {s : σ} (hrequest : l.request = some q) (hexecuted : l.executed = some s)
      (hcalling : l.calling = some q) (hinbox : l.inbox = [])
      (hunread : l.socket.unread <+: (serve s q.pdu q.key q.data).1.encode h)
  | ended (hopen : l.isOpen = false) (hcalling : l.calling = none) (hinbox : l.inbox = [])

namespace CallLemmas

variable {x y : Calls ι σ} {l : Line σ} {i : ι} {a : CallAction ι}

/-- What an operation reads is the answer to its request. -/
theorem reply_some (hserve : Understood serve) (hl : l.Good h serve) {r : Reply} {s' : TCPSocket}
    (hr : l.reply = some (r, s')) : ∃ q s, l.calling = some q ∧ l.request = some q ∧
      l.executed = some s ∧ r = Client.reply (serve s q.pdu q.key q.data).1 ∧ s'.unread = [] := by
  obtain ⟨q, hq, hreceive⟩ := Option.bind_eq_some_iff.mp hr
  have hread := (receive_of_stream q.kind l.socket).1 r s' hreceive
  cases hl with
  | clean hcalling | ended _ hcalling => cases hcalling.symm.trans hq
  | sent _ _ _ _ _ _ hunread =>
    rw [hunread, read_nil] at hread
    cases hread
  | @executed q' s hrequest hexecuted hcalling hinbox hunread =>
    obtain rfl : q' = q := Option.some.inj (hcalling.symm.trans hq)
    obtain ⟨hanswered, hsendable⟩ := hserve s q'
    obtain ⟨rfl, hclean⟩ := read_prefix h hanswered hsendable hunread hread
    exact ⟨q', s, hcalling, hrequest, hexecuted, rfl, hclean⟩

/-- An operation whose answer has arrived as a whole reads it. -/
theorem reply_ne_none (hserve : Understood serve) {q : Request} {s : σ}
    (hcalling : l.calling = some q)
    (hunread : l.socket.unread = (serve s q.pdu q.key q.data).1.encode h)
    (hlively : l.socket.Lively) : l.reply ≠ none := by
  intro hnone
  rw [Line.reply, hcalling] at hnone
  have hread := (receive_of_stream q.kind l.socket).2 hlively hnone
  obtain ⟨hanswered, hsendable⟩ := hserve s q
  have hall := read_encode h [] hanswered hsendable
  rw [List.append_nil, ← hunread, hread] at hall
  cases hall

/-- Nothing is left on an idle socket. -/
theorem clean_of_idle (hl : l.Good h serve) (hopen : l.isOpen = true)
    (hcalling : l.calling = none) : l.inbox = [] ∧ l.socket.unread = [] := by
  cases hl with
  | clean _ hinbox hunread => exact ⟨hinbox, hunread⟩
  | sent _ _ hwaits =>
    rcases hwaits with hwaits | ⟨hclosed, -⟩
    · cases hcalling.symm.trans hwaits
    · cases hopen.symm.trans hclosed
  | executed _ _ hwaits => cases hcalling.symm.trans hwaits
  | ended hclosed => cases hopen.symm.trans hclosed

theorem good_send (hl : l.Good h serve) {q : Request} (hopen : l.isOpen = true)
    (hcalling : l.calling = none) (hkey : q.key.length < 65536) (hdata : q.data.length < 2 ^ 31) :
    (l.send q).Good h serve := by
  obtain ⟨hinbox, hunread⟩ := clean_of_idle hl hopen hcalling
  unfold Line.send
  split
  · exact .clean hcalling hinbox (unread_close hunread)
  · next bytes hbytes =>
    refine .sent rfl rfl (.inl rfl) hkey hdata ?_ hunread
    show l.inbox ++ bytes = q.bytes
    rw [hinbox, emit_some hbytes, List.nil_append]

theorem good_finish (hserve : Understood serve) (hl : l.Good h serve)
    (hcalling : l.calling ≠ none) : (l.finish throws).Good h serve := by
  unfold Line.finish
  split
  · next hnone =>
    cases hl with
    | clean hidle | ended _ hidle => exact absurd hidle hcalling
    | sent hrequest hexecuted _ hkey hdata hinbox hunread =>
      exact .sent hrequest hexecuted (.inr ⟨rfl, rfl⟩) hkey hdata hinbox hunread
    | executed _ _ _ hinbox => exact .ended rfl rfl hinbox
  · next r socket hsome =>
    obtain ⟨q, s, hq, -, hexecuted, -, hclean⟩ := reply_some hserve hl hsome
    have hinbox : l.inbox = [] := by
      cases hl with
      | clean _ hinbox | ended _ _ hinbox | executed _ _ _ hinbox => exact hinbox
      | sent _ hnot => cases hnot.symm.trans hexecuted
    exact .clean rfl hinbox (unread_close hclean)

/-- The server finds the request that has been sent, and finds it once. -/
theorem of_readRequest (hl : l.Good h serve) {pdu : Pdu} {key data rest : Bytes}
    (hread : h.readRequest l.inbox = some (pdu, key, data, rest)) :
    ∃ q, l.request = some q ∧ l.executed = none ∧ pdu = q.pdu ∧ key = q.key ∧ data = q.data ∧
      rest = [] := by
  have hnot (hinbox : l.inbox = []) : False := by
    rw [hinbox, readRequest_nil] at hread
    cases hread
  cases hl with
  | clean _ hinbox | ended _ _ hinbox | executed _ _ _ hinbox => exact (hnot hinbox).elim
  | @sent q hrequest hexecuted _ hkey hdata hinbox =>
    rw [hinbox, readRequest_bytes h hkey hdata] at hread
    cases hread
    exact ⟨q, hrequest, hexecuted, rfl, rfl, rfl, rfl⟩

theorem good_execute (hl : l.Good h serve) {s : σ} {pdu : Pdu} {key data rest : Bytes}
    {pieces : List Bytes} (hread : h.readRequest l.inbox = some (pdu, key, data, rest))
    (hpieces : pieces.flatten <+: (serve s pdu key data).1.encode h) :
    { l with
      socket := { l.socket with arrivals := l.socket.arrivals ++ pieces }
      inbox := rest, executed := some s : Line σ }.Good h serve := by
  obtain ⟨q, hrequest, hnot, rfl, rfl, rfl, rfl⟩ := of_readRequest hl hread
  cases hl with
  | clean _ hinbox | ended _ _ hinbox =>
    rw [hinbox, readRequest_nil] at hread
    cases hread
  | executed _ hexecuted => cases hnot.symm.trans hexecuted
  | @sent q' hrequest' _ hcalling _ _ _ hunread =>
    obtain rfl : q' = q := Option.some.inj (hrequest'.symm.trans hrequest)
    rcases hcalling with hcalling | ⟨hclosed, hcalling⟩
    · refine .executed hrequest rfl hcalling rfl ?_
      rwa [unread_append, hunread]
    · exact .ended hclosed hcalling rfl

theorem good_close (hl : l.Good h serve) : { l with isOpen := false : Line σ }.Good h serve := by
  cases hl with
  | clean hcalling hinbox hunread => exact .clean hcalling hinbox hunread
  | sent hrequest hexecuted hcalling hkey hdata hinbox hunread =>
    refine .sent hrequest hexecuted ?_ hkey hdata hinbox hunread
    exact hcalling.imp_right fun hx => ⟨rfl, hx.2⟩
  | executed hrequest hexecuted hcalling hinbox hunread =>
    exact .executed hrequest hexecuted hcalling hinbox hunread
  | ended _ hcalling hinbox => exact .ended rfl hcalling hinbox

/-- One line changes. -/
theorem good_update (hx : ∀ j, (x.line j).Good h serve) (hl : l.Good h serve) (j : ι) :
    (Function.update x.line i l j).Good h serve := by
  rcases eq_or_ne j i with rfl | hj
  · rwa [Function.update_self]
  · rw [Function.update_of_ne hj]
    exact hx j

theorem good_step (hserve : Understood serve) (hx : ∀ i, (x.line i).Good h serve)
    (hstep : x.Step h serve throws a y) : ∀ i, (y.line i).Good h serve := by
  obtain ⟨hperm, rfl⟩ := hstep
  cases a with
  | send i q =>
    obtain ⟨hopen, hcalling, hkey, hdata⟩ := hperm
    exact good_update hx (good_send (hx i) hopen hcalling hkey hdata)
  | execute i pieces =>
    obtain ⟨pdu, key, data, rest, hread, hpieces⟩ := hperm
    intro j
    rw [Calls.next, Calls.execute, hread]
    exact good_update hx (good_execute (hx i) hread hpieces) j
  | finish i => exact good_update hx (good_finish hserve (hx i) hperm)
  | close i => exact good_update hx (good_close (hx i))

omit [DecidableEq ι] in
theorem good_start (server : σ) (writeBufferSize : ι → Nat) (i : ι) :
    ((Calls.start server writeBufferSize).line i).Good h serve :=
  .clean rfl rfl rfl

end CallLemmas

open CallLemmas

/-- However the calls interleave and wherever connections break: what an operation returns is the
answer to its own request, given in the state in which the server has executed it; it fails only if
the answer has not arrived as a whole, or if a hundred reads in a row got nothing; the server
executes what has been sent, and that once. -/
theorem Calls.replies_of_run (hserve : Understood serve) {server : σ} {writeBufferSize : ι → Nat}
    {t : List (Calls ι σ × CallAction ι)} {y : Calls ι σ}
    (hrun : Run (Step h serve throws) (start server writeBufferSize) t y) :
    (∀ z ∈ t, ∀ i, z.2 = .finish i →
      (∀ r s', (z.1.line i).reply = some (r, s') → ∃ q s, (z.1.line i).calling = some q ∧
        (z.1.line i).executed = some s ∧ r = Client.reply (serve s q.pdu q.key q.data).1) ∧
      ((z.1.line i).reply = none → ∀ q s, (z.1.line i).calling = some q →
        (z.1.line i).executed = some s → (z.1.line i).socket.Lively →
          (z.1.line i).socket.unread ≠ (serve s q.pdu q.key q.data).1.encode h)) ∧
    (∀ z ∈ t, ∀ i pieces, z.2 = .execute i pieces → ∃ q, (z.1.line i).request = some q ∧
      (z.1.line i).executed = none ∧
      (z.1.next h serve throws z.2).server = (serve z.1.server q.pdu q.key q.data).2) ∧
    ∀ i, (y.line i).isOpen = true → (y.line i).calling = none →
      (y.line i).inbox = [] ∧ (y.line i).socket.unread = [] := by
  have hkeep : ∀ (x : Calls ι σ) a y, (∀ i, (x.line i).Good h serve) → x.Step h serve throws a y →
      ∀ i, (y.line i).Good h serve := fun _ _ _ hx hstep => good_step hserve hx hstep
  have hbefore := hrun.invariant_before hkeep (good_start server writeBufferSize)
  have hend := hrun.invariant hkeep (good_start server writeBufferSize)
  refine ⟨fun z hz i _ => ⟨fun r s' hr => ?_, fun hnone q s hq _ hlively hwhole => ?_⟩,
    fun z hz i pieces ha => ?_, fun i hopen hcalling => ?_⟩
  · obtain ⟨q, s, hq, -, hs, hreply, -⟩ := reply_some hserve ((hbefore z hz).1 i) hr
    exact ⟨q, s, hq, hs, hreply⟩
  · exact reply_ne_none hserve hq hwhole hlively hnone
  · obtain ⟨hgood, z', hperm, -⟩ := hbefore z hz
    rw [ha] at hperm ⊢
    obtain ⟨pdu, key, data, rest, hread, -⟩ := hperm
    obtain ⟨q, hrequest, hnot, rfl, rfl, rfl, -⟩ := of_readRequest (hgood i) hread
    refine ⟨q, hrequest, hnot, ?_⟩
    rw [next, execute, hread]
  · exact clean_of_idle (hend i) hopen hcalling

end Runs

/-- A server that counts the watches it creates. -/
def countWatches (created : UInt32) (pdu : Pdu) (_ _ : Bytes) : ResPdu × UInt32 :=
  match pdu with
  | .createWatch .. => (.createWatch created, created + 1)
  | _ => (.error 8, created)

theorem understood_countWatches : Understood countWatches := by
  intro created q
  cases q with
  | _ => exact ⟨trivial, trivial⟩

/-- The second of two callers is served first, and its next request is not answered as a whole. -/
def twoCalls : List (CallAction Bool) :=
  [.send true (.createWatch 1 60), .send false (.createWatch 1 60),
    .execute false [[2], [23, 0, 0], [0, 0]], .execute true [[2, 23], [], [0, 0], [0, 1]],
    .finish false, .finish true, .send false (.flush 1), .execute false [[0, 0, 0]], .finish false]

theorem replies_of_twoCalls :
    let x : Calls Bool UInt32 := .start 0 fun _ => 32768
    let y := twoCalls.foldl (Calls.next .little countWatches fun _ => false) x
    let z := (twoCalls.take 5).foldl (Calls.next .little countWatches fun _ => false) x
    y.server = 2 ∧ (y.line false).isOpen = false ∧
      (z.line true).reply.map Prod.fst = some (.createWatch 1) ∧
      (∃ q s, (z.line true).calling = some q ∧ (z.line true).executed = some s ∧
        Reply.createWatch 1 = Client.reply (countWatches s q.pdu q.key q.data).1) ∧
      (y.line true).socket.unread = [] := by
  intro x y z
  have hrun : Admitted (Calls.Permitted .little countWatches)
      (Calls.next .little countWatches fun _ => false) x twoCalls := by
    decide +kernel
  have hall := Calls.replies_of_run understood_countWatches hrun.run_trace
  have hz : (z, CallAction.finish true) ∈
      trace (Calls.next .little countWatches fun _ => false) x twoCalls :=
    List.getElem_mem (n := 5) (by decide)
  have hreply : (z.line true).reply = some (.createWatch 1, ⟨32768, [], []⟩) := by
    decide +kernel
  exact ⟨by decide +kernel, by decide +kernel, congrArg (Option.map Prod.fst) hreply,
    (hall.1 _ hz true rfl).1 _ _ hreply, (hall.2.2 true (by decide +kernel) (by decide +kernel)).2⟩

end Xixi.Client
