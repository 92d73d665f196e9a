import Xixi.Http.Connection
import Xixi.Peer.Framing
import Xixi.Client.Protocol

/-!
# Accepting a connection (`Connection_Help`, `Connection_SSL_Help`)

Both protocols are served at the same port. The bytes of a new connection are gathered until the
first four are there; they say which peer takes the connection over, with all that has been read.

1. `ConnectionHelp.process`, `Accepted.Step`: the helper, and after it the peer.
2. `Stands`: at any time the connection is the run of a peer on the whole stream, or too little of
   the stream is there.
3. `taken_over`: which peer it is, and what it is given, does not depend on how the stream is cut
   into reads.
4. `operations_of_run`: the operations that the Java client sends are served in their order, from
   the first byte of the connection on.
-/

namespace Xixi
open Lib
open PeerCache (ReceiveBuffer)

/-- The classes of which a connection becomes an object. -/
inductive PeerKind
  | cache
  | http
deriving DecidableEq, Repr

/-- `XIXI_CATEGORY_CACHE`. -/
def categoryCache : UInt8 := 2

/-- `IS_METHOD`. -/
def isMethod (data : Bytes) (method : String) : Bool := data.take 4 == Http.ascii method

/-- The tests of `start_peer`. -/
def peerKind (data : Bytes) : Option PeerKind :=
  if 4 ≤ data.length then
    if data.head? = some categoryCache then some .cache
    else if isMethod data "GET " ∨ isMethod data "POST" ∨ isMethod data "HEAD" then some .http
    else none
  else none

/-- A connection that no peer has taken over. `readBuf` are the `read_data_size_` bytes that have
been read; `waits` says that an asynchronous read is under way. -/
structure ConnectionHelp where
  readBuf : Bytes
  socket : Bytes
  waits : Bool
deriving DecidableEq, Repr

/-- What became of a connection. -/
inductive Accepted (β : Type)
  | help (h : ConnectionHelp)
  | cache (c : PeerCache.Conn β)
  | http (c : Http.Conn β)
  | closed

namespace ConnectionHelp

variable {β : Type}

/-- `sizeof(read_buf_) - 1`. -/
def bufSize : Nat := 1024

/-- A peer takes the connection over, or the socket is closed with the helper; `b` is the state that
the peer finds the cache manager in. -/
def startPeer (h : ConnectionHelp) (b : β) : Accepted β :=
  match peerKind h.readBuf with
  | some .cache => .cache (.start b h.readBuf h.socket)
  | some .http => .http (.start b h.readBuf h.socket)
  | none => .closed

/-- `process`, after a read of at most `n` bytes. -/
def process (h : ConnectionHelp) (b : β) (n : Nat) : Accepted β :=
  let got := h.socket.take (min n (bufSize - h.readBuf.length))
  let h : ConnectionHelp :=
    { h with readBuf := h.readBuf ++ got, socket := h.socket.drop got.length }
  if 4 ≤ h.readBuf.length then h.startPeer b else .help { h with waits := true }

end ConnectionHelp

namespace Accepted

/-- `start` makes a read that does not wait, after the options of the socket are set and, with SSL,
the handshake is over; `fail` is an error before that read. The others are completions, and the
actions of the peer. -/
inductive Action
  | start (n : Nat)
  | fail
  | handleFirstRead (n : Nat)
  | handleError
  | cache (a : PeerCache.Action)
  | http (a : Http.Action)
deriving DecidableEq, Repr

variable {β : Type} (B : PeerCache.Backend β) (H : Http.Backend β) (s : Http.Settings)

/-- A connection whose client sends `stream`. -/
def accept (stream : Bytes) : Accepted β := .help ⟨[], stream, false⟩

/-- A step of the connection. -/
inductive Step : Accepted β → Action → Accepted β → Prop
  | start (h : ConnectionHelp) (b : β) (n : Nat) (hw : h.waits = false) :
      Step (.help h) (.start n) (h.process b n)
  | fail (h : ConnectionHelp) (hw : h.waits = false) : Step (.help h) .fail .closed
  | handleFirstRead (h : ConnectionHelp) (b : β) (n : Nat) (hw : h.waits = true) :
      Step (.help h) (.handleFirstRead n) (h.process b n)
  | handleError (h : ConnectionHelp) (hw : h.waits = true) : Step (.help h) .handleError .closed
  | cache {c c' : PeerCache.Conn β} {a : PeerCache.Action} (hc : c.Step B a c') :
      Step (.cache c) (.cache a) (.cache c')
  | http {c c' : Http.Conn β} {a : Http.Action} (hc : c.Step H s a c') :
      Step (.http c) (.http a) (.http c')

/-- The socket has reported an error to the helper. -/
def Action.broken : Action → Bool
  | .fail | .handleError => true
  | .start _ | .handleFirstRead _ | .cache _ | .http _ => false

/-- The data and the socket that a peer starts with are the stream. -/
structure Handed (stream data socket : Bytes) : Prop where
  all : data ++ socket = stream
  enough : 4 ≤ data.length
  fits : data.length ≤ ConnectionHelp.bufSize

/-- Where a connection with these steps stands in the stream. -/
inductive Stands (stream : Bytes) (steps : List (Accepted β × Action)) : Accepted β → Prop
  | help {h : ConnectionHelp} (hall : h.readBuf ++ h.socket = stream)
      (hfew : h.readBuf.length < 4) : Stands stream steps (.help h)
  | cache {b : β} {data socket : Bytes} {t : List (PeerCache.Conn β × PeerCache.Action)}
      {c : PeerCache.Conn β} (hkind : peerKind stream = some .cache)
      (hdata : Handed stream data socket)
      (hrun : Run (PeerCache.Conn.Step B) (.start b data socket) t c)
      (hsteps : ∀ y ∈ t, (.cache y.1, .cache y.2) ∈ steps) : Stands stream steps (.cache c)
  | http {b : β} {data socket : Bytes} {t : List (Http.Conn β × Http.Action)} {c : Http.Conn β}
      (hkind : peerKind stream = some .http) (hdata : Handed stream data socket)
      (hrun : Run (Http.Conn.Step H s) (.start b data socket) t c)
      (hsteps : ∀ y ∈ t, (.http y.1, .http y.2) ∈ steps) : Stands stream steps (.http c)
  | closed (h : (∃ y ∈ steps, y.2.broken = true) ∨ 4 ≤ stream.length ∧ peerKind stream = none) :
      Stands stream steps .closed

namespace AcceptLemmas

variable {B H s} {stream : Bytes} {steps : List (Accepted β × Action)} {x x' : Accepted β}

/-- The first four bytes decide. -/
theorem peerKind_append {data : Bytes} (socket : Bytes) (h : 4 ≤ data.length) :
    peerKind (data ++ socket) = peerKind data := by
  have hlen : 4 ≤ (data ++ socket).length := by
    rw [List.length_append]
    exact Nat.le_add_right_of_le h
  have hhead : (data ++ socket).head? = data.head? := by
    cases data with
    | nil => cases h
    | cons => rfl
  have hmethod (method : String) : isMethod (data ++ socket) method = isMethod data method := by
    rw [isMethod, isMethod, List.take_append_of_le_length h]
  rw [peerKind, peerKind, if_pos hlen, if_pos h, hhead, hmethod, hmethod, hmethod]

theorem stands_startPeer {h : ConnectionHelp} (hdata : Handed stream h.readBuf h.socket) (b : β) :
    Stands B H s stream steps (h.startPeer b) := by
  have hkind : peerKind stream = peerKind h.readBuf := by
    rw [← hdata.all]
    exact peerKind_append h.socket hdata.enough
  rw [ConnectionHelp.startPeer]
  split
  next hk => exact .cache (hkind.trans hk) hdata (.nil _) (by simp)
  next hk => exact .http (hkind.trans hk) hdata (.nil _) (by simp)
  next hk =>
    refine .closed (.inr ⟨?_, hkind.trans hk⟩)
    rw [← hdata.all, List.length_append]
    exact Nat.le_add_right_of_le hdata.enough

/-- A read brings bytes of the stream, in their order. -/
theorem stands_process {h : ConnectionHelp} (hall : h.readBuf ++ h.socket = stream)
    (hfew : h.readBuf.length < 4) (b : β) (n : Nat) :
    Stands B H s stream steps (h.process b n) := by
  have hgot : (h.socket.take (min n (ConnectionHelp.bufSize - h.readBuf.length))).length ≤
      ConnectionHelp.bufSize - h.readBuf.length :=
    (List.length_take_le _ _).trans (Nat.min_le_right _ _)
  have hmoved : (h.readBuf ++ h.socket.take (min n (ConnectionHelp.bufSize - h.readBuf.length))) ++
      h.socket.drop (h.socket.take (min n (ConnectionHelp.bufSize - h.readBuf.length))).length =
        stream := by
    rw [List.append_assoc, ← PeerCache.Conn.PlaceLemmas.take_append_drop_length, hall]
  rw [ConnectionHelp.process]
  dsimp only
  split
  next henough =>
    refine stands_startPeer ⟨hmoved, henough, ?_⟩ b
    have hroom : h.readBuf.length ≤ ConnectionHelp.bufSize := hfew.le.trans (by decide)
    rw [List.length_append]
    exact (Nat.add_le_add_left hgot _).trans_eq (Nat.add_sub_cancel' hroom)
  next hless => exact .help hmoved (Nat.lt_of_not_le hless)

theorem stands_step {a : Action} (h : Stands B H s stream steps x) (hmem : (x, a) ∈ steps)
    (hstep : Step B H s x a x') : Stands B H s stream steps x' := by
  cases hstep with
  | start g b n _ | handleFirstRead g b n _ =>
    cases h with
    | help hall hfew => exact stands_process hall hfew b n
  | fail | handleError => exact .closed (.inl ⟨_, hmem, rfl⟩)
  | cache hc =>
    cases h with
    | cache hkind hdata hrun hsteps =>
      refine .cache hkind hdata (hrun.snoc hc) fun y hy => ?_
      rcases List.mem_append.mp hy with hy | hy
      · exact hsteps y hy
      · rwa [List.mem_singleton.mp hy]
  | http hc =>
    cases h with
    | http hkind hdata hrun hsteps =>
      refine .http hkind hdata (hrun.snoc hc) fun y hy => ?_
      rcases List.mem_append.mp hy with hy | hy
      · exact hsteps y hy
      · rwa [List.mem_singleton.mp hy]

theorem stands_of_run (hrun : Run (Step B H s) (accept stream) steps x) :
    Stands B H s stream steps x := by
  have hsteps := hrun.restrict (P := fun y a => (y, a) ∈ steps) fun y hy => hy
  refine hsteps.invariant (I := Stands B H s stream steps) ?_ (.help rfl (Nat.succ_pos 3))
  rintro y a y' hy ⟨hmem, hstep⟩
  exact stands_step hy hmem hstep

end AcceptLemmas

open AcceptLemmas

variable {B H s}

/-- **Taking over.** However the stream is cut into reads, the peer is the one that the first four
bytes call for, it has the whole stream before it, and the socket is closed without a peer only
after an error or because no protocol starts with these bytes. A peer of HTTP finds its requests
where they stand in the stream. -/
theorem taken_over {stream : Bytes} {t : List (Accepted β × Action)} {x : Accepted β}
    (hrun : Run (Step B H s) (accept stream) t x) :
    Stands B H s stream t x ∧ ∀ c, x = .http c → ∃ consumed phase, c.At stream consumed phase := by
  have hstands := stands_of_run hrun
  refine ⟨hstands, fun c hx => ?_⟩
  subst hx
  cases hstands with
  | @http b data socket t c hkind hdata hpeer hsteps =>
    have hfits : data.length ≤ ReceiveBuffer.new.getReadBufSize := hdata.fits.trans (by decide)
    have hunread : (Http.Conn.start b data socket).unread = stream := by
      rw [Http.Conn.start, if_pos hfits]
      exact hdata.all
    obtain ⟨consumed, phase, hat⟩ := Http.Conn.ConnectionLemmas.at_run hpeer
    exact ⟨consumed, phase, hunread ▸ hat⟩

/-- `HELLO` is known to the peer of the cache but starts no connection: its category is not that of
the cache. -/
theorem no_peer_of_hello {rest : Bytes} {t : List (Accepted β × Action)} {x : Accepted β}
    (hrun : Run (Step B H s) (accept (PeerCache.Conn.helloRequest.encode ++ rest)) t x) :
    (∀ c, x ≠ .cache c) ∧ ∀ c, x ≠ .http c := by
  have hmethod (method : String) (hne : (Http.ascii method).head? ≠ some 0) :
      ¬ isMethod (PeerCache.Conn.helloRequest.encode ++ rest) method = true := by
    intro hm
    exact hne (congrArg List.head? (beq_iff_eq.mp hm)).symm
  have hhead : (PeerCache.Conn.helloRequest.encode ++ rest).head? = some 0 := rfl
  have hkind : peerKind (PeerCache.Conn.helloRequest.encode ++ rest) = none := by
    rw [peerKind, hhead]
    split
    · rw [if_neg (by decide), if_neg]
      rintro (hm | hm | hm)
      · exact hmethod "GET " (by decide +kernel) hm
      · exact hmethod "POST" (by decide +kernel) hm
      · exact hmethod "HEAD" (by decide +kernel) hm
    · rfl
  cases stands_of_run hrun with
  | help | closed => exact ⟨by rintro c ⟨⟩, by rintro c ⟨⟩⟩
  | cache hcache | http hcache => cases hkind.symm.trans hcache

/-- A request of which two bytes come in a read of their own. -/
def getStream : Bytes := Http.ascii "GET /manager/get?k=a HTTP/1.1\r\n\r\n"

/-- The helper after the first read. -/
def afterTwo : ConnectionHelp := ⟨getStream.take 2, getStream.drop 2, true⟩

theorem run_in_two : ∃ t, Run (Step PeerCache.Conn.smallBackend Http.smallBackend .small)
    (accept getStream) t (afterTwo.process ((Sys.small .uint16).mgr, 0) 18) := by
  have hfirst : (⟨[], getStream, false⟩ : ConnectionHelp).process
      ((Sys.small .uint16).mgr, 0) 2 = .help afterTwo := by
    rw [ConnectionHelp.process]
    dsimp only
    rw [if_neg (by decide +kernel)]
    have htwo : (getStream.take
        (min 2 (ConnectionHelp.bufSize - ([] : Bytes).length))).length = 2 := by
      decide +kernel
    show help ⟨getStream.take 2, getStream.drop (getStream.take _).length, true⟩ = _
    rw [htwo]
    rfl
  have hrun := Run.single (Step.start (B := PeerCache.Conn.smallBackend) (H := Http.smallBackend)
    (s := .small) ⟨[], getStream, false⟩ ((Sys.small .uint16).mgr, 0) 2 rfl)
  rw [hfirst] at hrun
  exact ⟨_, hrun.snoc (.handleFirstRead afterTwo _ 18 rfl)⟩

theorem taken_over_in_two : ∃ t, Stands PeerCache.Conn.smallBackend Http.smallBackend .small
    getStream t (afterTwo.process ((Sys.small .uint16).mgr, 0) 18) := by
  obtain ⟨t, hrun⟩ := run_in_two
  exact ⟨t, (taken_over hrun).1⟩

/-! ## The Java client -/

/-- What a peer does for a request of the client. -/
def Executes (q : Client.Request) (e : List PeerCache.Event) : Prop :=
  ∃ pdu, q.Same pdu ∧ PeerCache.Served pdu (q.key ++ q.data) e

/-- What holds of the peer of a connection on which these requests are sent; `prompt` says that no
shortcut of `process` was wrong. -/
def Answers (qs : List Client.Request) (prompt : Prop) (c : PeerCache.Conn β) : Prop :=
  (∃ k es part, List.Forall₂ Executes (qs.take k) es ∧ c.log = es.flatten ++ part ∧
    (part = [] ∨ ∃ q more, qs[k]? = some q ∧ Executes q (part ++ more))) ∧
  (prompt → c.run = false → c.pending = some .read → c.socket = [] →
    ∃ es, List.Forall₂ Executes qs es ∧ c.log = es.flatten)

namespace AcceptLemmas

/-- A request of the client is this frame. -/
structure Frames (q : Client.Request) (r : PeerCache.Request) : Prop where
  same : q.Same r.pdu
  extras : r.extras = q.key ++ q.data
  framed : r.Framed

theorem executes_of_served {q : Client.Request} {r : PeerCache.Request} {e : List PeerCache.Event}
    (h : Frames q r) (hserved : PeerCache.Served r.pdu r.extras e) : Executes q e :=
  ⟨r.pdu, h.same, h.extras ▸ hserved⟩

theorem choice_ne_of_kind {q : Client.Request} (hkind : q.kind ≠ .checkWatch) :
    q.pdu.choice ≠ .authReq ∧ q.pdu.choice ≠ .checkWatchReq := by
  cases q with
  | checkWatch => exact absurd rfl hkind
  | get | getTouch | getBase | update | updateFlags | updateExpiration | delete | delta | flush
  | stats | createWatch =>
    exact ⟨by rintro ⟨⟩, by rintro ⟨⟩⟩

/-- What has been emitted is the frame. -/
theorem frames_of_emit {q : Client.Request} {capacity : Nat} {sent : Bytes}
    (hkey : q.key.length < 65536) (hdata : q.data.length < 2 ^ 31) (hkind : q.kind ≠ .checkWatch)
    (hsent : q.emit capacity = some sent) : ∃ r, Frames q r ∧ r.encode = sent := by
  rw [Client.Request.emit_eq] at hsent
  split at hsent
  · obtain ⟨hauth, hwatch⟩ := choice_ne_of_kind hkind
    have hlen : (q.frame hkey hdata).pdu.extrasLength < 2 ^ 32 := by
      have hall := (Client.Request.length_key_data hkey hdata).1
      have hsum : (q.key ++ q.data).length < 2 ^ 32 := by
        rw [List.length_append]
        omega
      exact hall ▸ hsum
    refine ⟨q.frame hkey hdata, ⟨Client.Request.same_pdu hkey hdata, rfl, hauth, hwatch, hlen⟩, ?_⟩
    exact (Client.Request.encode_frame hkey hdata).trans (Option.some.inj hsent)
  · cases hsent

/-- What has been emitted are the frames, one after the other. -/
theorem frames_of_emits {qs : List Client.Request} {capacity : Nat} {sents : List Bytes}
    (hqs : ∀ q ∈ qs, q.key.length < 65536 ∧ q.data.length < 2 ^ 31 ∧ q.kind ≠ .checkWatch)
    (hsents : List.Forall₂ (fun q sent => q.emit capacity = some sent) qs sents) :
    ∃ rs, List.Forall₂ Frames qs rs ∧ PeerCache.encodeAll rs = sents.flatten := by
  induction hsents with
  | nil => exact ⟨[], .nil, rfl⟩
  | @cons q sent qs sents hsent _ ih =>
    obtain ⟨hkey, hdata, hkind⟩ := hqs q List.mem_cons_self
    obtain ⟨r, hr, henc⟩ := frames_of_emit hkey hdata hkind hsent
    obtain ⟨rs, hrs, hall⟩ := ih fun q hq => hqs q (List.mem_cons_of_mem _ hq)
    refine ⟨r :: rs, .cons hr hrs, ?_⟩
    rw [PeerCache.StreamLemmas.encodeAll_cons, henc, hall, List.flatten_cons]

theorem framed_of_frames {qs : List Client.Request} {rs : List PeerCache.Request}
    (h : List.Forall₂ Frames qs rs) : ∀ r ∈ rs, r.Framed := by
  induction h with
  | nil => exact fun r hr => absurd hr List.not_mem_nil
  | cons hr _ ih =>
    intro r hmem
    rcases List.mem_cons.mp hmem with rfl | hmem
    · exact hr.framed
    · exact ih r hmem

theorem executes_of_servedAll {qs : List Client.Request} {rs : List PeerCache.Request}
    {es : List (List PeerCache.Event)} (h : List.Forall₂ Frames qs rs)
    (hserved : PeerCache.ServedAll rs es) : List.Forall₂ Executes qs es := by
  induction h generalizing es with
  | nil =>
    cases hserved
    exact .nil
  | cons hr _ ih =>
    cases hserved with
    | cons he hes => exact .cons (executes_of_served hr he) (ih hes)

theorem frames_getElem? {qs : List Client.Request} {rs : List PeerCache.Request}
    (h : List.Forall₂ Frames qs rs) {k : Nat} {r : PeerCache.Request} (hr : rs[k]? = some r) :
    ∃ q, qs[k]? = some q ∧ Frames q r := by
  induction h generalizing k with
  | nil => cases hr
  | @cons q _ _ _ hframe _ ih =>
    cases k with
    | zero => exact ⟨q, rfl, Option.some.inj hr ▸ hframe⟩
    | succ k => exact ih hr

/-- The first four bytes of the client are those of a request of the cache. -/
theorem peerKind_encodeAll {qs : List Client.Request} {rs : List PeerCache.Request}
    (h : List.Forall₂ Frames qs rs) (hne : qs ≠ []) :
    4 ≤ (PeerCache.encodeAll rs).length ∧ peerKind (PeerCache.encodeAll rs) = some .cache := by
  cases h with
  | nil => exact absurd rfl hne
  | @cons q r qs rs hframe _ =>
    have hchoice : r.pdu.choice ≠ .helloReq := by
      intro hello
      have hsame := hframe.same
      cases hpdu : r.pdu <;> rw [hpdu] at hsame hello <;> cases hello
      cases q <;> exact hsame
    have hlen : 4 ≤ (PeerCache.encodeAll (r :: rs)).length := by
      rw [PeerCache.StreamLemmas.encodeAll_cons, List.length_append,
        PeerCache.Request.length_encode]
      have hfixed : 2 ≤ r.pdu.choice.fixedBodySize := by
        cases hc : r.pdu.choice
        case helloReq => exact absurd hc hchoice
        all_goals decide
      have hhead : PeerCache.headLength = 2 := rfl
      omega
    have hhead : (PeerCache.encodeAll (r :: rs)).head? = some categoryCache := by
      rw [PeerCache.StreamLemmas.encodeAll_cons, PeerCache.Request.encode, PeerCache.Request.header]
      cases hc : r.pdu.choice
      case helloReq => exact absurd hc hchoice
      all_goals rfl
    exact ⟨hlen, by rw [peerKind, if_pos hlen, if_pos hhead]⟩

theorem answers_of_run {qs : List Client.Request} {rs : List PeerCache.Request}
    (h : List.Forall₂ Frames qs rs) {b : β} {data socket : Bytes}
    {t : List (PeerCache.Conn β × PeerCache.Action)} {c : PeerCache.Conn β}
    (hstream : data ++ socket = PeerCache.encodeAll rs)
    (hrun : Run (PeerCache.Conn.Step B) (.start b data socket) t c) {prompt : Prop}
    (hprompt : prompt → ∀ y ∈ t, ∀ n, y.2 = .turn n → y.1.Prompt) : Answers qs prompt c := by
  have hframed := framed_of_frames h
  have hcut {k : Nat} (hex : PeerCache.Executed rs c.log k) : ∃ k es part,
      List.Forall₂ Executes (qs.take k) es ∧ c.log = es.flatten ++ part ∧
        (part = [] ∨ ∃ q more, qs[k]? = some q ∧ Executes q (part ++ more)) := by
    obtain ⟨es, part, hserved, hlog, hpart⟩ := hex
    refine ⟨k, es, part, executes_of_servedAll (List.forall₂_take k h) hserved, hlog, ?_⟩
    refine hpart.imp_right ?_
    rintro ⟨r, more, hr, hmore⟩
    obtain ⟨q, hq, hframe⟩ := frames_getElem? h hr
    exact ⟨q, more, hq, executes_of_served hframe hmore⟩
  refine ⟨?_, fun hp hstop hpend hsock => ?_⟩
  · rcases PeerCache.Conn.serves_of_run B hframed hstream hrun (fun hx : False => hx.elim) with
      hs | hs
    · obtain ⟨done, rest, es, bytes, part, hpos⟩ := hs.position
      exact hcut (PeerCache.Conn.FramingLemmas.executed_of_position hframed hpos)
    · obtain ⟨k, hex⟩ := hs.2
      exact hcut hex
  · rcases PeerCache.Conn.serves_of_run B hframed hstream hrun hprompt with hs | hs
    · obtain ⟨done, rest, es, bytes, part, hpos⟩ := hs.position
      obtain ⟨hserved, hlog⟩ := PeerCache.Conn.FramingLemmas.servedAll_of_stopped hpos hp
        (hs.waits hstop hpend) hsock
      exact ⟨es, executes_of_servedAll h hserved, hlog⟩
    · cases hs.1.2.1.symm.trans hpend

end AcceptLemmas

/-- **Operations.** The operations of a client, written through a buffer of any size and cut into
reads in any way, are served by one peer of the cache in the order in which they were sent, each
with the fields, the key and the data that the client gave; the helper does not sit on them, and
they go to no other peer. As long as no shortcut was wrong all of them are served by the time the
peer waits. -/
theorem operations_of_run {qs : List Client.Request} {capacity : Nat} {sents : List Bytes}
    {t : List (Accepted β × Action)} {x : Accepted β} (hne : qs ≠ [])
    (hqs : ∀ q ∈ qs, q.key.length < 65536 ∧ q.data.length < 2 ^ 31 ∧ q.kind ≠ .checkWatch)
    (hsents : List.Forall₂ (fun q sent => q.emit capacity = some sent) qs sents)
    (hrun : Run (Step B H s) (accept sents.flatten) t x) :
    match x with
    | .help h => h.socket ≠ []
    | .cache c => Answers qs
        (∀ y ∈ t, ∀ c n, y.1 = .cache c → y.2 = .cache (.turn n) → c.Prompt) c
    | .http _ => False
    | .closed => ∃ y ∈ t, y.2.broken = true := by
  obtain ⟨rs, hframes, hall⟩ := frames_of_emits hqs hsents
  obtain ⟨hlen, hkind⟩ := peerKind_encodeAll hframes hne
  rw [← hall] at hrun
  cases stands_of_run hrun with
  | @help h hstream hfew =>
    show h.socket ≠ []
    intro hnil
    rw [hnil, List.append_nil] at hstream
    exact absurd (hstream ▸ hlen) (Nat.not_le_of_lt hfew)
  | cache _ hdata hpeer hsteps =>
    refine answers_of_run hframes hdata.all hpeer fun hprompt y hy n hturn => ?_
    exact hprompt _ (hsteps y hy) y.1 n rfl (congrArg Action.cache hturn)
  | http hhttp => cases hkind.symm.trans hhttp
  | closed h =>
    rcases h with h | h
    · exact h
    · cases hkind.symm.trans h.2

/-- A flush and a read, each through a buffer of 16 bytes. -/
def flushAndGet : List Client.Request := [.flush 7, .getBase 7 [107]]

def flushAndGetSent : List Bytes := [[2, 16, 0, 0, 0, 7], [2, 4, 0, 0, 0, 7, 0, 1, 107]]

/-- The helper after a read of three bytes. -/
def afterThree : ConnectionHelp :=
  ⟨flushAndGetSent.flatten.take 3, flushAndGetSent.flatten.drop 3, true⟩

theorem run_cache {c c' : PeerCache.Conn β} {t : List (PeerCache.Conn β × PeerCache.Action)}
    (hrun : Run (PeerCache.Conn.Step B) c t c') :
    ∃ t', Run (Step B H s) (.cache c) t' (.cache c') := by
  induction hrun with
  | nil => exact ⟨[], .nil _⟩
  | snoc _ last ih =>
    obtain ⟨t', hrun'⟩ := ih
    exact ⟨_, hrun'.snoc (.cache last)⟩

theorem operations_of_flush_get :
    let c := (List.replicate 6 (PeerCache.Action.turn 0)).foldl
      (PeerCache.Conn.next PeerCache.Conn.smallBackend)
      (PeerCache.Conn.opened flushAndGetSent.flatten [])
    c.log.length = 2 ∧ ∃ prompt, Answers flushAndGet prompt c := by
  intro c
  have hlog : c.log.length = 2 := by decide +kernel
  have hturns : Admitted (fun (c : PeerCache.Conn (CacheMgr × Nat)) a => c.Permitted a)
      (PeerCache.Conn.next PeerCache.Conn.smallBackend)
      (PeerCache.Conn.opened flushAndGetSent.flatten []) (List.replicate 6 (.turn 0)) := by
    decide +kernel
  obtain ⟨t, hpeer⟩ := run_cache (H := Http.smallBackend) (s := .small) hturns.run_trace
  have hfirst := Run.single (Step.start (B := PeerCache.Conn.smallBackend) (H := Http.smallBackend)
    (s := .small) ⟨[], flushAndGetSent.flatten, false⟩ ((Sys.small .uint16).mgr, 0) 3 rfl)
  have htaken := hfirst.snoc (.handleFirstRead afterThree ((Sys.small .uint16).mgr, 0) 100 rfl)
  have hqs : ∀ q ∈ flushAndGet, q.key.length < 65536 ∧ q.data.length < 2 ^ 31 ∧
      q.kind ≠ .checkWatch := by
    decide
  have hsents : List.Forall₂ (fun (q : Client.Request) sent => q.emit 16 = some sent) flushAndGet
      flushAndGetSent :=
    .cons (by decide) (.cons (by decide) .nil)
  exact ⟨hlog, _, operations_of_run (by decide) hqs hsents (htaken.trans hpeer)⟩

end Accepted
end Xixi
