import Xixi.Peer.Handlers

/-!
# Where a connection stands inside a request

1. `Place c bytes part`: `bytes` of the current request have been consumed and `part` of
   what it takes to serve it has been done. Every state of the machine is a place, and
   the place says what `next_data_len_` and `swallow_size_` are counting.
2. `Served pdu extras es`: `es` is a request served from its first call to its response,
   and to the last byte that is swallowed if it is rejected.
3. `iterate_place`: an iteration either stays in the request, or finishes it with
   exactly its frame consumed.
-/

namespace Xixi.PeerCache
open Lib

/-- The header and the fixed body. -/
def Pdu.head (pdu : Pdu) : Bytes := putU16 pdu.choice.code ++ pdu.fixedBody

/-- The events of a request that has been served. -/
inductive Served : Pdu → Bytes → List Event → Prop
  | hello : Served .hello [] [.queue .hello]
  | call {pdu : Pdu} {key : Bytes} {k : Call} {r : Res} (hk : pdu.call key = some k) :
      Served pdu key [.call k, .queue r]
  | watch {g w t x a : UInt32} {k : Call} {r : Res}
      (hk : (Pdu.checkWatch g w t x a).call [] = some k) :
      Served (.checkWatch g w t x a) []
        [.call k, .call (.checkWatchAndClearCallback w.toNat), .queue r]
  | update {op : UInt8} {id : UInt64} {g fl x w : UInt32} {kl : UInt16} {dl : UInt32}
      {extras : Bytes} (it : Ptr) (r : Res) :
      Served (.update op id g fl x w kl dl) extras
        (.call (Conn.allocCall g fl x kl dl) ::
          ((Conn.updateCalls op id w kl it extras).map .call ++ [.queue r]))
  | rejected {op : UInt8} {id : UInt64} {g fl x w : UInt32} {kl : UInt16} {dl : UInt32}
      {reason : Reason} (chunks : List Bytes) (hr : reason = .outOfMemory ∨ reason = .tooLarge) :
      Served (.update op id g fl x w kl dl) chunks.flatten
        ([.call (Conn.allocCall g fl x kl dl), .call (.itemSizeOk kl.toNat dl.toNat 0),
          .queue (.error reason)] ++ chunks.map .swallow)

namespace Conn

variable {β : Type} (c : Conn β)

/-- The bytes that have not been consumed. -/
def unread : Bytes := c.readBuffer.data ++ c.socket

/-- The shortcut from `PEER_STATUS_WRITE` to the next header is only used when as many bytes
are buffered as `next_data_len_` still says. -/
def Prompt : Prop :=
  c.state = .write → c.nextState = .newCmd → c.processRequestCount < 32 →
    headLength ≤ c.readBuffer.data.length → c.nextDataLen ≤ c.readBuffer.data.length

/-- The two ways to go wrong are not taken: the shortcut is prompt, and the request is not
`AUTH`, whether all of it has been read or not. -/
def Meets : Prop := c.Prompt ∧ (c.state = .readBodyFixed → c.header ≠ Choice.authReq.code)

/-- `ok` says that neither way has been taken. -/
inductive Place (c : Conn β) (ok : Prop) : Bytes → List Event → Prop
  | between (hs : c.state = .newCmd ∨ c.state = .write ∧ c.nextState = .newCmd) : Place c ok [] []
  | header (hs : c.state = .readHeader) (ht : c.taken = [])
      (hl : headLength ≤ c.nextDataLen ∨ headLength ≤ c.readBuffer.data.length)
      (hf : ok → c.nextDataLen ≤ headLength ∨ c.nextDataLen ≤ c.readBuffer.data.length) : Place c ok [] []
  | fixed {choice : Choice} (hs : c.state = .readBodyFixed) (hne : choice ≠ .helloReq)
      (hh : c.header = choice.code) (hl : c.nextDataLen = choice.fixedBodySize)
      (ht : c.taken = putU16 choice.code) : Place c ok (putU16 choice.code) []
  | extras {op : UInt8} {id : UInt64} {g fl x w : UInt32} {kl : UInt16} {dl : UInt32} {it : Ptr}
      (hs : c.state = .readBodyExtras) (hp : c.readPdu = some (.update op id g fl x w kl dl))
      (hi : c.cacheItem = some it)
      (hl : c.readItemBuf.length + c.nextDataLen = (kl.toNat + dl.toNat) % 2 ^ 32)
      (ht : c.taken = (Pdu.update op id g fl x w kl dl).head ++ c.readItemBuf) :
      Place c ok ((Pdu.update op id g fl x w kl dl).head ++ c.readItemBuf)
        [.call (allocCall g fl x kl dl)]
  | extras2 {pdu : Pdu} (hs : c.state = .readBodyExtras2) (hp : c.readPdu = some pdu)
      (hk : pdu.keyed = true) (hl : c.nextDataLen = pdu.extrasLength) (ht : c.taken = pdu.head) :
      Place c ok pdu.head []
  | auth {n : UInt32} {junk : Bytes} {logins : List Event} (hs : c.state = .readBodyExtras2)
      (hp : c.readPdu = some (.auth n)) (hl : c.nextDataLen = n.toNat) (hn : ¬ ok) :
      Place c ok ((Pdu.auth n).head ++ junk) logins
  | swallow {op : UInt8} {id : UInt64} {g fl x w : UInt32} {kl : UInt16} {dl : UInt32}
      {reason : Reason} (chunks : List Bytes)
      (hs : c.state = .swallow ∨ c.state = .write ∧ c.nextState = .swallow)
      (hr : reason = .outOfMemory ∨ reason = .tooLarge)
      (hl : chunks.flatten.length + c.swallowSize = (kl.toNat + dl.toNat) % 2 ^ 32)
      (ht : c.taken = (Pdu.update op id g fl x w kl dl).head ++ chunks.flatten) :
      Place c ok ((Pdu.update op id g fl x w kl dl).head ++ chunks.flatten)
        ([.call (allocCall g fl x kl dl), .call (.itemSizeOk kl.toNat dl.toNat 0),
          .queue (.error reason)] ++ chunks.map .swallow)
  | parked {g w t x a : UInt32} {k : Call} (hs : c.state = .asyncWait)
      (hp : c.readPdu = some (.checkWatch g w t x a))
      (hk : (Pdu.checkWatch g w t x a).call [] = some k) :
      Place c ok (Pdu.checkWatch g w t x a).head [.call k]
  | ending {code : UInt16}
      (hs : c.state = .closing ∨ c.state = .closed ∨ c.state = .write ∧ c.nextState = .closing)
      (hu : Choice.ofCode code = none) : Place c ok (putU16 code) [.queue .unknownCommand]

/-- `process` has returned because there is too little to go on with. -/
inductive Stopped (c : Conn β) : Prop
  | header (hs : c.state = .readHeader) (hl : c.readBuffer.data.length < c.nextDataLen)
  | fixed (hs : c.state = .readBodyFixed) (hl : c.readBuffer.data.length < c.nextDataLen)
  | extras (hs : c.state = .readBodyExtras) (hl : c.nextDataLen ≠ 0) (hb : c.readBuffer.data = [])
  | extras2 (hs : c.state = .readBodyExtras2) (hl : c.readBuffer.data.length < c.nextDataLen)
  | swallow (hs : c.state = .swallow) (hl : c.swallowSize ≠ 0) (hb : c.readBuffer.data = [])

/-- There is nothing to be done in `process`. -/
def Over : Prop := c.state = .asyncWait ∨ c.state = .closing ∨ c.state = .closed

/-- What an iteration does besides reading. -/
structure Turned (c c' : Conn β) : Prop where
  pending : c'.pending = c.pending
  queued : c'.state = .write → c'.writeBuf ≠ []
  keeps : c'.writeBuf = [] → c.writeBuf = []
  stops : c.run = true → c'.run = false →
    c'.Stopped ∨ c.state = .write ∧ c' = c.processWrite ∨ c.Over

/-- The same request goes on. -/
structure Goes (c : Conn β) (ok : Prop) (bytes : Bytes) (part : List Event) (c' : Conn β) (bytes' : Bytes)
    (part' : List Event) : Prop where
  place : c'.Place ok bytes' part'
  stream : bytes' ++ c'.unread = bytes ++ c.unread
  log : ∀ pre, c.log = pre ++ part → c'.log = pre ++ part'
  turned : c.Turned c'

/-- The request is served, and its frame is consumed. -/
structure Finishes (c : Conn β) (bytes : Bytes) (part : List Event) (c' : Conn β) (pdu : Pdu)
    (extras : Bytes) (es : List Event) : Prop where
  between : c'.state = .newCmd ∨ c'.state = .write ∧ c'.nextState = .newCmd
  stream : pdu.head ++ (extras ++ c'.unread) = bytes ++ c.unread
  log : ∀ pre, c.log = pre ++ part → c'.log = pre ++ es
  length : extras.length = pdu.extrasLength % 2 ^ 32
  served : Served pdu extras es
  turned : c.Turned c'

/-- The request is decoded and the fixed body consumed. -/
structure Decoded (c c₁ : Conn β) (bytes : Bytes) (pdu : Pdu) : Prop where
  readPdu : c₁.readPdu = some pdu
  taken : c₁.taken = pdu.head
  stream : pdu.head ++ c₁.unread = bytes ++ c.unread
  log : c₁.log = c.log
  pending : c₁.pending = c.pending
  writeBuf : c₁.writeBuf = c.writeBuf
  run : c₁.run = c.run

/-- What an iteration does to the request. -/
inductive Moves (c : Conn β) (ok : Prop) (bytes : Bytes) (part : List Event) (c' : Conn β) : Prop
  | goes (bytes' : Bytes) (part' : List Event) (h : c.Goes ok bytes part c' bytes' part')
  | finishes (pdu : Pdu) (extras : Bytes) (es : List Event)
      (h : c.Finishes bytes part c' pdu extras es)

namespace PlaceLemmas

variable {B : Backend β} {c} {ok : Prop}

/-- Neither a response nor the end of the loop. -/
theorem turned_quiet {c' : Conn β} (hs : c'.state ≠ .write) (hp : c'.pending = c.pending)
    (hw : c'.writeBuf = c.writeBuf) (hr : c'.run = c.run) : c.Turned c' := by
  refine ⟨hp, fun h => absurd h hs, fun h => hw ▸ h, fun hrun hstop => ?_⟩
  rw [hr, hrun] at hstop
  cases hstop

theorem turned_queue {c' : Conn β} {r : Res} (hp : c'.pending = c.pending)
    (hw : c'.writeBuf = c.writeBuf ++ [r]) (hr : c'.run = c.run) : c.Turned c' := by
  refine ⟨hp, fun _ => ?_, fun h => ?_, fun hrun hstop => ?_⟩
  · rw [hw]
    exact List.append_ne_nil_of_right_ne_nil _ (List.cons_ne_nil _ _)
  · rw [hw] at h
    exact (List.append_eq_nil_iff.mp h).1
  · rw [hr, hrun] at hstop
    cases hstop

theorem turned_stop {c' : Conn β} (hs : c'.state ≠ .write) (hp : c'.pending = c.pending)
    (hw : c'.writeBuf = c.writeBuf)
    (hstop : c'.Stopped ∨ c.state = .write ∧ c' = c.processWrite ∨ c.Over) : c.Turned c' :=
  ⟨hp, fun h => absurd h hs, fun h => hw ▸ h, fun _ _ => hstop⟩

theorem handleProcessed_data (b : ReceiveBuffer) : b.handleProcessed.data = b.data := by
  rw [ReceiveBuffer.handleProcessed]
  split <;> split <;> rfl

theorem take_append_drop_length (m : Nat) (l : Bytes) :
    l = l.take m ++ l.drop (l.take m).length := by
  have hdrop : l.drop (l.take m).length = l.drop m := by
    rw [List.length_take]
    rcases Nat.le_total m l.length with h | h
    · rw [min_eq_left h]
    · rw [min_eq_right h, List.drop_length, List.drop_eq_nil_of_le h]
  rw [hdrop, List.take_append_drop]

/-- A read into the receive buffer moves bytes from the socket, or ends the loop. -/
theorem fillBuffer_eq (c : Conn β) (n : Nat) : ∃ b s r got,
    c.fillBuffer n = { c with readBuffer := b, socket := s, run := r } ∧
      b.data = c.readBuffer.data ++ got ∧ c.socket = got ++ s ∧
      (got = [] ∧ r = false ∨ got ≠ [] ∧ r = c.run) := by
  rw [fillBuffer]
  generalize min n c.readBuffer.handleProcessed.getReadBufSize = m
  split
  case isTrue h =>
    refine ⟨_, c.socket, _, [], rfl, ?_, rfl, .inl ⟨rfl, rfl⟩⟩
    rw [handleProcessed_data, List.append_nil]
  case isFalse h =>
    refine ⟨_, _, _, c.socket.take m, rfl, ?_, ?_, .inr ⟨?_, rfl⟩⟩
    · exact congrArg (· ++ c.socket.take m) (handleProcessed_data _)
    · exact take_append_drop_length m c.socket
    · exact fun h0 => h (by rw [h0]; rfl)

/-- A read for the item moves bytes from the socket to the item, or ends the loop. -/
theorem fillItem_eq (c : Conn β) (n : Nat) : c.fillItem n = { c with run := false } ∨ ∃ got s,
    c.fillItem n =
        { c with readItemBuf := c.readItemBuf ++ got, nextDataLen := c.nextDataLen - got.length
                 socket := s, taken := c.taken ++ got } ∧
      c.socket = got ++ s ∧ got ≠ [] ∧ got.length ≤ c.nextDataLen := by
  rw [fillItem]
  split
  case isTrue hgot => exact .inl rfl
  case isFalse hgot =>
    refine .inr ⟨_, _, rfl, take_append_drop_length _ c.socket, ?_, ?_⟩
    · exact fun h0 => hgot (by rw [h0]; rfl)
    · rw [List.length_take]
      omega

theorem unread_consume (n : Nat) :
    c.readBuffer.data.take n ++ (c.consume n).unread = c.unread := by
  have hdata : c.readBuffer.data.take n ++ c.readBuffer.data.drop n = c.readBuffer.data :=
    List.take_append_drop n _
  calc c.readBuffer.data.take n ++ (c.readBuffer.data.drop n ++ c.socket)
      = (c.readBuffer.data.take n ++ c.readBuffer.data.drop n) ++ c.socket :=
        (List.append_assoc ..).symm
    _ = c.unread := by rw [hdata, unread]

/-- A place is a matter of the parser: more bytes in the receive buffer change it not, and
neither do the socket, the responses and the manager. -/
theorem Place.frame {bytes : Bytes} {part : List Event} (h : c.Place ok bytes part)
    {b : ReceiveBuffer} {s : Bytes} {r : Bool} {p : Option Io} {w : List Res} {k : Nat} {m : β}
    {l : List Event} {items : List Ptr} (hb : c.readBuffer.data.length ≤ b.data.length) :
    { c with
      readBuffer := b, socket := s, run := r, pending := p, writeBuf := w
      processRequestCount := k, mgr := m, log := l, cacheItems := items : Conn β }.Place ok
        bytes part := by
  cases h with
  | between hs => exact .between hs
  | header hs ht hl hf =>
    exact .header hs ht (hl.imp_right fun h => h.trans hb)
      fun h => (hf h).imp_right fun h => h.trans hb
  | fixed hs hne hh hl ht => exact .fixed hs hne hh hl ht
  | extras hs hp hi hl ht => exact .extras hs hp hi hl ht
  | extras2 hs hp hk hl ht => exact .extras2 hs hp hk hl ht
  | auth hs hp hl hn => exact .auth hs hp hl hn
  | swallow chunks hs hr hl ht => exact .swallow chunks hs hr hl ht
  | parked hs hp hk => exact .parked hs hp hk
  | ending hs hu => exact .ending hs hu

theorem goes_fillBuffer {bytes : Bytes} {part : List Event} (h : c.Place ok bytes part)
    (hw : c.state ≠ .write) (n : Nat)
    (hstop : ∀ b s, b.data = c.readBuffer.data →
      { c with readBuffer := b, socket := s, run := false : Conn β }.Stopped) :
    c.Goes ok bytes part (c.fillBuffer n) bytes part := by
  obtain ⟨b, s, r, got, heq, hb, hs, hgot⟩ := fillBuffer_eq c n
  rw [heq]
  refine ⟨Place.frame h ?_, ?_, fun pre hpre => hpre, ?_⟩
  · rw [hb, List.length_append]
    exact Nat.le_add_right _ _
  · have hunread : b.data ++ s = c.unread := by rw [hb, List.append_assoc, ← hs, unread]
    exact congrArg (bytes ++ ·) hunread
  · rcases hgot with ⟨hnil, hr⟩ | ⟨-, hr⟩ <;> subst hr
    · exact turned_stop hw rfl rfl (.inl (hstop b s (by rw [hb, hnil, List.append_nil])))
    · exact turned_quiet hw rfl rfl rfl

theorem moves_newCmd (hs : c.state = .newCmd) (n : Nat) : c.Moves ok [] [] (c.iterate B n) := by
  rw [iterate, hs]
  exact .goes [] [] ⟨.header rfl rfl (.inl le_rfl) fun _ => .inl le_rfl, rfl, fun pre hpre => hpre,
    turned_quiet nofun rfl rfl rfl⟩

/-- With a header in the buffer the next request follows at once; this is the way to
`PEER_STATE_READ_HEADER` that keeps `next_data_len_`. -/
theorem processWrite_newCmd (hn : c.nextState = .newCmd) :
    (c.processRequestCount < 32 ∧ headLength ≤ c.readBuffer.data.length ∧
      c.processWrite = { c with state := .readHeader, nextState := .newCmd, taken := [] }) ∨
    (¬ (c.processRequestCount < 32 ∧ headLength ≤ c.readBuffer.data.length) ∧
      c.processWrite = { c with state := .newCmd, nextState := .newCmd, run := false }) := by
  rw [processWrite]
  dsimp only
  rw [hn]
  by_cases hcount : c.processRequestCount < 32
  · by_cases hlen : headLength ≤ c.readBuffer.data.length
    · exact .inl ⟨hcount, hlen, by rw [if_pos ⟨rfl, hcount⟩, if_pos hlen]⟩
    · exact .inr ⟨fun h => hlen h.2, by rw [if_pos ⟨rfl, hcount⟩, if_neg hlen]⟩
  · exact .inr ⟨fun h => hcount h.1, by rw [if_neg fun h => hcount h.2]⟩

theorem processWrite_other (hn : c.nextState ≠ .newCmd) :
    c.processWrite = { c with state := c.nextState, nextState := .newCmd, run := false } := by
  rw [processWrite, if_neg fun h => hn h.1]

/-- The response is out: on to what follows. -/
theorem moves_write {bytes : Bytes} {part : List Event} (h : c.Place ok bytes part)
    (hm : ok → c.Meets) (hs : c.state = .write) (n : Nat) : c.Moves ok bytes part (c.iterate B n) := by
  rw [iterate, hs]
  refine .goes bytes part ?_
  dsimp only
  cases h with
  | between hb =>
    have hnext : c.nextState = .newCmd := by simpa [hs] using hb
    rcases processWrite_newCmd hnext with ⟨hcount, hlen, heq⟩ | ⟨-, heq⟩
    · have hf (h : ok) := (hm h).1 hs hnext hcount hlen
      rw [heq]
      exact ⟨.header rfl rfl (.inr hlen) fun h => .inr (hf h), rfl, fun pre hpre => hpre,
        turned_quiet nofun rfl rfl rfl⟩
    · rw [heq]
      exact ⟨.between (.inl rfl), rfl, fun pre hpre => hpre,
        turned_stop nofun rfl rfl (.inr (.inl ⟨hs, heq.symm⟩))⟩
  | swallow chunks hb hr hl ht =>
    have hnext : c.nextState = .swallow := by simpa [hs] using hb
    have heq := processWrite_other (c := c) (by rw [hnext]; decide)
    rw [heq]
    exact ⟨.swallow chunks (.inl hnext) hr hl ht, rfl, fun pre hpre => hpre,
      turned_stop (fun h => by cases hnext.symm.trans h) rfl rfl (.inr (.inl ⟨hs, heq.symm⟩))⟩
  | ending hb hu =>
    have hnext : c.nextState = .closing := by simpa [hs] using hb
    have heq := processWrite_other (c := c) (by rw [hnext]; decide)
    rw [heq]
    exact ⟨.ending (.inl hnext) hu, rfl, fun pre hpre => hpre,
      turned_stop (fun h => by cases hnext.symm.trans h) rfl rfl (.inr (.inl ⟨hs, heq.symm⟩))⟩
  | header h' | fixed h' | extras h' | extras2 h' | auth h' | parked h' =>
    rw [hs] at h'
    cases h'

theorem processHeader_none {data : Bytes} (h : Choice.ofCode (getU16 data) = none) :
    c.processHeader data = { c with header := getU16 data }.unknownCommand := by
  simp only [processHeader, h]

theorem processHeader_hello {data : Bytes} (h : Choice.ofCode (getU16 data) = some .helloReq) :
    c.processHeader data = { c with header := getU16 data }.writeRes .hello := by
  simp only [processHeader, h, processHelloReqPduFixed]

theorem processHeader_some {data : Bytes} {choice : Choice}
    (h : Choice.ofCode (getU16 data) = some choice) (hne : choice ≠ .helloReq) :
    c.processHeader data =
      { c with header := getU16 data, nextDataLen := choice.fixedBodySize
               state := .readBodyFixed } := by
  simp only [processHeader, h]

/-- A header: `HELLO` is answered, any other known request goes on with its fixed body, and
an unknown one closes the connection. -/
theorem moves_header (hs : c.state = .readHeader) (ht : c.taken = [])
    (hl : headLength ≤ c.nextDataLen ∨ headLength ≤ c.readBuffer.data.length)
    (hf : ok → c.nextDataLen ≤ headLength ∨ c.nextDataLen ≤ c.readBuffer.data.length) (n : Nat) :
    c.Moves ok [] [] (c.iterate B n) := by
  rw [iterate, hs]
  dsimp only
  by_cases hlen : c.nextDataLen ≤ c.readBuffer.data.length
  · have htwo : headLength ≤ c.readBuffer.data.length := hl.elim (fun h => h.trans hlen) id
    have hcode : putU16 (getU16 c.readBuffer.data) = c.readBuffer.data.take headLength :=
      putU16_getU16 htwo
    have hunread := unread_consume (c := c) headLength
    rw [if_pos hlen]
    cases hof : Choice.ofCode (getU16 c.readBuffer.data) with
    | none =>
      rw [processHeader_none hof]
      refine .goes (putU16 (getU16 c.readBuffer.data)) [.queue .unknownCommand]
        ⟨.ending (.inr (.inr ⟨rfl, rfl⟩)) hof, ?_, fun pre hpre => ?_, turned_queue rfl rfl rfl⟩
      · rw [hcode]
        exact hunread
      · rw [List.append_nil] at hpre
        rw [← hpre]
        rfl
    | some choice =>
      have hchoice : putU16 choice.code = c.readBuffer.data.take headLength := by
        rw [Choice.code_of_ofCode hof, hcode]
      by_cases hhello : choice = .helloReq
      · subst hhello
        rw [processHeader_hello hof]
        refine .finishes .hello [] [.queue .hello]
          ⟨.inr ⟨rfl, rfl⟩, ?_, fun pre hpre => ?_, rfl, .hello,
            turned_queue rfl rfl rfl⟩
        · have hhead : (Pdu.hello).head = c.readBuffer.data.take headLength := by
            rw [← hchoice]
            exact List.append_nil _
          rw [hhead]
          exact hunread
        · rw [List.append_nil] at hpre
          rw [← hpre]
          rfl
      · rw [processHeader_some hof hhello]
        refine .goes (putU16 choice.code) [] ⟨.fixed rfl hhello ?_ rfl ?_, ?_, fun pre hpre => hpre,
          turned_quiet nofun rfl rfl rfl⟩
        · exact (Choice.code_of_ofCode hof).symm
        · rw [hchoice]
          exact congrArg (· ++ c.readBuffer.data.take headLength) ht
        · rw [hchoice]
          exact hunread
  · rw [if_neg hlen]
    refine .goes [] [] (goes_fillBuffer (.header hs ht hl hf) (by rw [hs]; decide) n ?_)
    exact fun b s hb => .header hs (by rw [hb]; exact Nat.lt_of_not_le hlen)

section Decoded

variable {c₁ : Conn β} {bytes : Bytes}

theorem moves_keyed {pdu : Pdu} (h : c.Decoded c₁ bytes pdu) (hk : pdu.keyed = true) :
    c.Moves ok bytes [] (c₁.processPduFixed B pdu) := by
  rw [processPduFixed_keyed B c₁ hk]
  refine .goes pdu.head [] ⟨.extras2 rfl h.readPdu hk rfl h.taken, h.stream, fun pre hpre => ?_,
    turned_quiet nofun h.pending h.writeBuf h.run⟩
  rw [← hpre, ← h.log]
  rfl

theorem moves_auth {n : UInt32} (h : c.Decoded c₁ bytes (.auth n)) (hn : ¬ ok) :
    c.Moves ok bytes [] (c₁.processPduFixed B (.auth n)) := by
  refine .goes ((Pdu.auth n).head ++ []) [] ⟨.auth rfl h.readPdu rfl hn, ?_, fun pre hpre => ?_,
    turned_quiet nofun h.pending h.writeBuf h.run⟩
  · rw [List.append_nil]
    exact h.stream
  · rw [← hpre, ← h.log]
    rfl

/-- A request that is answered by now has nothing behind its fixed body. -/
theorem moves_answered {pdu : Pdu} {k : Call} {c' : Conn β} (h : c.Decoded c₁ bytes pdu)
    (hk : pdu.call [] = some k) (hlen : pdu.extrasLength = 0) (hans : c₁.Answers [k] c') :
    c.Moves ok bytes [] c' := by
  obtain ⟨mgr, item, items, r, rfl⟩ := hans
  refine .finishes pdu [] [.call k, .queue r]
    ⟨.inr ⟨rfl, rfl⟩, h.stream, fun pre hpre => ?_, ?_, .call hk,
      turned_queue h.pending (congrArg (· ++ [r]) h.writeBuf) h.run⟩
  · rw [List.append_nil] at hpre
    rw [← hpre, ← h.log]
    rfl
  · rw [hlen]
    rfl

theorem moves_plain {pdu : Pdu} (h : c.Decoded c₁ bytes pdu) (hp : pdu.plain = true) :
    c.Moves ok bytes [] (c₁.processPduFixed B pdu) := by
  obtain ⟨k, hk, hans⟩ := processPduFixed_plain B c₁ hp
  have hlen : pdu.extrasLength = 0 := by
    cases pdu <;> first | rfl | cases hp
  exact moves_answered h hk hlen hans

theorem moves_checkWatch {g w t x a : UInt32} (h : c.Decoded c₁ bytes (.checkWatch g w t x a)) :
    c.Moves ok bytes [] (c₁.processPduFixed B (.checkWatch g w t x a)) := by
  rcases processPduFixed_checkWatch B c₁ g w t x a with hans | hpark
  · exact moves_answered h rfl rfl hans
  · rw [hpark]
    refine .goes _ _ ⟨.parked rfl h.readPdu rfl, h.stream, fun pre hpre => ?_,
      turned_quiet nofun h.pending h.writeBuf h.run⟩
    rw [List.append_nil] at hpre
    rw [← hpre, ← h.log]
    rfl

/-- An update goes on with its item, or swallows what it announces. -/
theorem moves_update {op : UInt8} {id : UInt64} {g fl x w : UInt32} {kl : UInt16} {dl : UInt32}
    (h : c.Decoded c₁ bytes (.update op id g fl x w kl dl)) :
    c.Moves ok bytes [] (c₁.processPduFixed B (.update op id g fl x w kl dl)) := by
  rcases processPduFixed_update B c₁ op id g fl x w kl dl with
    ⟨mgr, it, heq⟩ | ⟨mgr, reason, hr, heq⟩ <;> rw [heq]
  · refine .goes ((Pdu.update op id g fl x w kl dl).head ++ []) [.call (allocCall g fl x kl dl)]
      ⟨.extras rfl h.readPdu rfl (Nat.zero_add _) ?_, ?_, fun pre hpre => ?_,
        turned_quiet nofun h.pending h.writeBuf h.run⟩
    · rw [allocated, List.append_nil]
      exact h.taken
    · rw [List.append_nil]
      exact h.stream
    · rw [List.append_nil] at hpre
      rw [← hpre, ← h.log]
      rfl
  · have hlog (pre : List Event) (hpre : c.log = pre ++ []) :
        c₁.log ++ ([Event.call (allocCall g fl x kl dl), .call (.itemSizeOk kl.toNat dl.toNat 0)] ++
          [.queue (.error reason)]) = pre ++ ([.call (allocCall g fl x kl dl),
            .call (.itemSizeOk kl.toNat dl.toNat 0), .queue (.error reason)] ++ []) := by
      rw [List.append_nil] at hpre
      rw [← hpre, ← h.log]
      rfl
    have hturned : c.Turned (c₁.rejected mgr [allocCall g fl x kl dl,
        .itemSizeOk kl.toNat dl.toNat 0] (.error reason) ((kl.toNat + dl.toNat) % 2 ^ 32)) :=
      turned_queue h.pending (congrArg (· ++ [Res.error reason]) h.writeBuf) h.run
    by_cases hlen : 0 < (kl.toNat + dl.toNat) % 2 ^ 32
    · refine .goes ((Pdu.update op id g fl x w kl dl).head ++ []) _
        ⟨.swallow [] (.inr ⟨rfl, if_pos hlen⟩) hr ?_ ?_, ?_, hlog, hturned⟩
      · exact (Nat.zero_add _).trans (if_pos hlen)
      · rw [List.flatten_nil, List.append_nil]
        exact h.taken
      · rw [List.append_nil]
        exact h.stream
    · refine .finishes (.update op id g fl x w kl dl) [] _
        ⟨.inr ⟨rfl, if_neg hlen⟩, h.stream, hlog, ?_, .rejected [] hr, hturned⟩
      exact (Nat.eq_zero_of_not_pos hlen).symm

end Decoded

/-- The fixed body is there, and is decoded. -/
theorem decoded_fixed {choice : Choice} (hh : c.header = choice.code)
    (hl : c.nextDataLen = choice.fixedBodySize) (ht : c.taken = putU16 choice.code)
    (hlen : c.nextDataLen ≤ c.readBuffer.data.length) :
    ∃ pdu, pdu.choice = choice ∧ decodePdu c.header c.readBuffer.data = some pdu ∧
      c.Decoded { c.consume c.nextDataLen with readPdu := some pdu } (putU16 choice.code) pdu := by
  have hbody : (decodeFixed c.readBuffer.data choice).fixedBody =
      c.readBuffer.data.take c.nextDataLen := by
    rw [hl] at hlen ⊢
    exact Pdu.fixedBody_decodeFixed hlen
  have hchoice := Pdu.choice_decodeFixed c.readBuffer.data choice
  have hhead : (decodeFixed c.readBuffer.data choice).head =
      putU16 choice.code ++ c.readBuffer.data.take c.nextDataLen := by
    rw [Pdu.head, hbody, hchoice]
  refine ⟨_, hchoice, ?_, rfl, ?_, ?_, rfl, rfl, rfl, rfl⟩
  · rw [hh, decodePdu, Choice.ofCode_code, Option.map_some]
  · rw [hhead, ← ht]
    rfl
  · rw [hhead, List.append_assoc]
    exact congrArg (putU16 choice.code ++ ·) (unread_consume c.nextDataLen)

theorem moves_fixed {choice : Choice} (hs : c.state = .readBodyFixed) (hne : choice ≠ .helloReq)
    (hh : c.header = choice.code) (hl : c.nextDataLen = choice.fixedBodySize)
    (ht : c.taken = putU16 choice.code) (hm : ok → c.Meets) (n : Nat) :
    c.Moves ok (putU16 choice.code) [] (c.iterate B n) := by
  rw [iterate, hs]
  dsimp only
  by_cases hlen : c.nextDataLen ≤ c.readBuffer.data.length
  · rw [if_pos hlen]
    obtain ⟨pdu, hchoice, hdecode, hdec⟩ := decoded_fixed hh hl ht hlen
    rw [hdecode]
    dsimp only
    cases pdu with
    | get | getTouch | getBase | updateFlags | updateExpiration | delete | delta =>
      exact moves_keyed hdec rfl
    | flush | stats | createWatch => exact moves_plain hdec rfl
    | update => exact moves_update hdec
    | auth =>
      -- the header is that of `AUTH`
      have hauth : c.header = Choice.authReq.code := by rw [hh, ← hchoice]; rfl
      exact moves_auth hdec fun h => (hm h).2 hs hauth
    | checkWatch => exact moves_checkWatch hdec
    | hello => exact absurd hchoice.symm hne
  · rw [if_neg hlen]
    refine .goes _ [] (goes_fillBuffer (.fixed hs hne hh hl ht) (by rw [hs]; decide) n ?_)
    exact fun b s hb => .fixed hs (by rw [hb]; exact Nat.lt_of_not_le hlen)

/-- `got` has gone into the item. -/
theorem goes_extras {op : UInt8} {id : UInt64} {g fl x w : UInt32} {kl : UInt16} {dl : UInt32}
    {it : Ptr} {c' : Conn β} {got : Bytes} (hs : c'.state = .readBodyExtras)
    (hp : c'.readPdu = some (.update op id g fl x w kl dl)) (hi : c'.cacheItem = some it)
    (hl : c.readItemBuf.length + c.nextDataLen = (kl.toNat + dl.toNat) % 2 ^ 32)
    (ht : c.taken = (Pdu.update op id g fl x w kl dl).head ++ c.readItemBuf)
    (hgot : got.length ≤ c.nextDataLen) (hbuf : c'.readItemBuf = c.readItemBuf ++ got)
    (hlen : c'.nextDataLen = c.nextDataLen - got.length) (htaken : c'.taken = c.taken ++ got)
    (hunread : got ++ c'.unread = c.unread) (hlog : c'.log = c.log)
    (hturned : c.Turned c') :
    c.Goes ok ((Pdu.update op id g fl x w kl dl).head ++ c.readItemBuf)
      [.call (allocCall g fl x kl dl)] c'
      ((Pdu.update op id g fl x w kl dl).head ++ c'.readItemBuf)
      [.call (allocCall g fl x kl dl)] := by
  refine ⟨.extras hs hp hi ?_ ?_, ?_, fun pre hpre => hlog.trans hpre, hturned⟩
  · rw [hbuf, hlen, List.length_append]
    omega
  · rw [hbuf, htaken, ht, List.append_assoc]
  · rw [hbuf, ← hunread]
    simp only [List.append_assoc]

/-- The item of an update fills up; then the update runs. -/
theorem moves_extras {op : UInt8} {id : UInt64} {g fl x w : UInt32} {kl : UInt16} {dl : UInt32}
    {it : Ptr} (hs : c.state = .readBodyExtras)
    (hp : c.readPdu = some (.update op id g fl x w kl dl)) (hi : c.cacheItem = some it)
    (hl : c.readItemBuf.length + c.nextDataLen = (kl.toNat + dl.toNat) % 2 ^ 32)
    (ht : c.taken = (Pdu.update op id g fl x w kl dl).head ++ c.readItemBuf) (n : Nat) :
    c.Moves ok ((Pdu.update op id g fl x w kl dl).head ++ c.readItemBuf)
      [.call (allocCall g fl x kl dl)] (c.iterate B n) := by
  rw [iterate, hs]
  dsimp only
  by_cases hzero : c.nextDataLen = 0
  · rw [if_pos hzero, hp]
    obtain ⟨mgr, item, items, r, heq⟩ := processPduExtras_update B c op id g fl x w kl dl hi
    rw [heq]
    refine .finishes (.update op id g fl x w kl dl) c.readItemBuf _
      ⟨.inr ⟨rfl, rfl⟩, ?_, fun pre hpre => ?_, ?_, .update it r, turned_queue rfl rfl rfl⟩
    · exact (List.append_assoc ..).symm
    · rw [answered, hpre, List.append_assoc]
      rfl
    · rw [hzero, Nat.add_zero] at hl
      exact hl
  · have hw : c.state ≠ .write := by
      rw [hs]
      decide
    rw [if_neg hzero]
    by_cases hbuf : 0 < c.readBuffer.data.length
    · rw [if_pos hbuf, copyToItem]
      have hgot : (c.readBuffer.data.take (min c.readBuffer.data.length c.nextDataLen)).length =
          min c.readBuffer.data.length c.nextDataLen := List.length_take_of_le (min_le_left _ _)
      refine .goes _ _ (goes_extras hs hp hi hl ht ?_ rfl ?_ rfl (unread_consume _) rfl
        (turned_quiet hw rfl rfl rfl))
      · rw [hgot]
        exact min_le_right _ _
      · rw [hgot]
        rfl
    · have hempty : c.readBuffer.data = [] := List.eq_nil_of_length_eq_zero (by omega)
      rw [if_neg hbuf]
      rcases fillItem_eq c n with heq | ⟨got, s, heq, hsock, -, hgot⟩ <;> rw [heq]
      · exact .goes _ _ ⟨.extras hs hp hi hl ht, rfl, fun pre hpre => hpre,
          turned_stop hw rfl rfl (.inl (.extras hs hzero hempty))⟩
      · refine .goes _ _ (goes_extras hs hp hi hl ht hgot rfl rfl rfl ?_ rfl
          (turned_quiet hw rfl rfl rfl))
        rw [unread, unread, hempty, hsock]
        rfl

/-- A key that is there is used; one that is not is awaited. -/
theorem moves_extras2 {pdu : Pdu} (hs : c.state = .readBodyExtras2) (hp : c.readPdu = some pdu)
    (hk : pdu.keyed = true) (hl : c.nextDataLen = pdu.extrasLength) (ht : c.taken = pdu.head)
    (n : Nat) : c.Moves ok pdu.head [] (c.iterate B n) := by
  rw [iterate, hs]
  dsimp only
  by_cases hlen : c.nextDataLen ≤ c.readBuffer.data.length
  · rw [if_pos hlen, hp]
    obtain ⟨k, c', hcall, hans, heq⟩ := processPduExtras2_keyed B c hk (hl ▸ hlen)
    rw [heq]
    obtain ⟨mgr, item, items, r, rfl⟩ := hans
    refine .finishes pdu (c.readBuffer.data.take pdu.extrasLength) [.call k, .queue r]
      ⟨.inr ⟨rfl, rfl⟩, ?_, fun pre hpre => ?_, ?_, .call hcall,
        turned_queue rfl rfl rfl⟩
    · exact congrArg (pdu.head ++ ·) (unread_consume pdu.extrasLength)
    · rw [List.append_nil] at hpre
      rw [← hpre]
      rfl
    · rw [List.length_take_of_le (hl ▸ hlen), Nat.mod_eq_of_lt (Pdu.extrasLength_lt_of_keyed hk)]
  · rw [if_neg hlen]
    refine .goes _ [] (goes_fillBuffer (.extras2 hs hp hk hl ht) (by rw [hs]; decide) n ?_)
    exact fun b s hb => .extras2 hs (by rw [hb]; exact Nat.lt_of_not_le hlen)

theorem moves_swallow {op : UInt8} {id : UInt64} {g fl x w : UInt32} {kl : UInt16} {dl : UInt32}
    {reason : Reason} {chunks : List Bytes} (hs : c.state = .swallow)
    (hr : reason = .outOfMemory ∨ reason = .tooLarge)
    (hl : chunks.flatten.length + c.swallowSize = (kl.toNat + dl.toNat) % 2 ^ 32)
    (ht : c.taken = (Pdu.update op id g fl x w kl dl).head ++ chunks.flatten) (n : Nat) :
    c.Moves ok ((Pdu.update op id g fl x w kl dl).head ++ chunks.flatten)
      ([.call (allocCall g fl x kl dl), .call (.itemSizeOk kl.toNat dl.toNat 0),
        .queue (.error reason)] ++ chunks.map .swallow) (c.iterate B n) := by
  rw [iterate, hs]
  dsimp only
  by_cases hzero : c.swallowSize = 0
  · rw [if_pos hzero]
    refine .finishes (.update op id g fl x w kl dl) chunks.flatten _
      ⟨.inl rfl, ?_, fun pre hpre => hpre, ?_, .rejected chunks hr,
        turned_quiet nofun rfl rfl rfl⟩
    · exact (List.append_assoc ..).symm
    · rw [← Nat.add_zero chunks.flatten.length, ← hzero]
      exact hl
  · have hw : c.state ≠ .write := by
      rw [hs]
      decide
    rw [if_neg hzero]
    by_cases hbuf : 0 < c.readBuffer.data.length
    · rw [if_pos hbuf, swallowBuffer]
      have hgot : (c.readBuffer.data.take (min c.readBuffer.data.length c.swallowSize)).length =
          min c.readBuffer.data.length c.swallowSize := List.length_take_of_le (min_le_left _ _)
      have hunread := unread_consume (c := c) (min c.readBuffer.data.length c.swallowSize)
      generalize hm : min c.readBuffer.data.length c.swallowSize = m at hgot hunread ⊢
      have hflat : (chunks ++ [c.readBuffer.data.take m]).flatten =
          chunks.flatten ++ c.readBuffer.data.take m := by
        rw [List.flatten_append, List.flatten_singleton]
      refine .goes ((Pdu.update op id g fl x w kl dl).head ++
          (chunks ++ [c.readBuffer.data.take m]).flatten) _
        ⟨.swallow (chunks ++ [c.readBuffer.data.take m]) (.inl hs) hr ?_ ?_, ?_,
          fun pre hpre => ?_, turned_quiet hw rfl rfl rfl⟩
      · rw [hflat, List.length_append, hgot]
        have hle : m ≤ c.swallowSize := hm ▸ min_le_right _ _
        show chunks.flatten.length + m + (c.swallowSize - m) = _
        omega
      · rw [hflat, ← List.append_assoc, ← ht]
        rfl
      · rw [hflat, ← hunread]
        simp only [List.append_assoc]
        rfl
      · have hall := congrArg (· ++ [Event.swallow (c.readBuffer.data.take m)]) hpre
        simp only [List.append_assoc] at hall
        rw [List.map_append]
        exact hall
    · have hempty : c.readBuffer.data = [] := List.eq_nil_of_length_eq_zero (by omega)
      rw [if_neg hbuf]
      refine .goes _ _ (goes_fillBuffer (.swallow chunks (.inl hs) hr hl ht) hw n ?_)
      exact fun b s hb => .swallow hs hzero (by rw [hb, hempty])

/-- `AUTH` goes through the stream without an end. -/
theorem moves_auth_extras2 {k : UInt32} {junk : Bytes} {logins : List Event}
    (hs : c.state = .readBodyExtras2) (hp : c.readPdu = some (.auth k))
    (hl : c.nextDataLen = k.toNat) (hn : ¬ ok) (n : Nat) :
    c.Moves ok ((Pdu.auth k).head ++ junk) logins (c.iterate B n) := by
  rw [iterate, hs]
  dsimp only
  by_cases hlen : c.nextDataLen ≤ c.readBuffer.data.length
  · rw [if_pos hlen, hp, processPduExtras2_auth B c (hl ▸ hlen)]
    refine .goes ((Pdu.auth k).head ++ (junk ++ c.readBuffer.data.take k.toNat))
      (logins ++ [.call (.login (c.readBuffer.data.take k.toNat))])
      ⟨.auth hs hp hl hn, ?_, fun pre hpre => ?_, turned_quiet (fun h => by cases hs.symm.trans h) rfl rfl rfl⟩
    · rw [← unread_consume (c := c) k.toNat]
      simp only [List.append_assoc]
      rfl
    · rw [← List.append_assoc, ← hpre]
      rfl
  · rw [if_neg hlen]
    refine .goes _ _ (goes_fillBuffer (.auth hs hp hl hn) (by rw [hs]; decide) n ?_)
    exact fun b s hb => .extras2 hs (by rw [hb]; exact Nat.lt_of_not_le hlen)

end PlaceLemmas

open PlaceLemmas in
/-- An iteration stays in the request or finishes it. -/
theorem iterate_place {B : Backend β} {c : Conn β} {ok : Prop} {bytes : Bytes}
    {part : List Event} (h : c.Place ok bytes part) (hm : ok → c.Meets) (n : Nat) : c.Moves ok bytes part (c.iterate B n) := by
  cases h with
  | between hs =>
    rcases hs with hs | ⟨hs, hn⟩
    · exact moves_newCmd hs n
    · exact moves_write (.between (.inr ⟨hs, hn⟩)) hm hs n
  | header hs ht hl hf => exact moves_header hs ht hl hf n
  | fixed hs hne hh hl ht => exact moves_fixed hs hne hh hl ht hm n
  | extras hs hp hi hl ht => exact moves_extras hs hp hi hl ht n
  | extras2 hs hp hk hl ht => exact moves_extras2 hs hp hk hl ht n
  | auth hs hp hl hn => exact moves_auth_extras2 hs hp hl hn n
  | swallow chunks hs hr hl ht =>
    rcases hs with hs | ⟨hs, hn⟩
    · exact moves_swallow hs hr hl ht n
    · exact moves_write (.swallow chunks (.inr ⟨hs, hn⟩) hr hl ht) hm hs n
  | parked hs hp hk =>
    rw [iterate, hs]
    exact .goes _ _ ⟨.parked rfl hp hk, rfl, fun pre hpre => hpre,
      turned_stop nofun rfl rfl (.inr (.inr (.inl hs)))⟩
  | ending hs hu =>
    rcases hs with hs | hs | ⟨hs, hn⟩
    · rw [iterate, hs]
      exact .goes _ _ ⟨.ending (.inr (.inl rfl)) hu, rfl, fun pre hpre => hpre,
        turned_stop nofun rfl rfl (.inr (.inr (.inr (.inl hs))))⟩
    · rw [iterate, hs]
      exact .goes _ _ ⟨.ending (.inr (.inl rfl)) hu, rfl, fun pre hpre => hpre,
        turned_stop nofun rfl rfl (.inr (.inr (.inr (.inr hs))))⟩
    · exact moves_write (.ending (.inr (.inr ⟨hs, hn⟩)) hu) hm hs n

end Conn
end Xixi.PeerCache
