import Xixi.Peer.Connection

/-!
# Framing

What a connection does with the frames of a list of requests, however they are cut into
reads.

1. `Serves rs ok c`: some of the requests are served, the next one stands at its place, and
   what has not been consumed is the rest of the stream.
2. `framing`: in every run the requests are served in order, each with the key, the data and
   the fields of its frame and with one response; a rejected update swallows its key and data.
   If every shortcut was prompt, all requests are served by the time the connection waits for
   input that does not come.
-/

namespace Xixi.PeerCache
open Lib

/-- The requests that the statement is about. The length of an update is counted in 32
bits. -/
structure Request.Framed (r : Request) : Prop where
  auth : r.pdu.choice ≠ .authReq
  checkWatch : r.pdu.choice ≠ .checkWatchReq
  length : r.pdu.extrasLength < 2 ^ 32

def encodeAll (rs : List Request) : Bytes := rs.flatMap Request.encode

/-- The requests `rs` are served, in this order. -/
def ServedAll (rs : List Request) (es : List (List Event)) : Prop :=
  List.Forall₂ (fun r e => Served r.pdu r.extras e) rs es

/-- The first `k` requests are served, and the next one is at most begun. -/
def Executed (rs : List Request) (log : List Event) (k : Nat) : Prop :=
  ∃ es part, ServedAll (rs.take k) es ∧ log = es.flatten ++ part ∧
    (part = [] ∨ ∃ r more, rs[k]? = some r ∧ Served r.pdu r.extras (part ++ more))

namespace StreamLemmas

theorem encodeAll_cons (r : Request) (rs : List Request) :
    encodeAll (r :: rs) = r.encode ++ encodeAll rs := List.flatMap_cons

/-- A stream that starts with a header is not empty, and it is the header of its first
request. -/
theorem exists_of_code {code : UInt16} {rest : Bytes} {rs : List Request}
    (h : putU16 code ++ rest = encodeAll rs) : ∃ r rs', rs = r :: rs' ∧ r.pdu.choice.code = code := by
  cases rs with
  | nil =>
    have hlen := congrArg List.length h
    rw [List.length_append, length_putU16] at hlen
    simp [encodeAll] at hlen
  | cons r rs' =>
    rw [encodeAll_cons, Request.encode, Request.header, List.append_assoc] at h
    have hcode := congrArg getU16 h
    rw [getU16_putU16, getU16_putU16] at hcode
    exact ⟨r, rs', rfl, hcode.symm⟩

/-- A stream that starts like `pdu` starts with such a request. -/
theorem exists_of_head {pdu : Pdu} {rest : Bytes} {rs : List Request}
    (h : pdu.head ++ rest = encodeAll rs) :
    ∃ r rs', rs = r :: rs' ∧ r.pdu = pdu ∧ rest = r.extras ++ encodeAll rs' := by
  rw [Pdu.head, List.append_assoc] at h
  obtain ⟨r, rs', rfl, hcode⟩ := exists_of_code h
  have hof := congrArg Choice.ofCode hcode
  rw [Choice.ofCode_code, Choice.ofCode_code] at hof
  have hchoice : r.pdu.choice = pdu.choice := Option.some.inj hof
  rw [encodeAll_cons, Request.encode, Request.header, hcode, List.append_assoc, List.append_assoc,
    List.append_cancel_left_eq] at h
  have hdec := congrArg (decodePdu pdu.choice.code) h
  rw [Pdu.decodePdu_fixedBody, ← hchoice, Pdu.decodePdu_fixedBody] at hdec
  have hpdu : r.pdu = pdu := (Option.some.inj hdec).symm
  rw [hpdu, List.append_cancel_left_eq] at h
  exact ⟨r, rs', rfl, hpdu, h⟩

end StreamLemmas

namespace Conn

variable {β : Type} (B : Backend β)

/-- `done` is served, `rest` is to come. -/
structure Position (rs : List Request) (ok : Prop) (c : Conn β) (done rest : List Request)
    (es : List (List Event)) (bytes : Bytes) (part : List Event) : Prop where
  split : rs = done ++ rest
  served : ServedAll done es
  log : c.log = es.flatten ++ part
  place : c.Place ok bytes part
  stream : bytes ++ c.unread = encodeAll rest

structure Serves (rs : List Request) (ok : Prop) (c : Conn β) : Prop where
  position : ∃ done rest es bytes part, c.Position rs ok done rest es bytes part
  quiet : c.run = true → c.pending = none
  busy : c.run = false → c.pending ≠ none
  wrote : c.run = true → c.state = .write → c.writeBuf ≠ []
  waits : c.run = false → c.pending = some .read → c.Stopped
  left : c.run = false → c.state ≠ .write

namespace FramingLemmas
open PlaceLemmas ConnectionLemmas StreamLemmas

variable {B} {rs : List Request} {ok : Prop} {c c' : Conn β} {done rest : List Request}
  {es : List (List Event)} {bytes : Bytes} {part : List Event}

/-- The next request, when `pdu` is being read. -/
theorem position_next (h : c.Position rs ok done rest es bytes part) {pdu : Pdu} {got : Bytes}
    (hb : bytes = pdu.head ++ got) : ∃ r rest', rest = r :: rest' ∧ r.pdu = pdu ∧
      got ++ c.unread = r.extras ++ encodeAll rest' := by
  have hstream := h.stream
  rw [hb, List.append_assoc] at hstream
  exact exists_of_head hstream

variable (hrs : ∀ r ∈ rs, r.Framed)

theorem position_mem (h : c.Position rs ok done rest es bytes part) {r : Request}
    {rest' : List Request} (hr : rest = r :: rest') : r ∈ rs := by
  rw [h.split, hr]
  exact List.mem_append_right _ List.mem_cons_self

include hrs

/-- No request is `AUTH`, so the condition on the shortcut is all that has to be met. -/
theorem position_meets (h : c.Position rs ok done rest es bytes part) (hp : c.Prompt) :
    c.Meets := by
  refine ⟨hp, fun hs hauth => ?_⟩
  obtain ⟨choice, hb, -, hh, -⟩ := Place.at_fixed h.place hs
  have hstream := h.stream
  rw [hb] at hstream
  obtain ⟨r, rest', hrest, hcode⟩ := exists_of_code hstream
  have hof := congrArg Choice.ofCode (hcode.trans (hh.symm.trans hauth))
  rw [Choice.ofCode_code, Choice.ofCode_code] at hof
  exact (hrs r (position_mem h hrest)).auth (Option.some.inj hof)

/-- The connection neither waits for a watch nor is about to be closed. -/
theorem position_not_over (h : c.Position rs ok done rest es bytes part) :
    ¬ c.Over ∧ ¬ (c.state = .write ∧ c.nextState = .closing) := by
  have hstream := h.stream
  have hplace := h.place
  cases hplace with
  | parked hs hp hk =>
    obtain ⟨r, rest', hrest, hpdu, -⟩ := position_next h (List.append_nil _).symm
    exact absurd (congrArg Pdu.choice hpdu) (hrs r (position_mem h hrest)).checkWatch
  | ending hs hu =>
    obtain ⟨r, rest', hrest, hcode⟩ := exists_of_code hstream
    rw [← hcode, Choice.ofCode_code] at hu
    cases hu
  | between hs => rcases hs with hs | hs <;> simp [Over, hs]
  | swallow _ hs => rcases hs with hs | hs <;> simp [Over, hs]
  | header hs | fixed hs | extras hs | extras2 hs | auth hs => simp [Over, hs]

/-- One iteration: the request goes on, or it is served and the next one is due. -/
theorem position_iterate (h : c.Position rs ok done rest es bytes part)
    (hp : ok → c.Prompt) (n : Nat) :
    ∃ done' rest' es' bytes' part',
      (c.iterate B n).Position rs ok done' rest' es' bytes' part' := by
  cases iterate_place (B := B) h.place (fun hok => position_meets hrs h (hp hok)) n with
  | goes bytes' part' hg =>
    exact ⟨done, rest, es, bytes', part', h.split, h.served, hg.log _ h.log, hg.place,
      hg.stream.trans h.stream⟩
  | finishes pdu extras e hf =>
    obtain ⟨r, rest', hrest, hpdu, htail⟩ := exists_of_head (hf.stream.trans h.stream)
    have hframed := hrs r (position_mem h hrest)
    have hlen : extras.length = r.extras.length := by
      rw [hf.length, r.length_extras, ← hpdu, Nat.mod_eq_of_lt hframed.length]
    obtain ⟨rfl, hunread⟩ := List.append_inj htail hlen
    subst hpdu
    refine ⟨done ++ [r], rest', es ++ [e], [], [], ?_, ?_, ?_, .between hf.between, hunread⟩
    · rw [h.split, hrest, List.append_assoc]
      rfl
    · exact List.rel_append h.served (.cons hf.served .nil)
    · rw [hf.log _ h.log, List.flatten_append, List.flatten_singleton, List.append_nil]

omit hrs in
/-- What the handlers of the socket change is not a matter of the position. -/
theorem position_frame (h : c.Position rs ok done rest es bytes part) {b : ReceiveBuffer}
    {s : Bytes} {r : Bool} {p : Option Io} {w : List Res} {k : Nat}
    (hb : c.readBuffer.data.length ≤ b.data.length) (hs : b.data ++ s = c.unread) :
    { c with
      readBuffer := b, socket := s, run := r, pending := p, writeBuf := w
      processRequestCount := k : Conn β }.Position rs ok done rest es bytes part :=
  ⟨h.split, h.served, h.log, Place.frame h.place hb, (congrArg (bytes ++ ·) hs).trans h.stream⟩

omit hrs in
theorem stopped_frame (h : c.Stopped) {b : ReceiveBuffer} {s : Bytes} {p : Option Io} {w : List Res}
    (hb : b.data = c.readBuffer.data) :
    { c with readBuffer := b, socket := s, pending := p, writeBuf := w : Conn β }.Stopped := by
  cases h with
  | header hs hl => exact .header hs (by rw [hb]; exact hl)
  | fixed hs hl => exact .fixed hs (by rw [hb]; exact hl)
  | extras hs hl he => exact .extras hs hl (hb.trans he)
  | extras2 hs hl => exact .extras2 hs (by rw [hb]; exact hl)
  | swallow hs hl he => exact .swallow hs hl (hb.trans he)

omit hrs in
theorem stopped_ne_write (h : c.Stopped) : c.state ≠ .write := by
  cases h with
  | header hs | fixed hs | extras hs | extras2 hs | swallow hs =>
    rw [hs]
    decide

omit hrs in
theorem nextState_ne_write (h : c.Place ok bytes part) (hs : c.state = .write) :
    c.nextState ≠ .write := by
  cases h with
  | between h' | swallow _ h' | ending h' => rcases h' with h' | h' <;> simp_all
  | header h' | fixed h' | extras h' | extras2 h' | auth h' | parked h' => cases hs.symm.trans h'

omit hrs in
theorem processWrite_ne_write (h : c.nextState ≠ .write) : c.processWrite.state ≠ .write := by
  by_cases hn : c.nextState = .newCmd
  · rcases processWrite_newCmd hn with ⟨-, -, heq⟩ | ⟨-, heq⟩ <;> rw [heq] <;> exact nofun
  · rw [processWrite_other hn]
    exact h

/-- Leaving `process`: a response is sent, or there is too little to go on with. -/
theorem serves_leave (h : c.Position rs ok done rest es bytes part) (hr : c.run = false)
    (hp : c.pending = none) (hstop : c.writeBuf = [] → c.Stopped) (hs : c.state ≠ .write) :
    (c.leave B).Serves rs ok := by
  have hover := (position_not_over hrs h).1
  have hclosed : c.state ≠ .closed := fun hs => hover (.inr (.inr hs))
  have hasync : c.state ≠ .asyncWait := fun hs => hover (.inl hs)
  by_cases hw : c.writeBuf = []
  · rw [leave_read hp hclosed hasync hw]
    refine ⟨⟨done, rest, es, bytes, part, position_frame h ?_ ?_⟩, fun h' => ?_,
      (fun _ hx => by cases hx), fun h' => ?_,
      fun _ _ => stopped_frame (hstop hw) (handleProcessed_data _), fun _ => hs⟩
    · rw [handleProcessed_data]
    · rw [handleProcessed_data, unread]
    · cases hr.symm.trans h'
    · cases hr.symm.trans h'
  · rw [leave_write hp hclosed hw]
    refine ⟨⟨done, rest, es, bytes, part, position_frame h le_rfl rfl⟩, fun h' => ?_, (fun _ hx => by cases hx),
      fun h' => ?_, (fun _ hx => by cases hx), fun _ => hs⟩
    · cases hr.symm.trans h'
    · cases hr.symm.trans h'

theorem serves_turn (h : c.Serves rs ok) (hr : c.run = true) (hprompt : ok → c.Prompt) (n : Nat) :
    (c.turn B n).Serves rs ok := by
  obtain ⟨done, rest, es, bytes, part, hpos⟩ := h.position
  have hmoves := iterate_place (B := B) hpos.place
    (fun hok => position_meets hrs hpos (hprompt hok)) n
  have hturned := Moves.turned hmoves
  have hpend : (c.iterate B n).pending = none := hturned.pending.trans (h.quiet hr)
  obtain ⟨done', rest', es', bytes', part', hpos'⟩ := position_iterate (B := B) hrs hpos hprompt n
  rw [turn]
  cases hrun : (c.iterate B n).run with
  | true =>
    refine ⟨⟨_, _, _, _, _, hpos'⟩, fun _ => hpend, fun h' => ?_, fun _ => hturned.queued, fun h' => ?_,
      fun h' => ?_⟩
    all_goals cases hrun.symm.trans h'
  | false =>
    rcases hturned.stops hr hrun with hs | ⟨hs, heq⟩ | hs
    · exact serves_leave hrs hpos' hrun hpend (fun _ => hs) (stopped_ne_write hs)
    · refine serves_leave hrs hpos' hrun hpend (fun hw => ?_) ?_
      · exact absurd (hturned.keeps hw) (h.wrote hr hs)
      · rw [heq]
        exact processWrite_ne_write (nextState_ne_write hpos.place hs)
    · exact absurd hs (position_not_over hrs hpos).1

/-- Every step but an error of the socket. -/
theorem serves_step {a : Action} (h : c.Serves rs ok)
    (hprompt : ok → ∀ n, a = .turn n → c.Prompt) (hstep : c.Step B a c')
    (herr : a ≠ .handleError) : c'.Serves rs ok := by
  obtain ⟨hperm, rfl⟩ := hstep
  obtain ⟨done, rest, es, bytes, part, hpos⟩ := h.position
  cases a with
  | turn n => exact serves_turn hrs h hperm (fun hok => hprompt hok n rfl) n
  | handleRead n =>
    refine ⟨⟨done, rest, es, bytes, part, position_frame hpos ?_ ?_⟩, fun _ => rfl, (fun hx => by cases hx),
      fun _ hs => absurd hs (h.left hperm.1), (fun hx => by cases hx), (fun hx => by cases hx)⟩
    · rw [List.length_append]
      exact Nat.le_add_right _ _
    · rw [List.append_assoc, ← take_append_drop_length, unread]
  | handleWrite =>
    exact ⟨⟨done, rest, es, bytes, part, position_frame hpos le_rfl rfl⟩, fun _ => rfl, (fun hx => by cases hx),
      fun _ hs => absurd hs (h.left hperm.1), (fun hx => by cases hx), (fun hx => by cases hx)⟩
  | handleError => exact absurd rfl herr
  | handleTimer w => exact absurd (.inl hperm.2.1) (position_not_over hrs hpos).1

/-- What has been begun of the next request can be brought to its end. -/
theorem position_part (h : c.Position rs ok done rest es bytes part) : part = [] ∨
    ∃ r rest' more, rest = r :: rest' ∧ Served r.pdu r.extras (part ++ more) := by
  have hplace := h.place
  have hover := position_not_over hrs h
  cases hplace with
  | between | header | fixed | extras2 => exact .inl rfl
  | auth hs hp hl hn =>
    obtain ⟨r, rest', hrest, hpdu, -⟩ := position_next h rfl
    exact absurd (congrArg Pdu.choice hpdu) (hrs r (position_mem h hrest)).auth
  | parked hs => exact absurd (.inl hs) hover.1
  | ending hs =>
    rcases hs with hs | hs | hs
    · exact absurd (.inr (.inl hs)) hover.1
    · exact absurd (.inr (.inr hs)) hover.1
    · exact absurd hs hover.2
  | extras hs hp hi hl ht =>
    obtain ⟨r, rest', hrest, hpdu, -⟩ := position_next h rfl
    exact .inr ⟨r, rest', _, hrest, hpdu ▸ Served.update 0 .hello⟩
  | swallow chunks hs hr hl ht =>
    obtain ⟨r, rest', hrest, hpdu, htail⟩ := position_next h rfl
    have hlen : chunks.flatten.length ≤ r.extras.length := by
      rw [r.length_extras, hpdu]
      exact (Nat.le_add_right _ _).trans (hl.le.trans (Nat.mod_le _ _))
    obtain ⟨tail, htail⟩ : chunks.flatten <+: r.extras :=
      List.prefix_of_prefix_length_le ⟨_, htail⟩ (List.prefix_append _ _) hlen
    have hflat : (chunks ++ [tail]).flatten = r.extras := by
      rw [List.flatten_append, List.flatten_singleton, htail]
    refine .inr ⟨r, rest', [.swallow tail], hrest, ?_⟩
    have hmap : chunks.map Event.swallow ++ [.swallow tail] = (chunks ++ [tail]).map .swallow := by
      rw [List.map_append]
      rfl
    rw [hpdu, ← hflat, List.append_assoc, hmap]
    exact Served.rejected (chunks ++ [tail]) hr

theorem executed_of_position (h : c.Position rs ok done rest es bytes part) :
    Executed rs c.log done.length := by
  refine ⟨es, part, ?_, h.log, (position_part hrs h).imp_right ?_⟩
  · rw [h.split, List.take_left]
    exact h.served
  · rintro ⟨r, rest', more, hrest, hserved⟩
    refine ⟨r, more, ?_, hserved⟩
    rw [h.split, hrest]
    simp

omit hrs in
theorem part_eq_nil (h : c.Place ok bytes part) (hb : bytes = []) : part = [] := by
  have hhead (pdu : Pdu) (l : Bytes) : pdu.head ++ l ≠ [] := by
    intro h0
    have hlen := congrArg List.length h0
    rw [Pdu.head, List.append_assoc, List.length_append, length_putU16] at hlen
    simp at hlen
  cases h with
  | between | header | fixed | extras2 => rfl
  | extras | auth | swallow => exact absurd hb (hhead _ _)
  | parked => exact absurd ((List.append_nil _).trans hb) (hhead _ _)
  | ending =>
    have hlen := congrArg List.length hb
    rw [length_putU16] at hlen
    cases hlen

omit hrs in
/-- With nothing in the socket and too little in the buffer, nothing is left to be served. -/
theorem servedAll_of_stopped (h : c.Position rs ok done rest es bytes part) (hok : ok)
    (hstop : c.Stopped) (hsock : c.socket = []) : ServedAll rs es ∧ c.log = es.flatten := by
  have hTrue : ok = True := eq_true hok
  subst hTrue
  obtain ⟨htaken, -, hnone⟩ := noneComplete_of_stopped h.place hstop
  have hstream := h.stream
  rw [unread, hsock, List.append_nil, ← htaken] at hstream
  cases rest with
  | cons r rest' =>
    rw [hstream, encodeAll_cons] at hnone
    exact absurd (List.prefix_append _ _) (hnone r)
  | nil =>
    have hbytes : bytes = [] := htaken ▸ (List.append_eq_nil_iff.mp hstream).1
    have hpart := part_eq_nil h.place hbytes
    have hlog := h.log
    rw [hpart, List.append_nil] at hlog
    have hsplit := h.split
    rw [List.append_nil] at hsplit
    exact ⟨hsplit ▸ h.served, hlog⟩

omit hrs in
theorem serves_start {b : β} {data socket : Bytes} (hlen : data.length ≤ 2048)
    (hstream : data ++ socket = encodeAll rs) : (start b data socket).Serves rs ok := by
  rw [start, if_pos (show _ ≤ ReceiveBuffer.new.getReadBufSize from hlen)]
  refine ⟨⟨[], rs, [], [], [], rfl, .nil, rfl, .between (.inl rfl), hstream⟩, fun _ => rfl, (fun hx => by cases hx),
    (fun _ hx => by cases hx), (fun hx => by cases hx), (fun hx => by cases hx)⟩

/-- After an error of the socket the peer is gone. -/
theorem dead_of_error (h : c.Serves rs ok) (hstep : c.Step B .handleError c') :
    c'.Dead ∧ c'.log = c.log := by
  obtain ⟨hperm, rfl⟩ := hstep
  obtain ⟨done, rest, es, bytes, part, hpos⟩ := h.position
  have hasync : c.state ≠ .asyncWait := fun hs => (position_not_over hrs hpos).1 (.inl hs)
  have heq : c.next B .handleError = { c with pending := none }.destroy B := if_pos hasync
  rw [heq]
  exact ⟨⟨hperm.1, rfl, hasync⟩, rfl⟩

end FramingLemmas

open FramingLemmas ConnectionLemmas

/-- Given up, after some of the requests. -/
def Gone (rs : List Request) (c : Conn β) : Prop := c.Dead ∧ ∃ k, Executed rs c.log k

/-- A connection serves the requests, or it is gone. -/
theorem serves_of_run {rs : List Request} (hrs : ∀ r ∈ rs, r.Framed) {ok : Prop} {b : β}
    {data socket : Bytes} {t : List (Conn β × Action)} {c : Conn β}
    (hstream : data ++ socket = encodeAll rs) (hrun : Run (Step B) (start b data socket) t c)
    (hprompt : ok → ∀ x ∈ t, ∀ n, x.2 = .turn n → x.1.Prompt) :
    c.Serves rs ok ∨ c.Gone rs := by
  have hsteps := hrun.restrict (P := fun c a => ok → ∀ n, a = .turn n → c.Prompt)
    fun x hx h => hprompt h x hx
  refine hsteps.invariant (I := fun c => c.Serves rs ok ∨ c.Gone rs) ?_ ?_
  · rintro c a c' (h | h) ⟨hp, hstep⟩
    · by_cases herr : a = .handleError
      · subst herr
        obtain ⟨done, rest, es, bytes, part, hpos⟩ := h.position
        obtain ⟨hdead, hlog⟩ := dead_of_error hrs h hstep
        exact .inr ⟨hdead, _, hlog ▸ executed_of_position hrs hpos⟩
      · exact .inl (serves_step hrs h hp hstep herr)
    · exact absurd h.1 (not_dead_of_permitted hstep.1)
  · by_cases hlen : data.length ≤ 2048
    · exact .inl (serves_start hlen hstream)
    · refine .inr ?_
      rw [start, if_neg (show ¬ _ ≤ ReceiveBuffer.new.getReadBufSize from hlen)]
      exact ⟨⟨rfl, rfl, (by rintro ⟨⟩)⟩, 0, [], [], .nil, rfl, .inl rfl⟩

/-- **Framing.** However the frames of the requests are cut into reads and whatever the
backend returns: the requests are served in order, each from its frame, with one response
each. As long as the socket reports no error the connection goes on, and if every shortcut
was prompt all requests are served when it waits for input that does not come. -/
theorem framing {rs : List Request} (hrs : ∀ r ∈ rs, r.Framed) {b : β}
    {data socket : Bytes} {t : List (Conn β × Action)} {c : Conn β}
    (hstream : data ++ socket = encodeAll rs) (hrun : Run (Step B) (start b data socket) t c) :
    (∃ k, Executed rs c.log k) ∧
    (data.length ≤ 2048 → (∀ x ∈ t, x.2 ≠ .handleError) → c.run = true ∨ c.pending ≠ none) ∧
    ((∀ x ∈ t, ∀ n, x.2 = .turn n → x.1.Prompt) → c.run = false → c.pending = some .read →
      c.socket = [] → ∃ es, ServedAll rs es ∧ c.log = es.flatten) := by
  refine ⟨?_, fun hlen hnoerr => ?_, fun hprompt hc hpend hsock => ?_⟩
  · rcases serves_of_run B hrs hstream hrun (fun h : False => h.elim) with h | h
    · obtain ⟨done, rest, es, bytes, part, hpos⟩ := h.position
      exact ⟨_, executed_of_position hrs hpos⟩
    · exact h.2
  · have hsteps := hrun.restrict (P := fun _ a => a ≠ .handleError) hnoerr
    have h : c.Serves rs False := by
      refine hsteps.invariant (I := fun c => c.Serves rs False) ?_ (serves_start hlen hstream)
      exact fun c a c' h hs => serves_step hrs h nofun hs.2 hs.1
    cases hr : c.run with
    | true => exact .inl rfl
    | false => exact .inr (h.busy hr)
  · rcases serves_of_run B hrs hstream hrun (fun _ : True => hprompt) with h | h
    · obtain ⟨done, rest, es, bytes, part, hpos⟩ := h.position
      exact ⟨es, servedAll_of_stopped hpos trivial (h.waits hc hpend) hsock⟩
    · cases h.1.2.1.symm.trans hpend

/-- `FLUSH`, then `HELLO` in a read of its own: both are served. -/
theorem framing_flush_hello :
    let c := [Action.turn 0, .turn 0, .turn 0, .turn 0, .handleWrite, .turn 0, .turn 2, .turn 0,
      .turn 0, .handleWrite, .turn 0, .turn 0].foldl (next smallBackend)
        (opened flushRequest.encode helloRequest.encode)
    c.run = false ∧ c.pending = some .read ∧ c.socket = [] ∧
      ∃ es, ServedAll [flushRequest, helloRequest] es ∧ c.log = es.flatten := by
  intro c
  have hok : Admitted (fun (c : Conn (CacheMgr × Nat)) a => c.Permitted a ∧ c.Prompt)
      (next smallBackend) (opened flushRequest.encode helloRequest.encode)
      [.turn 0, .turn 0, .turn 0, .turn 0, .handleWrite, .turn 0, .turn 2, .turn 0, .turn 0,
        .handleWrite, .turn 0, .turn 0] := by
    decide +kernel
  obtain ⟨t, ht, hprompt⟩ := hok.run_of_and
  have hrun : c.run = false := by decide +kernel
  have hpend : c.pending = some .read := by decide +kernel
  have hsock : c.socket = [] := by decide +kernel
  have hreach : Run (Step smallBackend) (opened flushRequest.encode helloRequest.encode) t c := ht
  have hrs : ∀ r ∈ [flushRequest, helloRequest], r.Framed := by
    intro r hr
    rcases List.mem_cons.mp hr with rfl | hr
    · exact ⟨by decide, by decide, by decide⟩
    · rw [List.mem_singleton.mp hr]
      exact ⟨by decide, by decide, by decide⟩
  clear_value c
  exact ⟨hrun, hpend, hsock,
    (framing smallBackend hrs rfl hreach).2.2 (fun x hx _ _ => hprompt x hx) hrun hpend hsock⟩

/-- `FLUSH` and `HELLO` in one read: with everything delivered and the connection waiting for
more, `HELLO` is not served. -/
theorem hello_not_served :
    let c := [Action.turn 0, .turn 0, .turn 0, .turn 0, .turn 0, .handleWrite, .turn 0].foldl
      (next smallBackend) (opened (encodeAll [flushRequest, helloRequest]) [])
    (∃ t, Run (Step smallBackend) (opened (encodeAll [flushRequest, helloRequest]) []) t c) ∧
      c.run = false ∧ c.pending = some .read ∧ c.socket = [] ∧
      ¬ ∃ es, ServedAll [flushRequest, helloRequest] es ∧ c.log = es.flatten := by
  intro c
  have hok : Admitted (fun (c : Conn (CacheMgr × Nat)) a => c.Permitted a) (next smallBackend)
      (opened (encodeAll [flushRequest, helloRequest]) [])
      [.turn 0, .turn 0, .turn 0, .turn 0, .turn 0, .handleWrite, .turn 0] := by
    decide +kernel
  have hlog : Event.queue .hello ∉ c.log := by decide +kernel
  refine ⟨hok.run, by decide +kernel, by decide +kernel, by decide +kernel, ?_⟩
  rintro ⟨es, hserved, heq⟩
  apply hlog
  rw [heq]
  obtain ⟨e, es', -, hrest, rfl⟩ := List.forall₂_cons_left_iff.mp hserved
  obtain ⟨e', es'', hhello, -, rfl⟩ := List.forall₂_cons_left_iff.mp hrest
  have hmem : Event.queue .hello ∈ e' := by
    cases hhello with
    | hello => exact List.mem_singleton_self _
    | call hk => cases hk
  exact List.mem_flatten.mpr ⟨e', by simp, hmem⟩

end Conn
end Xixi.PeerCache
