import Xixi.Http.Machine
import Xixi.Peer.Place

/-!
# Whole HTTP connections

1. `Transcript log consumed phase`: the log is a sequence of heads, each followed by the operation of
   its request, and by an answer of the timer where that request waits; `consumed` are the bytes of
   these requests, one after the other.
2. `transcript_of_run`: the log of every connection is one, and what it has consumed and what is
   still to be read are the stream, whatever the socket, the timer and the backend do.
3. `returns`: `process` returns, after a number of iterations that depends on the bytes that are
   there.
-/

namespace Xixi.Http
open Lib
open PeerCache (PeerState ReceiveBuffer Io)
open PeerCache.Conn.PlaceLemmas (handleProcessed_data take_append_drop_length)

/-- Between two requests, in the middle of one, or waiting for a watch. -/
inductive Phase
  | idle
  | reading
  | waiting
deriving DecidableEq, Repr

variable {β : Type}

/-- A head is looked for where the request before it ended; a request has one operation, and one
answer. -/
inductive Transcript : List (Event β) → Bytes → Phase → Prop
  | nil : Transcript [] [] .idle
  | head {log : List (Event β)} {consumed : Bytes} (h : Transcript log consumed .idle) :
      Transcript (log ++ [.head consumed.length]) consumed .reading
  | answered {log : List (Event β)} {consumed : Bytes} (x : Served β)
      (h : Transcript log consumed .reading) (hx : x.reply ≠ none) :
      Transcript (log ++ [.served x]) (consumed ++ x.bytes) .idle
  | parked {log : List (Event β)} {consumed : Bytes} (x : Served β)
      (h : Transcript log consumed .reading) (hx : x.reply = none) :
      Transcript (log ++ [.served x]) (consumed ++ x.bytes) .waiting
  | notified {log : List (Event β)} {consumed : Bytes} (x : Served β)
      (h : Transcript log consumed .waiting) (hx : x.reply ≠ none) :
      Transcript (log ++ [.notified x]) consumed .idle

namespace Conn

variable (B : Backend β) (s : Settings) (c : Conn β)

/-- What has not been consumed. -/
def unread : Bytes := c.readBuffer.data ++ c.socket

/-- The bytes of the request that is being read. -/
def part : Phase → Bytes
  | .reading => c.taken
  | .idle | .waiting => []

/-- The states of a phase. -/
def In : Phase → Prop
  | .reading => c.undefined = true ∨ c.state = .readBodyExtras
  | .waiting => c.undefined = false ∧ c.state = .asyncWait
  | .idle => c.undefined = false ∧ c.state ≠ .readBodyExtras ∧ c.state ≠ .asyncWait

/-- The connection stands in this phase of the stream. -/
structure At (stream consumed : Bytes) (phase : Phase) : Prop where
  transcript : Transcript c.log consumed phase
  stream : stream = consumed ++ (c.part phase ++ c.unread)
  position : c.position = (consumed ++ c.part phase).length
  place : c.In phase
  fresh : c.state = .readHeader → phase = .idle → c.taken = []
  next : c.nextState = .newCmd
  halted : c.undefined = true → c.run = false

namespace ConnectionLemmas

variable {B s c} {c' : Conn β} {stream consumed : Bytes} {phase : Phase}

theorem unread_consume (n : Nat) :
    (c.consume n).taken ++ (c.consume n).unread = c.taken ++ c.unread := by
  show (c.taken ++ c.readBuffer.data.take n) ++ (c.readBuffer.data.drop n ++ c.socket) = _
  rw [List.append_assoc, ← List.append_assoc (c.readBuffer.data.take n), List.take_append_drop]
  rfl

/-- The bytes move from the socket to the receive buffer. -/
theorem unread_fillBuffer (n : Nat) : (c.fillBuffer n).unread = c.unread := by
  unfold fillBuffer
  dsimp only
  split
  · show c.readBuffer.handleProcessed.data ++ c.socket = _
    rw [handleProcessed_data]
    rfl
  · show (c.readBuffer.handleProcessed.data ++ _) ++ _ = _
    rw [handleProcessed_data, List.append_assoc, ← take_append_drop_length]
    rfl

/-- The bytes move from the socket to the body. -/
theorem unread_fillBody (n : Nat) (hbuf : c.readBuffer.data = []) :
    (c.fillBody n).taken ++ (c.fillBody n).unread = c.taken ++ c.unread := by
  unfold fillBody
  dsimp only
  split
  · rfl
  · simp only [unread, hbuf, List.nil_append]
    rw [List.append_assoc, ← take_append_drop_length]

variable (c stream consumed) in
/-- A head has been taken, and its request is not over. -/
structure Reading : Prop where
  transcript : Transcript c.log consumed .reading
  stream : stream = consumed ++ (c.taken ++ c.unread)
  position : c.position = (consumed ++ c.taken).length
  next : c.nextState = .newCmd
  there : c.undefined = false

theorem Reading.stands (h : Reading c stream consumed) (hs : c.state = .readBodyExtras) :
    c.At stream consumed .reading :=
  ⟨h.transcript, h.stream, h.position, .inr hs, (fun _ hx => by cases hx), h.next,
    fun hu => by cases hu.symm.trans h.there⟩

/-- The handler has left the memory of the request. -/
theorem Reading.lost (h : Reading c stream consumed) :
    ({ c with undefined := true, run := false } : Conn β).At stream consumed .reading :=
  ⟨h.transcript, h.stream, h.position, .inl rfl, (fun _ hx => by cases hx), h.next, fun _ => rfl⟩

/-- The operation of the request. -/
theorem at_serve {classId : UInt8} {o : Operation} {p : Params} (h : Reading c stream consumed) :
    ∃ consumed' phase, (c.serve B s classId o p).At stream consumed' phase := by
  rw [serve]
  cases execute B s c.mgr p c.cacheItem classId o with
  | none => exact ⟨consumed, .reading, h.lost⟩
  | some d =>
    have hstream : stream = (consumed ++ c.taken) ++ ([] ++ c.unread) := by
      rw [h.stream, List.append_assoc]
      rfl
    have hposition : c.position = ((consumed ++ c.taken) ++ []).length := by
      rw [List.append_nil]
      exact h.position
    dsimp only
    cases hr : d.reply with
    | none =>
      refine ⟨consumed ++ c.taken, .waiting, .parked ⟨c.taken, _, o, p, none⟩ h.transcript rfl,
        hstream, hposition, ⟨h.there, rfl⟩, (fun hx => by cases hx), h.next, fun hu => ?_⟩
      cases hu.symm.trans h.there
    | some r =>
      refine ⟨consumed ++ c.taken, .idle, .answered ⟨c.taken, _, o, p, some r⟩ h.transcript ?_,
        hstream, hposition, ⟨h.there, by rintro ⟨⟩, by rintro ⟨⟩⟩, (fun hx => by cases hx), rfl,
        fun hu => ?_⟩
      · rintro ⟨⟩
      · cases hu.symm.trans h.there

/-- A head, from where the last request ended. -/
theorem reading_takeHead {n : Nat} (h : c.At stream consumed .idle) (hs : c.state = .readHeader)
    (hn : n ≤ c.readBuffer.data.length) : Reading (c.takeHead n) stream consumed := by
  have hfresh := h.fresh hs rfl
  have hposition : c.position = consumed.length := by
    rw [h.position]
    exact congrArg List.length (List.append_nil consumed)
  have htranscript := h.transcript.head
  rw [← hposition] at htranscript
  refine ⟨htranscript, ?_, ?_, h.next, h.place.1⟩
  · have hunread := unread_consume (c := c) n
    rw [hfresh] at hunread
    rw [h.stream]
    exact congrArg (consumed ++ ·) hunread.symm
  · show c.position + n = (consumed ++ (c.taken ++ c.readBuffer.data.take n)).length
    rw [hfresh, List.nil_append, List.length_append, List.length_take_of_le hn, hposition]

theorem at_processHead {classId : UInt8} {header : Bytes} (h : Reading c stream consumed) :
    ∃ consumed' phase, (c.processHead B s classId header).At stream consumed' phase := by
  rw [processHead]
  rcases processRequestHeader s c.params header with ⟨reason | _ | _, p⟩
  · exact at_serve h
  · exact ⟨consumed, .reading, h.transcript, h.stream, h.position, .inr rfl,
      (fun _ hx => by cases hx), h.next, fun hu => by cases hu.symm.trans h.there⟩
  · exact at_serve h

/-- Nothing has changed that the transcript tells. -/
structure Same (c c' : Conn β) : Prop where
  log : c'.log = c.log
  state : c'.state = c.state
  nextState : c'.nextState = c.nextState
  undefined : c'.undefined = c.undefined
  position : c'.position = c.position
  taken : c'.taken = c.taken
  unread : c'.unread = c.unread

theorem Same.at (hs : Same c c') (h : c.At stream consumed phase) (hrun : c'.undefined = false) :
    c'.At stream consumed phase where
  transcript := hs.log ▸ h.transcript
  stream := by
    have hpart : c'.part phase = c.part phase := by
      cases phase with
      | idle => rfl
      | reading => exact hs.taken
      | waiting => rfl
    rw [hpart, hs.unread]
    exact h.stream
  position := by
    have hpart : c'.part phase = c.part phase := by
      cases phase with
      | idle => rfl
      | reading => exact hs.taken
      | waiting => rfl
    rw [hpart, hs.position]
    exact h.position
  place := by
    have hplace := h.place
    cases phase with
    | idle => rwa [In, hs.state, hs.undefined]
    | reading => rwa [In, hs.state, hs.undefined]
    | waiting => rwa [In, hs.state, hs.undefined]
  fresh hx hp := by
    rw [hs.taken]
    exact h.fresh (hs.state ▸ hx) hp
  next := hs.nextState.trans h.next
  halted hu := by cases hu.symm.trans hrun

theorem same_fillBuffer (n : Nat) : Same c (c.fillBuffer n) := by
  have hunread := unread_fillBuffer (c := c) n
  unfold fillBuffer at hunread ⊢
  dsimp only at hunread ⊢
  split at hunread
  next hgot =>
    rw [if_pos hgot]
    exact ⟨rfl, rfl, rfl, rfl, rfl, rfl, hunread⟩
  next hgot =>
    rw [if_neg hgot]
    exact ⟨rfl, rfl, rfl, rfl, rfl, rfl, hunread⟩

theorem reading_copyToBody (h : Reading c stream consumed) :
    Reading c.copyToBody stream consumed := by
  have hlen : min c.readBuffer.data.length c.nextDataLen ≤ c.readBuffer.data.length :=
    Nat.min_le_left _ _
  have hunread := unread_consume (c := { c with
    postData := c.postData ++ c.readBuffer.data.take (min c.readBuffer.data.length c.nextDataLen)
    nextDataLen := c.nextDataLen - min c.readBuffer.data.length c.nextDataLen })
    (min c.readBuffer.data.length c.nextDataLen)
  refine ⟨h.transcript, ?_, ?_, h.next, h.there⟩
  · rw [h.stream]
    exact congrArg (consumed ++ ·) hunread.symm
  · show c.position + min c.readBuffer.data.length c.nextDataLen =
      (consumed ++ (c.taken ++ c.readBuffer.data.take _)).length
    rw [← List.append_assoc, List.length_append, ← h.position, List.length_take_of_le hlen]

theorem reading_fillBody (h : Reading c stream consumed) (hbuf : c.readBuffer.data = []) (n : Nat) :
    Reading (c.fillBody n) stream consumed ∧ (c.fillBody n).state = c.state := by
  have hunread := unread_fillBody (c := c) n hbuf
  unfold fillBody at hunread ⊢
  dsimp only at hunread ⊢
  split at hunread
  next hgot =>
    rw [if_pos hgot]
    exact ⟨⟨h.transcript, h.stream, h.position, h.next, h.there⟩, rfl⟩
  next hgot =>
    rw [if_neg hgot]
    refine ⟨⟨h.transcript, ?_, ?_, h.next, h.there⟩, rfl⟩
    · rw [h.stream]
      exact congrArg (consumed ++ ·) hunread.symm
    · show c.position + _ = (consumed ++ (c.taken ++ _)).length
      rw [← List.append_assoc, List.length_append, ← h.position]

/-- A response has been queued. -/
theorem at_processWrite (h : c.At stream consumed .idle) :
    c.processWrite.At stream consumed .idle := by
  have hnext : (if c.params.http.keepalive then c.nextState else .closing) = .newCmd ∨
      (if c.params.http.keepalive then c.nextState else .closing) = .closing := by
    split
    · exact .inl h.next
    · exact .inr rfl
  have hthere := h.place.1
  have hlive {P : Prop} (hu : c.undefined = true) : P := by cases hu.symm.trans hthere
  unfold processWrite
  dsimp only
  generalize (if c.params.http.keepalive = true then c.nextState else PeerState.closing) = st
    at hnext ⊢
  rcases hnext with rfl | rfl
  · split
    · split
      · exact ⟨h.transcript, h.stream, h.position, ⟨hthere, by rintro ⟨⟩, by rintro ⟨⟩⟩,
          fun _ _ => rfl, rfl, hlive⟩
      · exact ⟨h.transcript, h.stream, h.position, ⟨hthere, by rintro ⟨⟩, by rintro ⟨⟩⟩,
          (fun hx => by cases hx), rfl, hlive⟩
    · exact ⟨h.transcript, h.stream, h.position, ⟨hthere, by rintro ⟨⟩, by rintro ⟨⟩⟩,
        (fun hx => by cases hx), rfl, hlive⟩
  · rw [if_neg fun hx => by cases hx.1]
    exact ⟨h.transcript, h.stream, h.position, ⟨hthere, by rintro ⟨⟩, by rintro ⟨⟩⟩,
      (fun hx => by cases hx), rfl, hlive⟩

/-- One iteration. -/
theorem at_iterate (h : c.At stream consumed phase) (hrun : c.run = true) (n : Nat)
    (classId : UInt8) : ∃ consumed' phase', (c.iterate B s n classId).At stream consumed' phase' := by
  have hthere : c.undefined = false := by
    cases hu : c.undefined with
    | false => rfl
    | true => cases hrun.symm.trans (h.halted hu)
  have hlive {P : Prop} (hu : c.undefined = true) : P := by cases hu.symm.trans hthere
  -- the phase is that of the state
  have hidle (h1 : c.state ≠ .readBodyExtras) (h2 : c.state ≠ .asyncWait) : phase = .idle := by
    cases phase with
    | idle => rfl
    | reading => exact h.place.elim hlive fun hs => absurd hs h1
    | waiting => exact absurd h.place.2 h2
  have hstep : ∀ st, c.state = st →
      ∃ consumed' phase', (c.iterate B s n classId).At stream consumed' phase' := by
    intro st hst
    have hne {st' : PeerState} (hx : st ≠ st') : c.state ≠ st' := hst.trans_ne hx
    cases st with
    | newCmd =>
      obtain rfl := hidle (hne (by rintro ⟨⟩)) (hne (by rintro ⟨⟩))
      rw [iterate, hst]
      exact ⟨consumed, .idle, h.transcript, h.stream, h.position,
        ⟨hthere, by rintro ⟨⟩, by rintro ⟨⟩⟩, fun _ _ => rfl, h.next, hlive⟩
    | readHeader =>
      obtain rfl := hidle (hne (by rintro ⟨⟩)) (hne (by rintro ⟨⟩))
      rw [iterate, hst]
      dsimp only
      split
      next header behind hfind =>
        exact at_processHead (reading_takeHead h hst (length_le_of_cut hfind))
      next =>
        split
        · exact at_serve (reading_takeHead h hst le_rfl)
        · have hsame := same_fillBuffer (c := c) n
          exact ⟨consumed, .idle, hsame.at h (hsame.undefined.trans hthere)⟩
    | readBodyExtras =>
      obtain rfl : phase = .reading := by
        cases phase with
        | idle => exact absurd hst h.place.2.1
        | reading => rfl
        | waiting => cases hst.symm.trans h.place.2
      have hreading : Reading c stream consumed :=
        ⟨h.transcript, h.stream, h.position, h.next, hthere⟩
      rw [iterate, hst]
      dsimp only
      split
      · split
        · exact at_serve hreading
        · exact ⟨consumed, .reading, h.transcript, h.stream, h.position, .inl rfl,
            (fun _ hx => by cases hx), h.next, fun _ => rfl⟩
      next hlen =>
        split
        · exact ⟨consumed, .reading, (reading_copyToBody hreading).stands hst⟩
        next hbuf =>
          have hnil : c.readBuffer.data = [] :=
            List.eq_nil_of_length_eq_zero (Nat.eq_zero_of_not_pos hbuf)
          obtain ⟨hbody, hstate⟩ := reading_fillBody hreading hnil n
          exact ⟨consumed, .reading, hbody.stands (hstate.trans hst)⟩
    | write =>
      obtain rfl := hidle (hne (by rintro ⟨⟩)) (hne (by rintro ⟨⟩))
      have heq : c.iterate B s n classId = c.processWrite := by rw [iterate, hst]
      exact ⟨consumed, .idle, heq ▸ at_processWrite h⟩
    | asyncWait =>
      have heq : c.iterate B s n classId = { c with run := false } := by rw [iterate, hst]
      have hsame : Same c { c with run := false } := ⟨rfl, rfl, rfl, rfl, rfl, rfl, rfl⟩
      exact ⟨consumed, phase, heq ▸ hsame.at h hthere⟩
    | closing =>
      obtain rfl := hidle (hne (by rintro ⟨⟩)) (hne (by rintro ⟨⟩))
      rw [iterate, hst]
      exact ⟨consumed, .idle, h.transcript, h.stream, h.position,
        ⟨hthere, by rintro ⟨⟩, by rintro ⟨⟩⟩, (fun hx => by cases hx), h.next, hlive⟩
    | closed | readBodyFixed | readBodyExtras2 | swallow =>
      have heq : c.iterate B s n classId = { c with run := false } := by rw [iterate, hst]
      have hsame : Same c { c with run := false } := ⟨rfl, rfl, rfl, rfl, rfl, rfl, rfl⟩
      exact ⟨consumed, phase, heq ▸ hsame.at h hthere⟩
  exact hstep c.state rfl

theorem Same.refl (c : Conn β) : Same c c := ⟨rfl, rfl, rfl, rfl, rfl, rfl, rfl⟩

theorem Same.trans {c'' : Conn β} (h : Same c c') (h' : Same c' c'') : Same c c'' :=
  ⟨h'.log.trans h.log, h'.state.trans h.state, h'.nextState.trans h.nextState,
    h'.undefined.trans h.undefined, h'.position.trans h.position, h'.taken.trans h.taken,
    h'.unread.trans h.unread⟩

theorem same_tryWrite (c : Conn β) : Same c c.tryWrite.2 := by
  unfold tryWrite
  split
  · exact ⟨rfl, rfl, rfl, rfl, rfl, rfl, rfl⟩
  · exact .refl c

theorem same_tryRead (c : Conn β) : Same c c.tryRead := by
  unfold tryRead
  split
  · refine ⟨rfl, rfl, rfl, rfl, rfl, rfl, ?_⟩
    show c.readBuffer.handleProcessed.data ++ c.socket = _
    rw [handleProcessed_data]
    rfl
  · exact .refl c

theorem same_leave (c : Conn β) : Same c (c.leave B) := by
  have hout {c₁ : Conn β} (h : Same c c₁) :
      Same c (if c₁.pending = none ∧ c₁.state ≠ .asyncWait then c₁.destroy B else c₁) := by
    split
    · exact h.trans ⟨rfl, rfl, rfl, rfl, rfl, rfl, rfl⟩
    · exact h
  unfold leave
  dsimp only
  split
  · split
    · split
      · exact hout (same_tryWrite c)
      · exact hout ((same_tryWrite c).trans (same_tryRead _))
    · exact hout (.refl c)
  · exact hout (same_tryWrite c)

theorem same_handleRead (n : Nat) : Same c (c.handleRead n) := by
  refine ⟨rfl, rfl, rfl, rfl, rfl, rfl, ?_⟩
  show (c.readBuffer.data ++ c.socket.take _) ++ c.socket.drop _ = c.readBuffer.data ++ c.socket
  rw [List.append_assoc, ← take_append_drop_length]

theorem at_notify (h : c.At stream consumed .waiting) (w : Nat) :
    (c.notify B w).At stream consumed .idle := by
  obtain ⟨hthere, -⟩ := h.place
  have hreply (out : Option CheckOut) : some (timerReply out) ≠ none := by rintro ⟨⟩
  exact ⟨h.transcript.notified ⟨c.taken, _, .watch, c.params, some (timerReply _)⟩ (hreply _),
    h.stream, h.position, ⟨hthere, by rintro ⟨⟩, by rintro ⟨⟩⟩, (fun hx => by cases hx), rfl,
    fun hu => by cases hu.symm.trans hthere⟩

theorem at_step {a : Action} (h : c.At stream consumed phase) (hstep : c.Step B s a c') :
    ∃ consumed' phase', c'.At stream consumed' phase' := by
  obtain ⟨hperm, rfl⟩ := hstep
  cases a with
  | turn n classId =>
    obtain ⟨consumed', phase', hnext⟩ := at_iterate (B := B) (s := s) h hperm n classId
    show ∃ consumed' phase', (c.turn B s n classId).At stream consumed' phase'
    rw [turn]
    split
    next => exact ⟨consumed', phase', hnext⟩
    next hgoes =>
      have hsame := same_leave (B := B) (c.iterate B s n classId)
      have hthere : (c.iterate B s n classId).undefined = false :=
        Bool.eq_false_of_not_eq_true fun hu => hgoes (.inr hu)
      exact ⟨consumed', phase', hsame.at hnext (hsame.undefined.trans hthere)⟩
  | handleRead n => exact ⟨consumed, phase, (same_handleRead n).at h hperm.2.2⟩
  | handleWrite =>
    have hsame : Same c c.handleWrite := ⟨rfl, rfl, rfl, rfl, rfl, rfl, rfl⟩
    exact ⟨consumed, phase, hsame.at h hperm.2.2⟩
  | handleError =>
    have hsame : Same c (c.handleError B) := by
      unfold handleError
      dsimp only
      split
      · exact ⟨rfl, rfl, rfl, rfl, rfl, rfl, rfl⟩
      · exact ⟨rfl, rfl, rfl, rfl, rfl, rfl, rfl⟩
    exact ⟨consumed, phase, hsame.at h (hsame.undefined.trans hperm.2.2)⟩
  | handleTimer w =>
    obtain ⟨-, hst, -, hthere⟩ := hperm
    obtain rfl : phase = .waiting := by
      cases phase with
      | idle => exact absurd hst h.place.2.2
      | reading =>
        rcases h.place with hu | hs
        · cases hu.symm.trans hthere
        · cases hs.symm.trans hst
      | waiting => rfl
    have hnotified := at_notify (B := B) h w
    have hsame := same_tryWrite (c.notify B w)
    exact ⟨consumed, .idle, hsame.at hnotified (hsame.undefined.trans hthere)⟩

theorem at_start (b : β) (data socket : Bytes) :
    (start b data socket).At (start b data socket).unread [] .idle := by
  unfold start
  dsimp only
  split
  · exact ⟨.nil, rfl, rfl, ⟨rfl, by rintro ⟨⟩, by rintro ⟨⟩⟩, fun _ _ => rfl, rfl,
      fun hu => by cases hu⟩
  · exact ⟨.nil, rfl, rfl, ⟨rfl, by rintro ⟨⟩, by rintro ⟨⟩⟩, fun _ _ => rfl, rfl,
      fun hu => by cases hu⟩

theorem at_run {b : β} {data socket : Bytes} {t : List (Conn β × Action)}
    (hrun : Run (Step B s) (start b data socket) t c) :
    ∃ consumed phase, c.At (start b data socket).unread consumed phase := by
  refine hrun.invariant (I := fun c => ∃ consumed phase,
    c.At (start b data socket).unread consumed phase) ?_ ⟨[], .idle, at_start b data socket⟩
  rintro c a c' ⟨consumed, phase, h⟩ hstep
  exact at_step h hstep

end ConnectionLemmas

open ConnectionLemmas

variable {B s} in
/-- **Transcript.** However the stream is cut into reads, every byte of it that has been consumed
belongs to one request, the requests follow each other without a gap, and each has one operation and
one answer before the next head is looked for. -/
theorem transcript_of_run {b : β} {data socket : Bytes} {c : Conn β} {t : List (Conn β × Action)}
    (hrun : Run (Step B s) (start b data socket) t c) :
    ∃ consumed phase, c.At (start b data socket).unread consumed phase :=
  at_run hrun

/-- A request that is cut in its head. -/
theorem transcript_of_split :
    let as : List Action := List.replicate 2 (.turn 0 0) ++ [.handleRead 100] ++
      List.replicate 2 (.turn 0 0)
    let c := as.foldl (next smallBackend .small)
      (opened (ascii "GET /manager/get?k=a HTTP") (ascii "/1.1\r\n\r\n"))
    c.log.length = 2 ∧ ∃ consumed phase,
      c.At (ascii "GET /manager/get?k=a HTTP" ++ ascii "/1.1\r\n\r\n") consumed phase := by
  intro as c
  have hok : Admitted (fun (c : Conn (CacheMgr × Nat)) a => c.Permitted a)
      (next smallBackend .small)
      (opened (ascii "GET /manager/get?k=a HTTP") (ascii "/1.1\r\n\r\n")) as := by
    decide +kernel
  have hlog : c.log.length = 2 := by decide +kernel
  exact ⟨hlog, transcript_of_run (B := smallBackend) (s := .small) hok.run_trace⟩

/-! ## `process` returns -/

/-- How far a state is from the next one that consumes. -/
def rank : Nat :=
  match c.state with
  | .readBodyExtras => 2
  | .newCmd | .write => 1
  | .readHeader | .readBodyFixed | .readBodyExtras2 | .swallow | .asyncWait | .closing | .closed => 0

/-- A byte is worth eight steps in the receive buffer and sixteen in the socket. -/
def weight : Nat := 8 * (c.readBuffer.data.length + 2 * c.socket.length) + c.rank

/-- `process` from here on; in each iteration the socket has that many bytes ready, and the stack
holds that byte. Nothing happens any more after it has returned. -/
def turns : (offers : Nat → Nat × UInt8) → Nat → Conn β → Conn β
  | _, 0, c => c
  | offers, k + 1, c =>
    turns (fun i => offers (i + 1)) k
      (if c.run then c.turn B s (offers 0).1 (offers 0).2 else c)

namespace ConnectionLemmas

variable {B s c} {c' : Conn β}

/-- The operation reads and consumes nothing. -/
theorem serve_frame {classId : UInt8} {o : Operation} {p : Params}
    (hrun : (c.serve B s classId o p).run = true) :
    (c.serve B s classId o p).readBuffer = c.readBuffer ∧
      (c.serve B s classId o p).socket = c.socket ∧ (c.serve B s classId o p).rank ≤ 1 := by
  rw [serve] at hrun ⊢
  cases hexec : execute B s c.mgr p c.cacheItem classId o with
  | none =>
    rw [hexec] at hrun
    cases hrun
  | some d =>
    dsimp only
    cases d.reply with
    | none => exact ⟨rfl, rfl, Nat.zero_le 1⟩
    | some r => exact ⟨rfl, rfl, le_rfl⟩

theorem processHead_frame {classId : UInt8} {header : Bytes}
    (hrun : (c.processHead B s classId header).run = true) :
    (c.processHead B s classId header).readBuffer = c.readBuffer ∧
      (c.processHead B s classId header).socket = c.socket ∧
      (c.processHead B s classId header).rank ≤ 2 := by
  rw [processHead] at hrun ⊢
  rcases hhead : processRequestHeader s c.params header with ⟨reason | _ | _, p⟩ <;>
    rw [hhead] at hrun
  · obtain ⟨hb, hs, hr⟩ := serve_frame hrun
    exact ⟨hb, hs, hr.trans (Nat.le_succ 1)⟩
  · exact ⟨rfl, rfl, le_rfl⟩
  · obtain ⟨hb, hs, hr⟩ := serve_frame hrun
    exact ⟨hb, hs, hr.trans (Nat.le_succ 1)⟩

/-- What has been consumed weighs more than any change of state. -/
theorem weight_consumed {n : Nat} (hpos : 0 < n) (hn : n ≤ c.readBuffer.data.length)
    (hb : c'.readBuffer = c.readBuffer.advance n) (hs : c'.socket = c.socket) (hr : c'.rank ≤ 2) :
    c'.weight < c.weight := by
  have hdata : c'.readBuffer.data.length = c.readBuffer.data.length - n := by
    rw [hb, ReceiveBuffer.advance, List.length_drop]
  rw [weight, weight, hdata, hs]
  omega

theorem weight_fillBuffer {n : Nat} (hrun : (c.fillBuffer n).run = true) (hr : c.rank = 0) :
    (c.fillBuffer n).weight < c.weight := by
  unfold fillBuffer at hrun ⊢
  dsimp only at hrun ⊢
  split
  next hgot =>
    rw [if_pos hgot] at hrun
    cases hrun
  next hgot =>
    have hpos := Nat.pos_of_ne_zero hgot
    have hlen : (c.socket.take (min n c.readBuffer.handleProcessed.getReadBufSize)).length ≤
        c.socket.length := List.length_take_le' _ _
    rw [weight, weight]
    show 8 * ((c.readBuffer.handleProcessed.data ++ _).length + 2 * (c.socket.drop _).length) +
      c.rank < _
    rw [handleProcessed_data, List.length_append, List.length_drop, hr]
    omega

theorem weight_fillBody {n : Nat} (hrun : (c.fillBody n).run = true) :
    (c.fillBody n).weight < c.weight := by
  unfold fillBody at hrun ⊢
  dsimp only at hrun ⊢
  split
  next hgot =>
    rw [if_pos hgot] at hrun
    cases hrun
  next hgot =>
    have hpos := Nat.pos_of_ne_zero hgot
    have hlen : (c.socket.take (min n c.nextDataLen)).length ≤ c.socket.length :=
      List.length_take_le' _ _
    rw [weight, weight]
    show 8 * (c.readBuffer.data.length + 2 * (c.socket.drop _).length) + c.rank < _
    rw [List.length_drop]
    omega

theorem processWrite_frame (hrun : c.processWrite.run = true) :
    c.processWrite.readBuffer = c.readBuffer ∧ c.processWrite.socket = c.socket ∧
      c.processWrite.rank = 0 := by
  unfold processWrite at hrun ⊢
  dsimp only at hrun ⊢
  generalize (if c.params.http.keepalive = true then c.nextState else PeerState.closing) = st
    at hrun ⊢
  split
  next hnew =>
    rw [if_pos hnew] at hrun
    split
    next => exact ⟨rfl, rfl, rfl⟩
    next hmore =>
      rw [if_neg hmore] at hrun
      cases hrun
  next hnew =>
    rw [if_neg hnew] at hrun
    cases hrun

/-- Every iteration that does not end the loop lowers the weight. -/
theorem weight_iterate {n : Nat} {classId : UInt8} (hrun : (c.iterate B s n classId).run = true) :
    (c.iterate B s n classId).weight < c.weight := by
  have hstep : ∀ st, c.state = st → (c.iterate B s n classId).weight < c.weight := by
    intro st hst
    have hrank : c.rank = rank { c with state := st } := by rw [rank, hst]; rfl
    cases st with
    | newCmd =>
      rw [iterate, hst] at hrun ⊢
      rw [weight, weight, hrank]
      exact Nat.lt_succ_self _
    | readHeader =>
      rw [iterate, hst] at hrun ⊢
      dsimp only at hrun ⊢
      cases hfind : memfind c.readBuffer.data (crlf ++ crlf) with
      | some found =>
        rw [hfind] at hrun
        have hle := length_le_of_cut hfind
        obtain ⟨hb, hs, hr⟩ := processHead_frame hrun
        exact weight_consumed (Nat.succ_pos _) hle hb hs hr
      | none =>
        rw [hfind] at hrun
        dsimp only at hrun ⊢
        split
        next hlong =>
          rw [if_pos hlong] at hrun
          obtain ⟨hb, hs, hr⟩ := serve_frame hrun
          exact weight_consumed (Nat.lt_of_lt_of_le (by decide) hlong) le_rfl hb hs
            (hr.trans (Nat.le_succ 1))
        next hlong =>
          rw [if_neg hlong] at hrun
          exact weight_fillBuffer hrun hrank
    | readBodyExtras =>
      rw [iterate, hst] at hrun ⊢
      dsimp only at hrun ⊢
      split
      next hlen =>
        rw [if_pos hlen] at hrun
        cases hpost : processPost s c.params c.postData with
        | none =>
          rw [hpost] at hrun
          cases hrun
        | some r =>
          rw [hpost] at hrun
          obtain ⟨hb, hs, hr⟩ := serve_frame hrun
          dsimp only
          rw [weight, weight, hb, hs, hrank]
          exact Nat.add_lt_add_left (Nat.lt_of_le_of_lt hr (Nat.lt_succ_self 1)) _
      next hlen =>
        rw [if_neg hlen] at hrun
        split
        next hbuf =>
          refine weight_consumed (n := min c.readBuffer.data.length c.nextDataLen)
            (Nat.lt_min.mpr ⟨hbuf, Nat.pos_of_ne_zero hlen⟩) (Nat.min_le_left _ _) rfl rfl ?_
          have hsame : c.copyToBody.rank = c.rank := rfl
          rw [hsame, hrank]
          exact le_rfl
        next hbuf =>
          rw [if_neg hbuf] at hrun
          exact weight_fillBody hrun
    | write =>
      have heq : c.iterate B s n classId = c.processWrite := by rw [iterate, hst]
      rw [heq] at hrun ⊢
      obtain ⟨hb, hs, hr⟩ := processWrite_frame hrun
      rw [weight, weight, hb, hs, hr, hrank]
      exact Nat.lt_succ_self _
    | asyncWait | closing | closed | readBodyFixed | readBodyExtras2 | swallow =>
      rw [iterate, hst] at hrun
      cases hrun
  exact hstep c.state rfl

theorem run_leave (c : Conn β) : (c.leave B).run = c.run := by
  have hwrite : c.tryWrite.2.run = c.run := by
    unfold tryWrite
    split <;> rfl
  have hread (c : Conn β) : c.tryRead.run = c.run := by
    unfold tryRead
    split <;> rfl
  have hout {c₁ : Conn β} (h : c₁.run = c.run) :
      (if c₁.pending = none ∧ c₁.state ≠ .asyncWait then c₁.destroy B else c₁).run = c.run := by
    split
    · exact h
    · exact h
  unfold leave
  dsimp only
  split
  · split
    · split
      · exact hout hwrite
      · exact hout ((hread _).trans hwrite)
    · exact hout rfl
  · exact hout hwrite

theorem weight_turn {n : Nat} {classId : UInt8} (hrun : (c.turn B s n classId).run = true) :
    (c.turn B s n classId).weight < c.weight := by
  rw [turn] at hrun ⊢
  split
  next hgoes =>
    rw [if_pos hgoes] at hrun
    exact weight_iterate hrun
  next hgoes =>
    rw [if_neg hgoes, run_leave] at hrun
    exact absurd (.inl hrun) hgoes

theorem turns_of_stopped (h : c.run = false) (offers : Nat → Nat × UInt8) (k : Nat) :
    c.turns B s offers k = c := by
  induction k generalizing offers with
  | zero => rfl
  | succ k ih =>
    rw [turns, h]
    exact ih _

end ConnectionLemmas

variable {B s c} in
/-- **Termination.** However many bytes each read returns, `process` returns after at most `weight`
further iterations. -/
theorem returns (offers : Nat → Nat × UInt8) {k : Nat} (hk : c.weight < k) :
    (c.turns B s offers k).run = false := by
  induction k generalizing c offers with
  | zero => cases hk
  | succ k ih =>
    rw [turns]
    cases hrun : c.run with
    | false =>
      rw [if_neg Bool.false_ne_true, turns_of_stopped hrun]
      exact hrun
    | true =>
      rw [if_pos rfl]
      cases hnext : (c.turn B s (offers 0).1 (offers 0).2).run with
      | false =>
        rw [turns_of_stopped hnext]
        exact hnext
      | true =>
        have hless := weight_turn hnext
        exact ih _ (Nat.lt_of_lt_of_le hless (Nat.le_of_lt_succ hk))

/-- Half a head: one iteration for it, and one that reads nothing. -/
theorem returns_on_half : ((opened (ascii "GET /") []).turns smallBackend .small
    (fun _ => (0, 0)) 42).run = false :=
  returns (fun _ => (0, 0)) (by decide +kernel)

end Conn
end Xixi.Http
