import Xixi.System
import Xixi.Peer.Place

/-!
# Whole connections

1. `Standing ok c`: the connection is over, or it stands at a place of the current request
   and has no operation under way while `process` runs.
2. `standing_of_run`: every state of a connection is standing, whatever the socket, the
   timer and the backend do. With `ok`, for the runs whose iterations all meet `Meets`.
3. `noneComplete_of_run`: in those runs `process` never returns for want of input while a
   complete request is waiting.
-/

namespace Xixi.PeerCache
open Lib

namespace Conn

variable {β : Type} (B : Backend β) (c : Conn β)

/-- The peer has been given up: no action is possible any more. -/
def Dead : Prop := c.run = false ∧ c.pending = none ∧ c.state ≠ .asyncWait

def Standing (ok : Prop) : Prop :=
  c.Dead ∨ (c.run = true → c.pending = none) ∧ ∃ bytes part, c.Place ok bytes part

namespace ConnectionLemmas
open PlaceLemmas

variable {B c} {ok : Prop}

theorem not_dead_of_permitted {a : Action} (h : c.Permitted a) : ¬ c.Dead := by
  rintro ⟨hrun, hpend, hstate⟩
  cases a with
  | turn n =>
    have hr : c.run = true := h
    rw [hrun] at hr
    cases hr
  | handleRead n => cases hpend.symm.trans h.2
  | handleWrite => cases hpend.symm.trans h.2
  | handleError => exact h.2 hpend
  | handleTimer w => exact hstate h.2.1

/-- With a response to send, `leave` sends it. -/
theorem leave_write (hp : c.pending = none) (hs : c.state ≠ .closed) (hw : c.writeBuf ≠ []) :
    c.leave B = { c with pending := some .write, writeBuf := [] } := by
  simp [leave, tryWrite, hp, hs, hw]

/-- With nothing to send, it reads. -/
theorem leave_read (hp : c.pending = none) (hs : c.state ≠ .closed) (ha : c.state ≠ .asyncWait)
    (hw : c.writeBuf = []) :
    c.leave B = { c with pending := some .read, readBuffer := c.readBuffer.handleProcessed } := by
  simp [leave, tryWrite, tryRead, hp, hs, ha, hw]

theorem leave_asyncWait (ha : c.state = .asyncWait) (hw : c.writeBuf = []) : c.leave B = c := by
  simp [leave, tryWrite, ha, hw]

theorem leave_closed (hr : c.run = false) (hp : c.pending = none) (hs : c.state = .closed) :
    (c.leave B).Dead := by
  simp [leave, destroy, Dead, hp, hs, hr]

theorem leave_standing {bytes : Bytes} {part : List Event} (hr : c.run = false)
    (hp : c.pending = none) (h : c.Place ok bytes part) : (c.leave B).Standing ok := by
  have hquiet {c' : Conn β} (hc' : c'.run = false) : c'.run = true → c'.pending = none := by
    intro h'
    rw [hc'] at h'
    cases h'
  by_cases hs : c.state = .closed
  · exact .inl (leave_closed hr hp hs)
  · refine .inr ?_
    by_cases hw : c.writeBuf = []
    · by_cases ha : c.state = .asyncWait
      · rw [leave_asyncWait ha hw]
        exact ⟨hquiet hr, bytes, part, h⟩
      · rw [leave_read hp hs ha hw]
        exact ⟨hquiet hr, bytes, part, Place.frame h (by rw [handleProcessed_data])⟩
    · rw [leave_write hp hs hw]
      exact ⟨hquiet hr, bytes, part, Place.frame h le_rfl⟩

theorem Moves.turned {bytes : Bytes} {part : List Event} {c' : Conn β}
    (h : c.Moves ok bytes part c') : c.Turned c' := by
  cases h with
  | goes _ _ h => exact h.turned
  | finishes _ _ _ h => exact h.turned

theorem Moves.place {bytes : Bytes} {part : List Event} {c' : Conn β}
    (h : c.Moves ok bytes part c') : ∃ bytes' part', c'.Place ok bytes' part' := by
  cases h with
  | goes _ _ h => exact ⟨_, _, h.place⟩
  | finishes _ _ _ h => exact ⟨_, _, .between h.between⟩

theorem tryWrite_standing {bytes : Bytes} {part : List Event} (hr : c.run = false)
    (h : c.Place ok bytes part) : c.tryWrite.2.Standing ok := by
  have hquiet : c.run = true → c.pending = none := by
    intro h'
    rw [hr] at h'
    cases h'
  rw [tryWrite]
  split
  · refine .inr ⟨fun h' => ?_, bytes, part, Place.frame h le_rfl⟩
    cases hr.symm.trans h'
  · exact .inr ⟨hquiet, bytes, part, h⟩

/-- Nothing that happens to a connection takes it out of a place. -/
theorem standing_step {a : Action} {c' : Conn β} (h : c.Standing ok)
    (hm : ok → ∀ n, a = .turn n → c.Meets) (hstep : c.Step B a c') : c'.Standing ok := by
  obtain ⟨hperm, rfl⟩ := hstep
  rcases h with hdead | ⟨hquiet, bytes, part, hplace⟩
  · exact absurd hdead (not_dead_of_permitted hperm)
  cases a with
  | turn n =>
    have hmoves := iterate_place (B := B) hplace (fun h => hm h n rfl) n
    obtain ⟨bytes', part', hplace'⟩ := Moves.place hmoves
    have hpend : (c.iterate B n).pending = none := (Moves.turned hmoves).pending.trans (hquiet hperm)
    show (c.turn B n).Standing ok
    rw [turn]
    cases hrun : (c.iterate B n).run with
    | true => exact .inr ⟨fun _ => hpend, bytes', part', hplace'⟩
    | false => exact leave_standing hrun hpend hplace'
  | handleRead n =>
    refine .inr ⟨fun _ => rfl, bytes, part, Place.frame hplace ?_⟩
    rw [List.length_append]
    exact Nat.le_add_right _ _
  | handleWrite => exact .inr ⟨fun _ => rfl, bytes, part, Place.frame hplace le_rfl⟩
  | handleError =>
    show (c.handleError B).Standing ok
    rw [handleError]
    split
    case isTrue hs => exact .inl ⟨hperm.1, rfl, hs⟩
    case isFalse hs => exact .inr ⟨fun _ => rfl, bytes, part, Place.frame hplace le_rfl⟩
  | handleTimer w =>
    show (c.handleTimer B w).Standing ok
    rw [handleTimer]
    rcases hcall : c.call B (.checkWatchAndClearCallback w.toNat) with ⟨_ | out, c₁⟩
    · have hc₁ : c₁.run = false := by
        have heq : c₁ = (c.call B (.checkWatchAndClearCallback w.toNat)).2 := by rw [hcall]
        rw [heq]
        exact hperm.1
      exact tryWrite_standing hc₁ (.between (.inr ⟨rfl, rfl⟩))
    · have hc₁ : c₁.run = false := by
        have heq : c₁ = (c.call B (.checkWatchAndClearCallback w.toNat)).2 := by rw [hcall]
        rw [heq]
        exact hperm.1
      exact tryWrite_standing hc₁ (.between (.inl rfl))

theorem start_standing (b : β) (data socket : Bytes) : (start b data socket).Standing ok := by
  rw [start]
  dsimp only
  split
  · exact .inr ⟨fun _ => rfl, [], [], .between (.inl rfl)⟩
  · exact .inl ⟨rfl, rfl, nofun⟩

end ConnectionLemmas

open ConnectionLemmas

theorem standing_of_run {ok : Prop} {b : β} {data socket : Bytes} {t : List (Conn β × Action)}
    {c : Conn β} (hrun : Run (Step B) (start b data socket) t c)
    (hm : ok → ∀ x ∈ t, ∀ n, x.2 = .turn n → x.1.Meets) : c.Standing ok := by
  have hstep := hrun.restrict (P := fun c a => ok → ∀ n, a = .turn n → c.Meets)
    fun x hx h => hm h x hx
  refine hstep.invariant (I := fun c => c.Standing ok) ?_ (start_standing b data socket)
  exact fun c a c' h hs => standing_step h hs.1 hs.2

/-! ## No complete request is left waiting -/

/-- No complete request among the bytes that have been consumed of the current one and the
bytes in the receive buffer. -/
def NoneComplete : Prop :=
  (c.state = .readHeader → c.readBuffer.data.length < headLength) ∧
    ∀ r : Request, ¬ r.encode <+: c.taken ++ c.readBuffer.data

namespace ConnectionLemmas

variable {B c}

theorem not_prefix_of_short {l : Bytes} (h : l.length < headLength) (r : Request) :
    ¬ r.encode <+: l := by
  intro hp
  have hle := hp.length_le
  rw [r.length_encode] at hle
  omega

/-- A request that starts like `choice` is one. -/
theorem choice_of_start {choice : Choice} {l rest : Bytes}
    (h : l <+: putU16 choice.code ++ rest) {r : Request} (hr : r.header <+: l) :
    r.pdu.choice = choice := by
  have hpre : putU16 r.pdu.choice.code <+: putU16 choice.code ++ rest := hr.trans h
  have heq : putU16 r.pdu.choice.code = putU16 choice.code :=
    (List.prefix_of_prefix_length_le hpre (List.prefix_append _ _) (by simp)).eq_of_length (by simp)
  have hcode : r.pdu.choice.code = choice.code := by
    have h2 := congrArg getU16 (congrArg (· ++ ([] : Bytes)) heq)
    rwa [getU16_putU16, getU16_putU16] at h2
  have hof := congrArg Choice.ofCode hcode
  rw [Choice.ofCode_code, Choice.ofCode_code] at hof
  exact Option.some.inj hof

theorem not_prefix_of_fixed {choice : Choice} {rest : Bytes}
    (h : rest.length < choice.fixedBodySize) (r : Request) :
    ¬ r.encode <+: putU16 choice.code ++ rest := by
  intro hp
  have hchoice := choice_of_start hp (List.prefix_append _ _)
  have hle := hp.length_le
  rw [r.length_encode, List.length_append, length_putU16, hchoice] at hle
  simp only [headLength] at hle
  omega

/-- A request that starts like `pdu` is one. -/
theorem pdu_of_start {pdu : Pdu} {rest : Bytes} {r : Request}
    (h : r.encode <+: pdu.head ++ rest) : r.pdu = pdu := by
  rw [Pdu.head, List.append_assoc] at h
  have hchoice := choice_of_start h (List.prefix_append _ _)
  obtain ⟨tail, htail⟩ := h
  have hheads : r.header = putU16 pdu.choice.code := by rw [Request.header, hchoice]
  rw [Request.encode, hheads, List.append_assoc, List.append_cancel_left_eq] at htail
  have hdec := congrArg (decodePdu pdu.choice.code) htail
  rw [← hchoice, List.append_assoc, Pdu.decodePdu_fixedBody, hchoice, Pdu.decodePdu_fixedBody] at hdec
  exact Option.some.inj hdec

theorem not_prefix_of_extras {pdu : Pdu} {rest : Bytes} (h : rest.length < pdu.extrasLength)
    (r : Request) : ¬ r.encode <+: pdu.head ++ rest := by
  intro hp
  have hpdu := pdu_of_start hp
  have hle := hp.length_le
  rw [r.length_encode, List.length_append, Pdu.head, List.length_append, length_putU16,
    Pdu.length_fixedBody, hpdu] at hle
  simp only [headLength] at hle
  omega

section Place

variable {ok : Prop} {bytes : Bytes} {part : List Event} (h : c.Place ok bytes part)
include h

theorem Place.at_header (hs : c.state = .readHeader) : bytes = [] ∧ c.taken = [] ∧
    (ok → c.nextDataLen ≤ headLength ∨ c.nextDataLen ≤ c.readBuffer.data.length) := by
  cases h with
  | header _ ht _ hf => exact ⟨rfl, ht, hf⟩
  | between h' | swallow _ h' | ending h' => simp [hs] at h'
  | fixed h' | extras h' | extras2 h' | auth h' | parked h' => cases hs.symm.trans h'

theorem Place.at_fixed (hs : c.state = .readBodyFixed) : ∃ choice : Choice,
    bytes = putU16 choice.code ∧ c.taken = bytes ∧ c.header = choice.code ∧
      c.nextDataLen = choice.fixedBodySize := by
  cases h with
  | fixed _ _ hh hl ht => exact ⟨_, rfl, ht, hh, hl⟩
  | between h' | swallow _ h' | ending h' => simp [hs] at h'
  | header h' | extras h' | extras2 h' | auth h' | parked h' => cases hs.symm.trans h'

theorem Place.at_extras (hs : c.state = .readBodyExtras) : ∃ pdu : Pdu,
    bytes = pdu.head ++ c.readItemBuf ∧ c.taken = bytes ∧
      c.readItemBuf.length + c.nextDataLen = pdu.extrasLength % 2 ^ 32 := by
  cases h with
  | extras _ _ _ hl ht => exact ⟨_, rfl, ht, hl⟩
  | between h' | swallow _ h' | ending h' => simp [hs] at h'
  | header h' | fixed h' | extras2 h' | auth h' | parked h' => cases hs.symm.trans h'

theorem Place.at_extras2 (hok : ok) (hs : c.state = .readBodyExtras2) : ∃ pdu : Pdu,
    bytes = pdu.head ∧ c.taken = bytes ∧ c.nextDataLen = pdu.extrasLength := by
  cases h with
  | extras2 _ _ _ hl ht => exact ⟨_, rfl, ht, hl⟩
  | auth _ _ _ hn => exact absurd hok hn
  | between h' | swallow _ h' | ending h' => simp [hs] at h'
  | header h' | fixed h' | extras h' | parked h' => cases hs.symm.trans h'

theorem Place.at_swallow (hs : c.state = .swallow) : ∃ (pdu : Pdu) (gone : Bytes),
    bytes = pdu.head ++ gone ∧ c.taken = bytes ∧
      gone.length + c.swallowSize = pdu.extrasLength % 2 ^ 32 := by
  cases h with
  | swallow _ _ _ hl ht => exact ⟨_, _, rfl, ht, hl⟩
  | between h' | ending h' => simp [hs] at h'
  | header h' | fixed h' | extras h' | extras2 h' | auth h' | parked h' => cases hs.symm.trans h'

end Place

/-- What is counted in 32 bits is not more than what is announced. -/
theorem lt_extrasLength {pdu : Pdu} {m k : Nat} (h : m + k = pdu.extrasLength % 2 ^ 32)
    (hk : k ≠ 0) : m < pdu.extrasLength := by
  have hle := Nat.mod_le pdu.extrasLength (2 ^ 32)
  omega

/-- Where `process` waits for input, what it has counts as consumed or buffered. -/
theorem noneComplete_of_stopped {bytes : Bytes} {part : List Event} (h : c.Place True bytes part)
    (hstop : c.Stopped) : c.taken = bytes ∧ c.NoneComplete := by
  cases hstop with
  | header hs hl =>
    obtain ⟨hb, ht, hf⟩ := Place.at_header h hs
    have hshort : c.readBuffer.data.length < headLength := by
      rcases hf trivial with hf | hf <;> omega
    refine ⟨ht.trans hb.symm, fun _ => hshort, ?_⟩
    rw [ht]
    exact not_prefix_of_short hshort
  | fixed hs hl =>
    obtain ⟨choice, hb, ht, -, hlen⟩ := Place.at_fixed h hs
    refine ⟨ht, (fun h => by cases hs.symm.trans h), ?_⟩
    rw [ht, hb]
    exact not_prefix_of_fixed (hlen ▸ hl)
  | extras hs hl hbuf =>
    obtain ⟨pdu, hb, ht, hlen⟩ := Place.at_extras h hs
    refine ⟨ht, (fun h => by cases hs.symm.trans h), ?_⟩
    rw [ht, hb, hbuf, List.append_nil]
    exact not_prefix_of_extras (lt_extrasLength hlen hl)
  | extras2 hs hl =>
    obtain ⟨pdu, hb, ht, hlen⟩ := Place.at_extras2 h trivial hs
    refine ⟨ht, (fun h => by cases hs.symm.trans h), ?_⟩
    rw [ht, hb]
    exact not_prefix_of_extras (hlen ▸ hl)
  | swallow hs hl hbuf =>
    obtain ⟨pdu, gone, hb, ht, hlen⟩ := Place.at_swallow h hs
    refine ⟨ht, (fun h => by cases hs.symm.trans h), ?_⟩
    rw [ht, hb, hbuf, List.append_nil]
    exact not_prefix_of_extras (lt_extrasLength hlen hl)

end ConnectionLemmas

/-- The states in which `process` waits for input. -/
def Reads : Prop :=
  c.state = .readHeader ∨ c.state = .readBodyFixed ∨ c.state = .readBodyExtras ∨
    c.state = .readBodyExtras2 ∨ c.state = .swallow

/-- When `process` returns for want of input, no complete request is waiting: in every run
whose iterations all meet `Meets`. -/
theorem noneComplete_of_run {b : β} {data socket : Bytes} {t : List (Conn β × Action)}
    {c : Conn β} (hrun : Run (Step B) (start b data socket) t c)
    (hmeets : ∀ x ∈ t, ∀ n, x.2 = .turn n → x.1.Meets) (hc : c.run = true) (hm : c.Meets)
    (hreads : c.Reads) {n : Nat} (hstop : (c.iterate B n).run = false) :
    (c.iterate B n).NoneComplete := by
  have hstanding := standing_of_run B hrun fun _ : True => hmeets
  rcases hstanding with hdead | ⟨-, bytes, part, hplace⟩
  · cases hc.symm.trans hdead.1
  have hmoves := iterate_place (B := B) hplace (fun _ => hm) n
  obtain ⟨bytes', part', hplace'⟩ := Moves.place hmoves
  rcases (Moves.turned hmoves).stops hc hstop with hs | ⟨hs, -⟩ | hs
  · exact (noneComplete_of_stopped hplace' hs).2
  · simp [Reads, hs] at hreads
  · rcases hs with hs | hs | hs <;> simp [Reads, hs] at hreads

instance : Decidable c.Prompt := inferInstanceAs (Decidable (_ → _))

instance : Decidable c.Meets := inferInstanceAs (Decidable (_ ∧ _))

/-! ## A complete request that waits -/

/-- A peer of the small manager. -/
def smallBackend : Backend (CacheMgr × Nat) :=
  cacheMgrBackend (.colliding .uint16) 7 (fun _ => .zeros) (fun s _ _ _ => ([], s)) fun _ s => s

/-- The connection that has been opened with these bytes, `socket` being on the way. -/
def opened (data socket : Bytes) : Conn (CacheMgr × Nat) :=
  start ((Sys.small .uint16).mgr, 0) data socket

/-- The requests of the examples have no extra data. -/
theorem no_extras : ([] : Bytes).length = 0 := rfl

def flushRequest : Request := ⟨.flush 7, [], no_extras⟩

def helloRequest : Request := ⟨.hello, [], no_extras⟩

/-- `FLUSH` with the first byte of `HELLO` behind it: the response to `FLUSH` is sent and the
header is awaited. -/
theorem noneComplete_flush :
    let c := [Action.turn 0, .turn 0, .turn 0, .turn 0, .handleWrite, .turn 0].foldl
      (next smallBackend) (opened (flushRequest.encode ++ [0]) [])
    c.run = true ∧ c.state = .readHeader ∧ (c.iterate smallBackend 0).run = false ∧
      (c.iterate smallBackend 0).NoneComplete := by
  intro c
  have hok : Admitted (fun (c : Conn (CacheMgr × Nat)) a => c.Permitted a ∧ c.Meets)
      (next smallBackend) (opened (flushRequest.encode ++ [0]) [])
      [.turn 0, .turn 0, .turn 0, .turn 0, .handleWrite, .turn 0] := by
    decide +kernel
  obtain ⟨t, ht, hmeets⟩ := hok.run_of_and
  have hrun : c.run = true := by decide +kernel
  have hstate : c.state = .readHeader := by decide +kernel
  have hstop : (c.iterate smallBackend 0).run = false := by decide +kernel
  have hm : c.Meets := by decide +kernel
  have hreach : Run (Step smallBackend) (opened (flushRequest.encode ++ [0]) []) t c := ht
  clear_value c
  exact ⟨hrun, hstate, hstop, noneComplete_of_run smallBackend hreach
    (fun x hx _ _ => hmeets x hx) hrun hm (.inl hstate) hstop⟩

/-- `FLUSH` and `HELLO` in one read: `next_data_len_` is still the length of the body of
`FLUSH` when the header of `HELLO` is looked for, and `HELLO` is left waiting. -/
theorem complete_request_waits :
    let c := [Action.turn 0, .turn 0, .turn 0, .turn 0].foldl (next smallBackend)
      (opened (flushRequest.encode ++ helloRequest.encode) [])
    (∃ t, Run (Step smallBackend) (opened (flushRequest.encode ++ helloRequest.encode) []) t c) ∧
      c.run = true ∧ c.Reads ∧ (c.iterate smallBackend 0).run = false ∧
      (c.iterate smallBackend 0).state = .readHeader ∧
      (c.iterate smallBackend 0).readBuffer.data = helloRequest.encode ∧
      ¬ (c.iterate smallBackend 0).NoneComplete := by
  intro c
  have hok : Admitted (fun (c : Conn (CacheMgr × Nat)) a => c.Permitted a) (next smallBackend)
      (opened (flushRequest.encode ++ helloRequest.encode) [])
      [.turn 0, .turn 0, .turn 0, .turn 0] := by
    decide +kernel
  have hdata : (c.iterate smallBackend 0).readBuffer.data = helloRequest.encode := by
    decide +kernel
  have hstate : (c.iterate smallBackend 0).state = .readHeader := by decide +kernel
  refine ⟨hok.run, by decide +kernel, .inl (by decide +kernel), by decide +kernel, hstate,
    hdata, fun h => ?_⟩
  have hshort := h.1 hstate
  rw [hdata] at hshort
  exact absurd hshort (by decide)

end Conn
end Xixi.PeerCache
