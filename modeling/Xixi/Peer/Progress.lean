import Xixi.Peer.Framing

/-!
# Progress

1. `returns_iff`: `process` returns, unless it comes to an `AUTH` of no bytes.
2. `fits_of_run`: a read always has room.
3. `progresses_iff`: a request whose frame is there is consumed, neither more nor less, and
   answered, and the next header is looked for; unless it is `AUTH`, its length does not fit
   into 32 bits, or `next_data_len_` is stale and larger than all that is there.
-/

namespace Xixi.PeerCache
open Lib

/-- The bytes are inside the buffer, and it has its least size. -/
def ReceiveBuffer.Fits (b : ReceiveBuffer) : Prop := b.offset + b.data.length ≤ b.size ∧ 2048 ≤ b.size

namespace Conn

variable {β : Type} (B : Backend β) (c : Conn β)

/-! ## `process` returns -/

/-- How far a state is from the next one that consumes. -/
def rank : Nat :=
  (match c.state with
    | .readBodyExtras | .readBodyExtras2 | .swallow => 2
    | .newCmd => 1
    | .write => if c.nextState = .swallow then 4 else 1
    | .readHeader | .readBodyFixed | .asyncWait | .closing | .closed => 0) +
  if c.run then 0 else 1

/-- What every iteration lowers: a byte is worth eight steps in the receive buffer and
sixteen in the socket. -/
def weight : Nat := 8 * (c.readBuffer.data.length + 2 * c.socket.length) + c.rank

/-- `AUTH` with nothing to authenticate. -/
def Spins : Prop := c.run = true ∧ c.state = .readBodyExtras2 ∧ c.readPdu = some (.auth 0)

/-- What an iteration does to the receive buffer and the socket. -/
inductive Takes (c : Conn β) (n : Nat) (c' : Conn β) : Prop
  | keeps (m : Nat) (hb : c'.readBuffer = c.readBuffer.advance m) (hs : c'.socket = c.socket)
      (hr : c'.run = c.run) (hm : m ≤ c.readBuffer.data.length)
      (hlt : 0 < m ∨ c'.rank < c.rank ∨ c.Spins)
  | fills (h : c' = c.fillBuffer n)
  | fillsItem (h : c' = c.fillItem n) (hl : c.nextDataLen ≠ 0)
  | stops (hb : c'.readBuffer = c.readBuffer) (hs : c'.socket = c.socket) (hr : c'.run = false)
      (hc : c.state = .write ∨ c.Over)

/-- Nothing is read or consumed. -/
structure Keeps (c c' : Conn β) : Prop where
  buffer : c'.readBuffer = c.readBuffer
  socket : c'.socket = c.socket
  run : c'.run = c.run

namespace ProgressLemmas
open PlaceLemmas ConnectionLemmas

variable {B c} {ok : Prop} {bytes : Bytes} {part : List Event}

theorem rank_le : c.rank ≤ 5 := by
  rw [rank]
  split <;> split_ifs <;> decide

theorem answers_keeps {ks : List Call} {c' : Conn β} (h : c.Answers ks c') : c.Keeps c' := by
  obtain ⟨mgr, item, items, r, rfl⟩ := h
  exact ⟨rfl, rfl, rfl⟩

theorem processPduFixed_keeps (pdu : Pdu) : c.Keeps (c.processPduFixed B pdu) := by
  cases pdu with
  | get | getTouch | getBase | updateFlags | updateExpiration | delete | delta | auth | hello =>
    exact ⟨rfl, rfl, rfl⟩
  | flush => exact ⟨rfl, rfl, rfl⟩
  | stats => exact ⟨rfl, rfl, rfl⟩
  | createWatch => exact ⟨rfl, rfl, rfl⟩
  | checkWatch g w t x a =>
    rcases processPduFixed_checkWatch B c g w t x a with h | h
    · exact answers_keeps h
    · rw [h]
      exact ⟨rfl, rfl, rfl⟩
  | update op id g fl x w kl dl =>
    rcases processPduFixed_update B c op id g fl x w kl dl with ⟨mgr, it, h⟩ | ⟨mgr, reason, -, h⟩ <;>
      rw [h] <;> exact ⟨rfl, rfl, rfl⟩

theorem processHeader_keeps (data : Bytes) : c.Keeps (c.processHeader data) := by
  cases hof : Choice.ofCode (getU16 data) with
  | none =>
    rw [processHeader_none hof]
    exact ⟨rfl, rfl, rfl⟩
  | some choice =>
    by_cases hhello : choice = .helloReq
    · subst hhello
      rw [processHeader_hello hof]
      exact ⟨rfl, rfl, rfl⟩
    · rw [processHeader_some hof hhello]
      exact ⟨rfl, rfl, rfl⟩

/-! ### One state after the other -/

theorem takes_header (hs : c.state = .readHeader)
    (hl : headLength ≤ c.nextDataLen ∨ headLength ≤ c.readBuffer.data.length) (n : Nat) :
    c.Takes n (c.iterate B n) := by
  rw [iterate, hs]
  dsimp only
  by_cases hlen : c.nextDataLen ≤ c.readBuffer.data.length
  · have htwo : headLength ≤ c.readBuffer.data.length := hl.elim (fun h => h.trans hlen) id
    have hkeeps := processHeader_keeps (c := c) c.readBuffer.data
    rw [if_pos hlen]
    exact .keeps headLength (congrArg (·.advance headLength) hkeeps.buffer) hkeeps.socket
      hkeeps.run htwo (.inl (by decide))
  · rw [if_neg hlen]
    exact .fills rfl

theorem fixedBodySize_pos {choice : Choice} (h : choice ≠ .helloReq) : 0 < choice.fixedBodySize := by
  cases choice <;> first | decide | exact absurd rfl h

theorem takes_fixed {choice : Choice} (hs : c.state = .readBodyFixed)
    (hne : choice ≠ .helloReq) (hh : c.header = choice.code)
    (hl : c.nextDataLen = choice.fixedBodySize) (n : Nat) : c.Takes n (c.iterate B n) := by
  rw [iterate, hs]
  dsimp only
  by_cases hlen : c.nextDataLen ≤ c.readBuffer.data.length
  · have hkeeps := processPduFixed_keeps (B := B) (decodeFixed c.readBuffer.data choice)
      (c := { c.consume c.nextDataLen with
        readPdu := some (decodeFixed c.readBuffer.data choice) })
    have hpos : 0 < c.nextDataLen := hl ▸ fixedBodySize_pos hne
    rw [if_pos hlen, hh, decodePdu, Choice.ofCode_code, Option.map_some]
    exact .keeps c.nextDataLen hkeeps.buffer hkeeps.socket hkeeps.run hlen (.inl hpos)
  · rw [if_neg hlen]
    exact .fills rfl

theorem takes_extras {op : UInt8} {id : UInt64} {g fl x w : UInt32} {kl : UInt16}
    {dl : UInt32} {it : Ptr} (hs : c.state = .readBodyExtras)
    (hp : c.readPdu = some (.update op id g fl x w kl dl)) (hi : c.cacheItem = some it) (n : Nat) :
    c.Takes n (c.iterate B n) := by
  rw [iterate, hs]
  dsimp only
  by_cases hzero : c.nextDataLen = 0
  · obtain ⟨mgr, item, items, r, heq⟩ := processPduExtras_update B c op id g fl x w kl dl hi
    rw [if_pos hzero, hp, heq]
    refine .keeps 0 rfl rfl rfl (Nat.zero_le _) (.inr (.inl ?_))
    simp only [rank, answered, hs]
    exact Nat.add_lt_add_right (by simp) _
  · rw [if_neg hzero]
    by_cases hbuf : 0 < c.readBuffer.data.length
    · rw [if_pos hbuf]
      exact .keeps _ rfl rfl rfl (min_le_left _ _) (.inl (by omega))
    · rw [if_neg hbuf]
      exact .fillsItem rfl hzero

theorem takes_extras2 {pdu : Pdu} (hs : c.state = .readBodyExtras2)
    (hp : c.readPdu = some pdu) (hk : pdu.keyed = true) (hl : c.nextDataLen = pdu.extrasLength)
    (n : Nat) : c.Takes n (c.iterate B n) := by
  rw [iterate, hs]
  dsimp only
  by_cases hlen : c.nextDataLen ≤ c.readBuffer.data.length
  · obtain ⟨k, c', -, hans, heq⟩ := processPduExtras2_keyed B c hk (hl ▸ hlen)
    obtain ⟨mgr, item, items, r, rfl⟩ := hans
    rw [if_pos hlen, hp, heq]
    exact .keeps pdu.extrasLength rfl rfl rfl (hl ▸ hlen)
      (.inr (.inl (by simp [rank, answered, consume, hs])))
  · rw [if_neg hlen]
    exact .fills rfl

theorem takes_auth {k : UInt32} (hr : c.run = true) (hs : c.state = .readBodyExtras2)
    (hp : c.readPdu = some (.auth k)) (hl : c.nextDataLen = k.toNat) (n : Nat) :
    c.Takes n (c.iterate B n) := by
  rw [iterate, hs]
  dsimp only
  by_cases hlen : c.nextDataLen ≤ c.readBuffer.data.length
  · have hle : k.toNat ≤ c.readBuffer.data.length := hl ▸ hlen
    rw [if_pos hlen, hp, processPduExtras2_auth B c hle]
    refine .keeps k.toNat rfl rfl rfl hle ?_
    by_cases hk : k = 0
    · exact .inr (.inr ⟨hr, hs, hk ▸ hp⟩)
    · exact .inl (Nat.pos_of_ne_zero fun h => hk (UInt32.toNat_inj.mp h))
  · rw [if_neg hlen]
    exact .fills rfl

theorem takes_swallow (hs : c.state = .swallow) (n : Nat) : c.Takes n (c.iterate B n) := by
  rw [iterate, hs]
  dsimp only
  by_cases hzero : c.swallowSize = 0
  · rw [if_pos hzero]
    exact .keeps 0 rfl rfl rfl (Nat.zero_le _) (.inr (.inl (by simp [rank, hs])))
  · rw [if_neg hzero]
    by_cases hbuf : 0 < c.readBuffer.data.length
    · rw [if_pos hbuf]
      exact .keeps _ rfl rfl rfl (min_le_left _ _) (.inl (by omega))
    · rw [if_neg hbuf]
      exact .fills rfl

theorem takes_write (hs : c.state = .write) (n : Nat) : c.Takes n (c.iterate B n) := by
  rw [iterate, hs]
  dsimp only
  by_cases hn : c.nextState = .newCmd
  · rcases processWrite_newCmd hn with ⟨-, -, heq⟩ | ⟨-, heq⟩ <;> rw [heq]
    · exact .keeps 0 rfl rfl rfl (Nat.zero_le _) (.inr (.inl (by simp [rank, hs, hn])))
    · exact .stops rfl rfl rfl (.inl hs)
  · rw [processWrite_other hn]
    exact .stops rfl rfl rfl (.inl hs)

theorem iterate_takes (h : c.Place ok bytes part) (hrun : c.run = true) (n : Nat) :
    c.Takes n (c.iterate B n) := by
  cases h with
  | between hs =>
    rcases hs with hs | ⟨hs, -⟩
    · rw [iterate, hs]
      refine .keeps 0 rfl rfl rfl (Nat.zero_le _) (.inr (.inl ?_))
      simp only [rank, resetForNewCmd, hs]
      exact Nat.add_lt_add_right (by decide) _
    · exact takes_write hs n
  | header hs _ hl => exact takes_header hs hl n
  | fixed hs hne hh hl => exact takes_fixed hs hne hh hl n
  | extras hs hp hi => exact takes_extras hs hp hi n
  | extras2 hs hp hk hl => exact takes_extras2 hs hp hk hl n
  | auth hs hp hl => exact takes_auth hrun hs hp hl n
  | swallow _ hs =>
    rcases hs with hs | ⟨hs, -⟩
    · exact takes_swallow hs n
    · exact takes_write hs n
  | parked hs =>
    rw [iterate, hs]
    exact .stops rfl rfl rfl (.inr (.inl hs))
  | ending hs =>
    rcases hs with hs | hs | ⟨hs, -⟩
    · rw [iterate, hs]
      exact .stops rfl rfl rfl (.inr (.inr (.inl hs)))
    · rw [iterate, hs]
      exact .stops rfl rfl rfl (.inr (.inr (.inr hs)))
    · exact takes_write hs n

/-- Every iteration that does not end the loop lowers the weight, but for an empty `AUTH`. -/
theorem weight_lt {c' : Conn β} {n : Nat} (h : c.Takes n c') (hspin : ¬ c.Spins)
    (hr : c'.run = true) : c'.weight < c.weight := by
  have hrank := rank_le (c := c')
  cases h with
  | keeps m hb hs hr' hm hlt =>
    have hdata : c'.readBuffer.data.length = c.readBuffer.data.length - m := by
      rw [hb, ReceiveBuffer.advance, List.length_drop]
    rw [weight, weight, hdata, hs]
    rcases hlt with hlt | hlt | hlt
    · omega
    · omega
    · exact absurd hlt hspin
  | fills h =>
    obtain ⟨b, s, r, got, heq, hb, hs, hgot⟩ := fillBuffer_eq c n
    subst h
    rw [heq] at hr hrank ⊢
    rcases hgot with ⟨-, hr'⟩ | ⟨hne, -⟩
    · cases hr'.symm.trans hr
    · have hpos : 0 < got.length := List.length_pos_iff.mpr hne
      simp only [weight, hb, hs, List.length_append] at hrank ⊢
      omega
  | fillsItem h =>
    subst h
    rcases fillItem_eq c n with heq | ⟨got, s, heq, hsock, hgot, -⟩ <;> rw [heq] at hr hrank ⊢
    · cases hr
    · have hpos : 0 < got.length := List.length_pos_iff.mpr hgot
      simp only [weight, hsock, List.length_append] at hrank ⊢
      omega
  | stops _ _ hr' => cases hr'.symm.trans hr

end ProgressLemmas

/-- `process` from here on, the socket offering `offers 0`, `offers 1`, … bytes; nothing
happens any more after it has returned. -/
def turns : (offers : Nat → Nat) → Nat → Conn β → Conn β
  | _, 0, c => c
  | offers, k + 1, c =>
    turns (fun i => offers (i + 1)) k (if c.run then c.turn B (offers 0) else c)

namespace ProgressLemmas
open PlaceLemmas ConnectionLemmas

variable {B c}

theorem leave_run : (c.leave B).run = c.run := by
  simp only [leave, tryWrite, tryRead, destroy]
  split_ifs <;> rfl

theorem turns_add (offers : Nat → Nat) (j k : Nat) :
    c.turns B offers (j + k) = (c.turns B offers j).turns B (fun i => offers (i + j)) k := by
  induction j generalizing c offers with
  | zero =>
    rw [Nat.zero_add]
    rfl
  | succ j ih =>
    rw [Nat.succ_add]
    exact ih _

theorem standing_turns (h : c.Standing False) (offers : Nat → Nat) (k : Nat) :
    (c.turns B offers k).Standing False := by
  induction k generalizing c offers with
  | zero => exact h
  | succ k ih =>
    rw [turns]
    refine ih ?_ _
    split
    case isTrue hr => exact standing_step (a := .turn (offers 0)) h nofun ⟨hr, rfl⟩
    case isFalse => exact h

theorem turns_of_stopped (h : c.run = false) (offers : Nat → Nat) (k : Nat) :
    c.turns B offers k = c := by
  induction k generalizing offers with
  | zero => rfl
  | succ k ih =>
    rw [turns, h]
    exact ih _

/-- An empty `AUTH` is looked at again and again. -/
theorem spins_turn (h : c.Spins) (hl : c.nextDataLen = 0) (n : Nat) :
    (c.turn B n).Spins ∧ (c.turn B n).nextDataLen = 0 := by
  obtain ⟨hr, hs, hp⟩ := h
  have hit : c.iterate B n = (c.call B (.login [])).2.consume 0 := by
    rw [iterate, hs]
    dsimp only
    rw [if_pos (hl ▸ Nat.zero_le _), hp, processPduExtras2_auth B c (Nat.zero_le _)]
    rfl
  have hrun : (c.iterate B n).run = true := by
    rw [hit]
    exact hr
  have hturn : c.turn B n = (c.call B (.login [])).2.consume 0 := by
    rw [turn, if_pos hrun, hit]
  rw [hturn]
  exact ⟨⟨hr, hs, hp⟩, hl⟩

theorem spins_turns (h : c.Spins) (hl : c.nextDataLen = 0) (offers : Nat → Nat) (k : Nat) :
    (c.turns B offers k).Spins := by
  induction k generalizing c offers with
  | zero => exact h
  | succ k ih =>
    obtain ⟨hspin, hlen⟩ := spins_turn (B := B) h hl (offers 0)
    rw [turns, if_pos h.1]
    exact ih hspin hlen _

theorem nextDataLen_of_spins {ok : Prop} {bytes : Bytes} {part : List Event}
    (h : c.Place ok bytes part) (hspin : c.Spins) : c.nextDataLen = 0 := by
  obtain ⟨-, hs, hp⟩ := hspin
  cases h with
  | auth _ hp' hl =>
    have hk := Option.some.inj (hp'.symm.trans hp)
    rw [hl, Pdu.auth.inj hk]
    rfl
  | extras2 _ hp' hk =>
    have hpdu := Option.some.inj (hp'.symm.trans hp)
    rw [hpdu] at hk
    cases hk
  | between h' | swallow _ h' | ending h' => simp [hs] at h'
  | header h' | fixed h' | extras h' | parked h' => cases hs.symm.trans h'

/-- The weight bounds the number of iterations. -/
theorem returns_of_not_spins {w : Nat} (hw : c.weight < w) (h : c.Standing False)
    (offers : Nat → Nat) (hspin : ∀ k, ¬ (c.turns B offers k).Spins) :
    ∃ k, (c.turns B offers k).run = false := by
  induction w generalizing c offers with
  | zero => exact absurd hw (Nat.not_lt_zero _)
  | succ w ih =>
    cases hr : c.run with
    | false => exact ⟨0, hr⟩
    | true =>
      have hnext (k : Nat) : c.turns B offers (k + 1) =
          (c.turn B (offers 0)).turns B (fun i => offers (i + 1)) k := by
        rw [turns, if_pos hr]
      have hstand : (c.turn B (offers 0)).Standing False :=
        standing_step (a := .turn (offers 0)) h nofun ⟨hr, rfl⟩
      cases hrun : (c.iterate B (offers 0)).run with
      | false =>
        refine ⟨1, ?_⟩
        rw [hnext]
        show (c.turn B (offers 0)).run = false
        rw [turn, hrun, if_neg Bool.false_ne_true, leave_run, hrun]
      | true =>
        rcases h with hdead | ⟨-, bytes, part, hplace⟩
        · cases hr.symm.trans hdead.1
        have hlt := weight_lt (iterate_takes (B := B) hplace hr (offers 0)) (hspin 0) hrun
        have hturn : c.turn B (offers 0) = c.iterate B (offers 0) := by rw [turn, if_pos hrun]
        obtain ⟨k, hk⟩ := ih (c := c.turn B (offers 0)) (by rw [hturn]; omega) hstand _
          fun k => hnext k ▸ hspin (k + 1)
        exact ⟨k + 1, by rw [hnext]; exact hk⟩

end ProgressLemmas

open ProgressLemmas ConnectionLemmas

/-- In every run and whatever the socket offers, `process` returns, unless it comes to an
`AUTH` of no bytes; then it does not. -/
theorem returns_iff {b : β} {data socket : Bytes} {t : List (Conn β × Action)} {c : Conn β}
    (hrun : Run (Step B) (start b data socket) t c) (offers : Nat → Nat) :
    (∃ k, (c.turns B offers k).run = false) ↔ ∀ k, ¬ (c.turns B offers k).Spins := by
  have hstand : c.Standing False := standing_of_run B hrun nofun
  constructor
  · rintro ⟨k, hk⟩ j hspin
    rcases Nat.le_total j k with hjk | hkj
    · -- the loop does not leave the empty `AUTH`
      obtain ⟨i, rfl⟩ := Nat.exists_eq_add_of_le hjk
      have hlen : (c.turns B offers j).nextDataLen = 0 := by
        rcases standing_turns (B := B) hstand offers j with hdead | ⟨-, bytes, part, hplace⟩
        · cases hspin.1.symm.trans hdead.1
        · exact nextDataLen_of_spins hplace hspin
      have hlater := spins_turns (B := B) hspin hlen (fun m => offers (m + j)) i
      rw [← turns_add] at hlater
      cases hlater.1.symm.trans hk
    · obtain ⟨i, rfl⟩ := Nat.exists_eq_add_of_le hkj
      rw [turns_add, turns_of_stopped hk] at hspin
      cases hspin.1.symm.trans hk
  · exact returns_of_not_spins (Nat.lt_succ_self _) hstand offers

/-! ## There is room to read -/

namespace ProgressLemmas
open PlaceLemmas ConnectionLemmas

variable {B c} {ok : Prop} {bytes : Bytes} {part : List Event}

theorem fits_advance {b : ReceiveBuffer} (h : b.Fits) {m : Nat} (hm : m ≤ b.data.length) :
    (b.advance m).Fits := by
  obtain ⟨hle, hsize⟩ := h
  refine ⟨?_, hsize⟩
  simp only [ReceiveBuffer.advance, List.length_drop]
  omega

/-- `handle_processed` makes room. -/
theorem fits_handleProcessed {b : ReceiveBuffer} (h : b.Fits) :
    b.handleProcessed.Fits ∧ 0 < b.handleProcessed.getReadBufSize := by
  obtain ⟨hle, hsize⟩ := h
  rw [ReceiveBuffer.handleProcessed]
  by_cases hroom : ({ b with offset := 0 } : ReceiveBuffer).getReadBufSize < 2048
  all_goals
    simp only [hroom, if_true, if_false]
    simp only [ReceiveBuffer.getReadBufSize] at hroom
    split_ifs <;> simp only [ReceiveBuffer.Fits, ReceiveBuffer.getReadBufSize] <;> omega

/-- A read gets at most what the room allows. -/
theorem fits_append {b : ReceiveBuffer} (h : b.Fits) {got : Bytes}
    (hgot : got.length ≤ b.getReadBufSize) : { b with data := b.data ++ got }.Fits := by
  obtain ⟨hle, hsize⟩ := h
  refine ⟨?_, hsize⟩
  simp only [ReceiveBuffer.getReadBufSize, List.length_append] at hgot ⊢
  omega

theorem length_take_le {l : Bytes} {n m : Nat} : (l.take (min n m)).length ≤ m := by
  rw [List.length_take]
  omega

theorem fits_takes {n : Nat} {c' : Conn β} (h : c.Takes n c') (hf : c.readBuffer.Fits) :
    c'.readBuffer.Fits := by
  cases h with
  | keeps m hb _ _ hm =>
    rw [hb]
    exact fits_advance hf hm
  | fills h =>
    rw [h, fillBuffer]
    split
    · exact (fits_handleProcessed hf).1
    · exact fits_append (fits_handleProcessed hf).1 length_take_le
  | fillsItem h =>
    rw [h, fillItem]
    split <;> exact hf
  | stops hb =>
    rw [hb]
    exact hf

theorem fits_leave (hf : c.readBuffer.Fits) : (c.leave B).readBuffer.Fits := by
  have hcases : (c.leave B).readBuffer = c.readBuffer ∨
      (c.leave B).readBuffer = c.readBuffer.handleProcessed := by
    simp only [leave, tryWrite, tryRead, destroy]
    split_ifs <;> simp
  rcases hcases with h | h <;> rw [h]
  · exact hf
  · exact (fits_handleProcessed hf).1

theorem fits_step {a : Action} {c' : Conn β} (h : c.Standing False) (hf : c.readBuffer.Fits)
    (hstep : c.Step B a c') : c'.readBuffer.Fits := by
  obtain ⟨hperm, rfl⟩ := hstep
  rcases h with hdead | ⟨-, bytes, part, hplace⟩
  · exact absurd hdead (not_dead_of_permitted hperm)
  cases a with
  | turn n =>
    have hit := fits_takes (iterate_takes (B := B) hplace hperm n) hf
    show (c.turn B n).readBuffer.Fits
    rw [turn]
    split
    · exact hit
    · exact fits_leave hit
  | handleRead n => exact fits_append hf length_take_le
  | handleWrite => exact hf
  | handleError =>
    show (c.handleError B).readBuffer.Fits
    rw [handleError]
    split <;> exact hf
  | handleTimer w =>
    have hwrite (c : Conn β) : c.tryWrite.2.readBuffer = c.readBuffer := by
      rw [tryWrite]
      split <;> rfl
    have hbuf : (c.handleTimer B w).readBuffer = c.readBuffer := by
      rw [handleTimer]
      rcases hcall : c.call B (.checkWatchAndClearCallback w.toNat) with ⟨_ | out, c₁⟩ <;>
        have hc₁ : c.readBuffer = c₁.readBuffer :=
          congrArg (fun p => (Prod.snd p).readBuffer) hcall
      · exact (hwrite _).trans hc₁.symm
      · exact (hwrite _).trans hc₁.symm
    show (c.handleTimer B w).readBuffer.Fits
    rw [hbuf]
    exact hf

theorem fits_start (b : β) (data socket : Bytes) : (start b data socket).readBuffer.Fits := by
  rw [start]
  dsimp only
  split
  case isTrue h => exact ⟨by simpa [ReceiveBuffer.new, ReceiveBuffer.getReadBufSize] using h, le_rfl⟩
  case isFalse h => exact ⟨Nat.zero_le _, le_rfl⟩

end ProgressLemmas

open ProgressLemmas ConnectionLemmas in
theorem fits_of_run {b : β} {data socket : Bytes} {t : List (Conn β × Action)} {c : Conn β}
    (hrun : Run (Step B) (start b data socket) t c) : c.readBuffer.Fits := by
  refine (hrun.invariant (I := fun c => c.Standing False ∧ c.readBuffer.Fits) ?_
    ⟨start_standing b data socket, fits_start b data socket⟩).2
  exact fun c a c' h hs => ⟨standing_step h.1 nofun hs, fits_step h.1 h.2 hs⟩

/-! ## A request whose frame is there -/

/-- Inside the frame of a request. -/
def InFrame : Prop :=
  c.state = .readHeader ∨ c.state = .readBodyFixed ∨ c.state = .readBodyExtras ∨
    c.state = .readBodyExtras2 ∨ c.state = .swallow ∨ c.state = .write ∧ c.nextState = .swallow

/-- The request is done with, and the next one is due. -/
def Between : Prop := c.state = .newCmd ∨ c.state = .write ∧ c.nextState = .newCmd

/-- The machine goes on: an iteration, or the completion of the operation under way. -/
def drive (n : Nat) : Conn β :=
  if c.run then c.turn B n
  else match c.pending with
    | some .read => c.handleRead n
    | some .write => c.handleWrite
    | none => c

/-- The machine driven on, the socket having `offers 0`, `offers 1`, … bytes ready. -/
def drives : (offers : Nat → Nat) → Nat → Conn β → Conn β
  | _, 0, c => c
  | offers, k + 1, c => drives (fun i => offers (i + 1)) k (c.drive B (offers 0))

/-- `k` steps take the machine out of the frame. -/
def LeavesAt (offers : Nat → Nat) (k : Nat) : Prop :=
  (∀ j, j < k → (c.drives B offers j).InFrame) ∧ ¬ (c.drives B offers k).InFrame

/-- The request `r` is consumed to its last byte and no further, and it is answered, or it
is a `CHECK_WATCH` and waits. -/
def Progresses (r : Request) (rest : Bytes) (offers : Nat → Nat) : Prop :=
  ∃ k, c.LeavesAt B offers k ∧ (c.drives B offers k).unread = rest ∧
    (r.pdu.choice = .checkWatchReq ∧ (c.drives B offers k).state = .asyncWait ∨
      (c.drives B offers k).Between ∧
        ∃ es, (c.drives B offers k).log = c.log ++ es ∧ Served r.pdu r.extras es)

/-- On the way through the frame at the start of `stream`; `pre` happened before. -/
structure OnWay (stream : Bytes) (pre : List Event) (c : Conn β) : Prop where
  inFrame : c.InFrame
  place : ∃ bytes part, c.Place False bytes part ∧ bytes ++ c.unread = stream ∧ c.log = pre ++ part
  quiet : c.run = true → c.pending = none
  wrote : c.state = .write → c.run = true ∧ c.writeBuf ≠ []
  fits : c.readBuffer.Fits
  header : c.state = .readHeader → c.nextDataLen ≤ stream.length

/-- The frame of `r` is behind the machine; the length of the extras is counted in 32 bits. -/
inductive Exits (r : Request) (stream : Bytes) (pre : List Event) (c : Conn β) : Prop
  | served (extras : Bytes) (es : List Event) (hs : c.Between)
      (hstream : r.pdu.head ++ (extras ++ c.unread) = stream)
      (hlen : extras.length = r.pdu.extrasLength % 2 ^ 32) (hlog : c.log = pre ++ es)
      (hserved : Served r.pdu extras es)
  | parked (hs : c.state = .asyncWait) (hc : r.pdu.choice = .checkWatchReq)
      (hstream : r.pdu.head ++ c.unread = stream)

namespace ProgressLemmas
open PlaceLemmas ConnectionLemmas

variable {B c} {stream : Bytes} {pre : List Event} {n : Nat} {c' : Conn β}

theorem length_unread : c.unread.length = c.readBuffer.data.length + c.socket.length :=
  List.length_append

theorem unread_fillBuffer : (c.fillBuffer n).unread = c.unread := by
  obtain ⟨b, s, r, got, heq, hb, hs, -⟩ := fillBuffer_eq c n
  rw [heq, unread, unread, hs]
  simp only [hb, List.append_assoc]

/-- No iteration adds to what is to be consumed. -/
theorem unread_takes (h : c.Takes n c') : c'.unread.length ≤ c.unread.length := by
  cases h with
  | keeps m hb hs =>
    rw [length_unread, length_unread, hb, hs, ReceiveBuffer.advance, List.length_drop]
    omega
  | fills h => rw [h, unread_fillBuffer]
  | fillsItem h =>
    rw [h]
    rcases fillItem_eq c n with heq | ⟨got, s, heq, hsock, -⟩ <;> rw [heq]
    · exact le_rfl
    · simp only [length_unread, hsock, List.length_append]
      omega
  | stops hb hs => rw [unread, unread, hb, hs]

/-- An iteration on a header that consumes nothing still waits for it. -/
theorem header_takes (h : c.Takes n c') (hs : c.state = .readHeader)
    (hlen : c.unread.length ≤ c'.unread.length) :
    c'.state = .readHeader ∧ c'.nextDataLen ≤ c.nextDataLen := by
  cases h with
  | keeps m hb hsock hr hm hlt =>
    rw [length_unread, length_unread, hb, hsock, ReceiveBuffer.advance, List.length_drop] at hlen
    rcases hlt with hlt | hlt | ⟨-, hlt, -⟩
    · omega
    · simp only [rank, hs, hr] at hlt
      omega
    · cases hs.symm.trans hlt
  | fills h =>
    obtain ⟨b, s, r, got, heq, -⟩ := fillBuffer_eq c n
    rw [h, heq]
    exact ⟨hs, le_rfl⟩
  | fillsItem h =>
    rcases fillItem_eq c n with heq | ⟨got, s, heq, -⟩ <;> rw [h, heq]
    · exact ⟨hs, le_rfl⟩
    · exact ⟨hs, Nat.sub_le _ _⟩
  | stops _ _ _ hc => simp [Over, hs] at hc

theorem bytes_ne_nil {ok : Prop} {bytes : Bytes} {part : List Event} (h : c.Place ok bytes part)
    (hf : c.InFrame) (hs : c.state ≠ .readHeader) : 0 < bytes.length := by
  cases h with
  | between h' =>
    rcases h' with h' | ⟨h', hn⟩
    · simp [InFrame, h'] at hf
    · simp [InFrame, h', hn] at hf
  | header h' => exact absurd h' hs
  | fixed => simp
  | extras | extras2 | auth | swallow | parked => simp [Pdu.head]
  | ending => simp

/-- While nothing of a request has been consumed, its header is waited for. -/
theorem goes_header {bytes : Bytes} {part part' : List Event} (hf : c.InFrame)
    (h : c.Place False bytes part) (hg : c.Goes False bytes part c' [] part') (ht : c.Takes n c') :
    c.state = .readHeader ∧ c'.state = .readHeader ∧ c'.nextDataLen ≤ c.nextDataLen := by
  have hlen := congrArg List.length hg.stream
  rw [List.length_append, List.length_append, List.length_nil] at hlen
  by_cases hs : c.state = .readHeader
  · exact ⟨hs, header_takes ht hs (by omega)⟩
  · have hpos := bytes_ne_nil h hf hs
    have hle := unread_takes ht
    omega

theorem code_of_stream {code : UInt16} {r : Request} {rest rest' : Bytes}
    (h : putU16 code ++ rest' = r.encode ++ rest) : code = r.pdu.choice.code := by
  have hcode := congrArg getU16 h
  rwa [Request.encode, Request.header, List.append_assoc, getU16_putU16, getU16_putU16] at hcode

theorem pdu_of_stream {pdu : Pdu} {r : Request} {rest rest' : Bytes}
    (h : pdu.head ++ rest' = r.encode ++ rest) : r.pdu = pdu := by
  have hpre : r.encode <+: pdu.head ++ rest' := h ▸ List.prefix_append _ _
  exact pdu_of_start hpre

/-- The request goes on: the machine stays on its way, or it waits for the watch. -/
theorem onWay_goes {r : Request} {rest : Bytes} {bytes bytes' : Bytes} {part part' : List Event}
    (h : c.OnWay (r.encode ++ rest) pre) (hr : c.run = true) (hplace : c.Place False bytes part)
    (hstream : bytes ++ c.unread = r.encode ++ rest) (hlog : c.log = pre ++ part)
    (hg : c.Goes False bytes part c' bytes' part') (ht : c.Takes n c') (hr' : c'.run = true) :
    c'.OnWay (r.encode ++ rest) pre ∨ c'.Exits r (r.encode ++ rest) pre := by
  have hstream' : bytes' ++ c'.unread = r.encode ++ rest := hg.stream.trans hstream
  have hway (hf : c'.InFrame) (hh : c'.state = .readHeader → c'.nextDataLen ≤ (r.encode ++ rest).length) :
      c'.OnWay (r.encode ++ rest) pre :=
    ⟨hf, ⟨bytes', part', hg.place, hstream', hg.log pre hlog⟩,
      fun _ => hg.turned.pending.trans (h.quiet hr), fun hw => ⟨hr', hg.turned.queued hw⟩,
      fits_takes ht h.fits, hh⟩
  have hplace' := hg.place
  cases hplace' with
  | between hs =>
    obtain ⟨-, hs', -⟩ := goes_header h.inFrame hplace hg ht
    simp [hs'] at hs
  | header hs =>
    obtain ⟨hs₀, -, hle⟩ := goes_header h.inFrame hplace hg ht
    exact .inl (hway (.inl hs) fun _ => hle.trans (h.header hs₀))
  | fixed hs => exact .inl (hway (.inr (.inl hs)) fun h' => by cases hs.symm.trans h')
  | extras hs => exact .inl (hway (.inr (.inr (.inl hs))) fun h' => by cases hs.symm.trans h')
  | extras2 hs | auth hs =>
    exact .inl (hway (.inr (.inr (.inr (.inl hs)))) fun h' => by cases hs.symm.trans h')
  | swallow _ hs =>
    exact .inl (hway (.inr (.inr (.inr (.inr hs)))) fun h' => by simp [h'] at hs)
  | parked hs =>
    have hpdu := pdu_of_stream hstream'
    exact .inr (.parked hs (by rw [hpdu]; rfl) (hpdu ▸ hstream'))
  | ending hs hu =>
    rw [code_of_stream hstream', Choice.ofCode_code] at hu
    cases hu

/-- One iteration inside the frame that does not end the loop. -/
theorem onWay_iterate {r : Request} {rest : Bytes} (h : c.OnWay (r.encode ++ rest) pre)
    (hr : c.run = true) (hr' : (c.iterate B n).run = true) :
    (c.iterate B n).OnWay (r.encode ++ rest) pre ∨
      (c.iterate B n).Exits r (r.encode ++ rest) pre := by
  obtain ⟨bytes, part, hplace, hstream, hlog⟩ := h.place
  have ht := iterate_takes (B := B) hplace hr n
  cases iterate_place (B := B) hplace nofun n with
  | goes bytes' part' hg => exact onWay_goes h hr hplace hstream hlog hg ht hr'
  | finishes pdu extras es hf =>
    have hstream' := hf.stream.trans hstream
    have hpdu := pdu_of_stream hstream'
    subst hpdu
    exact .inr (.served extras es hf.between hstream' hf.length (hf.log pre hlog) hf.served)

/-- With the whole frame in the receive buffer no state waits for input, unless it is
`AUTH`. -/
theorem not_stopped {r : Request} {rest bytes : Bytes} {part : List Event}
    (hplace : c.Place False bytes part) (hstream : bytes ++ c.readBuffer.data = r.encode ++ rest)
    (hheader : c.state = .readHeader → c.nextDataLen ≤ (r.encode ++ rest).length)
    (hauth : r.pdu.choice ≠ .authReq) : ¬ c.Stopped := by
  have hpre : r.encode <+: bytes ++ c.readBuffer.data := hstream ▸ List.prefix_append _ _
  intro hstop
  cases hstop with
  | header hs hl =>
    obtain ⟨hb, -⟩ := Place.at_header hplace hs
    have hle := hheader hs
    rw [← hstream, hb, List.nil_append] at hle
    omega
  | fixed hs hl =>
    obtain ⟨choice, hb, -, -, hlen⟩ := Place.at_fixed hplace hs
    rw [hb] at hpre
    exact not_prefix_of_fixed (hlen ▸ hl) r hpre
  | extras hs hl hbuf =>
    obtain ⟨pdu, hb, -, hlen⟩ := Place.at_extras hplace hs
    rw [hb, hbuf, List.append_nil] at hpre
    exact not_prefix_of_extras (lt_extrasLength hlen hl) r hpre
  | extras2 hs hl =>
    cases hplace with
    | extras2 _ _ _ hlen => exact not_prefix_of_extras (hlen ▸ hl) r hpre
    | auth =>
      rw [List.append_assoc] at hpre
      exact hauth (by rw [pdu_of_start hpre]; rfl)
    | between h' | swallow _ h' | ending h' => simp [hs] at h'
    | header h' | fixed h' | extras h' | parked h' => cases hs.symm.trans h'
  | swallow hs hl hbuf =>
    obtain ⟨pdu, gone, hb, -, hlen⟩ := Place.at_swallow hplace hs
    rw [hb, hbuf, List.append_nil] at hpre
    exact not_prefix_of_extras (lt_extrasLength hlen hl) r hpre

theorem socket_of_fillBuffer (hf : c.readBuffer.Fits) (hn : 0 < n) (hr : c.run = true)
    (h : (c.fillBuffer n).run = false) : c.socket = [] := by
  have hroom := (fits_handleProcessed hf).2
  rw [fillBuffer] at h
  split at h
  case isTrue hgot =>
    rw [List.length_take] at hgot
    exact List.length_eq_zero_iff.mp (by omega)
  case isFalse => cases hr.symm.trans h

theorem socket_of_fillItem (hl : c.nextDataLen ≠ 0) (hn : 0 < n) (hr : c.run = true)
    (h : (c.fillItem n).run = false) : c.socket = [] := by
  rw [fillItem] at h
  split at h
  case isTrue hgot =>
    rw [List.length_take] at hgot
    exact List.length_eq_zero_iff.mp (by omega)
  case isFalse => cases hr.symm.trans h

/-- `fillBuffer` and `fillItem` change nothing that `Stopped` depends on when they get
nothing. -/
theorem stopped_takes (ht : c.Takes n c') (hstop : c'.Stopped) (hr : c.run = true)
    (hr' : c'.run = false) (hn : 0 < n) (hf : c.readBuffer.Fits) (hs : c.state ≠ .write)
    (ho : ¬ c.Over) : c.Stopped ∧ c.socket = [] := by
  cases ht with
  | keeps m hb hs' hrun => cases (hr.symm.trans hrun.symm).trans hr'
  | fills h =>
    subst h
    refine ⟨?_, socket_of_fillBuffer hf hn hr hr'⟩
    obtain ⟨b, s, r, got, heq, hb, hs', hgot⟩ := fillBuffer_eq c n
    rw [heq] at hstop hr'
    have hdata : b.data = c.readBuffer.data := by
      rcases hgot with ⟨hnil, -⟩ | ⟨-, hrun⟩
      · rw [hb, hnil, List.append_nil]
      · cases (hr.symm.trans hrun.symm).trans hr'
    cases hstop with
    | header h hl => exact .header h (hdata ▸ hl)
    | fixed h hl => exact .fixed h (hdata ▸ hl)
    | extras h hl hbuf => exact .extras h hl (hdata ▸ hbuf)
    | extras2 h hl => exact .extras2 h (hdata ▸ hl)
    | swallow h hl hbuf => exact .swallow h hl (hdata ▸ hbuf)
  | fillsItem h hl =>
    subst h
    refine ⟨?_, socket_of_fillItem hl hn hr hr'⟩
    rcases fillItem_eq c n with heq | ⟨got, s, heq, -, -, hrun⟩
    · rw [heq] at hstop
      cases hstop with
      | header h hl => exact .header h hl
      | fixed h hl => exact .fixed h hl
      | extras h hl hbuf => exact .extras h hl hbuf
      | extras2 h hl => exact .extras2 h hl
      | swallow h hl hbuf => exact .swallow h hl hbuf
    · rw [heq] at hr'
      cases hr.symm.trans hr'
  | stops _ _ _ hc => exact (hc.elim hs ho).elim

theorem not_spins {r : Request} {rest : Bytes} (h : c.OnWay (r.encode ++ rest) pre)
    (hauth : r.pdu.choice ≠ .authReq) : ¬ c.Spins := by
  rintro ⟨-, hs, hp⟩
  obtain ⟨bytes, part, hplace, hstream, -⟩ := h.place
  cases hplace with
  | auth _ hp' =>
    rw [List.append_assoc] at hstream
    exact hauth (by rw [pdu_of_stream hstream]; rfl)
  | extras2 _ hp' hk =>
    have hpdu := Option.some.inj (hp'.symm.trans hp)
    rw [hpdu] at hk
    cases hk
  | between h' | swallow _ h' | ending h' => simp [hs] at h'
  | header h' | fixed h' | extras h' | parked h' => cases hs.symm.trans h'

section Drive

variable {r : Request} {rest : Bytes} (h : c.OnWay (r.encode ++ rest) pre)
include h

/-- The loop goes on as long as bytes of the frame are to come. -/
theorem run_iterate (hr : c.run = true) (hs : c.state ≠ .write) (hauth : r.pdu.choice ≠ .authReq)
    (hn : 0 < n) : (c.iterate B n).run = true := by
  by_contra hstop
  have hr' : (c.iterate B n).run = false := Bool.eq_false_iff.mpr hstop
  obtain ⟨bytes, part, hplace, hstream, -⟩ := h.place
  have ho : ¬ c.Over := by
    have hf := h.inFrame
    rintro (ho | ho | ho) <;> simp [InFrame, ho] at hf
  rcases (Moves.turned (iterate_place (B := B) hplace nofun n)).stops hr hr' with hst | ⟨hw, -⟩ | hov
  · obtain ⟨hst', hsock⟩ := stopped_takes (iterate_takes (B := B) hplace hr n) hst hr hr' hn h.fits hs ho
    rw [unread, hsock, List.append_nil] at hstream
    exact not_stopped hplace hstream h.header hauth hst'
  · exact hs hw
  · exact ho hov

/-- The completion of the operation under way. -/
theorem onWay_enter {b : ReceiveBuffer} {s : Bytes} (hr : c.run = false) (hb : b.Fits)
    (hle : c.readBuffer.data.length ≤ b.data.length) (hs : b.data ++ s = c.unread) :
    ({ c with pending := none, readBuffer := b, socket := s } : Conn β).enter.OnWay
        (r.encode ++ rest) pre ∧
      ({ c with pending := none, readBuffer := b, socket := s } : Conn β).enter.weight < c.weight := by
  obtain ⟨bytes, part, hplace, hstream, hlog⟩ := h.place
  refine ⟨⟨h.inFrame, ⟨bytes, part, Place.frame hplace hle, ?_, hlog⟩, fun _ => rfl,
    fun hw => ?_, hb, h.header⟩, ?_⟩
  · rw [← hstream]
    exact congrArg (bytes ++ ·) hs
  · cases hr.symm.trans (h.wrote hw).1
  · have hlen := congrArg List.length hs
    rw [List.length_append, length_unread] at hlen
    have hrank : c.rank =
        ({ c with pending := none, readBuffer := b, socket := s } : Conn β).enter.rank + 1 := by
      rw [rank, rank, hr]
      rfl
    rw [weight, weight, hrank]
    simp only [enter]
    omega

/-- The response to a rejected update is sent before its bytes are swallowed. -/
theorem onWay_write (hs : c.state = .write) :
    (c.turn B n).OnWay (r.encode ++ rest) pre ∧ (c.turn B n).weight < c.weight ∧
      (c.turn B n).pending ≠ none := by
  obtain ⟨bytes, part, hplace, hstream, hlog⟩ := h.place
  obtain ⟨hr, hw⟩ := h.wrote hs
  have hf := h.inFrame
  have hn : c.nextState = .swallow := by simpa [InFrame, hs] using hf
  have hit : c.iterate B n = { c with state := .swallow, nextState := .newCmd, run := false } := by
    rw [iterate, hs]
    dsimp only
    rw [processWrite_other (by rw [hn]; decide), hn]
  have hturn : c.turn B n = { c with state := .swallow, nextState := .newCmd, run := false
                                     pending := some .write, writeBuf := [] } := by
    rw [turn, hit]
    exact leave_write (h.quiet hr) (by rintro ⟨⟩) hw
  rw [hturn]
  refine ⟨⟨.inr (.inr (.inr (.inr (.inl rfl)))), ⟨bytes, part, ?_, hstream, hlog⟩, (by rintro ⟨⟩), (by rintro ⟨⟩),
    h.fits, (by rintro ⟨⟩)⟩, ?_, (by rintro ⟨⟩)⟩
  · cases hplace with
    | swallow chunks _ hreason hl ht => exact .swallow chunks (.inl rfl) hreason hl ht
    | between h' | ending h' => simp [hs, hn] at h'
    | header h' | fixed h' | extras h' | extras2 h' | auth h' | parked h' => cases hs.symm.trans h'
  · simp [weight, rank, hs, hn, hr]

end Drive

/-- One step of the machine inside the frame. -/
theorem onWay_drive {r : Request} {rest : Bytes} (h : c.OnWay (r.encode ++ rest) pre)
    (halive : c.run = true ∨ c.pending ≠ none) (hauth : r.pdu.choice ≠ .authReq) (hn : 0 < n) :
    (c.drive B n).OnWay (r.encode ++ rest) pre ∧ (c.drive B n).weight < c.weight ∧
        ((c.drive B n).run = true ∨ (c.drive B n).pending ≠ none) ∨
      (c.drive B n).Exits r (r.encode ++ rest) pre := by
  rw [drive]
  cases hr : c.run with
  | true =>
    rw [if_pos rfl]
    by_cases hs : c.state = .write
    · obtain ⟨hway, hlt, hpend⟩ := onWay_write (B := B) (n := n) h hs
      exact .inl ⟨hway, hlt, .inr hpend⟩
    · have hr' := run_iterate (B := B) h hr hs hauth hn
      have hturn : c.turn B n = c.iterate B n := by rw [turn, if_pos hr']
      obtain ⟨bytes, part, hplace, -⟩ := h.place
      rw [hturn]
      rcases onWay_iterate h hr hr' with hway | hexit
      · exact .inl ⟨hway, weight_lt (iterate_takes hplace hr n) (not_spins h hauth) hr', .inl hr'⟩
      · exact .inr hexit
  | false =>
    rw [if_neg Bool.false_ne_true]
    left
    cases hp : c.pending with
    | none => simp [hr, hp] at halive
    | some io =>
      cases io with
      | read =>
        have hsplit := take_append_drop_length (min n c.readBuffer.getReadBufSize) c.socket
        have hway := onWay_enter h hr (fits_append h.fits (length_take_le (l := c.socket) (n := n)))
          (by rw [List.length_append]; exact Nat.le_add_right _ _)
          (by rw [List.append_assoc, ← hsplit, unread])
        exact ⟨hway.1, hway.2, .inl rfl⟩
      | write =>
        have hway := onWay_enter h hr h.fits le_rfl rfl
        exact ⟨hway.1, hway.2, .inl rfl⟩

theorem not_inFrame_of_exits {r : Request} (h : c.Exits r stream pre) : ¬ c.InFrame := by
  cases h with
  | served _ _ hs =>
    rcases hs with hs | ⟨hs, hn⟩
    · simp [InFrame, hs]
    · simp [InFrame, hs, hn]
  | parked hs => simp [InFrame, hs]

/-- The machine comes out of the frame: the weight bounds the number of steps. -/
theorem exits_of_onWay {r : Request} {rest : Bytes} {w : Nat} (hw : c.weight < w)
    (h : c.OnWay (r.encode ++ rest) pre) (halive : c.run = true ∨ c.pending ≠ none)
    (hauth : r.pdu.choice ≠ .authReq) {offers : Nat → Nat} (hn : ∀ k, 0 < offers k) :
    ∃ k, c.LeavesAt B offers k ∧ (c.drives B offers k).Exits r (r.encode ++ rest) pre := by
  induction w generalizing c offers with
  | zero => exact absurd hw (Nat.not_lt_zero _)
  | succ w ih =>
    rcases onWay_drive (B := B) h halive hauth (hn 0) with ⟨hway, hlt, halive'⟩ | hexit
    · obtain ⟨k, ⟨hin, hout⟩, hexit⟩ := ih (by omega) hway halive' fun k => hn (k + 1)
      refine ⟨k + 1, ⟨fun j hj => ?_, hout⟩, hexit⟩
      cases j with
      | zero => exact h.inFrame
      | succ j => exact hin j (Nat.lt_of_succ_lt_succ hj)
    · refine ⟨1, ⟨fun j hj => ?_, not_inFrame_of_exits hexit⟩, hexit⟩
      rw [Nat.lt_one_iff.mp hj]
      exact h.inFrame

theorem leavesAt_unique {offers : Nat → Nat} {j k : Nat} (hj : c.LeavesAt B offers j)
    (hk : c.LeavesAt B offers k) : j = k := by
  rcases Nat.lt_trichotomy j k with h | h | h
  · exact absurd (hk.1 j h) hj.2
  · exact h
  · exact absurd (hj.1 k h) hk.2

/-- A header for which more bytes are demanded than there are. -/
theorem waits_drive (hs : c.state = .readHeader) (hl : c.unread.length < c.nextDataLen) (n : Nat) :
    (c.drive B n).state = .readHeader ∧
      (c.drive B n).unread.length < (c.drive B n).nextDataLen := by
  have hfill : c.iterate B n = c.fillBuffer n := by
    rw [iterate, hs]
    rw [length_unread] at hl
    exact if_neg (by omega)
  have hfilled : (c.fillBuffer n).state = .readHeader ∧
      (c.fillBuffer n).unread.length < (c.fillBuffer n).nextDataLen := by
    rw [unread_fillBuffer]
    obtain ⟨b, s, r, got, heq, -⟩ := fillBuffer_eq c n
    rw [heq]
    exact ⟨hs, hl⟩
  have hleave (d : Conn β) : (d.leave B).state = d.state ∧ (d.leave B).nextDataLen = d.nextDataLen ∧
      (d.leave B).unread = d.unread := by
    simp only [leave, tryWrite, tryRead, destroy]
    split_ifs <;> simp [unread, handleProcessed_data]
  rw [drive]
  split
  · rw [turn, hfill]
    split
    · exact hfilled
    · obtain ⟨h₁, h₂, h₃⟩ := hleave (c.fillBuffer n)
      rw [h₁, h₂, h₃]
      exact hfilled
  · split
    · refine ⟨hs, ?_⟩
      have hsplit := take_append_drop_length (min n c.readBuffer.getReadBufSize) c.socket
      have hunread : (c.handleRead n).unread = c.unread := by
        rw [handleRead, enter, unread, unread]
        simp only [List.append_assoc]
        rw [← hsplit]
      rw [hunread]
      exact hl
    · exact ⟨hs, hl⟩
    · exact ⟨hs, hl⟩

theorem waits_drives (hs : c.state = .readHeader) (hl : c.unread.length < c.nextDataLen)
    (offers : Nat → Nat) (k : Nat) : (c.drives B offers k).InFrame := by
  induction k generalizing c offers with
  | zero => exact .inl hs
  | succ k ih =>
    obtain ⟨hs', hl'⟩ := waits_drive (B := B) hs hl (offers 0)
    exact ih hs' hl' _

theorem not_served_auth {pdu : Pdu} {extras : Bytes} {es : List Event}
    (h : pdu.choice = .authReq) : ¬ Served pdu extras es := by
  intro hserved
  cases hserved with
  | call hk =>
    cases pdu with
    | auth => cases hk
    | get | getTouch | getBase | update | updateFlags | updateExpiration | delete | delta | flush
    | stats | createWatch | checkWatch | hello => cases h
  | hello | watch | update | rejected => cases h

theorem encode_eq (r : Request) : r.encode = r.pdu.head ++ r.extras :=
  (List.append_assoc ..).symm

theorem extrasLength_of_checkWatch {pdu : Pdu} (h : pdu.choice = .checkWatchReq) :
    pdu.extrasLength = 0 := by
  cases pdu with
  | checkWatch => rfl
  | get | getTouch | getBase | update | updateFlags | updateExpiration | delete | delta | flush
  | auth | stats | createWatch | hello => cases h

/-- Where the frame has been left, as many bytes are gone as 32 bits can count. -/
theorem length_of_exits {r : Request} {rest : Bytes} (h : c.Exits r (r.encode ++ rest) pre) :
    r.pdu.extrasLength % 2 ^ 32 + c.unread.length = r.pdu.extrasLength + rest.length := by
  have hcut {l : Bytes} (hl : r.pdu.head ++ l = r.encode ++ rest) :
      l.length = r.pdu.extrasLength + rest.length := by
    rw [encode_eq, List.append_assoc, List.append_cancel_left_eq] at hl
    rw [hl, List.length_append, r.length_extras]
  cases h with
  | served extras es hs hstream hlen =>
    have hl := hcut hstream
    rwa [List.length_append, hlen] at hl
  | parked hs hc hstream =>
    have hl := hcut hstream
    have hzero := extrasLength_of_checkWatch hc
    omega

theorem onWay_of_standing (h : c.Standing False) (hdead : ¬ c.Dead) (hf : c.readBuffer.Fits)
    (hs : c.state = .readHeader) (hl : c.nextDataLen ≤ c.unread.length) : c.OnWay c.unread c.log := by
  obtain ⟨hquiet, bytes, part, hplace⟩ := h.resolve_left hdead
  refine ⟨.inl hs, ⟨[], [], ?_, rfl, (List.append_nil _).symm⟩, hquiet, fun hw => ?_, hf,
    fun _ => hl⟩
  · cases hplace with
    | header h' ht hl hf => exact .header h' ht hl hf
    | between h' | swallow _ h' | ending h' => simp [hs] at h'
    | fixed h' | extras h' | extras2 h' | auth h' | parked h' => cases hs.symm.trans h'
  · cases hs.symm.trans hw

end ProgressLemmas

open ProgressLemmas ConnectionLemmas

/-- When the bytes of a frame are there and its header is looked for, the machine consumes
that frame and no more, answers it or waits for a watch, and is ready for the next header;
unless the request is `AUTH`, its length does not fit into 32 bits, or `next_data_len_` is
still a larger number than there are bytes. -/
theorem progresses_iff {b : β} {data socket : Bytes} {t : List (Conn β × Action)} {c : Conn β}
    (hrun : Run (Step B) (start b data socket) t c) (hdead : ¬ c.Dead) (hs : c.state = .readHeader)
    {r : Request} {rest : Bytes} (hunread : c.unread = r.encode ++ rest) {offers : Nat → Nat}
    (hn : ∀ k, 0 < offers k) :
    c.Progresses B r rest offers ↔ c.nextDataLen ≤ c.unread.length ∧ r.pdu.choice ≠ .authReq ∧
      r.pdu.extrasLength < 2 ^ 32 := by
  have halive : c.run = true ∨ c.pending ≠ none := by
    by_contra hnot
    rw [not_or, not_not, Bool.not_eq_true] at hnot
    exact hdead ⟨hnot.1, hnot.2, by rw [hs]; decide⟩
  have hexits (hl : c.nextDataLen ≤ c.unread.length) (hauth : r.pdu.choice ≠ .authReq) :
      ∃ k, c.LeavesAt B offers k ∧ (c.drives B offers k).Exits r (r.encode ++ rest) c.log := by
    have hway := onWay_of_standing (standing_of_run B hrun nofun) hdead (fits_of_run B hrun) hs hl
    rw [hunread] at hway
    exact exits_of_onWay (Nat.lt_succ_self _) hway halive hauth hn
  constructor
  · rintro ⟨k, hleaves, hrest, hans⟩
    have hauth : r.pdu.choice ≠ .authReq := by
      intro h
      rcases hans with ⟨hc, -⟩ | ⟨-, es, -, hserved⟩
      · cases hc.symm.trans h
      · exact not_served_auth h hserved
    have hl : c.nextDataLen ≤ c.unread.length := by
      by_contra hlt
      exact hleaves.2 (waits_drives hs (Nat.lt_of_not_le hlt) offers k)
    obtain ⟨k', hleaves', hexit⟩ := hexits hl hauth
    have hlen := length_of_exits hexit
    rw [leavesAt_unique hleaves' hleaves, hrest] at hlen
    exact ⟨hl, hauth, by omega⟩
  · rintro ⟨hl, hauth, hlt⟩
    obtain ⟨k, hleaves, hexit⟩ := hexits hl hauth
    refine ⟨k, hleaves, ?_⟩
    cases hexit with
    | served extras es hbetween hstream hlen hlog hserved =>
      rw [encode_eq, List.append_assoc, List.append_cancel_left_eq] at hstream
      rw [Nat.mod_eq_of_lt hlt, ← r.length_extras] at hlen
      obtain ⟨rfl, hrest⟩ := List.append_inj hstream hlen
      exact ⟨hrest, .inr ⟨hbetween, es, hlog, hserved⟩⟩
    | parked hwait hc hstream =>
      have hnil : r.extras = [] := List.length_eq_zero_iff.mp
        (r.length_extras.trans (extrasLength_of_checkWatch hc))
      rw [encode_eq, hnil, List.append_nil, List.append_cancel_left_eq] at hstream
      exact ⟨hstream, .inl ⟨hc, hwait⟩⟩

/-- In every run `process` returns unless it comes to an `AUTH` of no bytes, and every request
whose frame is there is consumed and answered under the conditions of `progresses_iff`. -/
theorem progress {b : β} {data socket : Bytes} {t : List (Conn β × Action)} {c : Conn β}
    (hrun : Run (Step B) (start b data socket) t c) :
    (∀ offers : Nat → Nat, (∃ k, (c.turns B offers k).run = false) ↔
      ∀ k, ¬ (c.turns B offers k).Spins) ∧
    ∀ (r : Request) (rest : Bytes), ¬ c.Dead → c.state = .readHeader → c.unread = r.encode ++ rest →
      ∀ offers : Nat → Nat, (∀ k, 0 < offers k) →
        (c.Progresses B r rest offers ↔ c.nextDataLen ≤ c.unread.length ∧
          r.pdu.choice ≠ .authReq ∧ r.pdu.extrasLength < 2 ^ 32) :=
  ⟨returns_iff B hrun, fun _ _ hdead hs hunread _ hn => progresses_iff B hrun hdead hs hunread hn⟩

/-- `FLUSH`, with one byte of the next request behind it. -/
theorem progress_flush :
    let c := next smallBackend (opened (flushRequest.encode ++ [0]) []) (.turn 0)
    c.state = .readHeader ∧ (∀ k, ¬ (c.turns smallBackend (fun _ => 1) k).Spins) ∧
      c.Progresses smallBackend flushRequest [0] fun _ => 1 := by
  intro c
  have hok : Admitted (fun (c : Conn (CacheMgr × Nat)) a => c.Permitted a) (next smallBackend)
      (opened (flushRequest.encode ++ [0]) []) [.turn 0] := by
    decide +kernel
  obtain ⟨t, ht⟩ := hok.run
  have hstate : c.state = .readHeader := by decide +kernel
  have hr : c.run = true := by decide +kernel
  have hunread : c.unread = flushRequest.encode ++ [0] := by decide +kernel
  have hl : c.nextDataLen ≤ c.unread.length := by decide +kernel
  have hreturns : (c.turns smallBackend (fun _ => 1) 3).run = false := by decide +kernel
  have hreach : Run (Step smallBackend) (opened (flushRequest.encode ++ [0]) []) t c := ht
  clear_value c
  obtain ⟨hspins, hprogress⟩ := progress smallBackend hreach
  refine ⟨hstate, (hspins fun _ => 1).mp ⟨3, hreturns⟩, ?_⟩
  have hdead : ¬ c.Dead := fun h => by cases hr.symm.trans h.1
  exact (hprogress flushRequest [0] hdead hstate hunread (fun _ => 1) fun _ => Nat.one_pos).mpr
    ⟨hl, by decide, by decide⟩

def authRequest : Request := ⟨.auth 0, [], no_extras⟩

/-- `AUTH` of no bytes: `process` does not return, and the request is not answered. -/
theorem auth_never_returns :
    let c := next smallBackend (opened authRequest.encode []) (.turn 0)
    (∃ t, Run (Step smallBackend) (opened authRequest.encode []) t c) ∧
      c.state = .readHeader ∧ c.run = true ∧ c.unread = authRequest.encode ++ [] ∧
      (¬ ∃ k, (c.turns smallBackend (fun _ => 1) k).run = false) ∧
      ¬ c.Progresses smallBackend authRequest [] fun _ => 1 := by
  intro c
  have hok : Admitted (fun (c : Conn (CacheMgr × Nat)) a => c.Permitted a) (next smallBackend)
      (opened authRequest.encode []) [.turn 0] := by
    decide +kernel
  obtain ⟨t, ht⟩ := hok.run
  have hstate : c.state = .readHeader := by decide +kernel
  have hr : c.run = true := by decide +kernel
  have hunread : c.unread = authRequest.encode ++ [] := by decide +kernel
  have hspins : (c.turns smallBackend (fun _ => 1) 2).Spins :=
    ⟨by decide +kernel, by decide +kernel, by decide +kernel⟩
  have hreach : Run (Step smallBackend) (opened authRequest.encode []) t c := ht
  clear_value c
  have hdead : ¬ c.Dead := fun h => by cases hr.symm.trans h.1
  refine ⟨⟨t, hreach⟩, hstate, hr, hunread, fun h => ?_, fun h => ?_⟩
  · exact (returns_iff smallBackend hreach _).mp h 2 hspins
  · exact ((progresses_iff smallBackend hreach hdead hstate hunread fun _ => Nat.one_pos).mp h).2.1 rfl

end Conn
end Xixi.PeerCache
