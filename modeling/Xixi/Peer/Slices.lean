import Xixi.CacheBuffer
import Xixi.Peer.Connection
import Xixi.Peer.Traffic

/-!
# The bytes behind the responses

A response that is put into `write_buf_` is a slice of `cache_buf_`; that of `GET` has a second
slice, the data of the item. `try_write` hands the slices to `async_write`, and they are read
until that has completed. `reset_for_new_cmd` takes all of `cache_buf_` back and releases the
items.

1. `Sender`: a connection with `cache_buf_` and the slices.
2. `Sender.Intact`: every slice that is queued or on its way is as it was handed out.
3. `intact_of_run`: so it is in every run in which the timer does not find its watch while a
   write is under way.
4. `overlap_after_timer`: otherwise a queued response may be overwritten by the next.
-/

namespace Xixi.PeerCache
open Lib

/-- What `cache_buf_` is asked for: `XIXI_PDU_ERROR_RES_LENGTH`, `XIXI_PDU_SIMPLE_RES_LENGTH` and
`calc_encode_size` of the others. -/
def Res.encodeSize : Res → Nat
  | .error _ | .unknownCommand => 4
  | .hello | .delete => 2
  | .get .. | .getBase .. => 2 + 20
  | .update _ | .updateFlags _ | .updateExpiration _ => 2 + 8
  | .delta .. => 2 + 16
  | .flush .. => 2 + 4 + 8
  | .stats result => 2 + 4 + result.length
  | .createWatch _ => 2 + 4
  | .checkWatch out => 2 + 8 + out.updatedList.length * (8 + 1)

/-- An element of `write_buf_`. -/
inductive Slice
  | scratch (r : Region)
  | data (item : Ptr)
deriving DecidableEq, Repr

namespace Slice

def regions (l : List Slice) : List Region :=
  l.filterMap fun
    | .scratch r => some r
    | .data _ => none

def items (l : List Slice) : List Ptr :=
  l.filterMap fun
    | .scratch _ => none
    | .data p => some p

end Slice

/-- A connection with `cache_buf_`, with the slices in `write_buf_`, and with those that
`async_write` is working on. -/
structure Sender (β : Type) where
  conn : Conn (β × List RefEvent)
  cacheBuf : CacheBuffer
  writeBuf : List Slice
  inFlight : List Slice

namespace Sender

variable {β : Type} (B : Backend β) (x : Sender β)

/-- `MAX_PDU_FIXED_LENGTH * 5`. -/
def baseSize : Nat := 66 * 5

/-- A handler prepares a response and adds it, and the data of the item behind that of `GET`. -/
def add (item : Option Ptr) (r : Res) : Sender β :=
  let (region, cacheBuf) := x.cacheBuf.prepare baseSize (r.encodeSize % 2 ^ 32)
  { x with
    cacheBuf := cacheBuf
    writeBuf := x.writeBuf ++ .scratch region :: if r.isGet then item.toList.map .data else [] }

def addAll (item : Option Ptr) (rs : List Res) : Sender β := rs.foldl (fun y r => y.add item r) x

/-- The responses that an action queues. -/
def responses (a : Action) : List Res :=
  ((x.conn.next B.counted a).log.drop x.conn.log.length).filterMap fun
    | .queue r => some r
    | _ => none

/-- `cache_buf_.reset()` in `reset_for_new_cmd`. -/
def resetsOn : Action → Bool
  | .turn _ => x.conn.state = .newCmd
  | _ => false

/-- The write under way has completed. -/
def completesOn : Action → Bool
  | .handleWrite | .handleError => true
  | _ => false

def next (a : Action) : Sender β :=
  let c' := x.conn.next B.counted a
  let x₁ : Sender β := { x with
    cacheBuf := if x.resetsOn a then x.cacheBuf.reset else x.cacheBuf
    inFlight := if completesOn a then [] else x.inFlight }
  let x₂ := x₁.addAll c'.cacheItem (x.responses B a)
  -- `try_write` has handed them over
  if x.conn.pending = none ∧ c'.pending = some .write then
    { x₂ with conn := c', inFlight := x₂.writeBuf, writeBuf := [] }
  else { x₂ with conn := c' }

def Step (a : Action) (y : Sender β) : Prop := x.conn.Permitted a ∧ y = x.next B a

def start (b : β) (data socket : Bytes) : Sender β where
  conn := .start (b, []) data socket
  cacheBuf := .new
  writeBuf := []
  inFlight := []

/-- Every slice in `write_buf_` or on its way is as it was handed out: its region of `cache_buf_`
is there and has not been handed out again, and there is a reference to its item. -/
structure Intact : Prop where
  region : ∀ r ∈ Slice.regions (x.inFlight ++ x.writeBuf), x.cacheBuf.Has baseSize r
  apart : (Slice.regions (x.inFlight ++ x.writeBuf)).Pairwise Region.Disjoint
  item : ∀ p, x.conn.mgr.2.count (.release p) + (Slice.items (x.inFlight ++ x.writeBuf)).count p ≤
    x.conn.mgr.2.count (.take p)

/-- The peer has been destroyed, with nothing on its way. -/
def Gone : Prop := x.conn.Dead ∧ x.inFlight = []

/-- The timer does not find its watch while a write is under way, and `total_size_` does not
wrap. -/
def Calm (a : Action) : Prop :=
  (∀ w, a = .handleTimer w →
    (B.exec x.conn.mgr.1 (.checkWatchAndClearCallback w.toNat)).1 ≠ none → x.conn.pending = none) ∧
  ∀ r ∈ x.responses B a, x.cacheBuf.totalSize + r.encodeSize < 2 ^ 32

/-! ## The slices and the connection -/

namespace SlicesLemmas

theorem regions_append (l l' : List Slice) :
    Slice.regions (l ++ l') = Slice.regions l ++ Slice.regions l' := List.filterMap_append

theorem items_append (l l' : List Slice) :
    Slice.items (l ++ l') = Slice.items l ++ Slice.items l' := List.filterMap_append

theorem regions_data (l : List Ptr) : Slice.regions (l.map .data) = [] := by
  rw [Slice.regions, List.filterMap_map]
  exact List.filterMap_eq_nil_iff.mpr fun _ _ => rfl

theorem items_data (l : List Ptr) : Slice.items (l.map .data) = l := by
  rw [Slice.items, List.filterMap_map]
  exact List.filterMap_some

variable {B x}

/-- What the slices have to do with the connection. -/
structure Kept (x : Sender β) : Prop where
  sound : x.conn.Sound
  balanced : x.conn.Balanced
  empty : x.conn.writeBuf = [] → x.writeBuf = []
  holds : x.cacheBuf.Holds baseSize (Slice.regions (x.inFlight ++ x.writeBuf))
  items : (Slice.items (x.inFlight ++ x.writeBuf)).Sublist x.conn.cacheItems

theorem Kept.intact (h : Kept x) : x.Intact where
  region := h.holds.has
  apart := h.holds.disjoint
  item p := by
    have hcount := h.items.count_le p
    have hheld : x.conn.cacheItems.count p ≤ x.conn.holding.count p := by
      rw [Conn.holding, List.count_append]
      exact Nat.le_add_right _ _
    rw [h.balanced p]
    exact Nat.add_le_add_left (hcount.trans hheld) _

/-- One response is added. -/
theorem kept_add {c' : Conn (β × List RefEvent)} {r : Res} (h : Kept x)
    (hfit : x.cacheBuf.totalSize + r.encodeSize < 2 ^ 32) (hsound : c'.Sound)
    (hbal : c'.Balanced) (hw : c'.writeBuf ≠ [])
    (hitems : c'.cacheItems = x.conn.cacheItems ++ if r.isGet then c'.cacheItem.toList else []) :
    Kept { x.add c'.cacheItem r with conn := c' } := by
  have hsize : r.encodeSize % 2 ^ 32 = r.encodeSize :=
    Nat.mod_eq_of_lt ((Nat.le_add_left _ _).trans_lt hfit)
  let region := (x.cacheBuf.prepare baseSize r.encodeSize).1
  let more := if r.isGet then c'.cacheItem.toList else []
  let new : List Slice := [.scratch region] ++ more.map .data
  have hnew : (x.add c'.cacheItem r).writeBuf = x.writeBuf ++ new := by
    rw [add, hsize]
    show x.writeBuf ++ .scratch region :: _ = _
    cases hget : r.isGet with
    | true =>
      simp only [new, more, hget, if_true]
      rfl
    | false =>
      simp only [new, more, hget]
      rfl
  have hbuf : (x.add c'.cacheItem r).cacheBuf = (x.cacheBuf.prepare baseSize r.encodeSize).2 := by
    rw [add, hsize]
  have hregions : Slice.regions new = [region] := by
    rw [regions_append, regions_data]
    rfl
  have hdata : Slice.items new = more := by
    rw [items_append, items_data]
    rfl
  refine ⟨hsound, hbal, fun hx => absurd hx hw, ?_, ?_⟩
  · show CacheBuffer.Holds baseSize (x.add c'.cacheItem r).cacheBuf
      (Slice.regions (x.inFlight ++ (x.add c'.cacheItem r).writeBuf))
    rw [hbuf, hnew, ← List.append_assoc, regions_append (x.inFlight ++ x.writeBuf) new, hregions]
    exact CacheBuffer.holds_prepare h.holds hfit
  · show (Slice.items (x.inFlight ++ (x.add c'.cacheItem r).writeBuf)).Sublist c'.cacheItems
    rw [hnew, ← List.append_assoc, items_append (x.inFlight ++ x.writeBuf) new, hdata, hitems]
    exact h.items.append (List.Sublist.refl _)

/-- The responses of an action, read off the log. -/
theorem responses_eq {a : Action} {es : List Event}
    (h : (x.conn.next B.counted a).log = x.conn.log ++ es) :
    x.responses B a = es.filterMap fun
      | .queue r => some r
      | _ => none := by
  rw [responses, h, List.drop_left]

theorem filterMap_quiet {es : List Event} (h : ∀ r, Event.queue r ∉ es) :
    (es.filterMap fun
      | .queue r => some r
      | _ => none : List Res) = [] := by
  refine List.filterMap_eq_nil_iff.mpr fun e he => ?_
  cases e with
  | queue r => exact absurd he (h r)
  | call k => rfl
  | swallow bytes => rfl

theorem filterMap_replies (ks : List Call) (r : Res) :
    ((ks.map Event.call ++ [Event.queue r]).filterMap fun
      | .queue r => some r
      | _ => none : List Res) = [r] := by
  rw [List.filterMap_append, filterMap_quiet]
  · rfl
  · intro r' hr
    obtain ⟨k, -, hk⟩ := List.mem_map.mp hr
    exact nomatch hk

/-- After the responses `rs` of an iteration that leads to `c'`. -/
def iterated (x : Sender β) (c' : Conn (β × List RefEvent)) (rs : List Res) : Sender β :=
  { addAll { x with
      cacheBuf := if x.conn.state = .newCmd then x.cacheBuf.reset else x.cacheBuf } c'.cacheItem rs with
    conn := c' }

/-- An iteration with nothing on its way. -/
theorem kept_iterate {n : Nat} {rs : List Res} (h : Kept x) (hidle : x.inFlight = [])
    (hdrained : x.conn.state = .newCmd → x.conn.writeBuf = [])
    (hrs : ∀ es, (x.conn.iterate B.counted n).log = x.conn.log ++ es → rs = es.filterMap fun
      | .queue r => some r
      | _ => none)
    (hfit : ∀ r ∈ rs, x.cacheBuf.totalSize + r.encodeSize < 2 ^ 32) :
    Kept (iterated x (x.conn.iterate B.counted n) rs) := by
  have he := Conn.iterate_effect (B := B) h.sound n
  have hsound := Conn.sound_of_effect h.sound he
  have hbal := Conn.balanced_of_effect h.balanced he
  by_cases hst : x.conn.state = .newCmd
  · have hnone := h.empty (hdrained hst)
    have hc : x.conn.iterate B.counted n = x.conn.resetForNewCmd B.counted := by rw [Conn.iterate, hst]
    have hlog : (x.conn.iterate B.counted n).log = x.conn.log ++ [] := by
      rw [hc, List.append_nil]
      rfl
    rw [hrs [] hlog, iterated, if_pos hst, hc]
    rw [hc] at hsound hbal
    refine ⟨hsound, hbal, fun _ => hnone, ?_, ?_⟩
    · show CacheBuffer.Holds baseSize x.cacheBuf.reset (Slice.regions (x.inFlight ++ x.writeBuf))
      rw [hidle, hnone]
      exact CacheBuffer.holds_reset
    · show (Slice.items (x.inFlight ++ x.writeBuf)).Sublist []
      rw [hidle, hnone]
      exact List.Sublist.refl _
  · rw [iterated, if_neg hst]
    cases he with
    | reset state _ => exact absurd state hst
    | quiet _ hq =>
      obtain ⟨es, hlog, hes⟩ := hq.log
      rw [hrs es hlog, filterMap_quiet hes]
      refine ⟨hsound, hbal, fun hw => h.empty (hq.writeBuf ▸ hw), h.holds, ?_⟩
      rw [hq.items]
      exact h.items
    | replies r hr =>
      obtain ⟨ks, hlog⟩ := hr.log
      have hone : rs = [r] := (hrs _ hlog).trans (filterMap_replies ks r)
      subst hone
      refine kept_add h (hfit r (List.mem_singleton_self r)) hsound hbal ?_ ?_
      · rw [hr.writeBuf]
        exact List.append_ne_nil_of_right_ne_nil _ (List.cons_ne_nil _ _)
      · cases hr.settles with
        | plain refs items get state => rw [items, get]; exact (List.append_nil _).symm
        | base it refs items get state => rw [items, get]; exact (List.append_nil _).symm
        | kept it refs items item get state => rw [items, get, item]; rfl
        | updated it refs items get item state => rw [items, get]; exact (List.append_nil _).symm
    | allocates it ha =>
      obtain ⟨k, hlog⟩ := ha.log
      have hnone : rs = [] := (hrs _ hlog).trans
        (filterMap_quiet fun r hr => by cases List.mem_singleton.mp hr)
      subst hnone
      refine ⟨hsound, hbal, fun hw => h.empty (ha.writeBuf ▸ hw), h.holds, ?_⟩
      rw [ha.items]
      exact h.items

/-! ## Steps -/

/-- What holds between two actions, as long as the peer is there. -/
structure Alive (x : Sender β) : Prop extends Kept x where
  busy : x.conn.run = true → x.conn.pending = none
  drained : x.conn.run = true → x.conn.state.final = true → x.conn.writeBuf = []
  rest : x.conn.run = false → x.conn.writeBuf = [] ∨
    x.conn.pending = some .write ∧ x.conn.state = .write
  idle : x.conn.pending ≠ some .write → x.inFlight = []
  waits : x.conn.state = .asyncWait → x.conn.pending ≠ some .read

theorem inFlight_addAll (x : Sender β) (item : Option Ptr) (rs : List Res) :
    (x.addAll item rs).inFlight = x.inFlight := by
  induction rs generalizing x with
  | nil => rfl
  | cons r rs ih => exact ih _

/-- An iteration, and the slices that `try_write` has handed over after it. -/
theorem next_turn (n : Nat) : x.next B (.turn n) =
    let z := iterated x (x.conn.turn B.counted n) (x.responses B (.turn n))
    if x.conn.pending = none ∧ (x.conn.turn B.counted n).pending = some .write then
      { z with inFlight := z.writeBuf, writeBuf := [] }
    else z := by
  have hreset : (if x.resetsOn (.turn n) then x.cacheBuf.reset else x.cacheBuf) =
      if x.conn.state = .newCmd then x.cacheBuf.reset else x.cacheBuf := by
    rw [resetsOn]
    exact if_congr decide_eq_true_iff rfl rfl
  unfold next
  dsimp only
  rw [hreset]
  rfl

/-- The connection has changed in nothing that the slices depend on. -/
theorem Kept.conn {c' : Conn (β × List RefEvent)} (h : Kept x) (hs : c'.state = x.conn.state)
    (hn : c'.nextState = x.conn.nextState) (hp : c'.readPdu = x.conn.readPdu)
    (hi : c'.cacheItem = x.conn.cacheItem) (his : c'.cacheItems = x.conn.cacheItems)
    (hm : c'.mgr = x.conn.mgr) (hw : c'.writeBuf = x.conn.writeBuf) :
    Kept { x with conn := c' } where
  sound := ⟨hn ▸ h.sound.next, fun hx => by
    rw [hi, hp]
    exact h.sound.updating (hs ▸ hx)⟩
  balanced p := by
    have hp := h.balanced p
    rw [Conn.holding] at hp ⊢
    rw [hm, his, hs, hi]
    exact hp
  empty hx := h.empty (hw ▸ hx)
  holds := h.holds
  items := by
    rw [his]
    exact h.items

/-- All that was queued has been handed over. -/
theorem Kept.sent {c' : Conn (β × List RefEvent)} (h : Kept { x with conn := c' })
    (hidle : x.inFlight = []) :
    Kept { x with
      conn := { c' with pending := some .write, writeBuf := [] }
      inFlight := x.writeBuf, writeBuf := [] } where
  sound := ⟨h.sound.next, h.sound.updating⟩
  balanced := h.balanced
  empty _ := rfl
  holds := by
    have hh := h.holds
    rw [List.append_nil]
    rwa [hidle, List.nil_append] at hh
  items := by
    have hi := h.items
    rw [List.append_nil]
    rwa [hidle, List.nil_append] at hi

theorem pending_of_effect {c c' : Conn (β × List RefEvent)} (he : c.Effect c' B) :
    c'.pending = c.pending := by
  cases he with
  | reset state eq =>
    rw [eq]
    rfl
  | quiet _ hq => exact hq.pending
  | replies r hr => exact hr.pending
  | allocates it ha => exact ha.pending

/-- What an iteration that goes on leaves behind where the queue may be given up. -/
theorem drained_of_effect {c c' : Conn (β × List RefEvent)} (he : c.Effect c' B)
    (h : c.state.final = true → c.writeBuf = []) (hrun : c'.run = true)
    (hfinal : c'.state.final = true) : c'.writeBuf = [] := by
  cases he with
  | reset state eq =>
    rw [eq] at hfinal
    exact nomatch hfinal
  | quiet _ hq => exact hq.writeBuf.trans (h (hq.final hrun hfinal))
  | replies r hr =>
    rw [hr.state] at hfinal
    exact nomatch hfinal
  | allocates it ha =>
    rw [ha.extras] at hfinal
    exact nomatch hfinal

theorem inFlight_iterated (x : Sender β) (c' : Conn (β × List RefEvent)) (rs : List Res) :
    (iterated x c' rs).inFlight = x.inFlight := inFlight_addAll _ _ _

/-- `turn`, when `process` goes on. -/
theorem next_of_run {n : Nat} (hpend : (x.conn.iterate B.counted n).pending = none)
    (hrun : (x.conn.iterate B.counted n).run = true) : x.next B (.turn n) =
      iterated x (x.conn.iterate B.counted n) (x.responses B (.turn n)) := by
  have hturn : x.conn.turn B.counted n = x.conn.iterate B.counted n := if_pos hrun
  rw [next_turn, hturn, if_neg]
  rintro ⟨-, hw⟩
  exact nomatch hpend.symm.trans hw

/-- `turn`, when `process` returns. -/
theorem next_of_leave {n : Nat} {c' : Conn (β × List RefEvent)} (hpend : x.conn.pending = none)
    (hrun : (x.conn.iterate B.counted n).run = false)
    (hleave : (x.conn.iterate B.counted n).leave B.counted = c') : x.next B (.turn n) =
      let z := iterated x c' (x.responses B (.turn n))
      if c'.pending = some .write then { z with inFlight := z.writeBuf, writeBuf := [] } else z := by
  have hturn : x.conn.turn B.counted n = c' := by
    rw [Conn.turn, hrun]
    exact hleave
  rw [next_turn, hturn]
  exact if_congr (and_iff_right hpend) rfl rfl

theorem alive_turn {n : Nat} (h : Alive x) (hrun : x.conn.run = true) (hcalm : x.Calm B (.turn n)) :
    (x.next B (.turn n)).Gone ∨ Alive (x.next B (.turn n)) := by
  have hpend := h.busy hrun
  have hidle : x.inFlight = [] := h.idle (by rw [hpend]; rintro ⟨⟩)
  have he := Conn.iterate_effect (B := B) h.sound n
  have hpend₁ := (pending_of_effect he).trans hpend
  have hdrained : x.conn.state = .newCmd → x.conn.writeBuf = [] :=
    fun hst => h.drained hrun (by rw [hst]; rfl)
  have hkept (hlog : (x.conn.turn B.counted n).log = (x.conn.iterate B.counted n).log) :
      Kept (iterated x (x.conn.iterate B.counted n) (x.responses B (.turn n))) :=
    kept_iterate h.toKept hidle hdrained (fun es hes => responses_eq (hlog.trans hes)) hcalm.2
  cases hrun₁ : (x.conn.iterate B.counted n).run with
  | true =>
    have hturn : x.conn.turn B.counted n = x.conn.iterate B.counted n := if_pos hrun₁
    rw [next_of_run hpend₁ hrun₁]
    refine .inr ⟨hkept (congrArg _ hturn), fun _ => hpend₁, fun _ hfinal => ?_, fun hr => ?_,
      fun _ => (inFlight_iterated ..).trans hidle, fun _ hx => by cases hpend₁.symm.trans hx⟩
    · exact drained_of_effect he (h.drained hrun) hrun₁ hfinal
    · cases hrun₁.symm.trans hr
  | false =>
    have hturn : x.conn.turn B.counted n = (x.conn.iterate B.counted n).leave B.counted := by
      rw [Conn.turn, hrun₁]
      rfl
    have hstop {P : Prop} (hr : (x.conn.iterate B.counted n).run = true) : P :=
      (by cases hrun₁.symm.trans hr)
    by_cases hclosed : (x.conn.iterate B.counted n).state = .closed
    · left
      rw [next_of_leave hpend hrun₁ rfl]
      dsimp only
      have hdead := Conn.ConnectionLemmas.leave_closed (B := B.counted) hrun₁ hpend₁ hclosed
      have hidle' : ((x.conn.iterate B.counted n).leave B.counted).pending ≠ some .write := by
        rw [hdead.2.1]
        rintro ⟨⟩
      rw [if_neg hidle']
      exact ⟨hdead, (inFlight_iterated ..).trans hidle⟩
    · right
      by_cases hw : (x.conn.iterate B.counted n).writeBuf = []
      · by_cases hwait : (x.conn.iterate B.counted n).state = .asyncWait
        · have hleave := Conn.ConnectionLemmas.leave_asyncWait (B := B.counted) hwait hw
          rw [next_of_leave hpend hrun₁ hleave, if_neg (by rw [hpend₁]; rintro ⟨⟩)]
          exact ⟨hkept (by rw [hturn, hleave]), hstop, hstop, fun _ => .inl hw,
            fun _ => (inFlight_iterated ..).trans hidle, fun _ hx => by cases hpend₁.symm.trans hx⟩
        · have hleave := Conn.ConnectionLemmas.leave_read (B := B.counted) hpend₁ hclosed hwait hw
          rw [next_of_leave hpend hrun₁ hleave]
          exact ⟨(hkept (by rw [hturn, hleave])).conn rfl rfl rfl rfl rfl rfl rfl, hstop, hstop,
            fun _ => .inl hw, fun _ => (inFlight_iterated ..).trans hidle, fun hx => absurd hx hwait⟩
      · have hleave := Conn.ConnectionLemmas.leave_write (B := B.counted) hpend₁ hclosed hw
        rw [next_of_leave hpend hrun₁ hleave]
        exact ⟨(hkept (by rw [hturn, hleave])).sent ((inFlight_iterated ..).trans hidle), hstop,
          hstop, fun _ => .inl rfl, fun hx => absurd rfl hx, fun _ hx => by cases hx⟩

theorem responses_same {a : Action} (h : (x.conn.next B.counted a).log = x.conn.log) :
    x.responses B a = [] := responses_eq (h.trans (List.append_nil _).symm)

/-- What was on its way has arrived, or has been given up. -/
theorem Kept.arrived (h : Kept x) : Kept { x with inFlight := [] } where
  sound := h.sound
  balanced := h.balanced
  empty := h.empty
  holds := by
    refine h.holds.sublist ?_
    rw [regions_append x.inFlight]
    exact List.sublist_append_right _ _
  items := by
    refine List.Sublist.trans ?_ h.items
    rw [items_append x.inFlight]
    exact List.sublist_append_right _ _

theorem alive_handleRead {n : Nat} (h : Alive x) (hrest : x.conn.run = false)
    (hpend : x.conn.pending = some .read) : Alive (x.next B (.handleRead n)) := by
  have hidle : x.inFlight = [] := h.idle (by rw [hpend]; exact nofun)
  have hne : x.conn.pending ≠ none := by rw [hpend]; exact nofun
  have hnext : x.next B (.handleRead n) = { x with conn := x.conn.handleRead n } := by
    rw [next, responses_same rfl, if_neg fun hx => hne hx.1]
    rfl
  rw [hnext]
  refine ⟨h.toKept.conn rfl rfl rfl rfl rfl rfl rfl, fun _ => rfl, fun _ _ => ?_, nofun,
    fun _ => hidle, fun _ => nofun⟩
  rcases h.rest hrest with hw | ⟨hp, -⟩
  · exact hw
  · exact nomatch hpend.symm.trans hp

theorem alive_handleWrite (h : Alive x) (hrest : x.conn.run = false)
    (hpend : x.conn.pending = some .write) : Alive (x.next B .handleWrite) := by
  have hne : x.conn.pending ≠ none := by rw [hpend]; exact nofun
  have hnext : x.next B .handleWrite = { x with conn := x.conn.handleWrite, inFlight := [] } := by
    rw [next, responses_same rfl, if_neg fun hx => hne hx.1]
    rfl
  rw [hnext]
  refine ⟨h.toKept.arrived.conn rfl rfl rfl rfl rfl rfl rfl, fun _ => rfl, fun _ hfinal => ?_, nofun,
    fun _ => rfl, fun _ => nofun⟩
  rcases h.rest hrest with hw | ⟨-, hs⟩
  · exact hw
  · have hfinal' : x.conn.state.final = true := hfinal
    rw [hs] at hfinal'
    exact nomatch hfinal'

theorem alive_handleError (h : Alive x) (hrest : x.conn.run = false)
    (hpend : x.conn.pending ≠ none) :
    (x.next B .handleError).Gone ∨ Alive (x.next B .handleError) := by
  by_cases hwait : x.conn.state = .asyncWait
  · right
    have hconn : x.conn.handleError B.counted = { x.conn with pending := none } :=
      if_neg (not_not.mpr hwait)
    have hlog : (x.conn.next B.counted .handleError).log = x.conn.log := by
      show (x.conn.handleError B.counted).log = _
      rw [hconn]
    have hnext : x.next B .handleError =
        { x with conn := { x.conn with pending := none }, inFlight := [] } := by
      rw [next, responses_same hlog, if_neg fun hx => hpend hx.1]
      show ({ x with conn := x.conn.handleError B.counted, inFlight := [] } : Sender β) = _
      rw [hconn]
    rw [hnext]
    refine ⟨h.toKept.arrived.conn rfl rfl rfl rfl rfl rfl rfl, fun _ => rfl, fun hr => ?_,
      fun _ => ?_, fun _ => rfl, fun _ => nofun⟩
    · exact nomatch hrest.symm.trans hr
    · rcases h.rest hrest with hw | ⟨-, hs⟩
      · exact .inl hw
      · exact nomatch hwait.symm.trans hs
  · left
    have hconn : x.conn.handleError B.counted = Conn.destroy B.counted { x.conn with pending := none } :=
      if_pos hwait
    have hnext : (x.next B .handleError).conn = x.conn.handleError B.counted := by
      rw [next, if_neg fun hx => hpend hx.1]
      rfl
    refine ⟨?_, ?_⟩
    · rw [hnext, hconn]
      exact ⟨hrest, rfl, hwait⟩
    · rw [next, if_neg fun hx => hpend hx.1]
      exact inFlight_addAll _ _ _

/-- The response of the timer: `c₁` is the connection before `try_write`. -/
theorem alive_answer {w : UInt32} {c₁ : Conn (β × List RefEvent)} {k : Call} {r : Res}
    (h : Alive x) (hrest : x.conn.run = false) (hstate : x.conn.state = .asyncWait)
    (hcalm : x.Calm B (.handleTimer w)) (hc : x.conn.handleTimer B.counted w = c₁.tryWrite.2)
    (hw : c₁.writeBuf = x.conn.writeBuf ++ [r])
    (hlog : c₁.log = x.conn.log ++ ([k].map Event.call ++ [.queue r]))
    (hpend : c₁.pending = x.conn.pending) (hrun : c₁.run = x.conn.run)
    (hsound : c₁.Sound) (hbal : c₁.Balanced) (hget : r.isGet = false)
    (hitems : c₁.cacheItems = x.conn.cacheItems) (hout : c₁.state ≠ .asyncWait)
    (hwrite : x.conn.pending ≠ none → c₁.state = .write) :
    Alive (x.next B (.handleTimer w)) := by
  have hne : c₁.writeBuf ≠ [] := by
    rw [hw]
    exact List.append_ne_nil_of_right_ne_nil _ (List.cons_ne_nil _ _)
  have htry : c₁.tryWrite.2.log = c₁.log := by
    unfold Conn.tryWrite
    split
    · rfl
    · rfl
  have hnextlog : (x.conn.next B.counted (.handleTimer w)).log =
      x.conn.log ++ ([k].map Event.call ++ [.queue r]) := by
    show (x.conn.handleTimer B.counted w).log = _
    rw [hc, htry, hlog]
  have hrs : x.responses B (.handleTimer w) = [r] :=
    (responses_eq hnextlog).trans (filterMap_replies [k] r)
  have hfit := hcalm.2 r (hrs ▸ List.mem_singleton_self r)
  have hkept : Kept { x.add c₁.cacheItem r with conn := c₁ } := by
    refine kept_add h.toKept hfit hsound hbal hne ?_
    rw [hitems, hget]
    exact (List.append_nil _).symm
  have hstop {P : Prop} (hr : c₁.run = true) : P := (by cases hrest.symm.trans (hrun.symm.trans hr))
  have hbuf (i j : Option Ptr) : x.add i r = x.add j r := by
    rw [add, add, hget]
    rfl
  by_cases hp : x.conn.pending = none
  · have hconn : c₁.tryWrite.2 = { c₁ with pending := some .write, writeBuf := [] } := by
      rw [Conn.tryWrite, if_pos ⟨hpend.trans hp, hne⟩]
    have hnext : x.next B (.handleTimer w) = { x.add c₁.cacheItem r with
        conn := { c₁ with pending := some .write, writeBuf := [] }
        inFlight := (x.add c₁.cacheItem r).writeBuf, writeBuf := [] } := by
      have hc' : x.conn.next B.counted (.handleTimer w) =
          { c₁ with pending := some .write, writeBuf := [] } := hc.trans hconn
      rw [next, hrs, hc', if_pos ⟨hp, rfl⟩]
      rfl
    rw [hnext]
    have hidle : (x.add c₁.cacheItem r).inFlight = [] := h.idle (by rw [hp]; rintro ⟨⟩)
    exact ⟨hkept.sent hidle, hstop, hstop, fun _ => .inl rfl, fun hx => absurd rfl hx,
      fun _ hx => by cases hx⟩
  · have hwrites : x.conn.pending = some .write := by
      rcases hio : x.conn.pending with _ | io
      · exact absurd hio hp
      · cases io with
        | read => exact absurd hio (h.waits hstate)
        | write => rfl
    have hconn : c₁.tryWrite.2 = c₁ := by
      rw [Conn.tryWrite, if_neg fun hx => hp (hpend.symm.trans hx.1)]
    have hnext : x.next B (.handleTimer w) = { x.add c₁.cacheItem r with conn := c₁ } := by
      have hc' : x.conn.next B.counted (.handleTimer w) = c₁ := hc.trans hconn
      rw [next, hrs, hc', if_neg fun hx => hp hx.1]
      rfl
    rw [hnext]
    exact ⟨hkept, hstop, hstop, fun _ => .inr ⟨hpend.trans hwrites, hwrite hp⟩,
      fun hx => absurd (hpend.trans hwrites) hx, fun hx => absurd hx hout⟩

theorem alive_handleTimer {w : UInt32} (h : Alive x) (hrest : x.conn.run = false)
    (hstate : x.conn.state = .asyncWait) (hcalm : x.Calm B (.handleTimer w)) :
    Alive (x.next B (.handleTimer w)) := by
  have hnot : x.conn.state ≠ .readBodyExtras := fun hx => by cases hstate.symm.trans hx
  have hret : (x.conn.call B.counted (.checkWatchAndClearCallback w.toNat)).1 =
      (B.exec x.conn.mgr.1 (.checkWatchAndClearCallback w.toNat)).1 := rfl
  rcases hcall : x.conn.call B.counted (.checkWatchAndClearCallback w.toNat) with ⟨_ | out, c₁⟩
  · have hcalled := Conn.TrafficLemmas.called_call hcall rfl
    have hc₁ : c₁ = (x.conn.call B.counted (.checkWatchAndClearCallback w.toNat)).2 := by rw [hcall]
    have hc : x.conn.handleTimer B.counted w =
        (c₁.writeError (.error .watchNotFound) 0 true).tryWrite.2 := by
      rw [Conn.handleTimer, hcall]
    have hpend : c₁.pending = x.conn.pending := hcalled.pending
    refine alive_answer (k := .checkWatchAndClearCallback w.toNat) (r := .error .watchNotFound) h hrest hstate hcalm hc ?_ ?_ hpend ?_ ⟨rfl, (by rintro ⟨⟩)⟩
      ?_ rfl hcalled.items (by rintro ⟨⟩) fun _ => rfl
    · exact congrArg (· ++ [Res.error .watchNotFound]) hcalled.writeBuf
    · show c₁.log ++ [.queue (.error .watchNotFound)] = _
      rw [hcalled.log, List.append_assoc]
    · rw [hc₁]
      rfl
    · refine Conn.TrafficLemmas.balanced_same h.balanced hcalled.refs ?_
      have hout : (c₁.writeError (.error .watchNotFound) 0 true).state ≠ .readBodyExtras := (by rintro ⟨⟩)
      rw [Conn.TrafficLemmas.holding_of_not hout, Conn.TrafficLemmas.holding_of_not hnot]
      exact hcalled.items
  · have hcalled := Conn.TrafficLemmas.called_call hcall rfl
    have hc₁ : c₁ = (x.conn.call B.counted (.checkWatchAndClearCallback w.toNat)).2 := by rw [hcall]
    have hc : x.conn.handleTimer B.counted w = ({ c₁.addWriteBuf (.checkWatch out) with
        state := .newCmd, nextState := .newCmd } : Conn _).tryWrite.2 := by
      rw [Conn.handleTimer, hcall]
    -- the watch is there, so that nothing is on its way
    have hfound : (B.exec x.conn.mgr.1 (.checkWatchAndClearCallback w.toNat)).1 ≠ none := by
      rw [← hret, hcall]
      rintro ⟨⟩
    have hnone := hcalm.1 w rfl hfound
    refine alive_answer (k := .checkWatchAndClearCallback w.toNat) (r := .checkWatch out) h hrest hstate hcalm hc ?_ ?_ hcalled.pending ?_
      ⟨rfl, (by rintro ⟨⟩)⟩ ?_ rfl hcalled.items (by rintro ⟨⟩) fun hx => absurd hnone hx
    · exact congrArg (· ++ [Res.checkWatch out]) hcalled.writeBuf
    · show c₁.log ++ [.queue (.checkWatch out)] = _
      rw [hcalled.log, List.append_assoc]
    · rw [hc₁]
      rfl
    · refine Conn.TrafficLemmas.balanced_same h.balanced hcalled.refs ?_
      have hout : ({ c₁.addWriteBuf (.checkWatch out) with
        state := .newCmd, nextState := .newCmd } : Conn _).state ≠ .readBodyExtras := (by rintro ⟨⟩)
      rw [Conn.TrafficLemmas.holding_of_not hout, Conn.TrafficLemmas.holding_of_not hnot]
      exact hcalled.items

theorem alive_start (b : β) (data socket : Bytes) :
    (start b data socket).Gone ∨ Alive (start b data socket) := by
  have hkept {c : Conn (β × List RefEvent)} (hn : c.nextState.final = true)
      (hs : c.state ≠ .readBodyExtras) (hi : c.cacheItems = []) (hm : c.mgr.2 = []) :
      Kept { (start b data socket) with conn := c } := by
    refine ⟨⟨hn, fun hx => absurd hx hs⟩, fun p => ?_, fun _ => rfl, CacheBuffer.holds_reset (b := .new),
      List.nil_sublist _⟩
    rw [hm, Conn.TrafficLemmas.holding_of_not hs, hi]
    rfl
  by_cases hdata : data.length ≤ ReceiveBuffer.new.getReadBufSize
  · right
    rw [start, Conn.start, if_pos hdata]
    exact ⟨hkept rfl (by rintro ⟨⟩) rfl rfl, fun _ => rfl, fun _ _ => rfl, fun _ => .inl rfl, fun _ => rfl, (by rintro ⟨⟩)⟩
  · left
    rw [start, Conn.start, if_neg hdata]
    exact ⟨⟨rfl, rfl, (by rintro ⟨⟩)⟩, rfl⟩

/-- One step. -/
theorem alive_step {a : Action} (h : Alive x) (hperm : x.conn.Permitted a) (hcalm : x.Calm B a) :
    (x.next B a).Gone ∨ Alive (x.next B a) := by
  cases a with
  | turn n => exact alive_turn h hperm hcalm
  | handleRead n => exact .inr (alive_handleRead h hperm.1 hperm.2)
  | handleWrite => exact .inr (alive_handleWrite h hperm.1 hperm.2)
  | handleError => exact alive_handleError h hperm.1 hperm.2
  | handleTimer w => exact .inr (alive_handleTimer h hperm.1 hperm.2.1 hcalm)

end SlicesLemmas

open SlicesLemmas

/-- In a run whose steps are all `Calm` every slice is as it was handed out, until it has been
sent or the peer is destroyed with nothing on its way. -/
theorem intact_of_run {b : β} {data socket : Bytes} {t : List (Sender β × Action)} {y : Sender β}
    (hrun : Run (Step B) (start b data socket) t y) (hcalm : ∀ z ∈ t, z.1.Calm B z.2) :
    y.Gone ∨ y.Intact := by
  have hstep : ∀ z a z', z.Gone ∨ Alive z → z.Calm B a ∧ z.Step B a z' → z'.Gone ∨ Alive z' := by
    rintro z a z' (hgone | halive) ⟨hc, hperm, rfl⟩
    · exact absurd hgone.1 (Conn.ConnectionLemmas.not_dead_of_permitted hperm)
    · exact alive_step halive hperm hc
  rcases (hrun.restrict hcalm).invariant hstep (alive_start b data socket) with hgone | halive
  · exact .inl hgone
  · exact .inr halive.toKept.intact

/-- `CREATE_WATCH`, `CHECK_WATCH` for this watch, and `FLUSH`, in one read. -/
def watching : Sender (CacheMgr × Nat) :=
  start ((Sys.small .uint16).mgr, 0)
    ((⟨.createWatch 0 10, [], Conn.no_extras⟩ : Request).encode ++
      (⟨.checkWatch 0 1 100 10 0, [], Conn.no_extras⟩ : Request).encode ++ Conn.flushRequest.encode) []

/-- The response to `CREATE_WATCH` has been sent when the timer finds the watch. -/
theorem intact_after_timer :
    let as : List Action := List.replicate 7 (.turn 0) ++
      [.handleWrite, .turn 0, .handleTimer 1, .handleWrite, .turn 0, .turn 0, .turn 0]
    let y := as.foldl (next Conn.smallBackend) watching
    y.writeBuf ≠ [] ∧ (y.Gone ∨ y.Intact) := by
  intro as y
  let quiet (x : Sender (CacheMgr × Nat)) : Action → Bool
    | .handleTimer _ => x.conn.pending = none
    | _ => true
  have hok : Admitted (fun (x : Sender (CacheMgr × Nat)) a => x.conn.Permitted a ∧
      (quiet x a = true ∧ ∀ r ∈ x.responses Conn.smallBackend a,
        x.cacheBuf.totalSize + r.encodeSize < 2 ^ 32)) (next Conn.smallBackend) watching as := by
    decide +kernel
  obtain ⟨t, ht, hcalm⟩ := hok.run_of_and
  have hqueued : y.writeBuf ≠ [] := by decide +kernel
  have hreach : Run (Step Conn.smallBackend) watching t y := ht
  clear_value y
  refine ⟨hqueued, intact_of_run Conn.smallBackend hreach fun z hz => ?_⟩
  obtain ⟨hq, hfit⟩ := hcalm z hz
  refine ⟨fun w hw _ => ?_, hfit⟩
  rw [hw] at hq
  exact of_decide_eq_true hq

/-- The timer finds the watch while the response to `CREATE_WATCH` is on its way: the list of
`CHECK_WATCH` waits in `write_buf_` while `reset_for_new_cmd` takes `cache_buf_` back, and the
response to `FLUSH` is written over it. -/
theorem overlap_after_timer :
    let as : List Action := List.replicate 7 (.turn 0) ++
      [.handleTimer 1, .handleWrite, .turn 0, .turn 0, .turn 0]
    let y := as.foldl (next Conn.smallBackend) watching
    (∃ t, Run (Step Conn.smallBackend) watching t y) ∧ ¬ y.conn.Dead ∧ ¬ y.Intact := by
  intro as y
  have hok : Admitted (fun (x : Sender (CacheMgr × Nat)) a => x.conn.Permitted a)
      (next Conn.smallBackend) watching as := by
    decide +kernel
  have hrun : y.conn.run = true := by decide +kernel
  have hslices : Slice.regions (y.inFlight ++ y.writeBuf) = [⟨0, 6, 10⟩, ⟨0, 0, 14⟩] := by
    decide +kernel
  have hthere : ¬ y.conn.Dead := fun hdead => nomatch hrun.symm.trans hdead.1
  refine ⟨hok.run, hthere, fun h => ?_⟩
  have hapart := h.apart
  rw [hslices] at hapart
  exact absurd hapart (by decide)

end Sender
end Xixi.PeerCache
