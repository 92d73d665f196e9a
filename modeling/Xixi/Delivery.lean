import Xixi.Lib.Run
import Xixi.Watch

/-!
# Delivery of notifications (`Cache_Watch`)

One watch, its client, and a network between them that may lose, delay, duplicate and
reorder requests and responses: what has been sent once can arrive any number of
times, at any later moment, or never.

1. `CacheWatch.Holds w pend wait`: the two queues of a watch as lists of notifications.
2. `checkAndSetCallback_cases`, `checkAndClearCallback_cases`: what a check does to them.
3. `Net`, `Net.Step`: the protocol.
4. `delivered_of_run`: no notification is lost, and batches keep their order.
-/

namespace Xixi

open Lib

/-- A cache id and the reason why its holder is told. -/
abbrev Note := Nat × NotifyType

/-! ## What a check does -/

/-- The queues of the watch: `pend` is still to be sent, `wait` has been sent and is not
acknowledged. The two lists of a queue have the same length and matching positions. -/
structure CacheWatch.Holds (w : CacheWatch) (pend wait : List Note) : Prop where
  updatedList : w.updatedList = pend.map Prod.fst
  updatedTypeList : w.updatedTypeList = pend.map Prod.snd
  waitUpdatedList : w.waitUpdatedList = wait.map Prod.fst
  waitUpdatedTypeList : w.waitUpdatedTypeList = wait.map Prod.snd

/-- The response holds the notifications `b`. -/
structure CheckOut.Carries (r : CheckOut) (b : List Note) : Prop where
  updatedList : r.updatedList = b.map Prod.fst
  updatedTypeList : r.updatedTypeList = b.map Prod.snd

namespace DeliveryLemmas

variable {w w' : CacheWatch} {pend wait b : List Note} {alive : Sink → Bool} {sp : Sink}
  {ack expireTime : Nat} {r : CheckOut} {sink : Option Sink}

theorem holds_new (watchId expireTime : Nat) : (CacheWatch.new watchId expireTime).Holds [] [] :=
  ⟨rfl, rfl, rfl, rfl⟩

theorem holds_notifyWatch (h : w.Holds pend wait) (alive : Sink → Bool) (x : Nat) (t : NotifyType) :
    (w.notifyWatch alive x t).1.Holds (pend ++ [(x, t)]) wait := by
  have hq : w.updatedList ++ [x] = (pend ++ [(x, t)]).map Prod.fst := by
    rw [h.updatedList, List.map_append]
    rfl
  have ht : w.updatedTypeList ++ [t] = (pend ++ [(x, t)]).map Prod.snd := by
    rw [h.updatedTypeList, List.map_append]
    rfl
  unfold CacheWatch.notifyWatch
  dsimp only
  split
  · exact ⟨hq, ht, h.waitUpdatedList, h.waitUpdatedTypeList⟩
  · exact ⟨hq, ht, h.waitUpdatedList, h.waitUpdatedTypeList⟩

theorem sequence_notifyWatch (w : CacheWatch) (alive : Sink → Bool) (x : Nat) (t : NotifyType) :
    (w.notifyWatch alive x t).1.sequence = w.sequence := by
  unfold CacheWatch.notifyWatch
  dsimp only
  split <;> rfl

/-- The pending notifications have become the batch `pend` with the number `n`. -/
structure Batched (n : Nat) (w' : CacheWatch) (r : CheckOut) (pend : List Note) : Prop where
  nonempty : pend ≠ []
  holds : w'.Holds [] pend
  sequence : w'.sequence = n
  carries : r.Carries pend
  answer : r.sequence = some n

/-- Nothing is sent; the last batch was `n`. -/
structure Idle (n : Nat) (w' : CacheWatch) (r : CheckOut) (pend wait : List Note) : Prop where
  holds : w'.Holds pend wait
  sequence : w'.sequence = n
  carries : r.Carries []

theorem holds_swapBatch (h : w.Holds pend []) : w.swapBatch.Holds [] pend :=
  ⟨h.waitUpdatedList, h.waitUpdatedTypeList, h.updatedList, h.updatedTypeList⟩

/-- The rest of a check, once no batch is outstanding. -/
theorem check_rest (h : w.Holds pend [])
    (hc : (if 0 < w.updatedList.length then
        (w.swapBatch, (⟨some w.nextSequence, w.updatedList, w.updatedTypeList⟩ : CheckOut),
          (none : Option Sink))
      else ({ w with wp := some sp }, ⟨some 0, [], []⟩, w.lock alive)) = (w', r, sink)) :
    Batched w.nextSequence w' r pend ∨ (pend = [] ∧ Idle w.sequence w' r [] []) := by
  by_cases hp : 0 < w.updatedList.length
  · rw [if_pos hp] at hc
    obtain ⟨rfl, hr⟩ := Prod.mk.inj hc
    obtain ⟨rfl, -⟩ := Prod.mk.inj hr
    refine .inl ⟨?_, holds_swapBatch h, rfl, ⟨h.updatedList, h.updatedTypeList⟩, rfl⟩
    rintro rfl
    rw [h.updatedList] at hp
    exact nomatch hp
  · rw [if_neg hp] at hc
    obtain ⟨rfl, hr⟩ := Prod.mk.inj hc
    obtain ⟨rfl, -⟩ := Prod.mk.inj hr
    have hpend : pend = [] := by
      rw [h.updatedList, List.length_map] at hp
      exact List.eq_nil_of_length_eq_zero (Nat.eq_zero_of_not_pos hp)
    subst hpend
    exact .inr ⟨rfl, ⟨h.updatedList, h.updatedTypeList, h.waitUpdatedList, h.waitUpdatedTypeList⟩, rfl,
      ⟨rfl, rfl⟩⟩

end DeliveryLemmas

open DeliveryLemmas

/-- A check sends an unacknowledged batch again; otherwise what is pending becomes the next
batch. -/
theorem checkAndSetCallback_cases {w w' : CacheWatch} {pend wait : List Note} {alive : Sink → Bool}
    {sp : Sink} {ack expireTime : Nat} {r : CheckOut} {sink : Option Sink} (h : w.Holds pend wait)
    (hc : w.checkAndSetCallback alive sp ack expireTime = (w', r, sink)) :
    (wait ≠ [] ∧ ack ≠ w.sequence ∧ w'.Holds pend wait ∧ w'.sequence = w.sequence ∧
      r.Carries wait ∧ r.sequence = some w.sequence) ∨
    ((wait = [] ∨ ack = w.sequence) ∧
      (Batched w.nextSequence w' r pend ∨ (pend = [] ∧ Idle w.sequence w' r [] []))) := by
  have hempty : w.waitUpdatedList.isEmpty = wait.isEmpty := by
    rw [h.waitUpdatedList, List.isEmpty_map]
  unfold CacheWatch.checkAndSetCallback at hc
  dsimp only at hc
  rw [hempty] at hc
  cases wait with
  | nil =>
    refine .inr ⟨.inl rfl, ?_⟩
    rw [if_neg (by simp)] at hc
    exact check_rest (w := { w with expireTime := expireTime })
      ⟨h.updatedList, h.updatedTypeList, h.waitUpdatedList, h.waitUpdatedTypeList⟩ hc
  | cons n ns =>
    by_cases hack : ack = w.sequence
    · refine .inr ⟨.inr hack, ?_⟩
      rw [if_neg (by simp [hack])] at hc
      exact check_rest (w := { w with
          expireTime := expireTime
          waitUpdatedList := []
          waitUpdatedTypeList := [] })
        ⟨h.updatedList, h.updatedTypeList, rfl, rfl⟩ hc
    · rw [if_pos (by simp [hack])] at hc
      obtain ⟨rfl, hr⟩ := Prod.mk.inj hc
      obtain ⟨rfl, -⟩ := Prod.mk.inj hr
      exact .inl ⟨nofun, hack, ⟨h.updatedList, h.updatedTypeList, h.waitUpdatedList,
        h.waitUpdatedTypeList⟩, rfl, ⟨h.waitUpdatedList, h.waitUpdatedTypeList⟩, rfl⟩

/-- The timer sends what is pending, unless a batch is outstanding. -/
theorem checkAndClearCallback_cases {w w' : CacheWatch} {pend wait : List Note}
    {alive : Sink → Bool} {sp : Sink} {r : CheckOut} (h : w.Holds pend wait)
    (hc : w.checkAndClearCallback alive sp = (w', r)) :
    (wait = [] ∧ Batched w.nextSequence w' r pend) ∨ Idle w.sequence w' r pend wait := by
  unfold CacheWatch.checkAndClearCallback at hc
  split at hc
  · split at hc
    · next hp =>
      obtain ⟨rfl, rfl⟩ := Prod.mk.inj hc
      have hwait : wait = [] := by
        have := hp.2
        rw [h.waitUpdatedList, List.isEmpty_map, List.isEmpty_iff] at this
        exact this
      subst hwait
      have hs := holds_swapBatch h
      refine .inl ⟨rfl, ?_, ⟨hs.updatedList, hs.updatedTypeList, hs.waitUpdatedList,
        hs.waitUpdatedTypeList⟩, rfl, ⟨h.updatedList, h.updatedTypeList⟩, rfl⟩
      rintro rfl
      rw [h.updatedList] at hp
      exact nomatch hp.1
    · obtain ⟨rfl, rfl⟩ := Prod.mk.inj hc
      exact .inr ⟨⟨h.updatedList, h.updatedTypeList, h.waitUpdatedList, h.waitUpdatedTypeList⟩, rfl,
        ⟨rfl, rfl⟩⟩
  · obtain ⟨rfl, rfl⟩ := Prod.mk.inj hc
    exact .inr ⟨h, rfl, ⟨rfl, rfl⟩⟩

/-! ## The protocol -/

def CacheWatch.pending (w : CacheWatch) : List Note := w.updatedList.zip w.updatedTypeList

def CacheWatch.waiting (w : CacheWatch) : List Note := w.waitUpdatedList.zip w.waitUpdatedTypeList

def CheckOut.notes (r : CheckOut) : List Note := r.updatedList.zip r.updatedTypeList

/-- The watch, the acknowledgements and responses sent so far, and the responses that
the client has received. `notified` and `batches` are history: what was ever passed
to `notify_watch`, and the batches that were formed. -/
structure Net where
  watch : CacheWatch
  requests : List Nat
  responses : List CheckOut
  received : List CheckOut
  notified : List Note
  batches : List (List Note)

namespace Net

inductive Event
  | notify (alive : Sink → Bool) (cacheId : Nat) (type : NotifyType)
  | send (ack : Nat)
  | check (alive : Sink → Bool) (sp : Sink) (ack expireTime : Nat)
  | timeout (alive : Sink → Bool) (sp : Sink)
  | receive (r : CheckOut)

/-- The watch answers; a new sequence number goes with a new batch. -/
def answer (x : Net) (w : CacheWatch) (r : CheckOut) : Net :=
  { x with
    watch := w
    responses := x.responses ++ [r]
    batches := if w.sequence = x.watch.sequence then x.batches else x.batches ++ [w.waiting] }

def next (x : Net) : Event → Net
  | .notify alive id type =>
    { x with
      watch := (x.watch.notifyWatch alive id type).1
      notified := x.notified ++ [(id, type)] }
  | .send ack => { x with requests := x.requests ++ [ack] }
  | .check alive sp ack expireTime =>
    let (w, r, _) := x.watch.checkAndSetCallback alive sp ack expireTime
    x.answer w r
  | .timeout alive sp =>
    let (w, r) := x.watch.checkAndClearCallback alive sp
    x.answer w r
  | .receive r => { x with received := x.received ++ [r] }

/-- The client acknowledges nothing or a batch that it has received; a request or
response arrives that has been sent. -/
def Permitted (x : Net) : Event → Prop
  | .send ack => ack = 0 ∨ ∃ r ∈ x.received, r.updatedList ≠ [] ∧ r.sequence = some ack
  | .check _ _ ack _ => ack ∈ x.requests
  | .receive r => r ∈ x.responses
  | _ => True

instance (x : Net) : (e : Event) → Decidable (x.Permitted e)
  | .send ack => inferInstanceAs (Decidable (ack = 0 ∨ ∃ r ∈ x.received, _))
  | .check _ _ ack _ => inferInstanceAs (Decidable (ack ∈ x.requests))
  | .receive r => inferInstanceAs (Decidable (r ∈ x.responses))
  | .notify .. | .timeout .. => .isTrue trivial

def Step (x : Net) (e : Event) (y : Net) : Prop := x.Permitted e ∧ y = x.next e

def start (watchId expireTime : Nat) : Net := ⟨.new watchId expireTime, [], [], [], [], []⟩

end Net

/-- Nothing that was notified is lost; batches and queues are parts of the sequence of
notifications; the two lists of a queue match. -/
structure Delivered (x : Net) : Prop where
  kept : ∀ n ∈ x.notified, n ∈ x.watch.pending ∨ n ∈ x.watch.waiting ∨ ∃ r ∈ x.received, n ∈ r.notes
  order : ∀ r ∈ x.received, r.notes <:+: x.notified
  pending : x.watch.updatedList.length = x.watch.updatedTypeList.length ∧
    x.watch.pending <:+: x.notified
  waiting : x.watch.waitUpdatedList.length = x.watch.waitUpdatedTypeList.length ∧
    x.watch.waiting <:+: x.notified

/-- The invariant of the protocol: the sequence number counts the batches, the batches and
what is pending make up all notifications, a response with the number `n + 1` carries
the batch `n`, and every batch is received or waits. -/
structure NetInv (x : Net) (pend wait : List Note) : Prop where
  holds : x.watch.Holds pend wait
  sequence : x.watch.sequence = x.batches.length
  notified : x.notified = x.batches.flatten ++ pend
  waiting : wait = [] ∨ x.batches.getLast? = some wait
  nonempty : ∀ b ∈ x.batches, b ≠ []
  responses : ∀ r ∈ x.responses, r.Carries [] ∨
    ∃ n b, r.Carries b ∧ r.sequence = some (n + 1) ∧ x.batches[n]? = some b
  received : ∀ r ∈ x.received, r ∈ x.responses
  requests : ∀ a ∈ x.requests, a = 0 ∨ ∃ r ∈ x.received, r.updatedList ≠ [] ∧ r.sequence = some a
  delivered : ∀ b ∈ x.batches, b = wait ∨ ∃ r ∈ x.received, r.Carries b

namespace DeliveryLemmas

variable {x y : Net} {pend wait b : List Note} {w : CacheWatch} {r : CheckOut} {e : Net.Event}

theorem zip_map_fst_snd (l : List Note) : (l.map Prod.fst).zip (l.map Prod.snd) = l := by
  rw [List.zip_map']
  exact List.map_id _

theorem pending_eq (h : w.Holds pend wait) : w.pending = pend := by
  rw [CacheWatch.pending, h.updatedList, h.updatedTypeList, zip_map_fst_snd]

theorem waiting_eq (h : w.Holds pend wait) : w.waiting = wait := by
  rw [CacheWatch.waiting, h.waitUpdatedList, h.waitUpdatedTypeList, zip_map_fst_snd]

theorem notes_eq (h : r.Carries b) : r.notes = b := by
  rw [CheckOut.notes, h.updatedList, h.updatedTypeList, zip_map_fst_snd]

theorem nextSequence_eq (h : w.sequence < 2 ^ 32 - 1) : w.nextSequence = w.sequence + 1 := by
  have hmod : (w.sequence + 1) % 2 ^ 32 = w.sequence + 1 := Nat.mod_eq_of_lt (by omega)
  rw [CacheWatch.nextSequence, hmod, if_neg (Nat.succ_ne_zero _)]

/-- The batch that the current sequence number acknowledges has been received. -/
theorem received_of_ack {ack : Nat} (h : NetInv x pend wait) (hwait : wait ≠ [])
    (hack : ack ∈ x.requests) (heq : ack = x.watch.sequence) : ∃ r ∈ x.received, r.Carries wait := by
  have hlast := h.waiting.resolve_left hwait
  have hlen : x.batches ≠ [] := by
    intro hnil
    rw [hnil] at hlast
    exact nomatch hlast
  have hpos := List.length_pos_iff.mpr hlen
  rw [h.sequence] at heq
  rcases h.requests ack hack with h0 | ⟨r, hr, hne, hseq⟩
  · omega
  · rcases h.responses r (h.received r hr) with hempty | ⟨n, b, hb, hn, hget⟩
    · exact absurd hempty.updatedList hne
    · rw [hseq] at hn
      have hn : ack = n + 1 := Option.some.inj hn
      have hidx : n = x.batches.length - 1 := by omega
      rw [List.getLast?_eq_getElem?, ← hidx, hget] at hlast
      exact ⟨r, hr, Option.some.inj hlast ▸ hb⟩

/-- An answer without a new batch. -/
theorem netInv_idle {pend' wait' : List Note} (h : NetInv x pend wait) (hw : w.Holds pend' wait')
    (hpend : pend' = pend) (hseq : w.sequence = x.watch.sequence)
    (hr : r.Carries [] ∨ ∃ n b, r.Carries b ∧ r.sequence = some (n + 1) ∧ x.batches[n]? = some b)
    (hwait : wait' = wait ∨ (wait' = [] ∧ ∀ b ∈ x.batches, ∃ r ∈ x.received, r.Carries b)) :
    NetInv (x.answer w r) pend' wait' := by
  subst hpend
  have hb : (x.answer w r).batches = x.batches := if_pos hseq
  refine ⟨hw, ?_, ?_, ?_, ?_, fun r' hr' => ?_, fun r' hr' => ?_, h.requests, fun b hm => ?_⟩
  · rw [hb]
    exact hseq.trans h.sequence
  · rw [hb]
    exact h.notified
  · rw [hb]
    rcases hwait with rfl | ⟨hnil, -⟩
    · exact h.waiting
    · exact .inl hnil
  · rw [hb]
    exact h.nonempty
  · rw [hb]
    rcases List.mem_append.mp hr' with hr' | hr'
    · exact h.responses r' hr'
    · obtain rfl := List.mem_singleton.mp hr'
      exact hr
  · exact List.mem_append_left _ (h.received r' hr')
  · rw [hb] at hm
    rcases hwait with rfl | ⟨-, hall⟩
    · exact h.delivered b hm
    · exact .inr (hall b hm)

/-- An answer with a new batch, when all earlier ones have been received. -/
theorem netInv_batch (h : NetInv x pend wait) (hbound : x.watch.sequence < 2 ^ 32 - 1)
    (hw : Batched x.watch.nextSequence w r pend)
    (hall : ∀ b ∈ x.batches, ∃ r ∈ x.received, r.Carries b) : NetInv (x.answer w r) [] pend := by
  have hnext := nextSequence_eq hbound
  have hne : w.sequence ≠ x.watch.sequence := by
    rw [hw.sequence, hnext]
    omega
  have hb : (x.answer w r).batches = x.batches ++ [pend] := by
    show (if w.sequence = x.watch.sequence then x.batches else x.batches ++ [w.waiting]) = _
    rw [if_neg hne, waiting_eq hw.holds]
  refine ⟨hw.holds, ?_, ?_, .inr ?_, ?_, fun r' hr' => ?_, fun r' hr' => ?_, h.requests, fun b hm => ?_⟩
  · rw [hb, List.length_append, ← h.sequence]
    exact hw.sequence.trans hnext
  · rw [hb, List.flatten_append, List.flatten_singleton, List.append_nil]
    exact h.notified
  · rw [hb]
    exact List.getLast?_concat
  · rw [hb]
    intro b hm
    rcases List.mem_append.mp hm with hm | hm
    · exact h.nonempty b hm
    · rw [List.mem_singleton.mp hm]
      exact hw.nonempty
  · rw [hb]
    rcases List.mem_append.mp hr' with hr' | hr'
    · rcases h.responses r' hr' with hempty | ⟨n, b, hcar, hn, hget⟩
      · exact .inl hempty
      · refine .inr ⟨n, b, hcar, hn, ?_⟩
        rw [List.getElem?_append_left (List.getElem?_eq_some_iff.mp hget).1]
        exact hget
    · obtain rfl := List.mem_singleton.mp hr'
      refine .inr ⟨x.batches.length, pend, hw.carries, ?_, List.getElem?_concat_length⟩
      rw [hw.answer, hnext, h.sequence]
  · exact List.mem_append_left _ (h.received r' hr')
  · rw [hb] at hm
    rcases List.mem_append.mp hm with hm | hm
    · exact .inr (hall b hm)
    · exact .inl (List.mem_singleton.mp hm)

/-- When nothing waits, or what waits is received, all batches are received. -/
theorem all_received (h : NetInv x pend wait) (hr : wait = [] ∨ ∃ r ∈ x.received, r.Carries wait) :
    ∀ b ∈ x.batches, ∃ r ∈ x.received, r.Carries b := by
  intro b hb
  rcases h.delivered b hb with rfl | hdone
  · exact hr.resolve_left (h.nonempty b hb)
  · exact hdone

theorem batches_le_next (x : Net) (e : Net.Event) : x.batches.length ≤ (x.next e).batches.length := by
  have hanswer : ∀ w r, x.batches.length ≤ (x.answer w r).batches.length := by
    intro w r
    simp only [Net.answer]
    split
    · exact Nat.le_refl _
    · rw [List.length_append]
      omega
  cases e with
  | check alive sp ack expireTime => exact hanswer _ _
  | timeout alive sp => exact hanswer _ _
  | _ => exact Nat.le_refl _

theorem netInv_check {alive : Sink → Bool} {sp : Sink} {ack expireTime : Nat}
    (h : NetInv x pend wait) (hack : ack ∈ x.requests) (hbound : x.watch.sequence < 2 ^ 32 - 1) :
    ∃ pend' wait', NetInv (x.next (.check alive sp ack expireTime)) pend' wait' := by
  obtain ⟨w, r, sink, hc⟩ : ∃ w r sink,
    x.watch.checkAndSetCallback alive sp ack expireTime = (w, r, sink) := ⟨_, _, _, rfl⟩
  have hnext : x.next (.check alive sp ack expireTime) = x.answer w r := by
    simp only [Net.next, hc]
  rw [hnext]
  rcases checkAndSetCallback_cases h.holds hc with
    ⟨hwait, -, hw, hseq, hcar, hans⟩ | ⟨hdone, hrest⟩
  · -- the outstanding batch again
    refine ⟨pend, wait, netInv_idle h hw rfl hseq (.inr ?_) (.inl rfl)⟩
    have hlast := h.waiting.resolve_left hwait
    have hlen : 0 < x.batches.length := by
      refine List.length_pos_iff.mpr fun hnil => ?_
      rw [hnil] at hlast
      exact nomatch hlast
    rw [List.getLast?_eq_getElem?] at hlast
    refine ⟨x.batches.length - 1, wait, hcar, ?_, hlast⟩
    rw [hans, h.sequence, Nat.sub_add_cancel hlen]
  · have hall : ∀ b ∈ x.batches, ∃ r ∈ x.received, r.Carries b := by
      refine all_received h ?_
      by_cases hwait : wait = []
      · exact .inl hwait
      · exact .inr (received_of_ack h hwait hack (hdone.resolve_left hwait))
    rcases hrest with hbatch | ⟨rfl, hidle⟩
    · exact ⟨[], pend, netInv_batch h hbound hbatch hall⟩
    · exact ⟨[], [], netInv_idle h hidle.holds rfl hidle.sequence (.inl hidle.carries)
        (.inr ⟨rfl, hall⟩)⟩

theorem netInv_timeout {alive : Sink → Bool} {sp : Sink} (h : NetInv x pend wait)
    (hbound : x.watch.sequence < 2 ^ 32 - 1) :
    ∃ pend' wait', NetInv (x.next (.timeout alive sp)) pend' wait' := by
  obtain ⟨w, r, hc⟩ : ∃ w r, x.watch.checkAndClearCallback alive sp = (w, r) := ⟨_, _, rfl⟩
  have hnext : x.next (.timeout alive sp) = x.answer w r := by
    simp only [Net.next, hc]
  rw [hnext]
  rcases checkAndClearCallback_cases h.holds hc with ⟨hwait, hbatch⟩ | hidle
  · exact ⟨[], pend, netInv_batch h hbound hbatch (all_received h (.inl hwait))⟩
  · exact ⟨pend, wait, netInv_idle h hidle.holds rfl hidle.sequence (.inl hidle.carries) (.inl rfl)⟩

/-- One step of the protocol, while the sequence number does not wrap around. -/
theorem netInv_step (h : NetInv x pend wait) (hbound : x.watch.sequence < 2 ^ 32 - 1)
    (hs : x.Step e y) : ∃ pend' wait', NetInv y pend' wait' := by
  obtain ⟨hperm, rfl⟩ := hs
  cases e with
  | notify alive id type =>
    refine ⟨pend ++ [(id, type)], wait, holds_notifyWatch h.holds alive id type, ?_, ?_, h.waiting,
      h.nonempty, h.responses, h.received, h.requests, h.delivered⟩
    · exact (sequence_notifyWatch ..).trans h.sequence
    · show x.notified ++ [(id, type)] = _
      rw [h.notified, List.append_assoc]
      rfl
  | send ack =>
    refine ⟨pend, wait, h.holds, h.sequence, h.notified, h.waiting, h.nonempty, h.responses, h.received,
      fun a ha => ?_, h.delivered⟩
    rcases List.mem_append.mp ha with ha | ha
    · exact h.requests a ha
    · rw [List.mem_singleton.mp ha]
      exact hperm
  | check alive sp ack expireTime => exact netInv_check h hperm hbound
  | timeout alive sp => exact netInv_timeout h hbound
  | receive r =>
    refine ⟨pend, wait, h.holds, h.sequence, h.notified, h.waiting, h.nonempty, h.responses,
      fun r' hr' => ?_, fun a ha => ?_, fun b hb => ?_⟩
    · rcases List.mem_append.mp hr' with hr' | hr'
      · exact h.received r' hr'
      · rw [List.mem_singleton.mp hr']
        exact hperm
    · rcases h.requests a ha with h0 | ⟨r', hr', hne⟩
      · exact .inl h0
      · exact .inr ⟨r', List.mem_append_left _ hr', hne⟩
    · rcases h.delivered b hb with hw | ⟨r', hr', hcar⟩
      · exact .inl hw
      · exact .inr ⟨r', List.mem_append_left _ hr', hcar⟩

theorem infix_of_batch (h : NetInv x pend wait) (hb : b ∈ x.batches) : b <:+: x.notified := by
  rw [h.notified]
  exact (List.infix_of_mem_flatten hb).trans (List.prefix_append _ _).isInfix

theorem delivered_of_netInv (h : NetInv x pend wait) : Delivered x := by
  refine ⟨fun n hn => ?_, fun r hr => ?_, ⟨?_, ?_⟩, ⟨?_, ?_⟩⟩
  · rw [h.notified] at hn
    rw [pending_eq h.holds, waiting_eq h.holds]
    rcases List.mem_append.mp hn with hn | hn
    · obtain ⟨b, hb, hn⟩ := List.mem_flatten.mp hn
      rcases h.delivered b hb with rfl | ⟨r, hr, hcar⟩
      · exact .inr (.inl hn)
      · exact .inr (.inr ⟨r, hr, by rw [notes_eq hcar]; exact hn⟩)
    · exact .inl hn
  · rcases h.responses r (h.received r hr) with hempty | ⟨n, b, hcar, -, hget⟩
    · rw [notes_eq hempty]
      exact List.nil_infix
    · rw [notes_eq hcar]
      exact infix_of_batch h (List.mem_of_getElem? hget)
  · rw [h.holds.updatedList, h.holds.updatedTypeList, List.length_map, List.length_map]
  · rw [pending_eq h.holds, h.notified]
    exact (List.suffix_append _ _).isInfix
  · rw [h.holds.waitUpdatedList, h.holds.waitUpdatedTypeList, List.length_map, List.length_map]
  · rw [waiting_eq h.holds]
    rcases h.waiting with rfl | hlast
    · exact List.nil_infix
    · exact infix_of_batch h (List.mem_of_getLast? hlast)

end DeliveryLemmas

/-- At-least-once delivery, in every run in which fewer than 2^32 - 1 batches are formed. -/
theorem delivered_of_run {watchId expireTime : Nat} {t : List (Net × Net.Event)} {x : Net}
    (h : Run Net.Step (Net.start watchId expireTime) t x) (hb : x.batches.length < 2 ^ 32 - 1) :
    Delivered x := by
  have hinv := h.invariant
    (I := fun x => x.batches.length < 2 ^ 32 - 1 → ∃ pend wait, NetInv x pend wait)
    (fun x e y hx hs hy => ?_) (fun _ => ?_)
  · obtain ⟨pend, wait, hinv⟩ := hinv hb
    exact delivered_of_netInv hinv
  · have hle := batches_le_next x e
    rw [hs.2] at hy
    have hlt := Nat.lt_of_le_of_lt hle hy
    obtain ⟨pend, wait, hinv⟩ := hx hlt
    exact netInv_step hinv (by rw [hinv.sequence]; exact hlt) hs
  · exact ⟨[], [], holds_new .., rfl, rfl, .inl rfl, nofun, nofun, nofun, nofun, nofun⟩

/-- Two notifications, the second while the first is on its way; the first response is lost
and asked for again before it is acknowledged. -/
def resent : List Net.Event :=
  [.notify (fun _ => true) 7 .dataUpdated, .send 0, .check (fun _ => true) 3 0 60,
    .notify (fun _ => true) 8 .deleted, .check (fun _ => true) 3 0 60,
    .receive ⟨some 1, [7], [.dataUpdated]⟩, .send 1, .check (fun _ => true) 3 1 60,
    .receive ⟨some 2, [8], [.deleted]⟩]

theorem delivered_resent : Delivered (resent.foldl Net.next (Net.start 1 60)) := by
  have hok : Admitted Net.Permitted Net.next (Net.start 1 60) resent := by decide
  obtain ⟨t, ht⟩ := hok.run
  exact delivered_of_run ht (by decide)

end Xixi
