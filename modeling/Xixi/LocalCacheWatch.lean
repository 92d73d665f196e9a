import Xixi.Delivery
import Xixi.Manager

/-!
# The client's side of the watch protocol (`LocalCacheWatch`, `Peer_Cache`)

The loop `LocalCacheWatch.run` of any number of clients against the server's
watches: `createWatch`, `checkWatch` with one retry, `clear` when both fail. A call may
be lost on either way, a request may arrive late, and watches expire on the server.
The acknowledgement that a client sends is a bare number, so the history records
which watch it was obtained from.

1. `Watching`, `Watching.next`: the clients, the server and what is in flight.
2. `Watching.Inv`: a batch is named by its watch and number, and an acknowledgement
   by the batch that `update` has processed.
3. `acknowledged_of_run`: the server discharges a batch only after the client that
   acknowledges it has processed it, as long as no acknowledgement of another watch
   arrives while a batch with the same number is outstanding.
-/

namespace Xixi

open Lib DeliveryLemmas

/-! ## The client -/

/-- The places of `LocalCacheWatch.run`: the two loop conditions, the calls, and the test
after the first failed check. -/
inductive Pc
  | top
  | select
  | creating (call : Nat)
  | checking (call : Nat)
  | failed
  | rechecking (call : Nat)
  | stopped
deriving DecidableEq, Repr

/-- The fields of `LocalCacheWatch` that `run` works with. `ackFrom` is history: the watch
that `ackSequence` was obtained from. -/
structure LocalCacheWatch where
  groupId : Nat
  watchId : Nat
  ackSequence : Nat
  runFlag : Bool
  pc : Pc
  ackFrom : Option Nat
deriving DecidableEq

namespace LocalCacheWatch

def new (groupId : Nat) : LocalCacheWatch := ⟨groupId, 0, 0, true, .top, none⟩

/-- `clear`: the acknowledgement stays. -/
def clear (c : LocalCacheWatch) : LocalCacheWatch := { c with watchId := 0, pc := .top }

def shutdown (c : LocalCacheWatch) : LocalCacheWatch := { c with runFlag := false, watchId := 0 }

/-- What `run` does with a batch of the watch `watch`, besides calling `update`. -/
def acknowledge (c : LocalCacheWatch) (watch sequence : Nat) : LocalCacheWatch :=
  { c with ackSequence := sequence, ackFrom := some watch, pc := .top }

/-- `checkWatch` has returned null. -/
def checkFailed (c : LocalCacheWatch) : LocalCacheWatch :=
  match c.pc with
  | .checking _ => { c with pc := .failed }
  | .rechecking _ => c.clear
  | _ => c

/-- The check with this number is the one the client waits for. -/
def awaits (c : LocalCacheWatch) (call : Nat) : Bool :=
  c.pc == .checking call || c.pc == .rechecking call

end LocalCacheWatch

/-! ## The calls -/

/-- A request of `checkWatch` on the connection `sp`. -/
structure Check where
  client : Nat
  call : Nat
  sp : Sink
  groupId : Nat
  watchId : Nat
  ackSequence : Nat
  ackFrom : Option Nat
deriving DecidableEq

/-- The response to a check; `none` is an error. `watch` is history: who answered. -/
structure Answer where
  call : Nat
  watch : Nat
  result : Option CheckOut
deriving DecidableEq

/-- A batch: its watch, its number and its cache ids, and the client that processed it or
whose check discharged it. -/
structure Batch where
  client : Nat
  watch : Nat
  sequence : Nat
  cacheIds : List Nat
deriving DecidableEq

/-- The clients, the server and what is in flight. `asleep` are the checks whose
connections wait in `PEER_STATUS_ASYNC_WAIT`. The rest is history: `born` numbers the
watches in the order of their creation, `processed` are the batches that `update` has
seen and `discharged` those that the server has cleared. -/
structure Watching where
  server : CacheMgr
  client : Nat → LocalCacheWatch
  calls : Nat
  creates : List (Nat × Nat)
  created : List (Nat × Nat)
  checks : List Check
  asleep : List Check
  answers : List Answer
  born : Nat → Nat
  births : Nat
  processed : List Batch
  discharged : List Batch

namespace Watching

inductive Event
  | notify (cacheId : Nat) (type : NotifyType) (watchIds : List Nat)
  | setCurrentTime (tt : Nat)
  | expireWatchs
  | connections (alive : Sink → Bool)
  | run (c : Nat) (sp : Sink)
  | arriveCreate (c call : Nat)
  | createReturns (c call watchId : Nat)
  | createFails (c call : Nat)
  | arriveCheck (q : Check)
  | handleTimer (q : Check)
  | checkReturns (c : Nat) (a : Answer)
  | checkFails (c call : Nat)
  | shutdown (c : Nat)

def setClient (x : Watching) (c : Nat) (cl : LocalCacheWatch) : Watching :=
  { x with client := Function.update x.client c cl }

/-- `createWatch` sends its request. -/
def sendCreate (x : Watching) (c : Nat) : Watching :=
  { x.setClient c { x.client c with pc := .creating x.calls } with
    calls := x.calls + 1
    creates := x.creates ++ [(c, x.calls)] }

/-- `checkWatch` sends its request. -/
def sendCheck (x : Watching) (c : Nat) (sp : Sink) (pc : Pc) : Watching :=
  let cl := x.client c
  { x.setClient c { cl with pc := pc } with
    calls := x.calls + 1
    checks := x.checks ++ [⟨c, x.calls, sp, cl.groupId, cl.watchId, cl.ackSequence, cl.ackFrom⟩] }

/-- The client goes on as far as its next call. -/
def run (x : Watching) (c : Nat) (sp : Sink) : Watching :=
  let cl := x.client c
  match cl.pc with
  | .top => x.setClient c { cl with pc := if cl.runFlag then .select else .stopped }
  | .select =>
    if cl.watchId = 0 ∧ cl.runFlag then x.sendCreate c else x.sendCheck c sp (.checking x.calls)
  | .failed =>
    if cl.runFlag then x.sendCheck c sp (.rechecking x.calls) else x.setClient c cl.clear
  | _ => x

/-- `process_create_watch_req_pdu_fixed`; the clients ask for an interval of 600. -/
def arriveCreate (x : Watching) (c call : Nat) : Watching :=
  let (watchId, server) := x.server.createWatch (x.client c).groupId 600
  { x with
    server := server
    creates := x.creates.erase (c, call)
    created := x.created ++ [(call, watchId)]
    born := if watchId = 0 then x.born else Function.update x.born watchId x.births
    births := if watchId = 0 then x.births else x.births + 1 }

/-- The batch that waited in a watch before the check `q` and does not wait any more. -/
def dischargedBy (x : Watching) (q : Check) (server : CacheMgr) : List Batch :=
  match x.server.watchMap q.watchId, server.watchMap q.watchId with
  | some w, some w' =>
    if w.waitUpdatedList ≠ [] ∧ (w'.waitUpdatedList = [] ∨ w'.sequence ≠ w.sequence) then
      [⟨q.client, x.born q.watchId, w.sequence, w.waitUpdatedList⟩]
    else []
  | _, _ => []

/-- `process_check_watch_req_pdu_fixed`: without notifications the connection waits. -/
def arriveCheck (x : Watching) (q : Check) : Watching :=
  let (r, server) :=
    x.server.checkWatchAndSetCallback q.sp q.groupId q.watchId q.ackSequence 600
  let x' := { x with
    server := server
    checks := x.checks.erase q
    discharged := x.discharged ++ x.dischargedBy q server }
  if r.any fun out => out.updatedList.isEmpty then { x' with asleep := x.asleep ++ [q] }
  else { x' with answers := x.answers ++ [⟨q.call, x.born q.watchId, r⟩] }

/-- `handle_timer`, also called when the timer is cancelled by a notification. -/
def handleTimer (x : Watching) (q : Check) : Watching :=
  let (r, server) := x.server.checkWatchAndClearCallback q.sp q.watchId
  { x with
    server := server
    asleep := x.asleep.erase q
    discharged := x.discharged ++ x.dischargedBy q server
    answers := x.answers ++ [⟨q.call, x.born q.watchId, r⟩] }

/-- `checkWatch` returns to `run`. -/
def checkReturns (x : Watching) (c : Nat) (a : Answer) : Watching :=
  match a.result with
  | none => x.setClient c (x.client c).checkFailed
  | some wr =>
    if wr.updatedList ≠ [] then
      let sequence := wr.sequence.getD 0
      { x.setClient c ((x.client c).acknowledge a.watch sequence) with
        processed := x.processed ++ [⟨c, a.watch, sequence, wr.updatedList⟩] }
    else x.setClient c { x.client c with pc := .top }

def next (x : Watching) : Event → Watching
  | .notify cacheId type watchIds => { x with server := x.server.notifyIds cacheId type watchIds }
  | .setCurrentTime tt => { x with server := x.server.setCurrentTime tt }
  | .expireWatchs => { x with server := x.server.expireWatchs x.server.currTime }
  | .connections alive => { x with server := { x.server with sinkAlive := alive } }
  | .run c sp => x.run c sp
  | .arriveCreate c call => x.arriveCreate c call
  | .createReturns c _ watchId => x.setClient c { x.client c with watchId := watchId, pc := .select }
  | .createFails c _ => x.setClient c { x.client c with watchId := 0, pc := .select }
  | .arriveCheck q => x.arriveCheck q
  | .handleTimer q => x.handleTimer q
  | .checkReturns c a => x.checkReturns c a
  | .checkFails c _ => x.setClient c (x.client c).checkFailed
  | .shutdown c => x.setClient c (x.client c).shutdown

/-- A request arrives at most once, and a call returns to the client that waits for it. -/
def Permitted (x : Watching) : Event → Prop
  | .arriveCreate c call => (c, call) ∈ x.creates
  | .createReturns c call watchId =>
    (x.client c).pc = .creating call ∧ (call, watchId) ∈ x.created
  | .createFails c call => (x.client c).pc = .creating call
  | .arriveCheck q => q ∈ x.checks
  | .handleTimer q => q ∈ x.asleep
  | .checkReturns c a => (x.client c).awaits a.call = true ∧ a ∈ x.answers
  | .checkFails c call => (x.client c).awaits call = true
  | _ => True

instance (x : Watching) : (e : Event) → Decidable (x.Permitted e)
  | .arriveCreate c call => inferInstanceAs (Decidable ((c, call) ∈ x.creates))
  | .createReturns c call watchId =>
    inferInstanceAs (Decidable ((x.client c).pc = .creating call ∧ (call, watchId) ∈ x.created))
  | .createFails c call => inferInstanceAs (Decidable ((x.client c).pc = .creating call))
  | .arriveCheck q => inferInstanceAs (Decidable (q ∈ x.checks))
  | .handleTimer q => inferInstanceAs (Decidable (q ∈ x.asleep))
  | .checkReturns c a =>
    inferInstanceAs (Decidable ((x.client c).awaits a.call = true ∧ a ∈ x.answers))
  | .checkFails c call => inferInstanceAs (Decidable ((x.client c).awaits call = true))
  | .notify .. | .setCurrentTime .. | .expireWatchs | .connections .. | .run .. | .shutdown .. =>
    .isTrue trivial

def Step (x : Watching) (e : Event) (y : Watching) : Prop := x.Permitted e ∧ y = x.next e

/-- The clients start their loops; the server has no watches. -/
def start (lastTime : Nat) (groupId : Nat → Nat) : Watching where
  server := .new lastTime
  client := fun c => .new (groupId c)
  calls := 0
  creates := []
  created := []
  checks := []
  asleep := []
  answers := []
  born := fun _ => 0
  births := 0
  processed := []
  discharged := []

end Watching
/-! ## Acknowledged batches -/

/-- The server has cleared only batches that the acknowledging client has processed. -/
def Acknowledged (x : Watching) : Prop := ∀ b ∈ x.discharged, b ∈ x.processed

/-- No acknowledgement that was obtained from another watch arrives while a batch with the
same number is outstanding, and no sequence number wraps around. -/
def Sound (x : Watching) : Watching.Event → Prop
  | .arriveCheck q => ∀ w ∈ x.server.watchMap q.watchId, w.sequence < 2 ^ 32 - 1 ∧
      (w.waitUpdatedList ≠ [] → q.ackSequence = w.sequence →
        q.ackFrom = some (x.born q.watchId))
  | .handleTimer q => ∀ w ∈ x.server.watchMap q.watchId, w.sequence < 2 ^ 32 - 1
  | _ => True

instance (x : Watching) : (e : Watching.Event) → Decidable (Sound x e)
  | .arriveCheck q => inferInstanceAs (Decidable (∀ w ∈ x.server.watchMap q.watchId, _ ∧ _))
  | .handleTimer q => inferInstanceAs (Decidable (∀ w ∈ x.server.watchMap q.watchId, _))
  | .notify .. | .setCurrentTime .. | .expireWatchs | .connections .. | .run .. | .arriveCreate ..
  | .createReturns .. | .createFails .. | .checkReturns .. | .checkFails .. | .shutdown .. =>
    .isTrue trivial

namespace Watching

/-- The ids are those of the batch `n` of the watch `i`, should that batch still be
outstanding. -/
structure Names (x : Watching) (i n : Nat) (ids : List Nat) : Prop where
  born : i < x.births
  current : ∀ id w, x.server.watchMap id = some w → x.born id = i →
    n ≤ w.sequence ∧ (n = w.sequence → w.waitUpdatedList = [] ∨ w.waitUpdatedList = ids)

structure Inv (x : Watching) : Prop where
  holds : ∀ id w, x.server.watchMap id = some w → ∃ pend wait, w.Holds pend wait
  born : ∀ id w, x.server.watchMap id = some w → x.born id < x.births
  distinct : ∀ id id' w w', x.server.watchMap id = some w → x.server.watchMap id' = some w' →
    x.born id = x.born id' → id = id'
  answers : ∀ a ∈ x.answers, ∀ r, a.result = some r → r.updatedList ≠ [] →
    ∃ n, r.sequence = some n ∧ x.Names a.watch n r.updatedList
  processed : ∀ b ∈ x.processed, x.Names b.watch b.sequence b.cacheIds
  acks : ∀ c i, (x.client c).ackFrom = some i →
    ∃ ids, ⟨c, i, (x.client c).ackSequence, ids⟩ ∈ x.processed
  checks : ∀ q ∈ x.checks, ∀ i, q.ackFrom = some i →
    ∃ ids, ⟨q.client, i, q.ackSequence, ids⟩ ∈ x.processed
  acknowledged : Acknowledged x

end Watching

namespace LocalCacheWatchLemmas

variable {x y : Watching} {e : Watching.Event} {q : Check}

/-- The watch has gone on from `w` to `w'`: as long as its number is the same, the outstanding
batch is the same or none. -/
structure Advances (w w' : CacheWatch) : Prop where
  sequence : w.sequence ≤ w'.sequence
  batch : w'.sequence = w.sequence →
    w'.waitUpdatedList = [] ∨ w'.waitUpdatedList = w.waitUpdatedList
  holds : ∀ pend wait, w.Holds pend wait → ∃ pend' wait', w'.Holds pend' wait'

theorem Advances.refl (w : CacheWatch) : Advances w w :=
  ⟨Nat.le_refl _, fun _ => .inr rfl, fun pend wait h => ⟨pend, wait, h⟩⟩

theorem Advances.trans {w w' w'' : CacheWatch} (h : Advances w w') (h' : Advances w' w'') :
    Advances w w'' := by
  refine ⟨h.sequence.trans h'.sequence, fun hs => ?_, fun pend wait hold => ?_⟩
  · have h1 := h.sequence
    have h2 := h'.sequence
    rcases h'.batch (by omega) with hnil | heq
    · exact .inl hnil
    · rw [heq]
      exact h.batch (by omega)
  · obtain ⟨pend', wait', hold'⟩ := h.holds pend wait hold
    exact h'.holds pend' wait' hold'

/-- The server's watches have gone on from `m` to `m'`; some may have expired. -/
def MapAdvances (m m' : Nat → Option CacheWatch) : Prop :=
  ∀ id w', m' id = some w' → ∃ w, m id = some w ∧ Advances w w'

theorem MapAdvances.refl (m : Nat → Option CacheWatch) : MapAdvances m m :=
  fun _ w' h => ⟨w', h, .refl w'⟩

theorem MapAdvances.trans {m m' m'' : Nat → Option CacheWatch} (h : MapAdvances m m')
    (h' : MapAdvances m' m'') : MapAdvances m m'' := by
  intro id w'' hw''
  obtain ⟨w', hw', hadv'⟩ := h' id w'' hw''
  obtain ⟨w, hw, hadv⟩ := h id w' hw'
  exact ⟨w, hw, hadv.trans hadv'⟩

theorem mapAdvances_update {m : Nat → Option CacheWatch} {v : Nat} {w w' : CacheWatch}
    (hv : m v = some w) (h : Advances w w') : MapAdvances m (Function.update m v (some w')) := by
  intro id w'' hw''
  by_cases hid : id = v
  · subst hid
    rw [Function.update_self] at hw''
    exact ⟨w, hv, Option.some.inj hw'' ▸ h⟩
  · rw [Function.update_of_ne hid] at hw''
    exact MapAdvances.refl m id w'' hw''

theorem advances_notifyWatch (w : CacheWatch) (alive : Sink → Bool) (cacheId : Nat)
    (type : NotifyType) : Advances w (w.notifyWatch alive cacheId type).1 := by
  refine ⟨Nat.le_of_eq (sequence_notifyWatch ..).symm, fun _ => .inr ?_,
    fun pend wait h => ⟨_, _, holds_notifyWatch h ..⟩⟩
  unfold CacheWatch.notifyWatch
  dsimp only
  split <;> rfl

theorem mapAdvances_notifyIds (cacheId : Nat) (type : NotifyType) (ids : List Nat) :
    ∀ s : CacheMgr, MapAdvances s.watchMap (s.notifyIds cacheId type ids).watchMap := by
  induction ids with
  | nil => exact fun s => .refl _
  | cons v vs ih =>
    intro s
    unfold CacheMgr.notifyIds
    split
    · next w hw => exact (mapAdvances_update hw (advances_notifyWatch w ..)).trans (ih _)
    · exact ih s

theorem mapAdvances_expireWatchs (s : CacheMgr) (t : Nat) :
    MapAdvances s.watchMap (s.expireWatchs t).watchMap := by
  intro id w' h
  have hw : s.watchMap id = some w' := (Option.filter_eq_some_iff.mp h).1
  exact ⟨w', hw, .refl w'⟩

/-- A new batch has a new number. -/
theorem advances_batched {w w' : CacheWatch} {r : CheckOut} {pend : List Note}
    (h : Batched w.nextSequence w' r pend) (hbound : w.sequence < 2 ^ 32 - 1) : Advances w w' := by
  have hseq : w'.sequence = w.sequence + 1 := h.sequence.trans (nextSequence_eq hbound)
  exact ⟨by omega, fun he => by omega, fun _ _ _ => ⟨[], pend, h.holds⟩⟩

theorem advances_idle {w w' : CacheWatch} {r : CheckOut} {pend wait : List Note}
    (h : Idle w.sequence w' r pend wait) (hw : wait = [] ∨ w.waitUpdatedList = wait.map Prod.fst) :
    Advances w w' := by
  refine ⟨Nat.le_of_eq h.sequence.symm, fun _ => ?_, fun _ _ _ => ⟨pend, wait, h.holds⟩⟩
  rw [h.holds.waitUpdatedList]
  rcases hw with rfl | hw
  · exact .inl rfl
  · exact .inr hw.symm

/-! ### Steps that create no watch -/

/-- The server of `y` has gone on from that of `x`, without a new watch. -/
structure Keeps (x y : Watching) : Prop where
  watch : MapAdvances x.server.watchMap y.server.watchMap
  born : y.born = x.born
  births : y.births = x.births

theorem Keeps.of_watchMap (hw : y.server.watchMap = x.server.watchMap) (hb : y.born = x.born)
    (hn : y.births = x.births) : Keeps x y :=
  ⟨by rw [hw]; exact .refl _, hb, hn⟩

theorem names_keeps {i n : Nat} {ids : List Nat} (hk : Keeps x y) (h : x.Names i n ids) :
    y.Names i n ids := by
  refine ⟨by rw [hk.births]; exact h.born, fun id w' hw' hi => ?_⟩
  obtain ⟨w, hw, hadv⟩ := hk.watch id w' hw'
  obtain ⟨hle, hids⟩ := h.current id w hw (by rw [← hk.born]; exact hi)
  have hseq := hadv.sequence
  refine ⟨hle.trans hseq, fun hn => ?_⟩
  rcases hadv.batch (by omega) with hnil | heq
  · exact .inl hnil
  · rw [heq]
    exact hids (by omega)

/-- What such a step may add. -/
theorem inv_keeps (h : x.Inv) (hk : Keeps x y)
    (hanswers : ∀ a ∈ y.answers, a ∈ x.answers ∨ ∀ r, a.result = some r → r.updatedList ≠ [] →
      ∃ n, r.sequence = some n ∧ y.Names a.watch n r.updatedList)
    (hprocessed : ∀ b ∈ y.processed, b ∈ x.processed ∨ x.Names b.watch b.sequence b.cacheIds)
    (hsub : ∀ b ∈ x.processed, b ∈ y.processed)
    (hacks : ∀ c i, (y.client c).ackFrom = some i →
      ((x.client c).ackFrom = some i ∧ (y.client c).ackSequence = (x.client c).ackSequence) ∨
      ∃ ids, ⟨c, i, (y.client c).ackSequence, ids⟩ ∈ y.processed)
    (hchecks : ∀ q ∈ y.checks, q ∈ x.checks ∨ ∀ i, q.ackFrom = some i →
      ∃ ids, ⟨q.client, i, q.ackSequence, ids⟩ ∈ x.processed)
    (hdis : ∀ b ∈ y.discharged, b ∈ x.discharged ∨ b ∈ x.processed) : y.Inv := by
  refine ⟨fun v w' hw' => ?_, fun v w' hw' => ?_, fun u v w₁ w₂ h₁ h₂ hb => ?_,
    fun a ha r hr hne => ?_, fun b hb => ?_, fun c i hc => ?_, fun q hq i hi => ?_, fun b hb => ?_⟩
  · obtain ⟨w, hw, hadv⟩ := hk.watch v w' hw'
    obtain ⟨pend, wait, hold⟩ := h.holds v w hw
    exact hadv.holds pend wait hold
  · obtain ⟨w, hw, -⟩ := hk.watch v w' hw'
    rw [hk.born, hk.births]
    exact h.born v w hw
  · obtain ⟨v₁, hv₁, -⟩ := hk.watch u w₁ h₁
    obtain ⟨v₂, hv₂, -⟩ := hk.watch v w₂ h₂
    rw [hk.born] at hb
    exact h.distinct u v v₁ v₂ hv₁ hv₂ hb
  · rcases hanswers a ha with ha | hnew
    · obtain ⟨n, hn, hnames⟩ := h.answers a ha r hr hne
      exact ⟨n, hn, names_keeps hk hnames⟩
    · exact hnew r hr hne
  · rcases hprocessed b hb with hb | hnames
    · exact names_keeps hk (h.processed b hb)
    · exact names_keeps hk hnames
  · rcases hacks c i hc with ⟨hold, hseq⟩ | hnew
    · obtain ⟨ids, hids⟩ := h.acks c i hold
      exact ⟨ids, hsub _ (by rw [hseq]; exact hids)⟩
    · exact hnew
  · rcases hchecks q hq with hold | hnew
    · obtain ⟨ids, hids⟩ := h.checks q hold i hi
      exact ⟨ids, hsub _ hids⟩
    · obtain ⟨ids, hids⟩ := hnew i hi
      exact ⟨ids, hsub _ hids⟩
  · rcases hdis b hb with hb | hb
    · exact hsub b (h.acknowledged b hb)
    · exact hsub b hb

/-- A step of the server alone that answers nobody. -/
theorem inv_server {s : CacheMgr} (h : x.Inv) (hs : MapAdvances x.server.watchMap s.watchMap) :
    Watching.Inv { x with server := s } :=
  inv_keeps h ⟨hs, rfl, rfl⟩ (fun _ ha => .inl ha) (fun _ hb => .inl hb) (fun _ hb => hb)
    (fun _ _ hi => .inl ⟨hi, rfl⟩) (fun _ hq => .inl hq) fun _ hb => .inl hb

/-- A step of a client that does not touch its acknowledgement, and sends at most checks that
carry it. -/
theorem inv_client {c : Nat} {cl : LocalCacheWatch} (h : x.Inv) (hs : y.server = x.server)
    (hborn : y.born = x.born) (hbirths : y.births = x.births) (ha : y.answers = x.answers)
    (hp : y.processed = x.processed) (hd : y.discharged = x.discharged)
    (hc : y.client = Function.update x.client c cl)
    (hfrom : cl.ackFrom = (x.client c).ackFrom) (hack : cl.ackSequence = (x.client c).ackSequence)
    (hq : ∀ q ∈ y.checks, q ∈ x.checks ∨ (q.client = c ∧ q.ackFrom = cl.ackFrom ∧
      q.ackSequence = cl.ackSequence)) : y.Inv := by
  refine inv_keeps h (.of_watchMap (by rw [hs]) hborn hbirths) (fun a h' => .inl (ha ▸ h'))
    (fun b h' => .inl (hp ▸ h')) (fun b h' => hp ▸ h') (fun c' i hi => .inl ?_) (fun q h' => ?_)
    fun b h' => .inl (hd ▸ h')
  · rw [hc] at hi ⊢
    by_cases hcc : c' = c
    · subst hcc
      rw [Function.update_self] at hi ⊢
      exact ⟨hfrom ▸ hi, hack⟩
    · rw [Function.update_of_ne hcc] at hi ⊢
      exact ⟨hi, rfl⟩
  · rcases hq q h' with hold | ⟨rfl, hqf, hqs⟩
    · exact .inl hold
    · refine .inr fun i hi => ?_
      rw [hqs, hack]
      exact h.acks q.client i (by rw [← hfrom, ← hqf]; exact hi)

theorem inv_setClient {c : Nat} {cl : LocalCacheWatch} (h : x.Inv)
    (hfrom : cl.ackFrom = (x.client c).ackFrom) (hack : cl.ackSequence = (x.client c).ackSequence) :
    (x.setClient c cl).Inv :=
  inv_client h rfl rfl rfl rfl rfl rfl rfl hfrom hack fun _ hq => .inl hq

theorem inv_checkFailed {c : Nat} (h : x.Inv) : (x.setClient c (x.client c).checkFailed).Inv := by
  refine inv_setClient h ?_ ?_ <;> unfold LocalCacheWatch.checkFailed <;> split <;> rfl

theorem inv_sendCheck {c : Nat} {sp : Sink} {pc : Pc} (h : x.Inv) : (x.sendCheck c sp pc).Inv := by
  refine inv_client (c := c) h rfl rfl rfl rfl rfl rfl rfl rfl rfl
    fun q hq => ?_
  rcases List.mem_append.mp hq with hq | hq
  · exact .inl hq
  · rw [List.mem_singleton.mp hq]
    exact .inr ⟨rfl, rfl, rfl⟩

theorem inv_run {c : Nat} {sp : Sink} (h : x.Inv) : (x.run c sp).Inv := by
  unfold Watching.run
  dsimp only
  split
  · exact inv_setClient h rfl rfl
  · split
    · exact inv_client (c := c) h rfl rfl rfl rfl rfl rfl rfl rfl rfl
        fun _ hq => .inl hq
    · exact inv_sendCheck h
  · split
    · exact inv_sendCheck h
    · exact inv_setClient h rfl rfl
  · exact h

/-- `update` has processed a batch, and it is the one to be acknowledged. -/
theorem inv_checkReturns {c : Nat} {a : Answer} (h : x.Inv) (ha : a ∈ x.answers) :
    (x.checkReturns c a).Inv := by
  unfold Watching.checkReturns
  split
  · exact inv_checkFailed h
  · next wr hwr =>
    split
    · next hne =>
      obtain ⟨n, hn, hnames⟩ := h.answers a ha wr hwr hne
      have hget : wr.sequence.getD 0 = n := by rw [hn]; rfl
      simp only [hget]
      refine inv_keeps h (.of_watchMap rfl rfl rfl) (fun _ ha => .inl ha) (fun b hb => ?_)
        (fun b hb => List.mem_append_left _ hb) (fun c' i hi => ?_) (fun _ hq => .inl hq)
        fun _ hb => .inl hb
      · rcases List.mem_append.mp hb with hb | hb
        · exact .inl hb
        · rw [List.mem_singleton.mp hb]
          exact .inr hnames
      · by_cases hcc : c' = c
        · subst hcc
          have hcl : ((x.setClient c' ((x.client c').acknowledge a.watch n)).client c') =
              (x.client c').acknowledge a.watch n := Function.update_self ..
          dsimp only at hi ⊢
          rw [hcl] at hi ⊢
          obtain rfl := Option.some.inj hi
          exact .inr ⟨wr.updatedList, List.mem_append_right _ (List.mem_singleton_self _)⟩
        · have hcl : ((x.setClient c ((x.client c).acknowledge a.watch n)).client c') =
              x.client c' := Function.update_of_ne hcc ..
          dsimp only at hi ⊢
          rw [hcl] at hi ⊢
          exact .inl ⟨hi, rfl⟩
    · exact inv_setClient h rfl rfl

/-! ### Steps of the server -/

theorem inv_arriveCreate {c call : Nat} (h : x.Inv) : (x.arriveCreate c call).Inv := by
  obtain ⟨id, n, hid⟩ : ∃ id n, x.server.getWatchId = (id, { x.server with lastWatchId := n }) :=
    ⟨_, _, rfl⟩
  by_cases h0 : id = 0
  · have hcreate : x.server.createWatch (x.client c).groupId 600 =
        (0, { x.server with lastWatchId := n }) := by
      simp [CacheMgr.createWatch, hid, h0]
    simp only [Watching.arriveCreate, hcreate]
    exact inv_keeps h (.of_watchMap rfl rfl rfl) (fun _ ha => .inl ha) (fun _ hb => .inl hb)
      (fun _ hb => hb) (fun _ _ hi => .inl ⟨hi, rfl⟩) (fun _ hq => .inl hq) fun _ hb => .inl hb
  · obtain ⟨w, hw⟩ : ∃ w, w = CacheWatch.new id (CacheMgr.realtime x.server.currTime 600) := ⟨_, rfl⟩
    have hcreate : x.server.createWatch (x.client c).groupId 600 = (id, { x.server with
        watchMap := Function.update x.server.watchMap id (some w)
        lastWatchId := n
        stats := x.server.stats ++ [.createWatch (x.client c).groupId] }) := by
      simp [CacheMgr.createWatch, hid, h0, CacheMgr.stat, hw]
    have hhold : w.Holds [] [] := hw ▸ holds_new ..
    simp only [Watching.arriveCreate, hcreate, if_neg h0]
    -- the watches of before have smaller numbers
    have hborn : ∀ v w', Function.update x.server.watchMap id (some w) v = some w' →
        (v = id ∧ w' = w) ∨ (v ≠ id ∧ x.server.watchMap v = some w') := by
      intro v w' hv
      by_cases hvid : v = id
      · subst hvid
        rw [Function.update_self] at hv
        exact .inl ⟨rfl, (Option.some.inj hv).symm⟩
      · rw [Function.update_of_ne hvid] at hv
        exact .inr ⟨hvid, hv⟩
    have hnames : ∀ i m ids, x.Names i m ids → i < x.births + 1 ∧
        ∀ v w', Function.update x.server.watchMap id (some w) v = some w' →
          Function.update x.born id x.births v = i → m ≤ w'.sequence ∧
            (m = w'.sequence → w'.waitUpdatedList = [] ∨ w'.waitUpdatedList = ids) := by
      intro i m ids hn
      have hlt := hn.born
      refine ⟨by omega, fun v w' hv hi => ?_⟩
      rcases hborn v w' hv with ⟨rfl, rfl⟩ | ⟨hne, hv'⟩
      · rw [Function.update_self] at hi
        omega
      · rw [Function.update_of_ne hne] at hi
        exact hn.current v w' hv' hi
    refine ⟨fun v w' hv => ?_, fun v w' hv => ?_, fun u v w₁ w₂ hu hv hb => ?_,
      fun a ha r hr hne => ?_, fun b hb => ?_, h.acks, h.checks, h.acknowledged⟩
    · rcases hborn v w' hv with ⟨rfl, rfl⟩ | ⟨-, hv'⟩
      · exact ⟨[], [], hhold⟩
      · exact h.holds v w' hv'
    · show Function.update x.born id x.births v < x.births + 1
      rcases hborn v w' hv with ⟨rfl, -⟩ | ⟨hne, hv'⟩
      · rw [Function.update_self]
        omega
      · rw [Function.update_of_ne hne]
        have := h.born v w' hv'
        omega
    · have hb : Function.update x.born id x.births u = Function.update x.born id x.births v := hb
      rcases hborn u w₁ hu with ⟨rfl, -⟩ | ⟨hun, hu'⟩ <;>
        rcases hborn v w₂ hv with ⟨rfl, -⟩ | ⟨hvn, hv'⟩
      · rfl
      · rw [Function.update_self, Function.update_of_ne hvn] at hb
        have := h.born v w₂ hv'
        omega
      · rw [Function.update_self, Function.update_of_ne hun] at hb
        have := h.born u w₁ hu'
        omega
      · rw [Function.update_of_ne hun, Function.update_of_ne hvn] at hb
        exact h.distinct u v w₁ w₂ hu' hv' hb
    · obtain ⟨m, hm, hn⟩ := h.answers a ha r hr hne
      obtain ⟨hlt, hcur⟩ := hnames _ _ _ hn
      exact ⟨m, hm, hlt, hcur⟩
    · obtain ⟨hlt, hcur⟩ := hnames _ _ _ (h.processed b hb)
      exact ⟨hlt, hcur⟩

/-- What the check `q` does to the watch it names. -/
structure Checked (x : Watching) (q : Check) (w w' : CacheWatch) (out : CheckOut) : Prop where
  advances : Advances w w'
  answer : out.updatedList ≠ [] →
    out.sequence = some w'.sequence ∧ w'.waitUpdatedList = out.updatedList
  discharged : w.waitUpdatedList ≠ [] → w'.waitUpdatedList = [] ∨ w'.sequence ≠ w.sequence →
    ⟨q.client, x.born q.watchId, w.sequence, w.waitUpdatedList⟩ ∈ x.processed

theorem answer_batched {n : Nat} {w' : CacheWatch} {out : CheckOut} {pend : List Note}
    (h : Batched n w' out pend) :
    out.sequence = some w'.sequence ∧ w'.waitUpdatedList = out.updatedList := by
  rw [h.answer, h.sequence, h.holds.waitUpdatedList, h.carries.updatedList]
  exact ⟨rfl, rfl⟩

/-- The acknowledgement names the outstanding batch: it has been processed. -/
theorem processed_of_ack {w : CacheWatch} (h : x.Inv) (hq : q ∈ x.checks)
    (hw : x.server.watchMap q.watchId = some w) (hne : w.waitUpdatedList ≠ [])
    (hack : q.ackSequence = w.sequence) (hfrom : q.ackFrom = some (x.born q.watchId)) :
    ⟨q.client, x.born q.watchId, w.sequence, w.waitUpdatedList⟩ ∈ x.processed := by
  obtain ⟨ids, hids⟩ := h.checks q hq _ hfrom
  have hcur := (h.processed _ hids).current q.watchId w hw rfl
  have heq : w.waitUpdatedList = ids := (hcur.2 hack).resolve_left hne
  rw [heq, ← hack]
  exact hids

theorem checked_set {w w' : CacheWatch} {out : CheckOut} {sink : Option Sink} {t : Nat} (h : x.Inv)
    (hq : q ∈ x.checks) (hw : x.server.watchMap q.watchId = some w)
    (hs : Sound x (.arriveCheck q))
    (hc : w.checkAndSetCallback x.server.sinkAlive q.sp q.ackSequence t = (w', out, sink)) :
    Checked x q w w' out := by
  obtain ⟨hbound, hsound⟩ := hs w hw
  obtain ⟨pend, wait, hold⟩ := h.holds _ w hw
  have hack : wait = [] ∨ q.ackSequence = w.sequence → w.waitUpdatedList ≠ [] →
      ⟨q.client, x.born q.watchId, w.sequence, w.waitUpdatedList⟩ ∈ x.processed := by
    intro hdone hne
    have hwait : wait ≠ [] := by
      rintro rfl
      exact hne hold.waitUpdatedList
    have heq := hdone.resolve_left hwait
    exact processed_of_ack h hq hw hne heq (hsound hne heq)
  rcases checkAndSetCallback_cases hold hc with
    ⟨hwait, -, hold', hseq, hcar, hans⟩ | ⟨hdone, hbatch | ⟨rfl, hidle⟩⟩
  · have hlist : w'.waitUpdatedList = w.waitUpdatedList := by
      rw [hold'.waitUpdatedList, hold.waitUpdatedList]
    refine ⟨⟨Nat.le_of_eq hseq.symm, fun _ => .inr hlist, fun _ _ _ => ⟨_, _, hold'⟩⟩, fun _ => ?_,
      fun hne hcleared => ?_⟩
    · rw [hans, hseq, hold'.waitUpdatedList, hcar.updatedList]
      exact ⟨rfl, rfl⟩
    · rcases hcleared with hnil | hne'
      · exact absurd (hlist ▸ hnil) hne
      · exact absurd hseq hne'
  · exact ⟨advances_batched hbatch hbound, fun _ => answer_batched hbatch, fun hne _ => hack hdone hne⟩
  · exact ⟨advances_idle hidle (.inl rfl), fun hne => absurd hidle.carries.updatedList hne,
      fun hne _ => hack hdone hne⟩

theorem checked_clear {w w' : CacheWatch} {out : CheckOut} (h : x.Inv)
    (hw : x.server.watchMap q.watchId = some w) (hs : Sound x (.handleTimer q))
    (hc : w.checkAndClearCallback x.server.sinkAlive q.sp = (w', out)) : Checked x q w w' out := by
  have hbound := hs w hw
  obtain ⟨pend, wait, hold⟩ := h.holds _ w hw
  rcases checkAndClearCallback_cases hold hc with ⟨rfl, hbatch⟩ | hidle
  · exact ⟨advances_batched hbatch hbound, fun _ => answer_batched hbatch,
      fun hne _ => absurd hold.waitUpdatedList hne⟩
  · refine ⟨advances_idle hidle (.inr hold.waitUpdatedList),
      fun hne => absurd hidle.carries.updatedList hne, fun hne hcleared => ?_⟩
    rcases hcleared with hnil | hne'
    · rw [hidle.holds.waitUpdatedList, ← hold.waitUpdatedList] at hnil
      exact absurd hnil hne
    · exact absurd hidle.sequence hne'

/-- The server has dealt with the check `q`, in one way or the other. -/
theorem inv_checked {w w' : CacheWatch} {out : CheckOut} {server : CacheMgr} (h : x.Inv)
    (hw : x.server.watchMap q.watchId = some w) (hc : Checked x q w w' out)
    (hmap : server.watchMap = Function.update x.server.watchMap q.watchId (some w'))
    (hserver : y.server = server) (hborn : y.born = x.born) (hbirths : y.births = x.births)
    (hclient : y.client = x.client) (hp : y.processed = x.processed)
    (hchecks : ∀ p ∈ y.checks, p ∈ x.checks)
    (ha : ∀ a ∈ y.answers, a ∈ x.answers ∨ a = ⟨q.call, x.born q.watchId, some out⟩)
    (hd : y.discharged = x.discharged ++ x.dischargedBy q server) : y.Inv := by
  have hkeeps : Keeps x y :=
    ⟨by rw [hserver, hmap]; exact mapAdvances_update hw hc.advances, hborn, hbirths⟩
  refine inv_keeps h hkeeps (fun a h' => ?_) (fun b h' => .inl (hp ▸ h')) (fun b h' => hp ▸ h')
    (fun c i hi => .inl ⟨hclient ▸ hi, by rw [hclient]⟩) (fun p h' => .inl (hchecks p h'))
    fun b h' => ?_
  · rcases ha a h' with hold | rfl
    · exact .inl hold
    · refine .inr fun r hr hne => ?_
      obtain rfl := Option.some.inj hr
      obtain ⟨hseq, hlist⟩ := hc.answer hne
      refine ⟨w'.sequence, hseq, ?_, fun v w'' hv hi => ?_⟩
      · rw [hbirths]
        exact h.born _ w hw
      · obtain ⟨w₁, hw₁, -⟩ := hkeeps.watch v w'' hv
        rw [hborn] at hi
        obtain rfl := h.distinct v q.watchId w₁ w hw₁ hw hi
        rw [hserver, hmap, Function.update_self] at hv
        obtain rfl := Option.some.inj hv
        exact ⟨Nat.le_refl _, fun _ => .inr hlist⟩
  · rw [hd] at h'
    rcases List.mem_append.mp h' with hold | hnew
    · exact .inl hold
    · unfold Watching.dischargedBy at hnew
      rw [hw, hmap, Function.update_self] at hnew
      dsimp only at hnew
      split at hnew
      · next hcleared =>
        rw [List.mem_singleton.mp hnew]
        exact .inr (hc.discharged hcleared.1 hcleared.2)
      · exact nomatch hnew

/-- The watch of the check is gone. -/
theorem inv_missed {server : CacheMgr} (h : x.Inv)
    (hw : x.server.watchMap q.watchId = none) (hserver : y.server = server)
    (hmap : server.watchMap = x.server.watchMap) (hborn : y.born = x.born)
    (hbirths : y.births = x.births) (hclient : y.client = x.client) (hp : y.processed = x.processed)
    (hchecks : ∀ p ∈ y.checks, p ∈ x.checks)
    (ha : ∀ a ∈ y.answers, a ∈ x.answers ∨ a = ⟨q.call, x.born q.watchId, none⟩)
    (hd : y.discharged = x.discharged ++ x.dischargedBy q server) : y.Inv := by
  refine inv_keeps h (.of_watchMap (by rw [hserver, hmap]) hborn hbirths) (fun a h' => ?_)
    (fun b h' => .inl (hp ▸ h')) (fun b h' => hp ▸ h')
    (fun c i hi => .inl ⟨hclient ▸ hi, by rw [hclient]⟩) (fun p h' => .inl (hchecks p h'))
    fun b h' => ?_
  · rcases ha a h' with hold | rfl
    · exact .inl hold
    · exact .inr nofun
  · unfold Watching.dischargedBy at hd
    rw [hw] at hd
    rw [hd, List.append_nil] at h'
    exact .inl h'

theorem inv_arriveCheck (h : x.Inv) (hq : q ∈ x.checks) (hs : Sound x (.arriveCheck q)) :
    (x.arriveCheck q).Inv := by
  have herase : ∀ p ∈ x.checks.erase q, p ∈ x.checks := fun p hp => List.mem_of_mem_erase hp
  cases hw : x.server.watchMap q.watchId with
  | none =>
    have hexec : x.server.checkWatchAndSetCallback q.sp q.groupId q.watchId q.ackSequence 600 =
        (none, x.server.stat (.checkWatchMiss q.groupId)) := by
      simp [CacheMgr.checkWatchAndSetCallback, hw]
    have hy : x.arriveCheck q = { x with
        server := x.server.stat (.checkWatchMiss q.groupId)
        checks := x.checks.erase q
        discharged := x.discharged ++ x.dischargedBy q (x.server.stat (.checkWatchMiss q.groupId))
        answers := x.answers ++ [⟨q.call, x.born q.watchId, none⟩] } := by
      simp [Watching.arriveCheck, hexec]
    rw [hy]
    refine inv_missed h hw rfl rfl rfl rfl rfl rfl herase (fun a ha => ?_) rfl
    rcases List.mem_append.mp ha with ha | ha
    · exact .inl ha
    · exact .inr (List.mem_singleton.mp ha)
  | some w =>
    obtain ⟨w', out, sink, hc⟩ : ∃ w' out sink, w.checkAndSetCallback x.server.sinkAlive q.sp
      q.ackSequence (CacheMgr.realtime x.server.currTime 600) = (w', out, sink) := ⟨_, _, _, rfl⟩
    have hexec : x.server.checkWatchAndSetCallback q.sp q.groupId q.watchId q.ackSequence 600 =
        (some out, { x.server with
          watchMap := Function.update x.server.watchMap q.watchId (some w')
          stats := x.server.stats ++ [.checkWatch q.groupId]
          sinkCalls := x.server.sinkCalls ++ (sink.map fun p => (p, w.watchId)).toList }) := by
      simp [CacheMgr.checkWatchAndSetCallback, hw, hc, CacheMgr.stat]
    have hchecked := checked_set h hq hw hs hc
    unfold Watching.arriveCheck
    simp only [hexec]
    split
    · exact inv_checked h hw hchecked rfl rfl rfl rfl rfl rfl herase (fun a ha => .inl ha) rfl
    · refine inv_checked h hw hchecked rfl rfl rfl rfl rfl rfl herase (fun a ha => ?_) rfl
      rcases List.mem_append.mp ha with ha | ha
      · exact .inl ha
      · exact .inr (List.mem_singleton.mp ha)

theorem inv_handleTimer (h : x.Inv) (hs : Sound x (.handleTimer q)) : (x.handleTimer q).Inv := by
  cases hw : x.server.watchMap q.watchId with
  | none =>
    have hexec : x.server.checkWatchAndClearCallback q.sp q.watchId = (none, x.server) := by
      simp [CacheMgr.checkWatchAndClearCallback, hw]
    unfold Watching.handleTimer
    simp only [hexec]
    refine inv_missed h hw rfl rfl rfl rfl rfl rfl (fun _ hp => hp) (fun a ha => ?_) rfl
    rcases List.mem_append.mp ha with ha | ha
    · exact .inl ha
    · exact .inr (List.mem_singleton.mp ha)
  | some w =>
    obtain ⟨w', out, hc⟩ : ∃ w' out, w.checkAndClearCallback x.server.sinkAlive q.sp = (w', out) :=
      ⟨_, _, rfl⟩
    have hexec : x.server.checkWatchAndClearCallback q.sp q.watchId = (some out, { x.server with
        watchMap := Function.update x.server.watchMap q.watchId (some w') }) := by
      simp [CacheMgr.checkWatchAndClearCallback, hw, hc]
    unfold Watching.handleTimer
    simp only [hexec]
    refine inv_checked h hw (checked_clear h hw hs hc) rfl rfl rfl rfl rfl rfl (fun _ hp => hp)
      (fun a ha => ?_) rfl
    rcases List.mem_append.mp ha with ha | ha
    · exact .inl ha
    · exact .inr (List.mem_singleton.mp ha)

theorem inv_step (h : x.Inv) (hs : Sound x e) (hstep : x.Step e y) : y.Inv := by
  obtain ⟨hperm, rfl⟩ := hstep
  cases e with
  | notify cacheId type ids => exact inv_server h (mapAdvances_notifyIds cacheId type ids x.server)
  | setCurrentTime tt => exact inv_server h (.refl _)
  | expireWatchs => exact inv_server h (mapAdvances_expireWatchs x.server x.server.currTime)
  | connections alive => exact inv_server h (.refl _)
  | run c sp => exact inv_run h
  | arriveCreate c call => exact inv_arriveCreate h
  | createReturns c call watchId => exact inv_setClient h rfl rfl
  | createFails c call => exact inv_setClient h rfl rfl
  | arriveCheck q => exact inv_arriveCheck h hperm hs
  | handleTimer q => exact inv_handleTimer h hs
  | checkReturns c a => exact inv_checkReturns h hperm.2
  | checkFails c call => exact inv_checkFailed h
  | shutdown c => exact inv_setClient h rfl rfl

theorem inv_start (lastTime : Nat) (groupId : Nat → Nat) : (Watching.start lastTime groupId).Inv :=
  ⟨nofun, nofun, nofun, nofun, nofun, nofun, nofun, nofun⟩

end LocalCacheWatchLemmas

open LocalCacheWatchLemmas

/-- In every run whose acknowledgements are sound the server clears only batches that the
acknowledging client has processed. -/
theorem acknowledged_of_run {lastTime : Nat} {groupId : Nat → Nat} {x : Watching}
    {t : List (Watching × Watching.Event)}
    (h : Run (fun x e y => Sound x e ∧ Watching.Step x e y) (.start lastTime groupId) t x) :
    Acknowledged x :=
  (h.invariant (I := Watching.Inv) (fun _ _ _ hx hs => inv_step hx hs.1 hs.2)
    (inv_start lastTime groupId)).acknowledged

/-- A client creates a watch and processes its first batch. -/
def firstBatch : List Watching.Event :=
  [.run 0 5, .run 0 5, .arriveCreate 0 0, .createReturns 0 0 1, .notify 7 .dataUpdated [1],
    .run 0 5, .arriveCheck ⟨0, 1, 5, 3, 1, 0, none⟩,
    .checkReturns 0 ⟨1, 0, some ⟨some 1, [7], [.dataUpdated]⟩⟩, .run 0 5]

/-- The check that acknowledges the batch is lost on its way back and retried. -/
def lostCheck : List Watching.Event :=
  firstBatch ++ [.run 0 5, .arriveCheck ⟨0, 2, 5, 3, 1, 1, some 0⟩, .checkFails 0 2, .run 0 5,
    .notify 8 .deleted [1], .arriveCheck ⟨0, 3, 5, 3, 1, 1, some 0⟩]

theorem acknowledged_lostCheck :
    Acknowledged (lostCheck.foldl Watching.next (.start 0 fun _ => 3)) := by
  have hok : Admitted (fun x e => Sound x e ∧ Watching.Permitted x e) Watching.next
      (.start 0 fun _ => 3) lostCheck := by
    decide +kernel
  obtain ⟨t, ht⟩ := hok.run
  exact acknowledged_of_run (ht.mono fun _ _ _ hs => ⟨hs.1.1, hs.1.2, hs.2⟩)

/-- The watch expires after its first batch. The check of the new watch is lost on its way
back, and its retry still carries the number of the old watch's batch. -/
def newWatch : List Watching.Event :=
  firstBatch ++ (List.range 60).map (fun i => .setCurrentTime (10 * (i + 1))) ++
    [.expireWatchs, .run 0 5, .arriveCheck ⟨0, 2, 5, 3, 1, 1, some 0⟩,
      .checkReturns 0 ⟨2, 0, none⟩, .run 0 5, .arriveCheck ⟨0, 3, 5, 3, 1, 1, some 0⟩,
      .checkReturns 0 ⟨3, 0, none⟩, .run 0 5, .run 0 5, .arriveCreate 0 4, .createReturns 0 4 2,
      .notify 9 .deleted [2], .run 0 5, .arriveCheck ⟨0, 5, 5, 3, 2, 1, some 0⟩,
      .checkFails 0 5, .run 0 5, .arriveCheck ⟨0, 6, 5, 3, 2, 1, some 0⟩]

/-- The server clears the first batch of the new watch, which `update` has never seen. -/
theorem not_acknowledged_newWatch :
    ∃ t x, Run Watching.Step (.start 0 fun _ => 3) t x ∧ ¬ Acknowledged x := by
  have hok : Admitted Watching.Permitted Watching.next (.start 0 fun _ => 3) newWatch := by
    decide +kernel
  obtain ⟨t, ht⟩ := hok.run
  refine ⟨t, _, ht, fun hack => ?_⟩
  have hlost := hack ⟨0, 1, 1, [9]⟩ (by decide +kernel)
  exact absurd hlost (by decide +kernel)

end Xixi
