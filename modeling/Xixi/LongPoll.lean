import Xixi.Effects

/-!
# Long polls (`Peer_Cache::process_check_watch_req_pdu_fixed`, `on_cache_watch_notify`, `handle_timer`)

A connection that checks a watch without pending notifications parks: the watch stores it as
its sink and a timer is armed. Whoever notifies the watch cancels the timer, and the handler of
the timer fetches the notifications. The two threads meet through `timer_flag_`, which
registration clears before it stores the sink, and through the weak pointer `wp_`.

Every connection is an instance of the same code, any operation of the manager can run between
two of its steps, and `on_cache_watch_notify` is called in the middle of an operation: the calls
that an operation makes are delivered one by one before the next operation gets `cache_lock_`.

1. `LongPoll`, `LongPoll.next`: the manager and its connections.
2. `Calls`: what an operation does to the sinks.
3. `wakeup_of_run`: a parked connection is woken iff it has been called.
4. `not_delivered`: the response to a connection that has been woken is empty.
-/

namespace Xixi

open Lib

/-- How far a connection has got with a `check_watch` request. -/
inductive PollStage
  | ready
  | begun
  | stored (watchId : Nat)
  | waiting (watchId : Nat)
deriving DecidableEq, Repr

def PollStage.isStored : PollStage → Bool
  | .stored _ => true
  | _ => false

def PollStage.isWaiting : PollStage → Bool
  | .waiting _ => true
  | _ => false

/-- The timer of a connection: without a handler, or with a handler that runs when the time is
over, or with one that runs at once. -/
inductive Timer
  | idle
  | armed
  | cancelled
deriving DecidableEq, Repr

/-- Why a sink has been called: the watch was told something, or another connection took it. -/
inductive Cause
  | notified (ns : List Note)
  | taken
deriving DecidableEq, Repr

/-- The part of `Peer_Cache` that long polls use. `cause` is history: why the connection has
been called since it was stored. `response` is the last one that the two handlers queued, with
`none` for an error. -/
structure Peer where
  stage : PollStage
  timerFlag : Bool
  timer : Timer
  cause : Option Cause
  response : Option CheckOut

/-- The manager and its connections. `calls` are the calls of `on_cache_watch_notify` that the
running operation has still to make. -/
structure LongPoll where
  mgr : CacheMgr
  peer : Sink → Peer
  calls : List Sink

namespace LongPoll

inductive Event
  | exec (op : Op)
  | connection (p : Sink) (alive : Bool)
  | begin (p : Sink)
  | check (p : Sink) (groupId watchId ackSequence maxNextCheckInterval : Nat)
  | arm (p : Sink)
  | notify
  | fire (p : Sink)

def setPeer (x : LongPoll) (p : Sink) (q : Peer) : LongPoll :=
  { x with peer := Function.update x.peer p q }

/-- The calls that the manager has made on the way from `s` to `s'`. -/
def newCalls (s s' : CacheMgr) : List (Sink × Nat) := s'.sinkCalls.drop s.sinkCalls.length

def pendingOf (s : CacheMgr) (w : Nat) : List Note := (s.watchMap w).elim [] CacheWatch.pending

/-- What the watch `w` has been told on the way from `s` to `s'`. -/
def newNotes (s s' : CacheMgr) (w : Nat) : List Note :=
  (pendingOf s' w).drop (pendingOf s w).length

/-- The manager has run; the connections in `cs` are to be called. -/
def called (x : LongPoll) (s : CacheMgr) (cs : List (Sink × Nat)) (cause : Nat → Cause) :
    LongPoll where
  mgr := s
  peer := fun p =>
    match cs.find? fun c => c.1 == p with
    | some c => { x.peer p with cause := some (cause c.2) }
    | none => x.peer p
  calls := x.calls ++ cs.map Prod.fst

/-- `check_watch_and_set_callback` and what is done with its answer up to the timer. -/
def check (x : LongPoll) (p : Sink) (g w ack interval : Nat) : LongPoll :=
  let (out, s) := x.mgr.checkWatchAndSetCallback p g w ack interval
  let x := x.called s (newCalls x.mgr s) fun _ => .taken
  match out with
  | none => x.setPeer p { x.peer p with stage := .ready, response := none }
  | some r =>
    if 0 < r.updatedList.length then
      x.setPeer p { x.peer p with stage := .ready, response := some r }
    else x.setPeer p { x.peer p with stage := .stored w, cause := none }

/-- The part under `timer_lock_`. -/
def arm (x : LongPoll) (p : Sink) (w : Nat) : LongPoll :=
  let q := { x.peer p with stage := .waiting w, timer := .armed }
  if q.timerFlag then x.setPeer p { q with timer := .cancelled }
  else x.setPeer p { q with timerFlag := true }

/-- `cancel` makes the handler of an armed timer run. -/
def Timer.cancel : Timer → Timer
  | .idle => .idle
  | .armed => .cancelled
  | .cancelled => .cancelled

def onCacheWatchNotify (x : LongPoll) (p : Sink) : LongPoll :=
  let q := x.peer p
  if q.timerFlag then x.setPeer p { q with timer := Timer.cancel q.timer }
  else x.setPeer p { q with timerFlag := true }

def handleTimer (x : LongPoll) (p : Sink) (w : Nat) : LongPoll :=
  let (out, s) := x.mgr.checkWatchAndClearCallback p w
  { x with mgr := s }.setPeer p
    { x.peer p with stage := .ready, timer := .idle, response := out }

def next (env : Env) (x : LongPoll) : Event → LongPoll
  | .exec op =>
    let s := (x.mgr.exec env op).2
    x.called s (newCalls x.mgr s) fun w => .notified (newNotes x.mgr s w)
  | .connection p alive =>
    { x with mgr := { x.mgr with sinkAlive := Function.update x.mgr.sinkAlive p alive } }
  | .begin p => x.setPeer p { x.peer p with stage := .begun, timerFlag := false }
  | .check p g w ack interval => x.check p g w ack interval
  | .arm p =>
    match (x.peer p).stage with
    | .stored w => x.arm p w
    | _ => x
  | .notify =>
    match x.calls with
    | p :: ps => { x with calls := ps }.onCacheWatchNotify p
    | [] => x
  | .fire p =>
    match (x.peer p).stage with
    | .waiting w => x.handleTimer p w
    | _ => x

/-- The operations that the connections perform here as steps of their own. -/
def polls : Op → Bool
  | .checkWatchAndSetCallback .. => true
  | .checkWatchAndClearCallback .. => true
  | .connections _ => true
  | _ => false

/-- An operation gets `cache_lock_` when the one before it has made its calls; a connection goes
when it is not working on a `check_watch` request. -/
def Permitted (x : LongPoll) : Event → Prop
  | .exec op => x.calls = [] ∧ polls op = false
  | .connection p _ => x.calls = [] ∧ (x.peer p).stage = .ready
  | .begin p => (x.peer p).stage = .ready ∧ x.mgr.sinkAlive p = true
  | .check p _ _ _ _ => x.calls = [] ∧ (x.peer p).stage = .begun
  | .arm p => (x.peer p).stage.isStored = true
  | .notify => x.calls ≠ []
  | .fire p => x.calls = [] ∧ (x.peer p).stage.isWaiting = true

instance (x : LongPoll) : (e : Event) → Decidable (x.Permitted e)
  | .exec op => inferInstanceAs (Decidable (x.calls = [] ∧ polls op = false))
  | .connection p _ => inferInstanceAs (Decidable (x.calls = [] ∧ (x.peer p).stage = .ready))
  | .begin p => inferInstanceAs (Decidable ((x.peer p).stage = .ready ∧ x.mgr.sinkAlive p = true))
  | .check p _ _ _ _ => inferInstanceAs (Decidable (x.calls = [] ∧ (x.peer p).stage = .begun))
  | .arm p => inferInstanceAs (Decidable ((x.peer p).stage.isStored = true))
  | .notify => inferInstanceAs (Decidable (x.calls ≠ []))
  | .fire p => inferInstanceAs (Decidable (x.calls = [] ∧ (x.peer p).stage.isWaiting = true))

def Step (env : Env) (x : LongPoll) (e : Event) (y : LongPoll) : Prop :=
  x.Permitted e ∧ y = x.next env e

/-- Connections without a request, on a manager that has just been set up. -/
def start (env : Env) (lastTime limit itemSizeMax itemSizeMin : Nat) (factor : Rat) : LongPoll where
  mgr := (Sys.start env lastTime limit itemSizeMax itemSizeMin factor).mgr
  peer := fun _ => ⟨.ready, false, .idle, none, none⟩
  calls := []

end LongPoll

/-! ## What an operation does to the sinks -/

/-- The sinks of the watches and the new calls: a sink is called once and is no longer stored
then. `own p w` says that the connection `p` could be stored in the watch `w` at first. -/
structure Calls (own : Sink → Nat → Prop) (base : List (Sink × Nat)) (y : Watches)
    (new : List (Sink × Nat)) : Prop where
  sinkCalls : y.sinkCalls = base ++ new
  nodup : (new.map Prod.fst).Nodup
  owned : ∀ c ∈ new, ∃ w, own c.1 w
  holder : ∀ {w watch p}, y.watchMap w = some watch → watch.wp = some p →
    own p w ∧ p ∉ new.map Prod.fst

namespace LongPollLemmas

variable {own : Sink → Nat → Prop} {base new : List (Sink × Nat)} {y : Watches} {w : Nat}

/-- A notification calls the sink and forgets it, or there is none that is alive. -/
theorem notifyWatch_cases (watch : CacheWatch) (alive : Sink → Bool) (n : Note) :
    (∃ p, watch.wp = some p ∧ (watch.notifyWatch alive n.1 n.2).2 = some p ∧
      (watch.notifyWatch alive n.1 n.2).1.wp = none) ∨
    ((watch.notifyWatch alive n.1 n.2).2 = none ∧
      (watch.notifyWatch alive n.1 n.2).1.wp = watch.wp) := by
  cases hl : watch.lock alive with
  | none => exact .inr (by simp only [CacheWatch.notifyWatch, CacheWatch.lock] at hl ⊢; simp [hl])
  | some p =>
    have hwp : watch.wp = some p := (Option.filter_eq_some_iff.mp hl).1
    exact .inl ⟨p, hwp, by simp only [CacheWatch.notifyWatch, CacheWatch.lock] at hl ⊢; simp [hl]⟩

/-- A watch after one of them has been set. -/
theorem update_some {f : Nat → Option CacheWatch} {v : Nat} {a b : CacheWatch}
    (h : Function.update f w (some a) v = some b) : (v = w ∧ b = a) ∨ (v ≠ w ∧ f v = some b) := by
  by_cases hv : v = w
  · subst hv
    rw [Function.update_self] at h
    exact .inl ⟨rfl, (Option.some.inj h).symm⟩
  · rw [Function.update_of_ne hv] at h
    exact .inr ⟨hv, h⟩

theorem calls_notify (huniq : ∀ p w w', own p w → own p w' → w = w') (h : Calls own base y new)
    (w : Nat) (n : Note) : ∃ new', Calls own base (y.notify w n) new' := by
  cases hw : y.watchMap w with
  | none => exact ⟨new, (Watches.notify_none hw n).symm ▸ h⟩
  | some watch =>
    rw [Watches.notify_some hw n]
    rcases notifyWatch_cases watch y.sinkAlive n with ⟨p, hp, hcall, hwp⟩ | ⟨hcall, hwp⟩
    · obtain ⟨howns, hnew⟩ := h.holder hw hp
      refine ⟨new ++ [(p, watch.watchId)], ?_, ?_, fun c hc => ?_, fun {v wt q} hv hq => ?_⟩
      · rw [hcall, h.sinkCalls, List.append_assoc]
        rfl
      · rw [List.map_append, List.nodup_append]
        refine ⟨h.nodup, List.nodup_singleton _, fun a ha b hb => ?_⟩
        rintro rfl
        obtain rfl : a = p := List.mem_singleton.mp hb
        exact hnew ha
      · rcases List.mem_append.mp hc with hc | hc
        · exact h.owned c hc
        · exact ⟨w, List.mem_singleton.mp hc ▸ howns⟩
      · rcases update_some hv with ⟨rfl, rfl⟩ | ⟨hvw, hv⟩
        · rw [hwp] at hq
          exact nomatch hq
        · -- the sink of another watch is another connection
          obtain ⟨hown, hn⟩ := h.holder hv hq
          refine ⟨hown, fun hm => ?_⟩
          rw [List.map_append, List.mem_append] at hm
          rcases hm with hm | hm
          · exact hn hm
          · obtain rfl : q = p := List.mem_singleton.mp hm
            exact hvw (huniq q v w hown howns)
    · refine ⟨new, ?_, h.nodup, h.owned, fun {v wt q} hv hq => ?_⟩
      · rw [hcall, h.sinkCalls]
        exact (List.append_nil _)
      · rcases update_some hv with ⟨rfl, rfl⟩ | ⟨-, hv⟩
        · rw [hwp] at hq
          exact h.holder hw hq
        · exact h.holder hv hq

theorem calls_notifyAll (huniq : ∀ p w w', own p w → own p w' → w = w')
    (h : Calls own base y new) (ns : List (Nat × Note)) :
    ∃ new', Calls own base (y.notifyAll ns) new' :=
  Watches.notifyAll_induct (I := fun y => ∃ new, Calls own base y new)
    (fun _ w n ⟨_, h⟩ => calls_notify huniq h w n) ⟨new, h⟩

/-- Every operation but those of the connections themselves. -/
theorem calls_exec (env : Env) {s : CacheMgr} {op : Op}
    (huniq : ∀ p w w', own p w → own p w' → w = w') (hop : LongPoll.polls op = false)
    (h : Calls own base s.watches []) : ∃ new, Calls own base (s.exec env op).2.watches new := by
  cases hs : op.special with
  | false =>
    obtain ⟨ns, hns⟩ := (tells_exec env s hs).watches
    rw [hns]
    exact calls_notifyAll huniq h ns
  | true =>
    cases op with
    | checkExpired =>
      have hgone : Calls own base (s.expireWatchs s.currTime).watches [] := by
        refine ⟨h.sinkCalls, h.nodup, h.owned, fun {v wt q} hv hq => ?_⟩
        exact h.holder (Option.filter_eq_some_iff.mp hv).1 hq
      show ∃ new, Calls own base (s.checkExpired env).watches new
      rcases watches_checkExpired env s with he | ⟨ns, he⟩
      · exact ⟨[], he.symm ▸ h⟩
      · rw [he]
        exact calls_notifyAll huniq hgone ns
    | createWatch g x =>
      refine ⟨[], ?_⟩
      show Calls own base (s.createWatch g x).2.watches []
      unfold CacheMgr.createWatch
      dsimp only
      split
      · refine ⟨h.sinkCalls, h.nodup, h.owned, fun {v wt q} hv hq => ?_⟩
        rcases update_some hv with ⟨-, rfl⟩ | ⟨-, hv⟩
        · -- a new watch has no sink
          exact nomatch hq
        · exact h.holder hv hq
      · exact h
    | setCurrentTime tt => exact ⟨[], h⟩
    | checkWatchAndSetCallback sp g w ack x => exact nomatch hop
    | checkWatchAndClearCallback sp w => exact nomatch hop
    | connections alive => exact nomatch hop
    | _ => exact nomatch hs

end LongPollLemmas

/-! ## The invariant -/

namespace LongPoll

/-- The connection works on a check of the watch `w`. -/
def On (x : LongPoll) (p : Sink) (w : Nat) : Prop :=
  (x.peer p).stage = .stored w ∨ (x.peer p).stage = .waiting w

/-- The connection has been stored in `w` and has not been called since. -/
def Own (x : LongPoll) (p : Sink) (w : Nat) : Prop := x.On p w ∧ (x.peer p).cause = none

/-- The connection has been called, and the call is over. -/
def Told (x : LongPoll) (p : Sink) : Prop := (x.peer p).cause ≠ none ∧ p ∉ x.calls

/-- Where the two threads meet: before the timer is armed the flag says that the connection has
been told, afterwards it is set and the timer says so. -/
inductive Rendezvous (x : LongPoll) (p : Sink) : Prop
  | ready (stage : (x.peer p).stage = .ready)
  | begun (stage : (x.peer p).stage = .begun) (flag : (x.peer p).timerFlag = false)
  | stored {w : Nat} (stage : (x.peer p).stage = .stored w)
      (flag : (x.peer p).timerFlag = true ↔ x.Told p)
  | waiting {w : Nat} (stage : (x.peer p).stage = .waiting w) (flag : (x.peer p).timerFlag = true)
      (armed : ¬ x.Told p → (x.peer p).timer = .armed)
      (cancelled : x.Told p → (x.peer p).timer = .cancelled)

structure Inv (x : LongPoll) : Prop where
  holder : ∀ {w watch p}, x.mgr.watchMap w = some watch → watch.wp = some p → x.Own p w
  called : ∀ {p}, p ∈ x.calls → (x.peer p).cause ≠ none ∧ ∃ w, x.On p w
  nodup : x.calls.Nodup
  alive : ∀ {p}, (x.peer p).stage ≠ .ready → x.mgr.sinkAlive p = true
  rendezvous : ∀ p, x.Rendezvous p

end LongPoll

namespace LongPollLemmas

open LongPoll

variable {env : Env} {x y : LongPoll} {p q : Sink} {w : Nat}

theorem own_unique {v : Nat} (h : x.Own p w) (h' : x.Own p v) : w = v := by
  obtain ⟨h1 | h1, -⟩ := h <;> obtain ⟨h2 | h2, -⟩ := h' <;> rw [h1] at h2 <;> injection h2

theorem not_on_of_ready (h : (x.peer p).stage = .ready) : ¬ x.On p w := by
  rintro (h' | h') <;> rw [h] at h' <;> exact nomatch h'

theorem not_on_of_begun (h : (x.peer p).stage = .begun) : ¬ x.On p w := by
  rintro (h' | h') <;> rw [h] at h' <;> exact nomatch h'

/-- Nothing about the connection has changed. -/
theorem rendezvous_congr (h : x.Rendezvous p) (hp : y.peer p = x.peer p)
    (hc : p ∈ y.calls ↔ p ∈ x.calls) : y.Rendezvous p := by
  have ht : y.Told p ↔ x.Told p := by
    unfold Told
    rw [hp, hc]
  cases h with
  | ready stage => exact .ready (hp ▸ stage)
  | begun stage flag => exact .begun (hp ▸ stage) (hp ▸ flag)
  | stored stage flag => exact .stored (hp ▸ stage) (hp ▸ flag.trans ht.symm)
  | waiting stage flag armed cancelled =>
    exact .waiting (hp ▸ stage) (hp ▸ flag) (fun h => hp ▸ armed fun h' => h (ht.mpr h'))
      fun h => hp ▸ cancelled (ht.mp h)

@[simp] theorem peer_setPeer_self (x : LongPoll) (p : Sink) (q : Peer) :
    (x.setPeer p q).peer p = q := Function.update_self ..

theorem peer_setPeer_of_ne (x : LongPoll) (r : Peer) (h : q ≠ p) :
    (x.setPeer p r).peer q = x.peer q := Function.update_of_ne h ..

/-! ## Steps of the manager -/

/-- The connections after the manager has run. -/
theorem peer_called (x : LongPoll) (s : CacheMgr) (cs : List (Sink × Nat)) (cause : Nat → Cause)
    (q : Sink) :
    (q ∉ cs.map Prod.fst ∧ (x.called s cs cause).peer q = x.peer q) ∨
      (q ∈ cs.map Prod.fst ∧ ∃ c, (x.called s cs cause).peer q = { x.peer q with cause := some c }) := by
  have hdef : (x.called s cs cause).peer q = match cs.find? fun c => c.1 == q with
      | some c => { x.peer q with cause := some (cause c.2) }
      | none => x.peer q := rfl
  cases hf : cs.find? fun c => c.1 == q with
  | none =>
    rw [hf] at hdef
    refine .inl ⟨fun hm => ?_, hdef⟩
    obtain ⟨c, hc, rfl⟩ := List.mem_map.mp hm
    have := List.find?_eq_none.mp hf c hc
    simp at this
  | some c =>
    rw [hf] at hdef
    have hc : c.1 = q := by simpa using List.find?_some hf
    exact .inr ⟨List.mem_map.mpr ⟨c, List.mem_of_find?_eq_some hf, hc⟩, cause c.2, hdef⟩

/-- The calls that an operation makes are to sinks that waited, and they are forgotten. -/
theorem inv_called {s : CacheMgr} {cs : List (Sink × Nat)} {cause : Nat → Cause} (hx : x.Inv)
    (hidle : x.calls = []) (hs : s.sinkAlive = x.mgr.sinkAlive)
    (hc : Calls x.Own x.mgr.sinkCalls s.watches cs) : (x.called s cs cause).Inv := by
  have hon : ∀ q v, (x.called s cs cause).On q v ↔ x.On q v := by
    intro q v
    rcases peer_called x s cs cause q with ⟨-, he⟩ | ⟨-, c, he⟩ <;>
      simp only [On, he]
  have hcalls : (x.called s cs cause).calls = cs.map Prod.fst := by
    show x.calls ++ _ = _
    rw [hidle, List.nil_append]
  refine ⟨fun {v watch q} hv hq => ?_, fun {q} hq => ?_, ?_, fun {q} hq => ?_, fun q => ?_⟩
  · obtain ⟨⟨ho, hcause⟩, hn⟩ := hc.holder hv hq
    rcases peer_called x s cs cause q with ⟨-, he⟩ | ⟨hm, -⟩
    · exact ⟨(hon q v).mpr ho, he ▸ hcause⟩
    · exact absurd hm hn
  · rw [hcalls] at hq
    rcases peer_called x s cs cause q with ⟨hn, -⟩ | ⟨hm, c, he⟩
    · exact absurd hq hn
    · obtain ⟨⟨r, v⟩, hr, rfl⟩ := List.mem_map.mp hm
      obtain ⟨u, hu, -⟩ := hc.owned _ hr
      exact ⟨by rw [he]; exact nofun, u, (hon _ u).mpr hu⟩
  · rw [hcalls]
    exact hc.nodup
  · show s.sinkAlive q = true
    rw [hs]
    refine hx.alive fun hr => hq ?_
    rcases peer_called x s cs cause q with ⟨-, he⟩ | ⟨-, c, he⟩ <;>
      rw [he] <;> exact hr
  · rcases peer_called x s cs cause q with ⟨hn, he⟩ | ⟨hm, c, he⟩
    · refine rendezvous_congr (hx.rendezvous q) he ?_
      rw [hcalls, hidle]
      exact ⟨fun h => absurd h hn, nofun⟩
    · -- the connection has been called, but the call is still to come
      have hnot : ¬ (x.called s cs cause).Told q := fun h => h.2 (hcalls ▸ hm)
      obtain ⟨⟨r, v⟩, hr, rfl⟩ := List.mem_map.mp hm
      obtain ⟨u, hu, hcause⟩ := hc.owned _ hr
      have hnotx : ¬ x.Told r := fun h => h.1 hcause
      cases hx.rendezvous r with
      | ready stage => exact absurd hu (not_on_of_ready stage)
      | begun stage flag => exact absurd hu (not_on_of_begun stage)
      | stored stage flag =>
        refine .stored (w := _) (by rw [he]; exact stage) ?_
        rw [he]
        exact ⟨fun h => absurd (flag.mp h) hnotx, fun h => absurd h hnot⟩
      | waiting stage flag armed cancelled =>
        refine .waiting (w := _) (by rw [he]; exact stage) (by rw [he]; exact flag) (fun _ => ?_)
          fun h => absurd h hnot
        rw [he]
        exact armed hnotx

theorem newCalls_eq {s s' : CacheMgr} {own : Sink → Nat → Prop} {cs : List (Sink × Nat)}
    (h : Calls own s.sinkCalls s'.watches cs) : newCalls s s' = cs := by
  have hs : s'.sinkCalls = s.sinkCalls ++ cs := h.sinkCalls
  rw [newCalls, hs, List.drop_left]

theorem calls_self (hx : x.Inv) : Calls x.Own x.mgr.sinkCalls x.mgr.watches [] :=
  ⟨(List.append_nil _).symm, List.nodup_nil, nofun, fun hv hq => ⟨hx.holder hv hq, nofun⟩⟩

theorem sinkAlive_notifyAll (y : Watches) (ns : List (Nat × Note)) :
    (y.notifyAll ns).sinkAlive = y.sinkAlive :=
  Watches.notifyAll_induct (I := fun z => z.sinkAlive = y.sinkAlive) (fun z w n h => by
    cases hw : z.watchMap w with
    | none => rw [Watches.notify_none hw, h]
    | some watch => rw [Watches.notify_some hw, ← h]) rfl

theorem sinkAlive_exec {s : CacheMgr} {op : Op} (hop : polls op = false) :
    (s.exec env op).2.sinkAlive = s.sinkAlive := by
  cases hs : op.special with
  | false =>
    obtain ⟨ns, hns⟩ := (tells_exec env s hs).watches
    have h := sinkAlive_notifyAll s.watches ns
    rw [← hns] at h
    exact h
  | true =>
    cases op with
    | checkExpired =>
      show (s.checkExpired env).sinkAlive = s.sinkAlive
      rcases watches_checkExpired env s with he | ⟨ns, he⟩
      · exact congrArg Watches.sinkAlive he
      · exact (congrArg Watches.sinkAlive he).trans (sinkAlive_notifyAll _ ns)
    | createWatch g x =>
      show (s.createWatch g x).2.sinkAlive = s.sinkAlive
      unfold CacheMgr.createWatch
      dsimp only
      split <;> rfl
    | setCurrentTime tt => rfl
    | checkWatchAndSetCallback sp g w ack x => exact nomatch hop
    | checkWatchAndClearCallback sp w => exact nomatch hop
    | connections alive => exact nomatch hop
    | _ => exact nomatch hs

theorem inv_exec {op : Op} (hx : x.Inv) (hidle : x.calls = []) (hop : polls op = false) :
    (x.next env (.exec op)).Inv := by
  have huniq : ∀ p w w', x.Own p w → x.Own p w' → w = w' := fun _ _ _ h h' => own_unique h h'
  obtain ⟨cs, hcs⟩ := calls_exec env huniq hop (calls_self hx)
  have hnext : x.next env (.exec op) = x.called (x.mgr.exec env op).2
      (newCalls x.mgr (x.mgr.exec env op).2)
      fun w => .notified (newNotes x.mgr (x.mgr.exec env op).2 w) := rfl
  rw [hnext, newCalls_eq hcs]
  exact inv_called hx hidle (sinkAlive_exec hop) hcs

/-! ## Steps of a connection -/

/-- A connection that is not stored anywhere and is not being called changes. -/
theorem inv_setPeer {r : Peer} (hx : x.Inv) (hon : ∀ w, ¬ x.On p w)
    (hr : r.stage ≠ .ready → x.mgr.sinkAlive p = true) (hrv : (x.setPeer p r).Rendezvous p) :
    (x.setPeer p r).Inv := by
  have hne : ∀ q v, x.On q v → q ≠ p := fun q v h he => hon v (he ▸ h)
  refine ⟨fun {v watch q} hv hq => ?_, fun {q} hq => ?_, hx.nodup, fun {q} hq => ?_, fun q => ?_⟩
  · obtain ⟨ho, hcause⟩ := hx.holder hv hq
    unfold Own On
    rw [peer_setPeer_of_ne x r (hne q v ho)]
    exact ⟨ho, hcause⟩
  · obtain ⟨hcause, v, ho⟩ := hx.called hq
    unfold On
    rw [peer_setPeer_of_ne x r (hne q v ho)]
    exact ⟨hcause, v, ho⟩
  · rcases eq_or_ne q p with rfl | hqp
    · rw [peer_setPeer_self] at hq
      exact hr hq
    · rw [peer_setPeer_of_ne x r hqp] at hq
      exact hx.alive hq
  · rcases eq_or_ne q p with rfl | hqp
    · exact hrv
    · exact rendezvous_congr (hx.rendezvous q) (peer_setPeer_of_ne x r hqp) Iff.rfl

theorem inv_connection {b : Bool} (hx : x.Inv) (hp : (x.peer p).stage = .ready) :
    (x.next env (.connection p b)).Inv := by
  refine ⟨hx.holder, hx.called, hx.nodup, fun {q} hq => ?_, fun q => ?_⟩
  · have hqp : q ≠ p := fun he => hq (he ▸ hp)
    show Function.update x.mgr.sinkAlive p b q = true
    rw [Function.update_of_ne hqp]
    exact hx.alive hq
  · exact rendezvous_congr (hx.rendezvous q) rfl Iff.rfl

theorem inv_begin (hx : x.Inv) (hp : (x.peer p).stage = .ready)
    (ha : x.mgr.sinkAlive p = true) : (x.next env (.begin p)).Inv := by
  refine inv_setPeer hx (fun w => not_on_of_ready hp) (fun _ => ha) (.begun ?_ ?_)
  · rw [peer_setPeer_self]
  · rw [peer_setPeer_self]

/-- A check either finds something and leaves the sinks alone, or stores the connection and
calls the sink that was there. -/
theorem checkAndSetCallback_sink (watch : CacheWatch) (alive : Sink → Bool) (p : Sink)
    (ack expireTime : Nat) :
    (0 < (watch.checkAndSetCallback alive p ack expireTime).2.1.updatedList.length ∧
      (watch.checkAndSetCallback alive p ack expireTime).1.wp = watch.wp ∧
      (watch.checkAndSetCallback alive p ack expireTime).2.2 = none) ∨
    ((watch.checkAndSetCallback alive p ack expireTime).2.1.updatedList = [] ∧
      (watch.checkAndSetCallback alive p ack expireTime).1.wp = some p ∧
      (watch.checkAndSetCallback alive p ack expireTime).2.2 = watch.lock alive) := by
  unfold CacheWatch.checkAndSetCallback
  dsimp only
  split
  · next h =>
    refine .inl ⟨?_, rfl, rfl⟩
    simp only [Bool.and_eq_true, Bool.not_eq_true', List.isEmpty_eq_false_iff] at h
    exact List.length_pos_iff.mpr h.1
  · split
    · split
      · next h => exact .inl ⟨h, rfl, rfl⟩
      · exact .inr ⟨rfl, rfl, rfl⟩
    · split
      · next h => exact .inl ⟨h, rfl, rfl⟩
      · exact .inr ⟨rfl, rfl, rfl⟩

/-- The sink of a watch is called and taken out of it. -/
theorem calls_take {watch : CacheWatch} {s : CacheMgr} (hx : x.Inv)
    (hw : x.mgr.watchMap w = some watch) (hcalls : s.sinkCalls = x.mgr.sinkCalls ++
      ((watch.lock x.mgr.sinkAlive).map fun q => (q, watch.watchId)).toList)
    (hmap : ∀ v wt, s.watchMap v = some wt → wt.wp = none ∨ (v ≠ w ∧ x.mgr.watchMap v = some wt)) :
    Calls x.Own x.mgr.sinkCalls s.watches
      ((watch.lock x.mgr.sinkAlive).map fun q => (q, watch.watchId)).toList := by
  have hother : ∀ {v wt q}, s.watchMap v = some wt → wt.wp = some q → v ≠ w ∧ x.Own q v := by
    intro v wt q hv hq
    rcases hmap v wt hv with hnone | ⟨hvw, hv⟩
    · rw [hnone] at hq
      exact nomatch hq
    · exact ⟨hvw, hx.holder hv hq⟩
  cases hl : watch.lock x.mgr.sinkAlive with
  | none =>
    rw [hl] at hcalls
    exact ⟨hcalls, List.nodup_nil, nofun, fun hv hq => ⟨(hother hv hq).2, nofun⟩⟩
  | some r =>
    have howns := hx.holder hw (Option.filter_eq_some_iff.mp hl).1
    rw [hl] at hcalls
    refine ⟨hcalls, List.nodup_singleton _, fun c hc => ?_, fun {v wt q} hv hq => ?_⟩
    · obtain rfl := List.mem_singleton.mp hc
      exact ⟨w, howns⟩
    · obtain ⟨hvw, hown⟩ := hother hv hq
      refine ⟨hown, fun hm => ?_⟩
      obtain rfl : q = r := List.mem_singleton.mp hm
      exact hvw (own_unique hown howns)

/-- A connection is stored in a watch. -/
theorem inv_store {s : CacheMgr} (hx : x.Inv) (hp : (x.peer p).stage = .begun)
    (hs : s.sinkAlive = x.mgr.sinkAlive)
    (hmap : ∀ v wt, s.watchMap v = some wt →
      (v = w ∧ wt.wp = some p) ∨ x.mgr.watchMap v = some wt) :
    ({ x with mgr := s }.setPeer p { x.peer p with stage := .stored w, cause := none }).Inv := by
  have hne : ∀ q v, x.On q v → q ≠ p := fun q v h he => not_on_of_begun (he ▸ hp) h
  refine ⟨fun {v wt q} hv hq => ?_, fun {q} hq => ?_, hx.nodup, fun {q} hq => ?_, fun q => ?_⟩
  · rcases hmap v wt hv with ⟨rfl, hwp⟩ | hv
    · obtain rfl := Option.some.inj (hq.symm.trans hwp)
      unfold Own On
      rw [peer_setPeer_self]
      exact ⟨.inl rfl, rfl⟩
    · obtain ⟨ho, hcause⟩ := hx.holder hv hq
      unfold Own On
      rw [peer_setPeer_of_ne _ _ (hne q v ho)]
      exact ⟨ho, hcause⟩
  · obtain ⟨hcause, v, ho⟩ := hx.called hq
    unfold On
    rw [peer_setPeer_of_ne _ _ (hne q v ho)]
    exact ⟨hcause, v, ho⟩
  · show s.sinkAlive q = true
    rw [hs]
    rcases eq_or_ne q p with rfl | hqp
    · exact hx.alive (by rw [hp]; exact nofun)
    · rw [peer_setPeer_of_ne _ _ hqp] at hq
      exact hx.alive hq
  · rcases eq_or_ne q p with rfl | hqp
    · -- the flag has been cleared before, and nobody has called since
      cases hx.rendezvous q with
      | begun stage flag =>
        refine .stored (w := w) (by rw [peer_setPeer_self]) ?_
        rw [Told, peer_setPeer_self]
        exact ⟨fun h => absurd (flag.symm.trans h) (by decide), fun h => absurd rfl h.1⟩
      | ready stage => exact nomatch stage.symm.trans hp
      | stored stage flag => exact nomatch stage.symm.trans hp
      | waiting stage flag armed cancelled => exact nomatch stage.symm.trans hp
    · exact rendezvous_congr (hx.rendezvous q) (peer_setPeer_of_ne _ _ hqp) Iff.rfl

theorem inv_check {g ack interval : Nat} (hx : x.Inv) (hidle : x.calls = [])
    (hp : (x.peer p).stage = .begun) : (x.next env (.check p g w ack interval)).Inv := by
  have halive : x.mgr.sinkAlive p = true := hx.alive (by rw [hp]; rintro ⟨⟩)
  show (x.check p g w ack interval).Inv
  cases hw : x.mgr.watchMap w with
  | none =>
    have hdef : x.mgr.checkWatchAndSetCallback p g w ack interval =
        (none, x.mgr.stat (.checkWatchMiss g)) := by
      simp [CacheMgr.checkWatchAndSetCallback, hw]
    have hnew : newCalls x.mgr (x.mgr.stat (.checkWatchMiss g)) = [] := List.drop_length
    simp only [LongPoll.check, hdef, hnew]
    refine inv_setPeer (inv_called hx hidle rfl (calls_self hx)) (fun v => not_on_of_begun hp)
      (fun h => absurd rfl h) (.ready ?_)
    rw [peer_setPeer_self]
  | some watch =>
    obtain ⟨watch', out, sink, hcheck⟩ : ∃ watch' out sink, watch.checkAndSetCallback
      x.mgr.sinkAlive p ack (CacheMgr.realtime x.mgr.currTime interval) = (watch', out, sink) :=
      ⟨_, _, _, rfl⟩
    have hsink := checkAndSetCallback_sink watch x.mgr.sinkAlive p ack
      (CacheMgr.realtime x.mgr.currTime interval)
    rw [hcheck] at hsink
    generalize hs : ({ x.mgr with
      watchMap := Function.update x.mgr.watchMap w (some watch')
      sinkCalls := x.mgr.sinkCalls ++ (sink.map fun q => (q, watch.watchId)).toList }.stat
        (.checkWatch g)) = s
    have hdef : x.mgr.checkWatchAndSetCallback p g w ack interval = (some out, s) := by
      simp [CacheMgr.checkWatchAndSetCallback, hw, hcheck, hs]
    have hmap : s.watchMap = Function.update x.mgr.watchMap w (some watch') := by rw [← hs]; rfl
    have hcalls : s.sinkCalls = x.mgr.sinkCalls ++
      (sink.map fun q => (q, watch.watchId)).toList := by rw [← hs]; rfl
    have hsa : s.sinkAlive = x.mgr.sinkAlive := by rw [← hs]; rfl
    rcases hsink with ⟨hlen, hwp, rfl⟩ | ⟨hnil, hwp, rfl⟩
    · -- something was pending: the response is queued
      have hc : Calls x.Own x.mgr.sinkCalls s.watches [] := by
        refine ⟨hcalls, List.nodup_nil, (fun _ hq => by cases hq), fun {v wt q} hv hq => ⟨?_, (by rintro ⟨⟩)⟩⟩
        have hv' : s.watchMap v = some wt := hv
        rw [hmap] at hv'
        rcases update_some hv' with ⟨rfl, rfl⟩ | ⟨-, hv'⟩
        · exact hx.holder hw (hwp ▸ hq)
        · exact hx.holder hv' hq
      simp only [LongPoll.check, hdef, newCalls_eq hc, if_pos hlen]
      refine inv_setPeer (inv_called hx hidle hsa hc) (fun v => not_on_of_begun hp)
        (fun h => absurd rfl h) (.ready ?_)
      rw [peer_setPeer_self]
    · -- the sink that was there is called, then the connection takes its place
      generalize hcs : ((watch.lock x.mgr.sinkAlive).map fun q => (q, watch.watchId)).toList = cs
        at hcalls
      obtain ⟨s₀, hs₀⟩ : ∃ s₀, s₀ = { s with
        watchMap := Function.update s.watchMap w (some { watch' with wp := none }) } := ⟨_, rfl⟩
      have hc : Calls x.Own x.mgr.sinkCalls s₀.watches cs := by
        rw [← hcs] at hcalls ⊢
        refine calls_take hx hw (hs₀ ▸ hcalls) fun v wt hv => ?_
        rw [hs₀] at hv
        rcases update_some hv with ⟨-, rfl⟩ | ⟨hvw, hv⟩
        · exact .inl rfl
        · rw [hmap, Function.update_of_ne hvw] at hv
          exact .inr ⟨hvw, hv⟩
      have hnew : newCalls x.mgr s = cs := by
        rw [newCalls, hcalls, List.drop_left]
      have hlen : ¬ 0 < out.updatedList.length := by
        rw [show out.updatedList = [] from hnil]
        exact Nat.lt_irrefl 0
      simp only [LongPoll.check, hdef, hnew, if_neg hlen]
      obtain ⟨z, hz⟩ : ∃ z, z = x.called s₀ cs fun _ => .taken := ⟨_, rfl⟩
      have hzinv : z.Inv := hz ▸ inv_called hx hidle (hs₀ ▸ hsa) hc
      have hstage : (z.peer p).stage = .begun := by
        rw [hz]
        rcases peer_called x s₀ cs (fun _ => .taken) p with ⟨-, he⟩ | ⟨-, c, he⟩ <;> rw [he] <;> exact hp
      have hmgr : z.mgr = s₀ := hz ▸ rfl
      have hgoal : (x.called s cs fun _ => .taken) = { z with mgr := s } := hz ▸ rfl
      rw [hgoal]
      refine inv_store hzinv hstage (by rw [hmgr, hs₀]) fun v wt hv => ?_
      rw [hmgr, hs₀]
      have hv' : s.watchMap v = some wt := hv
      rw [hmap] at hv'
      rcases update_some hv' with ⟨rfl, rfl⟩ | ⟨hvw, hv'⟩
      · exact .inl ⟨rfl, hwp⟩
      · refine .inr ?_
        show Function.update s.watchMap w _ v = some wt
        rw [Function.update_of_ne hvw, hmap, Function.update_of_ne hvw]
        exact hv'

/-- A connection that is stored somewhere, or being called, goes on. -/
theorem inv_proceed {r : Peer} {calls : List Sink} (hx : x.Inv) (hc : r.cause = (x.peer p).cause)
    (hon : ∀ w, x.On p w → ({ x with calls := calls }.setPeer p r).On p w)
    (halive : x.mgr.sinkAlive p = true) (hsub : calls.Sublist x.calls)
    (hcalls : ∀ q, q ≠ p → (q ∈ calls ↔ q ∈ x.calls))
    (hrv : ({ x with calls := calls }.setPeer p r).Rendezvous p) :
    ({ x with calls := calls }.setPeer p r).Inv := by
  have hown : ∀ q w, x.On q w → ({ x with calls := calls }.setPeer p r).On q w ∧
      (({ x with calls := calls }.setPeer p r).peer q).cause = (x.peer q).cause := by
    intro q w h
    rcases eq_or_ne q p with rfl | hqp
    · exact ⟨hon w h, by rw [peer_setPeer_self, hc]⟩
    · unfold On
      rw [peer_setPeer_of_ne _ _ hqp]
      exact ⟨h, rfl⟩
  refine ⟨fun {v wt q} hv hq => ?_, fun {q} hq => ?_, hx.nodup.sublist hsub, fun {q} hq => ?_,
    fun q => ?_⟩
  · obtain ⟨ho, hcause⟩ := hx.holder hv hq
    obtain ⟨h1, h2⟩ := hown q v ho
    exact ⟨h1, h2.trans hcause⟩
  · obtain ⟨hcause, v, ho⟩ := hx.called (hsub.subset hq)
    obtain ⟨h1, h2⟩ := hown q v ho
    exact ⟨h2.symm ▸ hcause, v, h1⟩
  · rcases eq_or_ne q p with rfl | hqp
    · exact halive
    · rw [peer_setPeer_of_ne _ _ hqp] at hq
      exact hx.alive hq
  · rcases eq_or_ne q p with rfl | hqp
    · exact hrv
    · exact rendezvous_congr (hx.rendezvous q) (peer_setPeer_of_ne _ _ hqp) (hcalls q hqp)

theorem inv_arm (hx : x.Inv) (hp : (x.peer p).stage.isStored = true) :
    (x.next env (.arm p)).Inv := by
  cases hst : (x.peer p).stage with
  | stored w =>
    have halive : x.mgr.sinkAlive p = true := hx.alive (by rw [hst]; exact nofun)
    have hw : ∀ (r : Peer) v, r.stage = .waiting w → x.On p v → (x.setPeer p r).On p v := by
      intro r v hr hv
      have hwv : w = v := by
        rcases hv with hv | hv
        · rw [hst] at hv
          exact PollStage.stored.inj hv
        · rw [hst] at hv
          exact nomatch hv
      unfold On
      rw [peer_setPeer_self, hr, hwv]
      exact .inr rfl
    have hflag : (x.peer p).timerFlag = true ↔ x.Told p := by
      cases hx.rendezvous p with
      | stored stage flag => exact flag
      | ready stage => exact nomatch stage.symm.trans hst
      | begun stage => exact nomatch stage.symm.trans hst
      | waiting stage => exact nomatch stage.symm.trans hst
    have hnext : x.next env (.arm p) = x.arm p w := by simp only [LongPoll.next, hst]
    rw [hnext]
    unfold LongPoll.arm
    dsimp only
    split
    · next hf =>
      -- the call came first: the timer is cancelled here
      refine inv_proceed hx rfl (fun v => hw _ v rfl) halive (List.Sublist.refl _)
        (fun _ _ => Iff.rfl) (.waiting (w := w) ?_ ?_ ?_ ?_)
      · rw [peer_setPeer_self]
      · rw [peer_setPeer_self]
        exact hf
      · intro hn
        refine absurd ?_ hn
        rw [Told, peer_setPeer_self]
        exact hflag.mp hf
      · intro _
        rw [peer_setPeer_self]
    · next hf =>
      refine inv_proceed hx rfl (fun v => hw _ v rfl) halive (List.Sublist.refl _)
        (fun _ _ => Iff.rfl) (.waiting (w := w) ?_ ?_ ?_ ?_)
      · rw [peer_setPeer_self]
      · rw [peer_setPeer_self]
      · intro _
        rw [peer_setPeer_self]
      · intro ht
        rw [Told, peer_setPeer_self] at ht
        exact absurd (hflag.mpr ht) hf
  | ready => rw [hst] at hp; exact nomatch hp
  | begun => rw [hst] at hp; exact nomatch hp
  | waiting w => rw [hst] at hp; exact nomatch hp

theorem inv_notify (hx : x.Inv) (hc : x.calls ≠ []) : (x.next env .notify).Inv := by
  cases hcalls : x.calls with
  | nil => exact absurd hcalls hc
  | cons p ps =>
    obtain ⟨hcause, w, hon⟩ := hx.called (p := p) (hcalls ▸ List.mem_cons_self ..)
    have hnd := hx.nodup
    rw [hcalls] at hnd
    obtain ⟨hps, -⟩ := List.nodup_cons.mp hnd
    have hnot : ¬ x.Told p := fun h => h.2 (hcalls ▸ List.mem_cons_self ..)
    have halive : x.mgr.sinkAlive p = true := by
      refine hx.alive fun hr => ?_
      exact not_on_of_ready hr hon
    have hsub : ps.Sublist x.calls := hcalls ▸ List.sublist_cons_self ..
    have hmem : ∀ q, q ≠ p → (q ∈ ps ↔ q ∈ x.calls) := by
      intro q hq
      rw [hcalls, List.mem_cons, or_iff_right hq]
    have hstage : ∀ (r : Peer) v, r.stage = (x.peer p).stage → x.On p v →
        ({ x with calls := ps }.setPeer p r).On p v := by
      intro r v hr hv
      unfold On at hv ⊢
      rw [peer_setPeer_self, hr]
      exact hv
    have hnext : x.next env .notify = { x with calls := ps }.onCacheWatchNotify p := by
      simp only [LongPoll.next, hcalls]
    rw [hnext]
    unfold LongPoll.onCacheWatchNotify
    dsimp only
    cases hx.rendezvous p with
    | ready stage => exact absurd hon (not_on_of_ready stage)
    | begun stage flag => exact absurd hon (not_on_of_begun stage)
    | @stored v stage flag =>
      -- the timer is not armed yet: the flag tells the other thread to cancel it
      have hf : (x.peer p).timerFlag = false := Bool.eq_false_iff.mpr fun h => hnot (flag.mp h)
      rw [if_neg (by rw [hf]; exact Bool.false_ne_true)]
      refine inv_proceed hx rfl (fun v => hstage _ v rfl) halive hsub hmem (.stored (w := v) ?_ ?_)
      · rw [peer_setPeer_self]
        exact stage
      · rw [Told, peer_setPeer_self]
        exact ⟨fun _ => ⟨hcause, hps⟩, fun _ => rfl⟩
    | @waiting v stage flag armed cancelled =>
      rw [if_pos flag]
      refine inv_proceed hx rfl (fun v => hstage _ v rfl) halive hsub hmem
        (.waiting (w := v) ?_ ?_ ?_ ?_)
      · rw [peer_setPeer_self]
        exact stage
      · rw [peer_setPeer_self]
        exact flag
      · intro hn
        refine absurd ?_ hn
        rw [Told, peer_setPeer_self]
        exact ⟨hcause, hps⟩
      · intro _
        rw [peer_setPeer_self, armed hnot]
        rfl

/-- The handler of the timer takes the connection out of the watch, if it is still there. -/
theorem checkAndClearCallback_sink (watch : CacheWatch) {alive : Sink → Bool} (h : alive p = true) :
    (watch.wp = some p ∧ (watch.checkAndClearCallback alive p).1.wp = none) ∨
      (watch.wp ≠ some p ∧ watch.checkAndClearCallback alive p = (watch, ⟨none, [], []⟩)) := by
  by_cases hwp : watch.wp = some p
  · refine .inl ⟨hwp, ?_⟩
    have hl : watch.lock alive = some p := by simp [CacheWatch.lock, hwp, h]
    unfold CacheWatch.checkAndClearCallback
    rw [if_pos hl]
    split <;> rfl
  · refine .inr ⟨hwp, ?_⟩
    have hl : watch.lock alive ≠ some p := fun hl => hwp (Option.filter_eq_some_iff.mp hl).1
    unfold CacheWatch.checkAndClearCallback
    rw [if_neg hl]

/-- A connection leaves its watch. -/
theorem inv_leave {s : CacheMgr} {r : Peer} (hx : x.Inv) (hidle : x.calls = [])
    (hr : r.stage = .ready) (hs : s.sinkAlive = x.mgr.sinkAlive)
    (hmap : ∀ v wt q, s.watchMap v = some wt → wt.wp = some q →
      q ≠ p ∧ ∃ wt, x.mgr.watchMap v = some wt ∧ wt.wp = some q) :
    ({ x with mgr := s }.setPeer p r).Inv := by
  refine ⟨fun {v wt q} hv hq => ?_, fun {q} hq => ?_, hx.nodup, fun {q} hq => ?_, fun q => ?_⟩
  · obtain ⟨hqp, wt', hv', hq'⟩ := hmap v wt q hv hq
    obtain ⟨ho, hcause⟩ := hx.holder hv' hq'
    unfold Own On
    rw [peer_setPeer_of_ne _ _ hqp]
    exact ⟨ho, hcause⟩
  · have hq' : q ∈ x.calls := hq
    rw [hidle] at hq'
    exact nomatch hq'
  · show s.sinkAlive q = true
    rw [hs]
    rcases eq_or_ne q p with rfl | hqp
    · rw [peer_setPeer_self] at hq
      exact absurd hr hq
    · rw [peer_setPeer_of_ne _ _ hqp] at hq
      exact hx.alive hq
  · rcases eq_or_ne q p with rfl | hqp
    · refine .ready ?_
      rw [peer_setPeer_self, hr]
    · exact rendezvous_congr (hx.rendezvous q) (peer_setPeer_of_ne _ _ hqp) Iff.rfl

theorem inv_fire (hx : x.Inv) (hidle : x.calls = []) (hp : (x.peer p).stage = .waiting w) :
    (x.handleTimer p w).Inv := by
  have halive : x.mgr.sinkAlive p = true := hx.alive (by rw [hp]; rintro ⟨⟩)
  -- no other watch has the connection as its sink
  have hother : ∀ v wt, x.mgr.watchMap v = some wt → wt.wp = some p → v = w :=
    fun v wt hv hq => own_unique (hx.holder hv hq) ⟨.inr hp, (hx.holder hv hq).2⟩
  unfold LongPoll.handleTimer
  cases hw : x.mgr.watchMap w with
  | none =>
    have hdef : x.mgr.checkWatchAndClearCallback p w = (none, x.mgr) := by
      simp [CacheMgr.checkWatchAndClearCallback, hw]
    rw [hdef]
    refine inv_leave hx hidle rfl rfl fun v wt q hv hq => ⟨?_, wt, hv, hq⟩
    rintro rfl
    rw [hother v wt hv hq, hw] at hv
    cases hv
  | some watch =>
    have hdef : x.mgr.checkWatchAndClearCallback p w =
        (some (watch.checkAndClearCallback x.mgr.sinkAlive p).2, { x.mgr with
          watchMap := Function.update x.mgr.watchMap w
            (some (watch.checkAndClearCallback x.mgr.sinkAlive p).1) }) := by
      simp only [CacheMgr.checkWatchAndClearCallback, hw]
    rw [hdef]
    refine inv_leave hx hidle rfl rfl fun v wt q hv hq => ?_
    rcases update_some hv with ⟨rfl, rfl⟩ | ⟨hvw, hv'⟩
    · rcases checkAndClearCallback_sink watch halive with ⟨-, hnone⟩ | ⟨hne, hsame⟩
      · rw [hnone] at hq
        cases hq
      · rw [hsame] at hq
        exact ⟨fun he => hne (he ▸ hq), watch, hw, hq⟩
    · refine ⟨?_, wt, hv', hq⟩
      rintro rfl
      exact hvw (hother v wt hv' hq)

theorem inv_step {e : Event} (hx : x.Inv) (hp : x.Permitted e) : (x.next env e).Inv := by
  cases e with
  | exec op => exact inv_exec hx hp.1 hp.2
  | connection p b => exact inv_connection hx hp.2
  | begin p => exact inv_begin hx hp.1 hp.2
  | check p g w ack interval => exact inv_check hx hp.1 hp.2
  | arm p => exact inv_arm hx hp
  | notify => exact inv_notify hx hp
  | fire p =>
    obtain ⟨hidle, hp⟩ := hp
    cases hst : (x.peer p).stage with
    | waiting w =>
      have hnext : x.next env (.fire p) = x.handleTimer p w := by simp only [LongPoll.next, hst]
      rw [hnext]
      exact inv_fire hx hidle hst
    | ready => rw [hst] at hp; exact nomatch hp
    | begun => rw [hst] at hp; exact nomatch hp
    | stored w => rw [hst] at hp; exact nomatch hp

theorem inv_start {lastTime limit itemSizeMax itemSizeMin : Nat} {factor : Rat} :
    (start env lastTime limit itemSizeMax itemSizeMin factor).Inv := by
  obtain ⟨m, i, f, he⟩ := SystemLemmas.init_eq env (CacheMgr.new lastTime) limit itemSizeMax
    itemSizeMin factor
  refine ⟨fun {w watch p} hw hp => ?_, (fun hq => by cases hq), List.nodup_nil, fun h => absurd rfl h,
    fun p => .ready rfl⟩
  simp only [start, Sys.start, he] at hw
  cases hw

theorem inv_of_run {lastTime limit itemSizeMax itemSizeMin : Nat} {factor : Rat}
    {t : List (LongPoll × Event)}
    (h : Run (Step env) (start env lastTime limit itemSizeMax itemSizeMin factor) t x) : x.Inv :=
  h.invariant (I := fun x : LongPoll => x.Inv)
    (fun _ _ _ hx hs => by rw [hs.2]; exact inv_step hx hs.1) inv_start

end LongPollLemmas

open LongPoll LongPollLemmas

variable {env : Env} {x y : LongPoll} {p : Sink} {w : Nat}
  {lastTime limit itemSizeMax itemSizeMin : Nat} {factor : Rat} {t : List (LongPoll × Event)}

/-! ## No lost wake-up -/

/-- When a connection has been parked and no call is on its way to it, its timer has been
cancelled if it has been called since it was stored, and is armed if it has not. -/
theorem wakeup_of_run
    (h : Run (Step env) (start env lastTime limit itemSizeMax itemSizeMin factor) t x)
    (hw : (x.peer p).stage = .waiting w) (hp : p ∉ x.calls) :
    ((x.peer p).timer = .cancelled ↔ (x.peer p).cause ≠ none) ∧
      ((x.peer p).timer = .armed ↔ (x.peer p).cause = none) := by
  cases (inv_of_run h).rendezvous p with
  | ready stage => exact nomatch stage.symm.trans hw
  | begun stage => exact nomatch stage.symm.trans hw
  | stored stage => exact nomatch stage.symm.trans hw
  | waiting stage flag armed cancelled =>
    by_cases hc : (x.peer p).cause = none
    · have hta := armed fun h => h.1 hc
      rw [hta]
      exact ⟨⟨nofun, fun h => absurd hc h⟩, fun _ => hc, fun _ => rfl⟩
    · have htc := cancelled ⟨hc, hp⟩
      rw [htc]
      exact ⟨⟨fun _ => hc, fun _ => rfl⟩, nofun, fun h => absurd h hc⟩

/-- Connection 7 checks watch 1 of an item that connection 8 sets; it has been stored, but its
timer is not armed yet when the notification comes. -/
def parkedOps : List Event :=
  [.exec (.createWatch 1 600), .exec (.alloc .zeros 1 1 0 0 1 0),
    .exec (.fill 0 ⟨[107], [53], [], 0⟩), .exec (.update .set .zeros 0 1), .begin 7,
    .check 7 1 1 0 600, .exec (.remove 1 [107] 0), .notify, .arm 7]

theorem wakeup_parked :
    let x := parkedOps.foldl (next (.colliding .uint16)) (start (.colliding .uint16) 0 100000 1000 2000 2)
    (x.peer 7).timer = .cancelled ∧ (x.peer 7).cause = some (.notified [(1, .deleted)]) := by
  intro x
  have hok : Admitted Permitted (next (.colliding .uint16))
      (start (.colliding .uint16) 0 100000 1000 2000 2) parkedOps := by
    decide +kernel
  obtain ⟨t, ht⟩ := hok.run
  have hcause : (x.peer 7).cause = some (.notified [(1, .deleted)]) := by decide +kernel
  have hstage : (x.peer 7).stage = .waiting 1 := by decide +kernel
  have hcalls : 7 ∉ x.calls := by decide +kernel
  refine ⟨(wakeup_of_run ht hstage hcalls).1.mpr ?_, hcause⟩
  rw [hcause]
  exact nofun

/-! ## What a woken connection is told -/

namespace LongPoll

/-- The last response to the connection holds the notification, under the number of the batch. -/
def Delivered (y : LongPoll) (p : Sink) (w : Nat) (n : Note) : Prop :=
  ∃ r watch, (y.peer p).response = some r ∧ y.mgr.watchMap w = some watch ∧ n ∈ r.notes ∧
    r.sequence = some watch.sequence

end LongPoll

/-- The call that wakes a connection takes it out of the watch, so the handler of its timer
does not find it there and answers without a notification and without a number. -/
theorem not_delivered
    (h : Run (Step env) (start env lastTime limit itemSizeMax itemSizeMin factor) t x)
    (hw : (x.peer p).stage = .waiting w) {ns : List Note}
    (hc : (x.peer p).cause = some (.notified ns)) (hlive : (x.mgr.watchMap w).isSome)
    (hs : Step env x (.fire p) y) :
    (y.peer p).response = some ⟨none, [], []⟩ ∧ ∀ n ∈ ns, ¬ LongPoll.Delivered y p w n := by
  have hx := inv_of_run h
  have halive : x.mgr.sinkAlive p = true := hx.alive (by rw [hw]; rintro ⟨⟩)
  obtain ⟨watch, hwatch⟩ := Option.isSome_iff_exists.mp hlive
  have hresponse : (y.peer p).response = some ⟨none, [], []⟩ := by
    rcases checkAndClearCallback_sink watch halive with ⟨hwp, -⟩ | ⟨-, hsame⟩
    · have hown := hx.holder hwatch hwp
      cases hown.2.symm.trans hc
    · rw [hs.2]
      simp only [LongPoll.next, hw, LongPoll.handleTimer, CacheMgr.checkWatchAndClearCallback, hwatch,
        hsame, peer_setPeer_self]
  refine ⟨hresponse, ?_⟩
  rintro n - ⟨r, wt, hr, -, hn, -⟩
  obtain rfl := Option.some.inj (hresponse.symm.trans hr)
  cases hn

/-- The handler that the removal of the item has set off. -/
theorem not_delivered_parked :
    let env := Env.colliding .uint16
    let x := parkedOps.foldl (next env) (start env 0 100000 1000 2000 2)
    ((x.next env (.fire 7)).peer 7).response = some ⟨none, [], []⟩ := by
  intro env x
  have hok : Admitted Permitted (next env) (start env 0 100000 1000 2000 2) parkedOps := by
    decide +kernel
  obtain ⟨t, ht⟩ := hok.run
  have hrun : Run (Step env) (start env 0 100000 1000 2000 2) t x := ht
  have hperm : x.Permitted (.fire 7) := by decide +kernel
  have hstage : (x.peer 7).stage = .waiting 1 := by decide +kernel
  have hcause : (x.peer 7).cause = some (.notified [(1, .deleted)]) := by decide +kernel
  have hlive : (x.mgr.watchMap 1).isSome := by decide +kernel
  clear_value x
  exact (not_delivered hrun hstage hcause hlive ⟨hperm, rfl⟩).1

/-- Watch 1 still holds the notification that woke connection 7. -/
theorem undelivered_parked :
    let env := Env.colliding .uint16
    let x := parkedOps.foldl (next env) (start env 0 100000 1000 2000 2)
    ∃ t y, Run (Step env) (start env 0 100000 1000 2000 2) t x ∧
      (x.peer 7).stage = .waiting 1 ∧ (x.peer 7).timer = .cancelled ∧
      (x.peer 7).cause = some (.notified [(1, .deleted)]) ∧ (x.mgr.watchMap 1).isSome ∧
      Step env x (.fire 7) y ∧ ¬ LongPoll.Delivered y 7 1 (1, .deleted) ∧
      pendingOf y.mgr 1 = [(1, .deleted)] := by
  intro env x
  have hok : Admitted Permitted (next env) (start env 0 100000 1000 2000 2) parkedOps := by
    decide +kernel
  obtain ⟨t, ht⟩ := hok.run
  have hempty : ((x.next env (.fire 7)).peer 7).response = some ⟨none, [], []⟩ := by decide +kernel
  refine ⟨t, x.next env (.fire 7), ht, by decide +kernel, by decide +kernel, by decide +kernel,
    by decide +kernel, ⟨by decide +kernel, rfl⟩, ?_, by decide +kernel⟩
  rintro ⟨r, wt, hr, -, hn, -⟩
  obtain rfl := Option.some.inj (hempty.symm.trans hr)
  exact nomatch hn

end Xixi
