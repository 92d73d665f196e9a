import Mathlib.Algebra.BigOperators.Group.Finset.Basic
import Mathlib.Algebra.Order.BigOperators.Group.Finset
import Mathlib.Data.Fintype.Basic
import Mathlib.Data.List.Basic
import Xixi.Lib.Custody
import Xixi.Lib.Run

/-!
# The sockets of the Java client (`SocketManager.java`)

The manager pools the sockets that are not in use: an active queue and an inactive list for each
server. Its callers run at the same time, so every call is cut into the steps that the queues, the
locks and the volatile `initialized` make atomic. A task is one use of the manager: it gets a
socket, works with it and gives it back, or it is the maintenance or the shutdown.

1. `SocketManager.next`, `Step`: a step of a task.
2. `kept_of_run`: in every interleaving each socket is in one place, pooled, with one task, or
   closed, and it is pooled with the server that it is connected to.
3. `undisturbed_of_run`: what a task holds is touched by nobody else.
4. `active_of_run`: how far several tasks at once can exceed `maxActiveConn`.
5. `drained_of_run`: after a shutdown that no call was crossing, the pool is and stays empty.
-/

namespace Xixi.Client
open Lib

structure ManagerSettings where
  servers : List String
  maxActiveConn : Int
  inactiveSocketTimeout : Int

/-- `hostIndexMap`, after `initialize` has put every server with its index. -/
def hostIndexMap (servers : List String) (host : String) : Option Nat :=
  servers.zipIdx.foldl (fun found x => if x.1 = host then some x.2 else found) none

structure XixiSocket where
  host : String
  lastActiveTime : Int
  closed : Bool
deriving DecidableEq, Repr

/-- The next step of a task; a socket is named by its number, and `host` is the server that was
asked for. -/
inductive Pc
  | idle
  /-- `activeSocketPool.get(i).poll()`. -/
  | poll (i : Nat) (host : String)
  /-- `inactiveSocketPool.get(i).pollFirst()`. -/
  | pollFirst (i : Nat) (host : String)
  /-- `createSocket` looks at `initialized`. -/
  | createSocket (host : String)
  /-- The constructor of the socket. -/
  | connect (host : String)
  /-- The caller has the socket. -/
  | hold (id : Nat) (host : String)
  /-- `addSocket` looks at `initialized` and at `hostIndexMap`. -/
  | addSocket (id : Nat)
  /-- `sockets.size()`. -/
  | size (id i : Nat)
  /-- `sockets.add(socket)`. -/
  | add (id i : Nat)
  /-- `socket.setLastActiveTime(System.currentTimeMillis())`. -/
  | setLastActiveTime (id i : Nat)
  /-- `inactiveSocketPool.get(i).addFirst(socket)`. -/
  | addFirst (id i : Nat)
  | trueClose (id : Nat)
  /-- `closeSocketPool`, at the active queue `i`. -/
  | closeActive (i : Nat)
  /-- `closeSocketPool`, at the inactive lists. -/
  | closeInactive
deriving DecidableEq, Repr

/-- The socket that a task has. -/
def Pc.socket : Pc → Option Nat
  | .hold id _ | .addSocket id | .size id _ | .add id _ | .setLastActiveTime id _ | .addFirst id _
  | .trueClose id => some id
  | .idle | .poll _ _ | .pollFirst _ _ | .createSocket _ | .connect _ | .closeActive _
  | .closeInactive => none

/-- The caller has a socket. -/
def Pc.holds : Pc → Bool
  | .hold _ _ => true
  | _ => false

/-- The queue whose size the task is about to look at. -/
def Pc.looks : Pc → Option Nat
  | .size _ i => some i
  | _ => none

/-- The task is about to add to this queue. -/
def Pc.adds (i : Nat) : Pc → Bool
  | .add _ j => j == i
  | _ => false

/-- The task has seen `initialized`, and does not look at it again. -/
def Pc.late : Pc → Bool
  | .connect _ | .size _ _ | .add _ _ | .setLastActiveTime _ _ | .addFirst _ _ => true
  | _ => false

/-- The task is in `shutdown`. -/
def Pc.shuts : Pc → Bool
  | .closeActive _ | .closeInactive => true
  | _ => false

/-- The manager after `initialize`, and its `n` tasks. `sockets` are the sockets that have been
created, the first `created` of them. -/
structure SocketManager (n : Nat) where
  initialized : Bool
  activeSocketPool : Nat → List Nat
  inactiveSocketPool : Nat → List Nat
  sockets : Nat → XixiSocket
  created : Nat
  tasks : Fin n → Pc

/-- What a task calls when it is idle. `getSocket` has the index that `weightMap` returns for the
key. -/
inductive ManagerCall
  | getSocket (hostIndex : Nat)
  | getSocketByHost (host : String)
  | createSocket (host : String)
  | maintainInactiveSocket (currTime : Int)
  | shutdown
deriving DecidableEq, Repr

/-- What a step is told: what `size()` returns, the time, and whether the server can be reached. -/
structure Surroundings where
  size : Nat
  now : Int
  connects : Bool
deriving DecidableEq, Repr

/-- A task calls the manager, closes the socket that it has, or goes on. -/
inductive ManagerAction
  | call (k : ManagerCall)
  | close
  | trueClose
  | go (w : Surroundings)
deriving DecidableEq, Repr

/-- What `size()` returns in a step. -/
def ManagerAction.size : ManagerAction → Nat
  | .go w => w.size
  | .call _ | .close | .trueClose => 0

namespace SocketManager

variable {n : Nat} (σ : ManagerSettings) (s : SocketManager n) (t : Fin n)

/-- Nothing has been connected. The sockets that `initialize` connects are created and added by a
task like any other. -/
def initial (n : Nat) : SocketManager n where
  initialized := true
  activeSocketPool _ := []
  inactiveSocketPool _ := []
  sockets _ := ⟨"", 0, false⟩
  created := 0
  tasks _ := .idle

def goto (pc : Pc) : SocketManager n := { s with tasks := Function.update s.tasks t pc }

def setActive (i : Nat) (l : List Nat) : SocketManager n :=
  { s with activeSocketPool := Function.update s.activeSocketPool i l }

def setInactive (i : Nat) (l : List Nat) : SocketManager n :=
  { s with inactiveSocketPool := Function.update s.inactiveSocketPool i l }

/-- `trueClose` of these sockets. -/
def shut (ids : List Nat) : SocketManager n :=
  { s with sockets := fun id =>
      if id ∈ ids then { s.sockets id with closed := true } else s.sockets id }

def setLastActiveTime (id : Nat) (lastActiveTime : Int) : SocketManager n :=
  { s with
    sockets := Function.update s.sockets id { s.sockets id with lastActiveTime := lastActiveTime } }

/-- A new socket, connected to `host`. -/
def create (host : String) : SocketManager n :=
  { s with
    sockets := Function.update s.sockets s.created ⟨host, 0, false⟩
    created := s.created + 1 }

/-- The time is up. -/
def timedOut (currTime : Int) (id : Nat) : Bool :=
  (s.sockets id).lastActiveTime + σ.inactiveSocketTimeout < currTime

/-- The loop of `maintainInactiveSocket` over one list, its last element first; `count` sockets may
still be closed. These are the first result. -/
def maintainLoop (timedOut : Nat → Bool) : Nat → List Nat → List Nat × List Nat
  | 0, l => ([], l)
  | _, [] => ([], [])
  | count + 1, id :: l =>
    if timedOut id then
      let (closed, kept) := maintainLoop timedOut count l
      (id :: closed, kept)
    else ([], id :: l)

/-- What `maintainInactiveSocket` closes of a list, and what it leaves. -/
def maintainList (currTime : Int) (l : List Nat) : List Nat × List Nat :=
  let (closed, kept) := maintainLoop (s.timedOut σ currTime) 5 l.reverse
  (closed, kept.reverse)

/-- The loops over the inactive lists: `f` says what is closed of a list, and what is left. -/
def sweep (f : List Nat → List Nat × List Nat) : SocketManager n :=
  { s with
    inactiveSocketPool := fun i =>
      if i < σ.servers.length then (f (s.inactiveSocketPool i)).2 else s.inactiveSocketPool i }.shut
    ((List.range σ.servers.length).flatMap fun i => (f (s.inactiveSocketPool i)).1)

def maintainInactiveSocket (currTime : Int) : SocketManager n :=
  s.sweep σ (s.maintainList σ currTime)

/-- The second loop of `closeSocketPool`. -/
def closeInactive : SocketManager n := s.sweep σ fun l => (l, [])

/-- A call begins; `null` is returned at once where there is no such server. -/
def enter : ManagerCall → SocketManager n
  | .getSocket i =>
    match σ.servers[i]? with
    | some host => s.goto t (.poll i host)
    | none => s
  | .getSocketByHost host =>
    match hostIndexMap σ.servers host with
    | some i => s.goto t (.poll i host)
    | none => s
  | .createSocket host => s.goto t (.createSocket host)
  | .maintainInactiveSocket currTime => s.maintainInactiveSocket σ currTime
  | .shutdown => { s with initialized := false }.goto t (.closeActive 0)

/-- The next step of a call. -/
def resume (w : Surroundings) : SocketManager n :=
  match s.tasks t with
  | .idle | .hold _ _ => s
  | .poll i host =>
    match s.activeSocketPool i with
    | id :: rest => (s.setActive i rest).goto t (.hold id host)
    | [] => s.goto t (.pollFirst i host)
  | .pollFirst i host =>
    match s.inactiveSocketPool i with
    | id :: rest => (s.setInactive i rest).goto t (.hold id host)
    | [] => s.goto t (.createSocket host)
  | .createSocket host => s.goto t (if s.initialized then .connect host else .idle)
  | .connect host =>
    if w.connects then (s.create host).goto t (.hold s.created host) else s.goto t .idle
  | .addSocket id =>
    match if s.initialized then hostIndexMap σ.servers (s.sockets id).host else none with
    | some i => s.goto t (.size id i)
    | none => s.goto t (.trueClose id)
  | .size id i =>
    s.goto t (if (w.size : Int) < σ.maxActiveConn then .add id i else .setLastActiveTime id i)
  | .add id i => (s.setActive i (s.activeSocketPool i ++ [id])).goto t .idle
  | .setLastActiveTime id i => (s.setLastActiveTime id w.now).goto t (.addFirst id i)
  | .addFirst id i => (s.setInactive i (id :: s.inactiveSocketPool i)).goto t .idle
  | .trueClose id => (s.shut [id]).goto t .idle
  | .closeActive i =>
    if i < σ.servers.length then
      match s.activeSocketPool i with
      | id :: rest => (s.setActive i rest).shut [id]
      | [] => s.goto t (.closeActive (i + 1))
    else s.goto t .closeInactive
  | .closeInactive => (s.closeInactive σ).goto t .idle

def next : Fin n × ManagerAction → SocketManager n
  | (t, .call k) => s.enter σ t k
  | (t, .close) =>
    match s.tasks t with
    | .hold id _ => s.goto t (.addSocket id)
    | _ => s
  | (t, .trueClose) =>
    match s.tasks t with
    | .hold id _ => s.goto t (.trueClose id)
    | _ => s
  | (t, .go w) => s.resume σ t w

/-- A call is made by a task that is idle, and a socket is closed by a task that has it. -/
def Permitted : Fin n × ManagerAction → Prop
  | (t, .call _) => s.tasks t = .idle
  | (t, .close) | (t, .trueClose) => (s.tasks t).holds = true
  | (t, .go _) => s.tasks t ≠ .idle ∧ (s.tasks t).holds = false

instance : DecidablePred s.Permitted
  | (t, .call _) => inferInstanceAs (Decidable (s.tasks t = .idle))
  | (t, .close) | (t, .trueClose) => inferInstanceAs (Decidable ((s.tasks t).holds = true))
  | (_, .go _) => inferInstanceAs (Decidable (_ ∧ _))

def Step (a : Fin n × ManagerAction) (s' : SocketManager n) : Prop :=
  s.Permitted a ∧ s' = s.next σ a

/-! ## Where a socket is -/

/-- The places of a socket. -/
inductive Place (n : Nat)
  | active (i : Nat)
  | inactive (i : Nat)
  | task (t : Fin n)
  | closed
deriving DecidableEq

/-- The sockets in a place. -/
def content : Place n → List Nat
  | .active i => s.activeSocketPool i
  | .inactive i => s.inactiveSocketPool i
  | .task t => (s.tasks t).socket.toList
  | .closed => (List.range s.created).filter fun id => (s.sockets id).closed

/-- Each socket that has been created is in one place. -/
def Kept : Prop := ∃ place, Custody (· < s.created) place s.content

/-- The socket with this number is connected to the server with that index. -/
def Serves (i id : Nat) : Prop := σ.servers[i]? = some (s.sockets id).host

/-- What is known of the server at a step. -/
def RoutedPc : Pc → Prop
  | .poll i host | .pollFirst i host => σ.servers[i]? = some host
  | .hold id host => (s.sockets id).host = host
  | .size id i | .add id i | .setLastActiveTime id i | .addFirst id i => s.Serves σ i id
  | .idle | .createSocket _ | .connect _ | .addSocket _ | .trueClose _ | .closeActive _
  | .closeInactive => True

/-- Sockets are pooled with the server that they are connected to. -/
structure Routed : Prop where
  active : ∀ i, ∀ id ∈ s.activeSocketPool i, s.Serves σ i id
  inactive : ∀ i, ∀ id ∈ s.inactiveSocketPool i, s.Serves σ i id
  tasks : ∀ t, s.RoutedPc σ (s.tasks t)

/-! ## What a step does -/

/-- A step that changes nothing but where its task stands; `size` is what `size()` has returned. -/
inductive Goes (size : Nat) : Pc → Pc → Prop
  | getSocket {i : Nat} {host : String} (h : σ.servers[i]? = some host) :
      Goes size .idle (.poll i host)
  | callCreateSocket (host : String) : Goes size .idle (.createSocket host)
  | pollFirst (i : Nat) (host : String) : Goes size (.poll i host) (.pollFirst i host)
  | createSocket (i : Nat) (host : String) : Goes size (.pollFirst i host) (.createSocket host)
  | connect {host : String} (h : s.initialized = true) :
      Goes size (.createSocket host) (.connect host)
  | refused (host : String) : Goes size (.createSocket host) .idle
  | failed (host : String) : Goes size (.connect host) .idle
  | close (id : Nat) (host : String) : Goes size (.hold id host) (.addSocket id)
  | trueClose (id : Nat) (host : String) : Goes size (.hold id host) (.trueClose id)
  | size {id i : Nat} (h : s.initialized = true) (hi : s.Serves σ i id) :
      Goes size (.addSocket id) (.size id i)
  | discard (id : Nat) : Goes size (.addSocket id) (.trueClose id)
  | add {id i : Nat} (h : (size : Int) < σ.maxActiveConn) : Goes size (.size id i) (.add id i)
  | setLastActiveTime (id i : Nat) : Goes size (.size id i) (.setLastActiveTime id i)
  | closeActive {i : Nat} (h : s.activeSocketPool i = []) :
      Goes size (.closeActive i) (.closeActive (i + 1))
  | closeInactive {i : Nat} (h : σ.servers.length ≤ i) : Goes size (.closeActive i) .closeInactive

/-- A step of the task `t`. -/
inductive Effect (size : Nat) : SocketManager n → Prop
  | stays : Effect size s
  | goes {pc : Pc} (h : s.Goes σ size (s.tasks t) pc) : Effect size (s.goto t pc)
  | stops (h : s.tasks t = .idle) :
      Effect size ({ s with initialized := false }.goto t (.closeActive 0))
  | polls {i id : Nat} {host : String} {rest : List Nat} (h : s.tasks t = .poll i host)
      (hl : s.activeSocketPool i = id :: rest) :
      Effect size ((s.setActive i rest).goto t (.hold id host))
  | pollsFirst {i id : Nat} {host : String} {rest : List Nat} (h : s.tasks t = .pollFirst i host)
      (hl : s.inactiveSocketPool i = id :: rest) :
      Effect size ((s.setInactive i rest).goto t (.hold id host))
  | connects {host : String} (h : s.tasks t = .connect host) :
      Effect size ((s.create host).goto t (.hold s.created host))
  | adds {id i : Nat} (h : s.tasks t = .add id i) :
      Effect size ((s.setActive i (s.activeSocketPool i ++ [id])).goto t .idle)
  | stamps {id i : Nat} (now : Int) (h : s.tasks t = .setLastActiveTime id i) :
      Effect size ((s.setLastActiveTime id now).goto t (.addFirst id i))
  | addsFirst {id i : Nat} (h : s.tasks t = .addFirst id i) :
      Effect size ((s.setInactive i (id :: s.inactiveSocketPool i)).goto t .idle)
  | closes {id : Nat} (h : s.tasks t = .trueClose id) : Effect size ((s.shut [id]).goto t .idle)
  | closesActive {i id : Nat} {rest : List Nat} (h : s.tasks t = .closeActive i)
      (hl : s.activeSocketPool i = id :: rest) : Effect size ((s.setActive i rest).shut [id])
  | maintains (currTime : Int) : Effect size (s.maintainInactiveSocket σ currTime)
  | closesInactive (h : s.tasks t = .closeInactive) :
      Effect size ((s.closeInactive σ).goto t .idle)

namespace ManagerLemmas

variable {σ s t} {place : Nat → Place n}

/-! ### What a step changes -/

theorem setActive_self (i : Nat) (l : List Nat) : (s.setActive i l).activeSocketPool i = l :=
  Function.update_self ..

theorem setActive_of_ne {i j : Nat} (h : j ≠ i) (l : List Nat) :
    (s.setActive i l).activeSocketPool j = s.activeSocketPool j :=
  Function.update_of_ne h ..

theorem setInactive_self (i : Nat) (l : List Nat) : (s.setInactive i l).inactiveSocketPool i = l :=
  Function.update_self ..

theorem setInactive_of_ne {i j : Nat} (h : j ≠ i) (l : List Nat) :
    (s.setInactive i l).inactiveSocketPool j = s.inactiveSocketPool j :=
  Function.update_of_ne h ..

theorem sockets_create_self (host : String) :
    (s.create host).sockets s.created = ⟨host, 0, false⟩ :=
  Function.update_self ..

theorem sockets_create_of_ne {id : Nat} {host : String} (h : id ≠ s.created) :
    (s.create host).sockets id = s.sockets id :=
  Function.update_of_ne h ..

@[simp] theorem content_goto (pc : Pc) :
    (s.goto t pc).content = Function.update s.content (.task t) pc.socket.toList := by
  funext k
  cases k with
  | task u =>
    rcases eq_or_ne u t with rfl | hu
    · rw [Function.update_self]
      show (Function.update s.tasks u pc u).socket.toList = _
      rw [Function.update_self]
    · rw [Function.update_of_ne (by rintro ⟨⟩; exact hu rfl)]
      show (Function.update s.tasks t pc u).socket.toList = _
      rw [Function.update_of_ne hu]
      rfl
  | active | inactive | closed => rfl

theorem content_goto_same {pc : Pc} (h : pc.socket = (s.tasks t).socket) :
    (s.goto t pc).content = s.content := by
  rw [content_goto, h]
  exact Function.update_eq_self (Place.task t) s.content

@[simp] theorem content_setActive (i : Nat) (l : List Nat) :
    (s.setActive i l).content = Function.update s.content (.active i) l := by
  funext k
  cases k with
  | active j =>
    rcases eq_or_ne j i with rfl | hj
    · rw [Function.update_self]
      exact setActive_self j l
    · rw [Function.update_of_ne (by rintro ⟨⟩; exact hj rfl)]
      exact setActive_of_ne hj l
  | inactive | task | closed => rfl

@[simp] theorem content_setInactive (i : Nat) (l : List Nat) :
    (s.setInactive i l).content = Function.update s.content (.inactive i) l := by
  funext k
  cases k with
  | inactive j =>
    rcases eq_or_ne j i with rfl | hj
    · rw [Function.update_self]
      exact setInactive_self j l
    · rw [Function.update_of_ne (by rintro ⟨⟩; exact hj rfl)]
      exact setInactive_of_ne hj l
  | active | task | closed => rfl

theorem mem_closed {id : Nat} :
    id ∈ s.content .closed ↔ id < s.created ∧ (s.sockets id).closed = true := by
  rw [content, List.mem_filter, List.mem_range]

theorem nodup_closed : (s.content .closed).Nodup := List.nodup_range.filter _

theorem content_shut (ids : List Nat) :
    (s.shut ids).content =
      Function.update s.content .closed ((s.shut ids).content .closed) := by
  funext k
  cases k with
  | closed => rw [Function.update_self]
  | active | inactive | task => rfl

/-- What is shut is closed. -/
theorem mem_closed_shut {ids : List Nat} {id : Nat} : id ∈ (s.shut ids).content .closed ↔
    id ∈ s.content .closed ∨ id < s.created ∧ id ∈ ids := by
  rw [mem_closed, mem_closed]
  show id < s.created ∧ (if id ∈ ids then { s.sockets id with closed := true }
    else s.sockets id).closed = true ↔ _
  split
  next hmem => exact ⟨fun h => .inr ⟨h.1, hmem⟩, fun h => ⟨h.elim And.left And.left, rfl⟩⟩
  next hmem => exact ⟨.inl, fun h => h.resolve_right fun hx => hmem hx.2⟩

/-- The map has indices of the servers that it has. -/
theorem getElem?_hostIndexMap {servers : List String} {host : String} {i : Nat}
    (h : hostIndexMap servers host = some i) : servers[i]? = some host := by
  have hfold : ∀ (l : List (String × Nat)) (found : Option Nat),
      (∀ x ∈ l, servers[x.2]? = some x.1) → (∀ j, found = some j → servers[j]? = some host) →
      ∀ j, l.foldl (fun found x => if x.1 = host then some x.2 else found) found = some j →
        servers[j]? = some host := by
    intro l
    induction l with
    | nil => exact fun found _ hfound => hfound
    | cons x l ih =>
      intro found hl hfound
      refine ih _ (fun y hy => hl y (List.mem_cons_of_mem _ hy)) fun j hj => ?_
      dsimp only at hj
      split at hj
      next hx =>
        obtain rfl := Option.some.inj hj
        exact hx ▸ hl x List.mem_cons_self
      next => exact hfound j hj
  refine hfold servers.zipIdx none (fun x hx => ?_) (by rintro j ⟨⟩) i h
  exact List.mem_zipIdx_iff_getElem?.mp hx

theorem effect_resume (w : Surroundings) (hgo : s.Permitted (t, .go w)) :
    s.Effect σ t w.size (s.resume σ t w) := by
  obtain ⟨hidle, hhold⟩ := hgo
  unfold resume
  split
  next h => exact absurd h hidle
  next id host h =>
    rw [h] at hhold
    cases hhold
  next i host h =>
    split
    next id rest hl => exact .polls h hl
    next => exact .goes (h ▸ .pollFirst i host)
  next i host h =>
    split
    next id rest hl => exact .pollsFirst h hl
    next => exact .goes (h ▸ .createSocket i host)
  next host h =>
    split
    next hinit => exact .goes (h ▸ .connect hinit)
    next => exact .goes (h ▸ .refused host)
  next host h =>
    split
    next => exact .connects h
    next => exact .goes (h ▸ .failed host)
  next id h =>
    split
    next i hi =>
      split at hi
      next hinit => exact .goes (h ▸ .size hinit (getElem?_hostIndexMap hi))
      next => cases hi
    next => exact .goes (h ▸ .discard id)
  next id i h =>
    split
    next hsize => exact .goes (h ▸ .add hsize)
    next => exact .goes (h ▸ .setLastActiveTime id i)
  next id i h => exact .adds h
  next id i h => exact .stamps w.now h
  next id i h => exact .addsFirst h
  next id h => exact .closes h
  next i h =>
    split
    next =>
      split
      next id rest hl => exact .closesActive h hl
      next hl => exact .goes (h ▸ .closeActive hl)
    next hi => exact .goes (h ▸ .closeInactive (Nat.le_of_not_lt hi))
  next h => exact .closesInactive h

theorem effect_enter (k : ManagerCall) (h : s.tasks t = .idle) (size : Nat) :
    s.Effect σ t size (s.enter σ t k) := by
  unfold enter
  split
  next i =>
    split
    next host hi => exact .goes (h ▸ .getSocket hi)
    next => exact .stays
  next host =>
    split
    next i hi => exact .goes (h ▸ .getSocket (getElem?_hostIndexMap hi))
    next => exact .stays
  next host => exact .goes (h ▸ .callCreateSocket host)
  next currTime => exact .maintains currTime
  next => exact .stops h

theorem exists_of_holds {pc : Pc} (h : pc.holds = true) : ∃ id host, pc = .hold id host := by
  cases pc with
  | hold id host => exact ⟨id, host, rfl⟩
  | idle | poll | pollFirst | createSocket | connect | addSocket | size | add | setLastActiveTime
  | addFirst | trueClose | closeActive | closeInactive => cases h

/-- Everything that a step can do. -/
theorem effect_of_step {s' : SocketManager n} {a : Fin n × ManagerAction} (h : s.Step σ a s') :
    s.Effect σ a.1 (a.2.size) s' := by
  obtain ⟨hperm, rfl⟩ := h
  obtain ⟨t, _ | _ | _ | w⟩ := a
  · exact effect_enter _ hperm _
  · obtain ⟨id, host, h⟩ := exists_of_holds hperm
    rw [next, h]
    exact .goes (h ▸ .close id host)
  · obtain ⟨id, host, h⟩ := exists_of_holds hperm
    rw [next, h]
    exact .goes (h ▸ .trueClose id host)
  · exact effect_resume w hperm

/-! ### Every socket is in one place -/

theorem kept_same {s' : SocketManager n} (h : s.Kept) (hcreated : s'.created = s.created)
    (hcontent : s'.content = s.content) : s'.Kept := by
  obtain ⟨place, hplace⟩ := h
  exact ⟨place, by rw [hcreated, hcontent]; exact hplace⟩

theorem content_task {pc : Pc} (h : s.tasks t = pc) : s.content (.task t) = pc.socket.toList :=
  h ▸ rfl

/-- A task takes a socket from the pool. -/
theorem kept_takes {k : Place n} {id : Nat} {rest : List Nat} {pc : Pc} (h : s.Kept)
    (hk : k ≠ .task t) (hl : s.content k = id :: rest) (hpc : (s.tasks t).socket = none)
    (s' : SocketManager n) (hcreated : s'.created = s.created)
    (hcontent : s'.content = Function.update s.content k rest) (hid : pc.socket = some id) :
    (s'.goto t pc).Kept := by
  obtain ⟨place, hplace⟩ := h
  have hempty : s.content (.task t) = [] := (content_task rfl).trans (by rw [hpc]; rfl)
  obtain ⟨place', hmoved⟩ := hplace.move (l := rest) (m := [id]) hk (.of_eq hl)
    (.of_eq (by rw [hempty]))
  refine ⟨place', ?_⟩
  rw [content_goto, hcontent, hid]
  show Custody (· < s'.created) place' _
  rw [hcreated]
  exact hmoved

/-- A task gives its socket away. -/
theorem kept_gives {k : Place n} {id : Nat} {l : List Nat} {pc : Pc} (h : s.Kept)
    (hk : k ≠ .task t) (hpc : (s.tasks t).socket = some id) (hl : l.Perm (id :: s.content k))
    (s' : SocketManager n) (hcreated : s'.created = s.created)
    (hcontent : s'.content = Function.update s.content k l) (hid : pc.socket = none) :
    (s'.goto t pc).Kept := by
  obtain ⟨place, hplace⟩ := h
  have htask : s.content (.task t) = [id] := (content_task rfl).trans (by rw [hpc]; rfl)
  obtain ⟨place', hmoved⟩ := hplace.move (l := []) hk.symm (.of_eq htask) hl
  refine ⟨place', ?_⟩
  rw [content_goto, hcontent, hid, Function.update_comm hk]
  show Custody (· < s'.created) place' _
  rw [hcreated]
  exact hmoved

/-- A socket that is not closed comes to those that are. -/
theorem perm_shut {id : Nat} (hid : id < s.created) (hopen : id ∉ s.content .closed) :
    ((s.shut [id]).content .closed).Perm (id :: s.content .closed) := by
  refine (List.perm_ext_iff_of_nodup nodup_closed (List.nodup_cons.mpr ⟨hopen, nodup_closed⟩)).mpr
    fun b => ?_
  rw [mem_closed_shut, List.mem_singleton, List.mem_cons]
  refine ⟨fun hb => hb.elim .inr fun hx => .inl hx.2, fun hb => hb.elim (fun hx => ?_) .inl⟩
  exact .inr ⟨hx ▸ hid, hx⟩

theorem kept_closes {id : Nat} (h : s.Kept) (hpc : s.tasks t = .trueClose id) :
    ((s.shut [id]).goto t .idle).Kept := by
  have hid : id ∈ s.content (.task t) := by rw [content_task hpc]; exact List.mem_singleton_self id
  have hperm : ((s.shut [id]).content .closed).Perm (id :: s.content .closed) := by
    obtain ⟨place, hplace⟩ := h
    exact perm_shut (hplace.exists_of_mem hid) fun hx => by cases hplace.unique hid hx
  exact kept_gives h (by rintro ⟨⟩) (congrArg Pc.socket hpc) hperm (s.shut [id]) rfl
    (content_shut [id]) rfl

theorem kept_closesActive {i id : Nat} {rest : List Nat} (h : s.Kept)
    (hl : s.activeSocketPool i = id :: rest) : ((s.setActive i rest).shut [id]).Kept := by
  obtain ⟨place, hplace⟩ := h
  have hcontent : s.content (.active i) = id :: rest := hl
  have hid : id ∈ s.content (.active i) := hcontent ▸ List.mem_cons_self
  have hperm : ((s.shut [id]).content .closed).Perm (id :: s.content .closed) :=
    perm_shut (hplace.exists_of_mem hid) fun hx => by cases hplace.unique hid hx
  obtain ⟨place', hmoved⟩ := hplace.move (k := .active i) (d := .closed) (by rintro ⟨⟩)
    (.of_eq hcontent) hperm
  refine ⟨place', ?_⟩
  rw [content_shut, content_setActive]
  exact hmoved

/-- What the loops over the inactive lists close is closed, and nothing else moves. -/
theorem kept_sweep {f : List Nat → List Nat × List Nat} (h : s.Kept)
    (hf : ∀ l, ((f l).1 ++ (f l).2).Perm l) : (s.sweep σ f).Kept := by
  obtain ⟨place, hplace⟩ := h
  have hcut (i : Nat) (b : Nat) : b ∈ s.inactiveSocketPool i ↔
      b ∈ (f (s.inactiveSocketPool i)).1 ∨ b ∈ (f (s.inactiveSocketPool i)).2 := by
    rw [← (hf (s.inactiveSocketPool i)).mem_iff, List.mem_append]
  have hapart (i : Nat) :
      ((f (s.inactiveSocketPool i)).1 ++ (f (s.inactiveSocketPool i)).2).Nodup :=
    (hf _).nodup_iff.mpr (hplace.nodup (.inactive i))
  let gone (b : Nat) : Prop := b ∈ (List.range σ.servers.length).flatMap fun i =>
    (f (s.inactiveSocketPool i)).1
  -- what is closed comes from the list of one server
  have hgone (b : Nat) (hb : gone b) : ∃ i, i < σ.servers.length ∧
      b ∈ (f (s.inactiveSocketPool i)).1 ∧ b ∈ s.content (.inactive i) := by
    obtain ⟨i, hi, hbi⟩ := List.mem_flatMap.mp hb
    exact ⟨i, List.mem_range.mp hi, hbi, (hcut i b).mpr (.inl hbi)⟩
  have hstays {k : Place n} (hk : ∀ i, k ≠ .inactive i) (b : Nat) (hb : b ∈ s.content k) :
      ¬ gone b := by
    intro hx
    obtain ⟨i, -, -, hbi⟩ := hgone b hx
    exact hk i (hplace.unique hb hbi)
  refine ⟨_, hplace.gather (d := .closed) gone (fun k hk b => ?_) (fun b => ?_) fun k => ?_⟩
  · cases k with
    | closed => exact absurd rfl hk
    | active i =>
      exact ⟨fun hb => ⟨hb, hstays (k := .active i) (by rintro j ⟨⟩) b hb⟩, And.left⟩
    | task u => exact ⟨fun hb => ⟨hb, hstays (k := .task u) (by rintro j ⟨⟩) b hb⟩, And.left⟩
    | inactive i =>
      show b ∈ (if i < σ.servers.length then (f (s.inactiveSocketPool i)).2
        else s.inactiveSocketPool i) ↔ b ∈ s.inactiveSocketPool i ∧ ¬ gone b
      split
      next hi =>
        refine ⟨fun hb => ⟨(hcut i b).mpr (.inr hb), fun hx => ?_⟩, fun hb => ?_⟩
        · obtain ⟨j, -, hbj, hin⟩ := hgone b hx
          have hbi : b ∈ s.content (.inactive i) := (hcut i b).mpr (.inr hb)
          cases hplace.unique hin hbi
          exact (List.nodup_append.mp (hapart i)).2.2 b hbj b hb rfl
        · refine ((hcut i b).mp hb.1).resolve_left fun hbi => hb.2 ?_
          exact List.mem_flatMap.mpr ⟨i, List.mem_range.mpr hi, hbi⟩
      next hi =>
        refine ⟨fun hb => ⟨hb, fun hx => ?_⟩, And.left⟩
        obtain ⟨j, hj, -, hin⟩ := hgone b hx
        have hbi : b ∈ s.content (.inactive i) := hb
        cases hplace.unique hin hbi
        exact hi hj
  · exact mem_closed_shut
  · cases k with
    | closed => exact nodup_closed
    | active i => exact hplace.nodup (.active i)
    | task u => exact hplace.nodup (.task u)
    | inactive i =>
      show (if i < σ.servers.length then (f (s.inactiveSocketPool i)).2
        else s.inactiveSocketPool i).Nodup
      split
      · exact (List.nodup_append.mp (hapart i)).2.1
      · exact hplace.nodup (.inactive i)

theorem maintainLoop_append (timedOut : Nat → Bool) (count : Nat) (l : List Nat) :
    (maintainLoop timedOut count l).1 ++ (maintainLoop timedOut count l).2 = l := by
  induction l generalizing count with
  | nil => cases count <;> rfl
  | cons id l ih =>
    cases count with
    | zero => rfl
    | succ count =>
      rw [maintainLoop]
      split
      · exact congrArg (id :: ·) (ih count)
      · rfl

theorem maintainList_perm (currTime : Int) (l : List Nat) :
    ((s.maintainList σ currTime l).1 ++ (s.maintainList σ currTime l).2).Perm l := by
  have hloop := maintainLoop_append (s.timedOut σ currTime) 5 l.reverse
  have hturned : ((s.maintainList σ currTime l).1 ++ (s.maintainList σ currTime l).2).Perm
      ((maintainLoop (s.timedOut σ currTime) 5 l.reverse).1 ++
        (maintainLoop (s.timedOut σ currTime) 5 l.reverse).2) :=
    (List.reverse_perm _).append_left _
  rw [hloop] at hturned
  exact hturned.trans (List.reverse_perm l)

theorem socket_of_goes {size : Nat} {pc pc' : Pc} (h : s.Goes σ size pc pc') :
    pc'.socket = pc.socket := by
  cases h <;> rfl

theorem kept_create {host : String} (h : s.Kept) (hpc : s.tasks t = .connect host) :
    ((s.create host).goto t (.hold s.created host)).Kept := by
  obtain ⟨place, hplace⟩ := h
  have hempty : s.content (.task t) = [] := content_task hpc
  obtain ⟨place', hnew⟩ := hplace.create (a := s.created) (k := .task t) (l := [s.created])
    (Nat.lt_irrefl _) (fun b => Nat.lt_succ_iff_lt_or_eq.trans or_comm)
    (.of_eq (by rw [hempty]))
  refine ⟨place', ?_⟩
  have hcontent : (s.create host).content = s.content := by
    funext k
    cases k with
    | closed =>
      show ((List.range (s.created + 1)).filter fun id => ((s.create host).sockets id).closed) =
        (List.range s.created).filter fun id => (s.sockets id).closed
      have hfresh : ((s.create host).sockets s.created).closed = false := by
        rw [sockets_create_self]
      rw [List.range_succ, List.filter_append, List.filter_singleton, hfresh, cond_false,
        List.append_nil]
      refine List.filter_congr fun id hid => ?_
      rw [sockets_create_of_ne (List.mem_range.mp hid).ne]
    | active | inactive | task => rfl
  rw [content_goto, hcontent]
  exact hnew

theorem content_setLastActiveTime (id : Nat) (now : Int) :
    (s.setLastActiveTime id now).content = s.content := by
  funext k
  cases k with
  | closed =>
    refine List.filter_congr fun b _ => ?_
    show (Function.update s.sockets id _ b).closed = _
    rcases eq_or_ne b id with rfl | hb
    · rw [Function.update_self]
    · rw [Function.update_of_ne hb]
  | active | inactive | task => rfl

/-- A step of a task. -/
theorem kept_effect {size : Nat} {s' : SocketManager n} (h : s.Kept)
    (heffect : s.Effect σ t size s') : s'.Kept := by
  cases heffect with
  | stays => exact h
  | goes hgoes => exact kept_same h rfl (content_goto_same (socket_of_goes hgoes))
  | stops hpc =>
    have hsocket : (Pc.closeActive 0).socket = (s.tasks t).socket := (congrArg Pc.socket hpc).symm
    exact kept_same h rfl (content_goto_same (s := { s with initialized := false }) hsocket)
  | polls hpc hl =>
    exact kept_takes (k := .active _) h (by rintro ⟨⟩) hl (congrArg Pc.socket hpc) _ rfl
      (content_setActive _ _) rfl
  | pollsFirst hpc hl =>
    exact kept_takes (k := .inactive _) h (by rintro ⟨⟩) hl (congrArg Pc.socket hpc) _ rfl
      (content_setInactive _ _) rfl
  | connects hpc => exact kept_create h hpc
  | @adds id i hpc =>
    have hl : (s.activeSocketPool i ++ [id]).Perm (id :: s.content (.active i)) :=
      List.perm_append_singleton id _
    exact kept_gives h (by rintro ⟨⟩) (congrArg Pc.socket hpc) hl _ rfl (content_setActive _ _) rfl
  | @stamps id i now hpc =>
    have hsocket : (Pc.addFirst id i).socket = (s.tasks t).socket := (congrArg Pc.socket hpc).symm
    exact kept_same h rfl ((content_goto_same (s := s.setLastActiveTime id now) hsocket).trans
      (content_setLastActiveTime id now))
  | @addsFirst id i hpc =>
    exact kept_gives h (by rintro ⟨⟩) (congrArg Pc.socket hpc) (.refl _) _ rfl
      (content_setInactive i (id :: s.inactiveSocketPool i)) rfl
  | closes hpc => exact kept_closes h hpc
  | closesActive hpc hl => exact kept_closesActive h hl
  | maintains currTime => exact kept_sweep h (maintainList_perm currTime)
  | closesInactive hpc =>
    have hsocket : Pc.idle.socket = (s.tasks t).socket := (congrArg Pc.socket hpc).symm
    have hswept : (s.closeInactive σ).Kept := kept_sweep h fun l => .of_eq (List.append_nil l)
    exact kept_same hswept rfl (content_goto_same hsocket)

/-! ### Every socket is with its server -/

theorem routed_goto {pc : Pc} (h : s.Routed σ) (hpc : s.RoutedPc σ pc) :
    (s.goto t pc).Routed σ := by
  refine ⟨h.active, h.inactive, fun u => ?_⟩
  show s.RoutedPc σ (Function.update s.tasks t pc u)
  rcases eq_or_ne u t with rfl | hu
  · rw [Function.update_self]
    exact hpc
  · rw [Function.update_of_ne hu]
    exact h.tasks u

theorem routed_setActive {i : Nat} {l : List Nat} (h : s.Routed σ)
    (hl : ∀ id ∈ l, s.Serves σ i id) : (s.setActive i l).Routed σ := by
  refine ⟨fun j id hid => ?_, h.inactive, h.tasks⟩
  rcases eq_or_ne j i with rfl | hj
  · rw [setActive_self] at hid
    exact hl id hid
  · rw [setActive_of_ne hj] at hid
    exact h.active j id hid

theorem routed_setInactive {i : Nat} {l : List Nat} (h : s.Routed σ)
    (hl : ∀ id ∈ l, s.Serves σ i id) : (s.setInactive i l).Routed σ := by
  refine ⟨h.active, fun j id hid => ?_, h.tasks⟩
  rcases eq_or_ne j i with rfl | hj
  · rw [setInactive_self] at hid
    exact hl id hid
  · rw [setInactive_of_ne hj] at hid
    exact h.inactive j id hid

/-- Nothing but the server of a socket matters. -/
theorem routedPc_of_host {s' : SocketManager n} {pc : Pc} (h : s.RoutedPc σ pc)
    (hhost : ∀ id, pc.socket = some id → (s'.sockets id).host = (s.sockets id).host) :
    s'.RoutedPc σ pc := by
  cases pc with
  | hold id host => exact (hhost id rfl).trans h
  | size id i | add id i | setLastActiveTime id i | addFirst id i =>
    exact h.trans (congrArg some (hhost id rfl).symm)
  | poll | pollFirst => exact h
  | idle | createSocket | connect | addSocket | trueClose | closeActive | closeInactive => trivial

theorem routed_of_host {s' : SocketManager n} (h : s.Routed σ)
    (hactive : ∀ i, ∀ id ∈ s'.activeSocketPool i, id ∈ s.activeSocketPool i)
    (hinactive : ∀ i, ∀ id ∈ s'.inactiveSocketPool i, id ∈ s.inactiveSocketPool i)
    (htasks : s'.tasks = s.tasks)
    (hhost : ∀ k, ∀ id ∈ s.content k, (s'.sockets id).host = (s.sockets id).host) :
    s'.Routed σ := by
  refine ⟨fun i id hid => ?_, fun i id hid => ?_, fun u => ?_⟩
  · have hmem := hactive i id hid
    exact (h.active i id hmem).trans (congrArg some (hhost (.active i) id hmem).symm)
  · have hmem := hinactive i id hid
    exact (h.inactive i id hmem).trans (congrArg some (hhost (.inactive i) id hmem).symm)
  · rw [htasks]
    refine routedPc_of_host (h.tasks u) fun id hid => hhost (.task u) id ?_
    rw [content, hid]
    exact List.mem_singleton_self id

theorem host_shut (ids : List Nat) (id : Nat) :
    ((s.shut ids).sockets id).host = (s.sockets id).host := by
  show (if id ∈ ids then { s.sockets id with closed := true } else s.sockets id).host = _
  split <;> rfl

theorem routed_shut (h : s.Routed σ) (ids : List Nat) : (s.shut ids).Routed σ :=
  routed_of_host h (fun _ _ hid => hid) (fun _ _ hid => hid) rfl fun _ id _ => host_shut ids id

theorem routed_sweep {f : List Nat → List Nat × List Nat} (h : s.Routed σ)
    (hf : ∀ l, ((f l).1 ++ (f l).2).Perm l) : (s.sweep σ f).Routed σ := by
  refine routed_of_host h (fun _ _ hid => hid) (fun i id hid => ?_) rfl fun _ id _ => host_shut _ id
  have hleft : id ∈ (if i < σ.servers.length then (f (s.inactiveSocketPool i)).2
    else s.inactiveSocketPool i) := hid
  split at hleft
  · exact (hf _).mem_iff.mp (List.mem_append_right _ hleft)
  · exact hleft

theorem host_setLastActiveTime (id : Nat) (now : Int) (b : Nat) :
    ((s.setLastActiveTime id now).sockets b).host = (s.sockets b).host := by
  show (Function.update s.sockets id _ b).host = _
  rcases eq_or_ne b id with rfl | hb
  · rw [Function.update_self]
  · rw [Function.update_of_ne hb]

/-- What is known of the server is known of it at the next step. -/
theorem routedPc_of_goes {size : Nat} {pc pc' : Pc} (h : s.RoutedPc σ pc)
    (hgoes : s.Goes σ size pc pc') : s.RoutedPc σ pc' := by
  cases hgoes with
  | getSocket hi => exact hi
  | pollFirst | add | setLastActiveTime => exact h
  | size _ hi => exact hi
  | callCreateSocket | createSocket | connect | refused | failed | close | trueClose | discard
  | closeActive | closeInactive => trivial

theorem routed_effect {size : Nat} {s' : SocketManager n} (hkept : s.Kept) (h : s.Routed σ)
    (heffect : s.Effect σ t size s') : s'.Routed σ := by
  have htask := h.tasks t
  cases heffect with
  | stays => exact h
  | goes hgoes => exact routed_goto h (routedPc_of_goes htask hgoes)
  | stops =>
    have hstopped : ({ s with initialized := false } : SocketManager n).Routed σ :=
      ⟨h.active, h.inactive, h.tasks⟩
    exact routed_goto hstopped trivial
  | @polls i id host rest hpc hl =>
    have hall : ∀ b ∈ id :: rest, s.Serves σ i b := hl ▸ h.active i
    rw [hpc] at htask
    refine routed_goto (routed_setActive h fun b hb => hall b (List.mem_cons_of_mem id hb)) ?_
    exact Option.some.inj ((hall id List.mem_cons_self).symm.trans htask)
  | @pollsFirst i id host rest hpc hl =>
    have hall : ∀ b ∈ id :: rest, s.Serves σ i b := hl ▸ h.inactive i
    rw [hpc] at htask
    refine routed_goto (routed_setInactive h fun b hb => hall b (List.mem_cons_of_mem id hb)) ?_
    exact Option.some.inj ((hall id List.mem_cons_self).symm.trans htask)
  | @connects host hpc =>
    obtain ⟨place, hplace⟩ := hkept
    refine routed_goto (s := s.create host) (routed_of_host h (fun _ _ hid => hid)
      (fun _ _ hid => hid) rfl fun k id hid => ?_) ?_
    · have hlt : id < s.created := hplace.exists_of_mem hid
      rw [sockets_create_of_ne hlt.ne]
    · show ((s.create host).sockets s.created).host = host
      rw [sockets_create_self]
  | @adds id i hpc =>
    rw [hpc] at htask
    refine routed_goto (routed_setActive h fun b hb => ?_) trivial
    rcases List.mem_append.mp hb with hb | hb
    · exact h.active i b hb
    · rw [List.mem_singleton.mp hb]
      exact htask
  | @stamps id i now hpc =>
    rw [hpc] at htask
    have hstamped : (s.setLastActiveTime id now).Routed σ :=
      routed_of_host h (fun _ _ hid => hid) (fun _ _ hid => hid) rfl
        fun _ b _ => host_setLastActiveTime id now b
    exact routed_goto hstamped (htask.trans (congrArg some (host_setLastActiveTime id now id).symm))
  | @addsFirst id i hpc =>
    rw [hpc] at htask
    refine routed_goto (routed_setInactive h fun b hb => ?_) trivial
    rcases List.mem_cons.mp hb with rfl | hb
    · exact htask
    · exact h.inactive i b hb
  | closes => exact routed_goto (routed_shut h _) trivial
  | @closesActive i id rest hpc hl =>
    have hall : ∀ b ∈ id :: rest, s.Serves σ i b := hl ▸ h.active i
    exact routed_shut (routed_setActive h fun b hb => hall b (List.mem_cons_of_mem id hb)) [id]
  | maintains currTime => exact routed_sweep h (maintainList_perm currTime)
  | closesInactive =>
    refine routed_goto (routed_sweep h fun l => ?_) trivial
    rw [List.append_nil]

theorem kept_initial : (initial n).Kept := by
  refine ⟨fun _ => .closed, fun k id => ?_, fun k => ?_⟩
  · refine ⟨fun hid => ?_, fun hid => absurd hid.1 (Nat.not_lt_zero id)⟩
    cases k <;> cases hid
  · cases k <;> exact List.nodup_nil

theorem routed_initial : (initial n).Routed σ :=
  ⟨fun _ _ hid => absurd hid List.not_mem_nil, fun _ _ hid => absurd hid List.not_mem_nil,
    fun _ => trivial⟩

/-- What holds whatever the tasks do. -/
theorem sound_of_run {s' : SocketManager n} {l : List (SocketManager n × Fin n × ManagerAction)}
    (h : s.Kept ∧ s.Routed σ) (hrun : Run (Step σ) s l s') : s'.Kept ∧ s'.Routed σ := by
  refine hrun.invariant (I := fun s => s.Kept ∧ s.Routed σ) ?_ h
  rintro s a s' ⟨hkept, hrouted⟩ hstep
  have heffect := effect_of_step hstep
  exact ⟨kept_effect hkept heffect, routed_effect hkept hrouted heffect⟩

end ManagerLemmas

open ManagerLemmas

variable {σ s t}

/-- **Custody.** In every interleaving of the calls of any number of tasks, each socket that has
been created is in one place: in one queue, with one task, or closed; and it is pooled with the
server that it is connected to, so that a caller gets a socket to the server that it has asked
for. -/
theorem kept_of_run {l : List (SocketManager n × Fin n × ManagerAction)}
    (hrun : Run (Step σ) (initial n) l s) :
    (∃ place, Custody (· < s.created) place s.content) ∧ s.Routed σ :=
  sound_of_run ⟨kept_initial, routed_initial⟩ hrun

/-! ### Two tasks at once -/

/-- One server, and one active socket. -/
def oneServer : ManagerSettings := ⟨["a"], 1, 30000⟩

/-- The task goes on, and finds the server, at time 0, and this size. -/
def goes (t : Fin n) (size : Nat) : Fin n × ManagerAction := (t, .go ⟨size, 0, true⟩)

/-- A task gets a new socket. -/
def gets (t : Fin n) : List (Fin n × ManagerAction) :=
  (t, .call (.getSocket 0)) :: List.replicate 4 (goes t 0)

/-- Two tasks get a socket each, and look at the size before either has given it back. -/
def twoLook : List (Fin 2 × ManagerAction) :=
  gets 0 ++ gets 1 ++ [(0, .close), (1, .close), goes 0 0, goes 1 0, goes 0 0, goes 1 0]

def twoAdd : List (Fin 2 × ManagerAction) := twoLook ++ [goes 0 0, goes 1 0]

theorem kept_of_two :
    let s := twoAdd.foldl (next oneServer) (initial 2)
    (∃ place, Custody (· < s.created) place s.content) ∧ s.Routed oneServer := by
  have hok : Admitted (fun (s : SocketManager 2) a => s.Permitted a) (next oneServer) (initial 2)
      twoAdd := by
    decide +kernel
  exact kept_of_run hok.run_trace

namespace ManagerLemmas

/-- A socket elsewhere is not the one that a task has. -/
theorem ne_of_elsewhere (h : s.Kept) {id b : Nat} {k : Place n} (hid : (s.tasks t).socket = some id)
    (hb : b ∈ s.content k) (hk : k ≠ .task t) : id ≠ b := by
  obtain ⟨place, hplace⟩ := h
  have hmem : id ∈ s.content (.task t) := by
    rw [content, hid]
    exact List.mem_singleton_self id
  exact fun hx => hk (hplace.unique hb (hx ▸ hmem))

theorem tasks_goto_of_ne {u : Fin n} (hu : t ≠ u) (pc : Pc) : (s.goto u pc).tasks t = s.tasks t :=
  Function.update_of_ne hu ..

theorem tasks_effect {u : Fin n} {size : Nat} {s' : SocketManager n} (hu : t ≠ u)
    (heffect : s.Effect σ u size s') : s'.tasks t = s.tasks t := by
  cases heffect with
  | stays | closesActive | maintains => rfl
  | goes | stops | polls | pollsFirst | connects | adds | stamps | addsFirst | closes
  | closesInactive =>
    exact tasks_goto_of_ne hu _

theorem sockets_shut {ids : List Nat} {id : Nat} (h : id ∉ ids) :
    (s.shut ids).sockets id = s.sockets id := if_neg h

theorem sockets_sweep {f : List Nat → List Nat × List Nat} (h : s.Kept) {id : Nat}
    (hid : (s.tasks t).socket = some id) (hf : ∀ l, ((f l).1 ++ (f l).2).Perm l) :
    (s.sweep σ f).sockets id = s.sockets id := by
  refine sockets_shut fun hx => ?_
  obtain ⟨i, -, hi⟩ := List.mem_flatMap.mp hx
  have hin : id ∈ s.content (.inactive i) :=
    (hf (s.inactiveSocketPool i)).mem_iff.mp (List.mem_append_left _ hi)
  exact ne_of_elsewhere h hid hin (by rintro ⟨⟩) rfl

/-- A step of another task. -/
theorem sockets_effect {u : Fin n} {size : Nat} {s' : SocketManager n} (h : s.Kept) (hu : t ≠ u)
    {id : Nat} (hid : (s.tasks t).socket = some id) (heffect : s.Effect σ u size s') :
    s'.sockets id = s.sockets id := by
  have htask : Place.task u ≠ Place.task t := by
    rintro ⟨⟩
    exact hu rfl
  have hother {b : Nat} {pc : Pc} (hpc : s.tasks u = pc) (hb : pc.socket = some b) : id ≠ b := by
    refine ne_of_elsewhere h hid ?_ htask
    rw [content_task hpc, hb]
    exact List.mem_singleton_self b
  cases heffect with
  | stays | goes | stops | polls | pollsFirst | adds | addsFirst => rfl
  | connects =>
    obtain ⟨place, hplace⟩ := h
    have hmem : id ∈ s.content (.task t) := by
      rw [content, hid]
      exact List.mem_singleton_self id
    have hlt : id < s.created := hplace.exists_of_mem hmem
    exact sockets_create_of_ne hlt.ne
  | stamps now hpc => exact Function.update_of_ne (hother hpc rfl) ..
  | closes hpc => exact sockets_shut fun hx => hother hpc rfl (List.mem_singleton.mp hx)
  | @closesActive i b rest hpc hl =>
    have hb : b ∈ s.content (.active i) := by
      show b ∈ s.activeSocketPool i
      rw [hl]
      exact List.mem_cons_self
    refine sockets_shut fun hx => ?_
    exact ne_of_elsewhere h hid hb (by rintro ⟨⟩) (List.mem_singleton.mp hx)
  | maintains currTime => exact sockets_sweep h hid (maintainList_perm currTime)
  | closesInactive =>
    exact sockets_sweep (f := fun l => (l, [])) h hid fun l => .of_eq (List.append_nil l)

end ManagerLemmas

/-- **Exclusive use.** While a task has a socket and takes no step itself, nothing happens to the
socket, whatever the other tasks, the maintenance and a shutdown do: it is not handed to anybody
else, and it stays as it is, open or not. -/
theorem undisturbed_of_run {s' : SocketManager n}
    {l l' : List (SocketManager n × Fin n × ManagerAction)} (hreach : Run (Step σ) (initial n) l s)
    (hrun : Run (Step σ) s l' s') (hothers : ∀ y ∈ l', y.2.1 ≠ t) {id : Nat}
    (hid : (s.tasks t).socket = some id) :
    s'.tasks t = s.tasks t ∧ s'.sockets id = s.sockets id ∧
      ∀ u, (s'.tasks u).socket = some id → u = t := by
  have hstart : s.Kept ∧ s.Routed σ := sound_of_run ⟨kept_initial, routed_initial⟩ hreach
  have hsteps := hrun.restrict (P := fun _ a => a.1 ≠ t) hothers
  have hall : s'.Kept ∧ s'.tasks t = s.tasks t ∧ s'.sockets id = s.sockets id := by
    refine hsteps.invariant (I := fun x => x.Kept ∧ x.tasks t = s.tasks t ∧
      x.sockets id = s.sockets id) ?_ ⟨hstart.1, rfl, rfl⟩
    rintro x a x' ⟨hkept, htask, hsocket⟩ ⟨hne, hstep⟩
    have heffect := effect_of_step hstep
    refine ⟨kept_effect hkept heffect, (tasks_effect hne.symm heffect).trans htask, ?_⟩
    exact (sockets_effect hkept hne.symm (htask ▸ hid) heffect).trans hsocket
  obtain ⟨⟨place, hplace⟩, htask, hsocket⟩ := hall
  refine ⟨htask, hsocket, fun u hu => ?_⟩
  have hmem {v : Fin n} (hv : (s'.tasks v).socket = some id) : id ∈ s'.content (.task v) := by
    rw [content, hv]
    exact List.mem_singleton_self id
  cases hplace.unique (hmem hu) (hmem (htask ▸ hid))
  rfl

/-- A task gets a socket, gives it back and shuts the manager down. -/
def getsAndStops (t : Fin n) : List (Fin n × ManagerAction) :=
  gets t ++ (t, .close) :: List.replicate 3 (goes t 0) ++
    (t, .call .shutdown) :: List.replicate 4 (goes t 0)

/-- All of this happens while another task has a socket. -/
theorem undisturbed_by_other :
    let s := (gets (0 : Fin 2)).foldl (next oneServer) (initial 2)
    let s' := (getsAndStops 1).foldl (next oneServer) s
    s'.tasks 0 = s.tasks 0 ∧ s'.sockets 0 = s.sockets 0 ∧
      ∀ u, (s'.tasks u).socket = some 0 → u = 0 := by
  intro s s'
  have hreach : Admitted (fun (s : SocketManager 2) a => s.Permitted a) (next oneServer) (initial 2)
      (gets 0) := by
    decide +kernel
  have hrun : Admitted (fun (s : SocketManager 2) a => s.Permitted a ∧ a.1 ≠ 0) (next oneServer) s
      (getsAndStops 1) := by
    decide +kernel
  obtain ⟨l, hl, hothers⟩ := hrun.run_of_and
  have hid : (s.tasks 0).socket = some 0 := by decide +kernel
  exact undisturbed_of_run hreach.run_trace hl hothers hid

/-! ## How many sockets are active -/

/-- Where `size()` is asked for it returns the size. -/
def Exact (s : SocketManager n) (a : Fin n × ManagerAction) : Prop :=
  (s.tasks a.1).looks.all (fun i => a.2.size == (s.activeSocketPool i).length) = true

instance (s : SocketManager n) : DecidablePred s.Exact :=
  fun _ => inferInstanceAs (Decidable (_ = true))

/-- The tasks that are about to add to this queue. -/
def adding (s : SocketManager n) (i : Nat) : Nat := ∑ t, ((s.tasks t).adds i).toNat

namespace ManagerLemmas

theorem adding_goto (pc : Pc) (i : Nat) :
    (s.goto t pc).adding i + ((s.tasks t).adds i).toNat = s.adding i + (pc.adds i).toNat := by
  have hsplit (x : SocketManager n) : x.adding i =
      ((x.tasks t).adds i).toNat + ∑ u ∈ Finset.univ.erase t, ((x.tasks u).adds i).toNat :=
    (Finset.add_sum_erase _ _ (Finset.mem_univ t)).symm
  have hrest : ∑ u ∈ Finset.univ.erase t, (((s.goto t pc).tasks u).adds i).toNat =
      ∑ u ∈ Finset.univ.erase t, ((s.tasks u).adds i).toNat := by
    refine Finset.sum_congr rfl fun u hu => ?_
    rw [tasks_goto_of_ne (Finset.ne_of_mem_erase hu)]
  have htask : (s.goto t pc).tasks t = pc := Function.update_self ..
  rw [hsplit, hsplit, hrest, htask]
  omega

theorem adding_goto_le {pc : Pc} {i : Nat} (h : pc.adds i = false) :
    (s.goto t pc).adding i ≤ s.adding i := by
  have hcount := adding_goto (s := s) (t := t) pc i
  rw [h] at hcount
  exact (Nat.le_add_right _ _).trans_eq hcount

theorem adding_le (i : Nat) : s.adding i ≤ n := by
  have hone : s.adding i ≤ ∑ _t : Fin n, 1 := Finset.sum_le_sum fun t _ => Bool.toNat_le _
  have hall : ∑ _t : Fin n, 1 = n := by simp
  exact hone.trans_eq hall

/-- The queues and the tasks that are about to add to them. -/
def Bounded (σ : ManagerSettings) (s : SocketManager n) : Prop :=
  ∀ i, (s.activeSocketPool i).length + s.adding i ≤ σ.maxActiveConn.toNat + (n - 1)

theorem bounded_of_le {s' : SocketManager n} (h : Bounded σ s)
    (hactive : ∀ i, (s'.activeSocketPool i).length ≤ (s.activeSocketPool i).length)
    (hadding : ∀ i, s'.adding i ≤ s.adding i) : Bounded σ s' :=
  fun i => (Nat.add_le_add (hactive i) (hadding i)).trans (h i)

theorem length_setActive_le {i id : Nat} {rest : List Nat} (hl : s.activeSocketPool i = id :: rest)
    (j : Nat) :
    ((s.setActive i rest).activeSocketPool j).length ≤ (s.activeSocketPool j).length := by
  rcases eq_or_ne j i with rfl | hj
  · rw [setActive_self, hl]
    exact Nat.le_succ _
  · rw [setActive_of_ne hj]

theorem bounded_effect {size : Nat} {s' : SocketManager n} (h : Bounded σ s)
    (hexact : ∀ id i, s.tasks t = .size id i → size = (s.activeSocketPool i).length)
    (heffect : s.Effect σ t size s') : Bounded σ s' := by
  cases heffect with
  | stays => exact h
  | @goes pc hgoes =>
    generalize hpc : s.tasks t = pc₀ at hgoes
    cases hgoes with
    | @add id i hless =>
      intro j
      rcases eq_or_ne j i with rfl | hj
      · -- all tasks can have seen this size
        have hall := adding_le (s := s.goto t (.add id j)) j
        have hsize := hexact id j hpc
        have hpos : 0 < n := t.pos
        show (s.activeSocketPool j).length + _ ≤ _
        omega
      · have hnot : (Pc.add id i).adds j = false := beq_eq_false_iff_ne.mpr hj.symm
        exact (Nat.add_le_add_left (adding_goto_le hnot) _).trans (h j)
    | getSocket | callCreateSocket | pollFirst | createSocket | connect | refused | failed | close
    | trueClose | size | discard | setLastActiveTime | closeActive | closeInactive =>
      exact bounded_of_le h (fun _ => le_rfl) fun _ => adding_goto_le rfl
  | stops | pollsFirst | connects | stamps | addsFirst | closes | closesInactive =>
    exact bounded_of_le h (fun _ => le_rfl) fun _ => adding_goto_le rfl
  | polls hpc hl => exact bounded_of_le h (length_setActive_le hl) fun _ => adding_goto_le rfl
  | @adds id i hpc =>
    intro j
    have hcount := adding_goto (s := s) (t := t) .idle j
    rw [hpc] at hcount
    rcases eq_or_ne j i with rfl | hj
    · have hone : (Pc.add id j).adds j = true := beq_self_eq_true j
      rw [hone] at hcount
      show ((s.setActive j _).activeSocketPool j).length + (s.goto t .idle).adding j ≤ _
      rw [setActive_self, List.length_append, Nat.add_assoc, Nat.add_comm [id].length]
      exact (Nat.add_le_add_left hcount.le _).trans (h j)
    · show ((s.setActive i _).activeSocketPool j).length + (s.goto t .idle).adding j ≤ _
      rw [setActive_of_ne hj]
      exact (Nat.add_le_add_left (adding_goto_le rfl) _).trans (h j)
  | closesActive hpc hl => exact bounded_of_le h (length_setActive_le hl) fun _ => le_rfl
  | maintains => exact bounded_of_le h (fun _ => le_rfl) fun _ => le_rfl

end ManagerLemmas

/-- **Active sockets.** `addSocket` looks at the size of a queue before it adds to it, and other
tasks do so in between. If every look is exact, a queue never has more than `maxActiveConn` sockets
and one for every further task. -/
theorem active_of_run {l : List (SocketManager n × Fin n × ManagerAction)}
    (hrun : Run (Step σ) (initial n) l s)
    (hexact : ∀ y ∈ l, y.1.Exact y.2) (i : Nat) :
    (s.activeSocketPool i).length ≤ σ.maxActiveConn.toNat + (n - 1) := by
  have hsteps := hrun.restrict (P := Exact) hexact
  have hbounded : Bounded σ s := by
    refine hsteps.invariant (I := Bounded σ) ?_ fun i => ?_
    · rintro x a x' hx ⟨hsize, hstep⟩
      refine bounded_effect hx (fun id i hpc => ?_) (effect_of_step hstep)
      rw [Exact, hpc] at hsize
      exact beq_iff_eq.mp hsize
    · have hnone : (initial n).adding i = 0 := Finset.sum_eq_zero fun t _ => rfl
      rw [hnone]
      exact Nat.zero_le _
  exact (Nat.le_add_right _ _).trans (hbounded i)

/-- The bound is reached. -/
theorem active_of_two :
    let s := twoAdd.foldl (next oneServer) (initial 2)
    (s.activeSocketPool 0).length = 2 ∧
      (s.activeSocketPool 0).length ≤ oneServer.maxActiveConn.toNat + (2 - 1) := by
  intro s
  have hok : Admitted (fun (s : SocketManager 2) a => s.Permitted a ∧ s.Exact a) (next oneServer)
      (initial 2) twoAdd := by
    decide +kernel
  obtain ⟨l, hrun, hexact⟩ := hok.run_of_and
  exact ⟨by decide +kernel, active_of_run hrun hexact 0⟩

/-! ## After a shutdown -/

/-- Nobody comes to the pool any more. -/
structure Quiet (s : SocketManager n) : Prop where
  stopped : s.initialized = false
  early : ∀ t, (s.tasks t).late = false

/-- How far a shutdown has come. -/
def Emptied (s : SocketManager n) : Pc → Prop
  | .closeActive j => ∀ i, i < j → s.activeSocketPool i = []
  | .closeInactive => ∀ i, s.activeSocketPool i = []
  | _ => True

/-- No socket is in the pool. -/
def Drained (s : SocketManager n) : Prop :=
  ∀ i, s.activeSocketPool i = [] ∧ s.inactiveSocketPool i = []

/-- What is empty stays so. -/
structure Shrinks (s s' : SocketManager n) : Prop where
  created : s'.created = s.created
  active : ∀ i, s.activeSocketPool i = [] → s'.activeSocketPool i = []
  inactive : ∀ i, s.inactiveSocketPool i = [] → s'.inactiveSocketPool i = []

namespace ManagerLemmas

theorem early_goto {pc : Pc} (h : ∀ u, (s.tasks u).late = false) (hpc : pc.late = false)
    (u : Fin n) : ((s.goto t pc).tasks u).late = false := by
  show (Function.update s.tasks t pc u).late = false
  rcases eq_or_ne u t with rfl | hu
  · rw [Function.update_self]
    exact hpc
  · rw [Function.update_of_ne hu]
    exact h u

theorem late_of_goes {size : Nat} {pc pc' : Pc} (h : s.Goes σ size pc pc')
    (hstopped : s.initialized = false) (hpc : pc.late = false) : pc'.late = false := by
  cases h with
  | connect hinit | size hinit => cases hinit.symm.trans hstopped
  | add | setLastActiveTime => cases hpc
  | getSocket | callCreateSocket | pollFirst | createSocket | refused | failed | close | trueClose
  | discard | closeActive | closeInactive => rfl

theorem setActive_eq_nil {i id : Nat} {rest : List Nat} (hl : s.activeSocketPool i = id :: rest)
    {j : Nat} (hj : s.activeSocketPool j = []) : (s.setActive i rest).activeSocketPool j = [] := by
  have hle := length_setActive_le hl j
  rw [hj] at hle
  exact List.eq_nil_of_length_eq_zero (Nat.le_zero.mp hle)

theorem setInactive_eq_nil {i id : Nat} {rest : List Nat} (hl : s.inactiveSocketPool i = id :: rest)
    {j : Nat} (hj : s.inactiveSocketPool j = []) :
    (s.setInactive i rest).inactiveSocketPool j = [] := by
  rcases eq_or_ne j i with rfl | hji
  · cases hj.symm.trans hl
  · rw [setInactive_of_ne hji]
    exact hj

theorem sweep_eq_nil {f : List Nat → List Nat × List Nat}
    (hf : ∀ l, ((f l).1 ++ (f l).2).Perm l) {i : Nat} (hi : s.inactiveSocketPool i = []) :
    (s.sweep σ f).inactiveSocketPool i = [] := by
  show (if i < σ.servers.length then (f (s.inactiveSocketPool i)).2
    else s.inactiveSocketPool i) = []
  split
  · have hperm := hf (s.inactiveSocketPool i)
    rw [hi] at hperm ⊢
    exact (List.append_eq_nil_iff.mp hperm.eq_nil).2
  · exact hi

/-- Once the manager is stopped nobody brings a socket. -/
theorem quiet_effect {size : Nat} {s' : SocketManager n} (h : Quiet s)
    (heffect : s.Effect σ t size s') : Quiet s' ∧ Shrinks s s' := by
  have hlate {pc : Pc} (hpc : s.tasks t = pc) : pc.late = false := hpc ▸ h.early t
  cases heffect with
  | stays => exact ⟨h, rfl, fun _ hi => hi, fun _ hi => hi⟩
  | goes hgoes =>
    have hpc := late_of_goes hgoes h.stopped (h.early t)
    exact ⟨⟨h.stopped, early_goto h.early hpc⟩, rfl, fun _ hi => hi, fun _ hi => hi⟩
  | stops =>
    exact ⟨⟨rfl, early_goto (s := { s with initialized := false }) h.early rfl⟩, rfl,
      fun _ hi => hi, fun _ hi => hi⟩
  | @polls i id host rest hpc hl =>
    exact ⟨⟨h.stopped, early_goto (s := s.setActive i rest) h.early rfl⟩, rfl,
      fun _ hi => setActive_eq_nil hl hi, fun _ hi => hi⟩
  | @pollsFirst i id host rest hpc hl =>
    exact ⟨⟨h.stopped, early_goto (s := s.setInactive i rest) h.early rfl⟩, rfl, fun _ hi => hi,
      fun _ hi => setInactive_eq_nil hl hi⟩
  | connects hpc | adds hpc | stamps _ hpc | addsFirst hpc => cases hlate hpc
  | @closes id hpc =>
    exact ⟨⟨h.stopped, early_goto (s := s.shut [id]) h.early rfl⟩, rfl, fun _ hi => hi,
      fun _ hi => hi⟩
  | closesActive hpc hl =>
    exact ⟨⟨h.stopped, h.early⟩, rfl, fun _ hi => setActive_eq_nil hl hi, fun _ hi => hi⟩
  | maintains currTime =>
    exact ⟨⟨h.stopped, h.early⟩, rfl, fun _ hi => hi,
      fun _ hi => sweep_eq_nil (maintainList_perm currTime) hi⟩
  | closesInactive =>
    exact ⟨⟨h.stopped, early_goto (s := s.closeInactive σ) h.early rfl⟩, rfl, fun _ hi => hi,
      fun _ hi => sweep_eq_nil (f := fun l => (l, [])) (fun l => .of_eq (List.append_nil l)) hi⟩

/-- There are no queues but those of the servers. -/
theorem pool_eq_nil (h : s.Routed σ) {i : Nat} (hi : σ.servers.length ≤ i) :
    s.activeSocketPool i = [] ∧ s.inactiveSocketPool i = [] := by
  have hnone : σ.servers[i]? = none := List.getElem?_eq_none hi
  refine ⟨List.eq_nil_iff_forall_not_mem.mpr fun id hid => ?_,
    List.eq_nil_iff_forall_not_mem.mpr fun id hid => ?_⟩
  · cases hnone.symm.trans (h.active i id hid)
  · cases hnone.symm.trans (h.inactive i id hid)

theorem emptied_of_shrinks {s' : SocketManager n} {pc : Pc} (h : Shrinks s s')
    (hpc : Emptied s pc) : Emptied s' pc := by
  cases pc with
  | closeActive j => exact fun i hi => h.active i (hpc i hi)
  | closeInactive => exact fun i => h.active i (hpc i)
  | idle | poll | pollFirst | createSocket | connect | hold | addSocket | size | add
  | setLastActiveTime | addFirst | trueClose => trivial

/-- A queue is left when it is empty. -/
theorem emptied_of_goes {size : Nat} {pc pc' : Pc} (hrouted : s.Routed σ)
    (h : s.Goes σ size pc pc') (hpc : Emptied s pc) : Emptied s pc' := by
  cases h with
  | @closeActive i hl =>
    intro j hj
    rcases Nat.lt_succ_iff_lt_or_eq.mp hj with hj | rfl
    · exact hpc j hj
    · exact hl
  | @closeInactive i hi =>
    intro j
    rcases Nat.lt_or_ge j i with hj | hj
    · exact hpc j hj
    · exact (pool_eq_nil hrouted (hi.trans hj)).1
  | getSocket | callCreateSocket | pollFirst | createSocket | connect | refused | failed | close
  | trueClose | size | discard | add | setLastActiveTime => trivial

theorem emptied_goto {pc : Pc} (hpc : Emptied s pc) :
    Emptied (s.goto t pc) ((s.goto t pc).tasks t) := by
  have hself : (s.goto t pc).tasks t = pc := Function.update_self ..
  rw [hself]
  exact emptied_of_shrinks ⟨rfl, fun _ hi => hi, fun _ hi => hi⟩ hpc

/-- What a task has emptied stays so, whichever task goes on. -/
theorem emptied_effect {u : Fin n} {size : Nat} {s' : SocketManager n} (hquiet : Quiet s)
    (hrouted : s.Routed σ) (h : Emptied s (s.tasks t)) (heffect : s.Effect σ u size s') :
    Emptied s' (s'.tasks t) := by
  have hshrinks := (quiet_effect hquiet heffect).2
  rcases eq_or_ne t u with rfl | hu
  · cases heffect with
    | stays => exact h
    | goes hgoes => exact emptied_goto (emptied_of_goes hrouted hgoes h)
    | stops => exact emptied_goto fun i hi => absurd hi (Nat.not_lt_zero i)
    | polls | pollsFirst | connects | adds | stamps | addsFirst | closes | closesInactive =>
      exact emptied_goto trivial
    | closesActive | maintains => exact emptied_of_shrinks hshrinks h
  · rw [tasks_effect hu heffect]
    exact emptied_of_shrinks hshrinks h

/-- The task `t` has not come to the end of `shutdown`, or the pool is empty. -/
structure Stops (σ : ManagerSettings) (t : Fin n) (created : Nat) (s : SocketManager n) : Prop where
  kept : s.Kept
  routed : s.Routed σ
  quiet : Quiet s
  emptied : Emptied s (s.tasks t)
  same : s.created = created
  done : (s.tasks t).shuts = true ∨ Drained s

theorem drained_of_shrinks {s' : SocketManager n} (h : Shrinks s s') (hs : Drained s) :
    Drained s' :=
  fun i => ⟨h.active i (hs i).1, h.inactive i (hs i).2⟩

theorem stops_effect {u : Fin n} {size created : Nat} {s' : SocketManager n}
    (h : Stops σ t created s) (heffect : s.Effect σ u size s') : Stops σ t created s' := by
  obtain ⟨hquiet, hshrinks⟩ := quiet_effect h.quiet heffect
  refine ⟨kept_effect h.kept heffect, routed_effect h.kept h.routed heffect, hquiet,
    emptied_effect h.quiet h.routed h.emptied heffect, hshrinks.created.trans h.same, ?_⟩
  rcases h.done with hshuts | hdrained
  · rcases eq_or_ne t u with rfl | hu
    · have hself (x : SocketManager n) (pc : Pc) : (x.goto t pc).tasks t = pc :=
        Function.update_self ..
      have hpc {pc : Pc} (hx : s.tasks t = pc) : pc.shuts = true := hx ▸ hshuts
      cases heffect with
      | stays | closesActive | maintains => exact .inl hshuts
      | @goes pc hgoes =>
        rw [hself]
        generalize s.tasks t = pc₀ at hgoes hshuts
        cases hgoes with
        | closeActive | closeInactive => exact .inl rfl
        | getSocket | callCreateSocket | pollFirst | createSocket | connect | refused | failed
        | close | trueClose | size | discard | add | setLastActiveTime => cases hshuts
      | stops => exact .inl (by rw [hself]; rfl)
      | polls hx | pollsFirst hx | connects hx | adds hx | stamps _ hx | addsFirst hx | closes hx =>
        cases hpc hx
      | closesInactive hx =>
        refine .inr fun i => ⟨?_, ?_⟩
        · have hactive := h.emptied
          rw [hx] at hactive
          exact hactive i
        · show (if i < σ.servers.length then [] else s.inactiveSocketPool i) = []
          split
          · rfl
          next hi => exact (pool_eq_nil h.routed (Nat.le_of_not_lt hi)).2
    · exact .inl ((tasks_effect hu heffect).symm ▸ hshuts)
  · exact .inr (drained_of_shrinks hshrinks hdrained)

end ManagerLemmas

/-- **Shutdown.** If no call has looked at `initialized` and is still on its way when `shutdown` is
called, the pool is empty when it has returned and stays empty; no socket is created any more, and
each one is closed, or a caller has it and closes it when he gives it back. -/
theorem drained_of_run {s' : SocketManager n}
    {l l' : List (SocketManager n × Fin n × ManagerAction)} (hreach : Run (Step σ) (initial n) l s)
    (hidle : s.tasks t = .idle) (hlate : ∀ u, (s.tasks u).late = false)
    (hrun : Run (Step σ) (s.enter σ t .shutdown) l' s') (hdone : (s'.tasks t).shuts = false) :
    Drained s' ∧ s'.created = s.created ∧
      ∀ id, id < s'.created →
        (s'.sockets id).closed = true ∨ ∃ u, (s'.tasks u).socket = some id := by
  have hsound : s.Kept ∧ s.Routed σ := sound_of_run ⟨kept_initial, routed_initial⟩ hreach
  have hstart : Stops σ t s.created (s.enter σ t .shutdown) := by
    have heffect : s.Effect σ t 0 (s.enter σ t .shutdown) := .stops hidle
    have hself : (s.enter σ t .shutdown).tasks t = .closeActive 0 := Function.update_self ..
    refine ⟨kept_effect hsound.1 heffect, routed_effect hsound.1 hsound.2 heffect,
      ⟨rfl, early_goto (s := { s with initialized := false }) hlate rfl⟩, ?_, rfl,
      .inl (hself ▸ rfl)⟩
    rw [hself]
    exact fun i hi => absurd hi (Nat.not_lt_zero i)
  have hstops : Stops σ t s.created s' := by
    refine hrun.invariant (I := Stops σ t s.created) ?_ hstart
    exact fun x a x' hx hstep => stops_effect hx (effect_of_step hstep)
  have hdrained : Drained s' := hstops.done.resolve_left fun hx => by cases hx.symm.trans hdone
  refine ⟨hdrained, hstops.same, fun id hid => ?_⟩
  obtain ⟨place, hplace⟩ := hstops.kept
  have hmem := hplace.mem_place hid
  generalize place id = k at hmem
  cases k with
  | active i =>
    have hin : id ∈ s'.activeSocketPool i := hmem
    rw [(hdrained i).1] at hin
    cases hin
  | inactive i =>
    have hin : id ∈ s'.inactiveSocketPool i := hmem
    rw [(hdrained i).2] at hin
    cases hin
  | task u => exact .inr ⟨u, Option.mem_toList.mp hmem⟩
  | closed => exact .inl (mem_closed.mp hmem).2

/-- The shutdown after two tasks have given their sockets back. -/
theorem drained_of_two :
    let s := twoAdd.foldl (next oneServer) (initial 2)
    let s' := (List.replicate 5 (goes 1 0)).foldl (next oneServer) (s.enter oneServer 1 .shutdown)
    Drained s' ∧ s'.created = s.created ∧ ∀ id, id < s'.created →
      (s'.sockets id).closed = true ∨ ∃ u, (s'.tasks u).socket = some id := by
  intro s s'
  have hreach : Admitted (fun (s : SocketManager 2) a => s.Permitted a) (next oneServer) (initial 2)
      twoAdd := by
    decide +kernel
  have hrun : Admitted (fun (s : SocketManager 2) a => s.Permitted a) (next oneServer)
      (s.enter oneServer 1 .shutdown) (List.replicate 5 (goes 1 0)) := by
    decide +kernel
  exact drained_of_run (t := 1) hreach.run_trace (by decide +kernel) (by decide +kernel)
    hrun.run_trace (by decide +kernel)

/-- A call that is crossing the shutdown brings its socket to the pool, and nobody closes it. -/
theorem not_drained_of_crossing :
    let s := (twoLook ++ [goes 1 0]).foldl (next oneServer) (initial 2)
    let s' := (List.replicate 4 (goes 1 0) ++ [goes 0 0]).foldl (next oneServer)
      (s.enter oneServer 1 .shutdown)
    (∃ l, Run (Step oneServer) (initial 2) l s) ∧
      (∃ l, Run (Step oneServer) (s.enter oneServer 1 .shutdown) l s') ∧
      (s'.tasks 1).shuts = false ∧ s'.activeSocketPool 0 = [0] ∧
      (s'.sockets 0).closed = false := by
  intro s s'
  have hreach : Admitted (fun (s : SocketManager 2) a => s.Permitted a) (next oneServer) (initial 2)
      (twoLook ++ [goes 1 0]) := by
    decide +kernel
  have hrun : Admitted (fun (s : SocketManager 2) a => s.Permitted a) (next oneServer)
      (s.enter oneServer 1 .shutdown) (List.replicate 4 (goes 1 0) ++ [goes 0 0]) := by
    decide +kernel
  exact ⟨hreach.run, hrun.run, by decide +kernel, by decide +kernel, by decide +kernel⟩

end SocketManager
end Xixi.Client
