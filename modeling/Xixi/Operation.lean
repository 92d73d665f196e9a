import Xixi.Manager

/-!
# The cache manager and its callers

Every public operation as a value, so that runs of the manager can be spoken
about. Each operation runs under `cache_lock_` and is one step; `load_from_file`
takes the lock twice, once inside `alloc_item` and once to link the item, and is
therefore three steps: `alloc`, `fill` and `loadFromFileLink`. `setCurrentTime` and
`connections` are the clock and the connections that come and go.

`Sys` adds what the callers have to keep track of: how many references to an item
they hold, and which items they have allocated but not passed on yet.
-/

namespace Xixi

/-- The operations that take an item allocated by the caller. -/
inductive Verb
  | add
  | set
  | replace
  | append
  | prepend
deriving DecidableEq, Repr

inductive Op
  | alloc (o : Malloc) (groupId keyLength flags expiration dataSize extSize : Nat)
  | fill (p : Ptr) (c : Contents)
  | get (groupId : Nat) (key : Bytes) (watchId : Nat) (isBase : Bool)
  | getTouch (groupId : Nat) (key : Bytes) (watchId expiration : Nat)
  | updateFlags (groupId : Nat) (key : Bytes) (cacheId flags : Nat)
  | updateExpiration (groupId : Nat) (key : Bytes) (cacheId expiration : Nat)
  | update (verb : Verb) (o : Malloc) (item : Ptr) (watchId : Nat)
  | loadFromFileLink (o : Malloc) (item : Ptr) (watchId : Nat)
  | remove (groupId : Nat) (key : Bytes) (cacheId : Nat)
  | delta (o : Malloc) (groupId : Nat) (key : Bytes) (incr : Bool) (delta : Int) (cacheId : Nat)
  | flush (groupId : Nat)
  | checkExpired
  | releaseReference (p : Ptr)
  | createWatch (groupId maxNextCheckInterval : Nat)
  | checkWatchAndSetCallback (sp : Sink) (groupId watchId ackSequence maxNextCheckInterval : Nat)
  | checkWatchAndClearCallback (sp : Sink) (watchId : Nat)
  | setCurrentTime (tt : Nat)
  | connections (alive : Sink → Bool)

/-- What an operation returns, out parameters included. -/
inductive Outcome
  | done
  | alloc (p : Option Ptr)
  | get (r : Option (Ptr × Nat) × Reason)
  | item (r : Option Ptr × Reason)
  | base (r : Bool × Nat)
  | update (r : Reason × Option Nat)
  | remove (r : Reason)
  | delta (r : Reason × Nat × Int)
  | flush (r : Nat × Nat)
  | watchId (id : Nat)
  | check (r : Option CheckOut)
deriving DecidableEq, Repr

/-- `XIXI_REASON_SUCCESS`, or `true` of `update_flags` and `update_expiration`. -/
def Outcome.succeeded : Outcome → Bool
  | .get r => r.2 == .success
  | .item r => r.2 == .success
  | .base r => r.1
  | .update r => r.1 == .success
  | .remove r => r == .success
  | .delta r => r.1 == .success
  | _ => false

namespace CacheMgr

def update (env : Env) (s : CacheMgr) (o : Malloc) (item : Ptr) (watchId : Nat) :
    Verb → (Reason × Option Nat) × CacheMgr
  | .add => s.add env o item watchId
  | .set => s.set env o item watchId
  | .replace => s.replace env o item watchId
  | .append => s.append env o item watchId
  | .prepend => s.prepend env o item watchId

def exec (env : Env) (s : CacheMgr) : Op → Outcome × CacheMgr
  | .alloc o g kl fl x ds es => (s.allocItem env o g kl fl x ds es).map .alloc id
  | .fill p c => (.done, s.fill env p c)
  | .get g k w b => (s.get env g k w b).map .get id
  | .getTouch g k w x => (s.getTouch env g k w x).map .item id
  | .updateFlags g k x fl => (s.updateFlags env g k x fl).map .base id
  | .updateExpiration g k x y => (s.updateExpiration env g k x y).map .base id
  | .update verb o p w => (s.update env o p w verb).map .update id
  | .loadFromFileLink o p w => (s.loadFromFileLink env o p w).map .item id
  | .remove g k x => (s.remove env g k x).map .remove id
  | .delta o g k incr d x => (s.delta env o g k incr d x).map .delta id
  | .flush g => (s.flush env g).map .flush id
  | .checkExpired => (.done, s.checkExpired env)
  | .releaseReference p => (.done, s.releaseReference env p)
  | .createWatch g x => (s.createWatch g x).map .watchId id
  | .checkWatchAndSetCallback sp g w ack x =>
    (s.checkWatchAndSetCallback sp g w ack x).map .check id
  | .checkWatchAndClearCallback sp w => (s.checkWatchAndClearCallback sp w).map .check id
  | .setCurrentTime tt => (.done, s.setCurrentTime tt)
  | .connections alive => (.done, { s with sinkAlive := alive })

end CacheMgr

/-! ## The callers -/

/-- Which reference the caller gives up with the operation. -/
def Op.consumed : Op → Option Ptr
  | .loadFromFileLink _ p _ => some p
  | .releaseReference p => some p
  | _ => none

/-- Which reference the caller gets from the operation. -/
def Outcome.handed : Outcome → Option Ptr
  | .alloc p => p
  | .get r => r.1.map Prod.fst
  | .item r => r.1
  | _ => none

/-- How far the allocator of an item has got with it. -/
inductive Stage
  | passed
  | allocated
  | filled
deriving DecidableEq, Repr

/-- The manager, the references its callers hold, and the items in preparation. -/
structure Sys where
  mgr : CacheMgr
  out : Ptr → Nat
  stage : Ptr → Stage

/-- One reference to `p` less. -/
def drop (held : Ptr → Nat) (p : Ptr) : Ptr → Nat := Function.update held p (held p - 1)

/-- One more reference to `p`. -/
def bump (held : Ptr → Nat) (p : Ptr) : Ptr → Nat := Function.update held p (held p + 1)

/-- One more reference to the item, if there is an item. -/
def bumpOpt (held : Ptr → Nat) (o : Option Ptr) : Ptr → Nat := o.elim held (bump held)

def dropOpt (held : Ptr → Nat) (o : Option Ptr) : Ptr → Nat := o.elim held (drop held)

namespace Sys

def nextStage (stage : Ptr → Stage) : Op → Outcome → Ptr → Stage
  | .alloc .., .alloc (some p) => Function.update stage p .allocated
  | .fill p _, _ => Function.update stage p .filled
  | .update _ _ p _, _ => Function.update stage p .passed
  | .loadFromFileLink _ p _, _ => Function.update stage p .passed
  | .releaseReference p, _ => Function.update stage p .passed
  | _, _ => stage

/-- One operation. -/
def exec (env : Env) (x : Sys) (op : Op) : Outcome × Sys :=
  let (r, mgr) := x.mgr.exec env op
  (r, { mgr := mgr
        out := bumpOpt (dropOpt x.out op.consumed) r.handed
        stage := nextStage x.stage op r })

/-- What the callers keep to: keys are shorter than 65536 bytes, an item is filled
before it is passed on, it is passed on once, and a reference is released by
someone who holds it. -/
def Permitted (x : Sys) : Op → Prop
  | .alloc _ _ kl _ _ _ _ => kl < 2 ^ 16
  | .fill p _ => x.stage p ≠ .passed
  | .update _ _ p _ => x.stage p = .filled
  | .loadFromFileLink _ p _ => x.stage p = .filled
  | .delta _ _ k _ _ _ => k.length < 2 ^ 16
  | .releaseReference p => 0 < x.out p
  | _ => True

instance (x : Sys) : (op : Op) → Decidable (x.Permitted op)
  | .alloc _ _ kl _ _ _ _ => inferInstanceAs (Decidable (kl < 2 ^ 16))
  | .fill p _ => inferInstanceAs (Decidable (x.stage p ≠ .passed))
  | .update _ _ p _ => inferInstanceAs (Decidable (x.stage p = .filled))
  | .loadFromFileLink _ p _ => inferInstanceAs (Decidable (x.stage p = .filled))
  | .delta _ _ k _ _ _ => inferInstanceAs (Decidable (k.length < 2 ^ 16))
  | .releaseReference p => inferInstanceAs (Decidable (0 < x.out p))
  | .get .. | .getTouch .. | .updateFlags .. | .updateExpiration .. | .remove .. | .flush ..
  | .checkExpired | .createWatch .. | .checkWatchAndSetCallback ..
  | .checkWatchAndClearCallback .. | .setCurrentTime .. | .connections .. => .isTrue trivial

/-- A permitted operation and its outcome. -/
def Step (env : Env) (x : Sys) (l : Op × Outcome) (y : Sys) : Prop :=
  x.Permitted l.1 ∧ x.exec env l.1 = (l.2, y)

/-- The manager after its constructor and `init`; nobody holds anything. -/
def start (env : Env) (lastTime limit itemSizeMax itemSizeMin : Nat) (factor : Rat) : Sys where
  mgr := (CacheMgr.new lastTime).init env limit itemSizeMax itemSizeMin factor
  out := fun _ => 0
  stage := fun _ => .passed

end Sys
end Xixi
