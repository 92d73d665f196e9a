import Mathlib.Algebra.Ring.Int.Defs
import Mathlib.Algebra.Ring.Nat
import Mathlib.Data.List.Basic

/-!
# Watches (`Cache_Watch`, `Cache_Watch_Item`)

A `Cache_Watch` is the server side of one client's subscription: notifications
queue up in `updated_list_`, a check moves them to `wait_updated_list_` under a
new sequence number, and they stay there until that number is acknowledged.
A connection that waits for notifications is a `Sink`; the watch holds it weakly,
so every use asks whether it is still alive.
-/

namespace Xixi

/-- `watch_notify_type`. -/
inductive NotifyType
  | baseInfoUpdated
  | dataUpdated
  | deleted
  | expired
  | flushed
deriving DecidableEq, Repr

/-- A `Cache_Watch_Sink` (a connection), by its address. -/
abbrev Sink := Nat

/-- `Cache_Watch`. The sink `wp` is the target of the weak pointer `wp_`. -/
structure CacheWatch where
  watchId : Nat
  expireTime : Nat
  sequence : Nat
  updatedList : List Nat
  waitUpdatedList : List Nat
  updatedTypeList : List NotifyType
  waitUpdatedTypeList : List NotifyType
  wp : Option Sink
deriving DecidableEq, Repr

/-- The out parameters of a check; `sequence` is `none` when it is left unset. -/
structure CheckOut where
  sequence : Option Nat
  updatedList : List Nat
  updatedTypeList : List NotifyType
deriving DecidableEq, Repr

namespace CacheWatch

/-- The constructor. -/
def new (watchId expireTime : Nat) : CacheWatch where
  watchId := watchId
  expireTime := expireTime
  sequence := 0
  updatedList := []
  waitUpdatedList := []
  updatedTypeList := []
  waitUpdatedTypeList := []
  wp := none

def isExpired (w : CacheWatch) (currentTime : Nat) : Bool := w.expireTime ≤ currentTime

/-- `next_sequence`: the sequence number 0 is skipped. -/
def nextSequence (w : CacheWatch) : Nat :=
  if (w.sequence + 1) % 2 ^ 32 = 0 then 1 else (w.sequence + 1) % 2 ^ 32

/-- `wp_.lock()`. -/
def lock (w : CacheWatch) (alive : Sink → Bool) : Option Sink := w.wp.filter alive

/-- The pending notifications become the batch of a new sequence number. -/
def swapBatch (w : CacheWatch) : CacheWatch :=
  { w with
    updatedList := w.waitUpdatedList
    waitUpdatedList := w.updatedList
    updatedTypeList := w.waitUpdatedTypeList
    waitUpdatedTypeList := w.updatedTypeList
    sequence := w.nextSequence }

/-- `check_and_set_callback`. The last component is the sink that gets
`on_cache_watch_notify`. -/
def checkAndSetCallback (w : CacheWatch) (alive : Sink → Bool) (sp : Sink)
    (ackSequence expireTime : Nat) : CacheWatch × CheckOut × Option Sink :=
  let w := { w with expireTime := expireTime }
  if !w.waitUpdatedList.isEmpty && ackSequence != w.sequence then
    -- the batch is still unacknowledged: it is sent again
    (w, ⟨some w.sequence, w.waitUpdatedList, w.waitUpdatedTypeList⟩, none)
  else
    let w := if w.waitUpdatedList.isEmpty then w
      else { w with waitUpdatedList := [], waitUpdatedTypeList := [] }
    if 0 < w.updatedList.length then
      (w.swapBatch, ⟨some w.nextSequence, w.updatedList, w.updatedTypeList⟩, none)
    else
      ({ w with wp := some sp }, ⟨some 0, [], []⟩, w.lock alive)

/-- `check_and_clear_callback`. -/
def checkAndClearCallback (w : CacheWatch) (alive : Sink → Bool) (sp : Sink) :
    CacheWatch × CheckOut :=
  if w.lock alive = some sp then
    if 0 < w.updatedList.length ∧ w.waitUpdatedList.isEmpty then
      ({ w.swapBatch with wp := none }, ⟨some w.nextSequence, w.updatedList, w.updatedTypeList⟩)
    else ({ w with wp := none }, ⟨none, [], []⟩)
  else (w, ⟨none, [], []⟩)

/-- `notify_watch`, with the sink that gets `on_cache_watch_notify`. -/
def notifyWatch (w : CacheWatch) (alive : Sink → Bool) (cacheId : Nat) (type : NotifyType) :
    CacheWatch × Option Sink :=
  let w := { w with
    updatedList := w.updatedList ++ [cacheId]
    updatedTypeList := w.updatedTypeList ++ [type] }
  match w.lock alive with
  | some p => ({ w with wp := none }, some p)
  | none => (w, none)

end CacheWatch

/-! ## The watch set of an item -/

/-- Insertion into a strictly increasing list. -/
def insertId (x : Nat) : List Nat → List Nat
  | [] => [x]
  | y :: ys => if x < y then x :: y :: ys else if x = y then y :: ys else y :: insertId x ys

theorem mem_insertId {x z : Nat} {l : List Nat} : z ∈ insertId x l ↔ z = x ∨ z ∈ l := by
  induction l with
  | nil => simp [insertId]
  | cons y ys ih =>
    simp only [insertId]
    split
    · simp
    · split
      · next he => subst he; simp
      · simp only [List.mem_cons, ih]
        tauto

theorem sorted_insertId {x : Nat} {l : List Nat} (h : l.Pairwise (· < ·)) :
    (insertId x l).Pairwise (· < ·) := by
  induction l with
  | nil => simp [insertId]
  | cons y ys ih =>
    obtain ⟨hy, hys⟩ := List.pairwise_cons.mp h
    simp only [insertId]
    split
    · next hlt =>
      refine List.pairwise_cons.mpr ⟨fun z hz => ?_, h⟩
      rcases List.mem_cons.mp hz with rfl | hz
      · exact hlt
      · exact Nat.lt_trans hlt (hy z hz)
    · split
      · exact h
      · next hlt hne =>
        refine List.pairwise_cons.mpr ⟨fun z hz => ?_, ih hys⟩
        rcases mem_insertId.mp hz with rfl | hz
        · omega
        · exact hy z hz

/-- `Cache_Watch_Item`: the `std::set` of watch ids, in iteration order. -/
structure WatchSet where
  ids : List Nat
  sorted : ids.Pairwise (· < ·)
deriving DecidableEq

namespace WatchSet

def empty : WatchSet := ⟨[], List.Pairwise.nil⟩

def addWatch (w : WatchSet) (watchId : Nat) : WatchSet :=
  ⟨insertId watchId w.ids, sorted_insertId w.sorted⟩

/-- Erases the ids for which `live` is false. -/
def keep (w : WatchSet) (live : Nat → Bool) : WatchSet :=
  ⟨w.ids.filter live, w.sorted.sublist List.filter_sublist⟩

theorem nodup (w : WatchSet) : w.ids.Nodup :=
  w.sorted.imp fun h => Nat.ne_of_lt h

@[simp] theorem mem_addWatch {w : WatchSet} {x z : Nat} :
    z ∈ (w.addWatch x).ids ↔ z = x ∨ z ∈ w.ids := mem_insertId

end WatchSet
end Xixi
