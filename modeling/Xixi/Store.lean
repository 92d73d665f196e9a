import Mathlib.Data.Prod.Basic
import Xixi.Item

/-!
# The abstract store

What the cache manager is for, without its heap: a map from keys to entries, the
notifications each live watch has still to fetch, the counter of issued cache ids
and the clock. The operations answer exactly what those of `Cache_Mgr` answer.
Where the manager takes something from its heap (the item that `append` or
`delta` allocates, the order of a sweep), the operation takes it as an argument.

1. `unlink`, `link`, `put`: the steps every operation is made of.
2. `entry_unlink`, `pending_unlink`, `entry_link`, ...: what a step does to a key
   and to a watch.
3. `entry_unlinkAll`, `pending_unlinkAll`: a sweep removes the keys it is given and
   notifies each of their watches once per key.
-/

namespace Xixi

/-- `group_id` and the key bytes. -/
abbrev Key := Nat × Bytes

/-- A linked item, as far as its content goes. -/
structure Entry where
  ptr : Ptr
  data : Bytes
  flags : Nat
  ext : Bytes
  cacheId : Nat
  expireTime : Nat
  watch : Option WatchSet

namespace Entry

def watchIds (e : Entry) : List Nat := (e.watch.map WatchSet.ids).getD []

def addWatch (e : Entry) (watchId : Nat) : Entry :=
  { e with watch := some ((e.watch.getD .empty).addWatch watchId) }

def addWatchIf (e : Entry) (watchId : Nat) : Entry :=
  if watchId ≠ 0 then e.addWatch watchId else e

theorem cacheId_addWatchIf (e : Entry) (w : Nat) : (e.addWatchIf w).cacheId = e.cacheId := by
  unfold addWatchIf
  split <;> rfl

theorem expireTime_addWatchIf (e : Entry) (w : Nat) : (e.addWatchIf w).expireTime = e.expireTime := by
  unfold addWatchIf
  split <;> rfl

@[simp] theorem mem_watchIds_addWatch {e : Entry} {x w : Nat} :
    w ∈ (e.addWatch x).watchIds ↔ w = x ∨ w ∈ e.watchIds := by
  cases h : e.watch <;> simp [watchIds, addWatch, h, WatchSet.empty]

end Entry

/-- `pending w` is what a live watch `w` has in `updated_list_` and
`updated_type_list_`. -/
@[ext]
structure Store where
  entry : Key → Option Entry
  pending : Nat → Option (List Nat × List NotifyType)
  lastCacheId : Nat
  currTime : Nat

namespace Store

def live (st : Store) (watchId : Nat) : Bool := (st.pending watchId).isSome

/-- No watch is asked for, or a live one. -/
def watchOk (st : Store) (watchId : Nat) : Bool := watchId == 0 || st.live watchId

/-- `get_cache_id`: 0 is never issued. -/
def nextId (st : Store) : Nat :=
  if (st.lastCacheId + 1) % 2 ^ 64 = 0 then 1 else (st.lastCacheId + 1) % 2 ^ 64

/-- No key is stored in the item at `p`. -/
def Absent (st : Store) (p : Ptr) : Prop := ∀ k e, st.entry k = some e → e.ptr ≠ p

/-! ## Steps -/

def push (x : Nat) (type : NotifyType) (q : List Nat × List NotifyType) :
    List Nat × List NotifyType := (q.1 ++ [x], q.2 ++ [type])

/-- The live watches among `ids` get one notification for the cache id `x`. -/
def notify (st : Store) (ids : List Nat) (x : Nat) (type : NotifyType) : Store :=
  { st with
    pending := fun w => if w ∈ ids then (st.pending w).map (push x type) else st.pending w }

def put (st : Store) (k : Key) (e : Option Entry) : Store :=
  { st with entry := Function.update st.entry k e }

def unlink (st : Store) (k : Key) (type : NotifyType) : Store :=
  match st.entry k with
  | none => st
  | some e => (st.notify e.watchIds e.cacheId type).put k none

/-- The entry is stored under a new cache id. -/
def link (st : Store) (k : Key) (e : Entry) : Store :=
  { st.put k (some { e with cacheId := st.nextId }) with lastCacheId := st.nextId }

def unlinkAll (st : Store) (type : NotifyType) (ks : List Key) : Store :=
  ks.foldl (fun st k => st.unlink k type) st

/-- The expired watches are gone. -/
def expireWatchs (st : Store) (gone : Nat → Bool) : Store :=
  { st with pending := fun w => if gone w then none else st.pending w }

/-! ## Operations -/

def get (st : Store) (k : Key) (watchId : Nat) : (Option (Ptr × Nat) × Reason) × Store :=
  match st.entry k with
  | none => ((none, .notFound), st)
  | some e =>
    if e.expireTime = 0 ∨ st.currTime < e.expireTime then
      if st.watchOk watchId then
        ((some (e.ptr, if e.expireTime = 0 then 0 else e.expireTime - st.currTime), .success),
          st.put k (some (e.addWatchIf watchId)))
      else ((none, .watchNotFound), st)
    else ((none, .notFound), st.unlink k .expired)

/-- `get_touch`; the new expire time stays when the watch is not found. -/
def getTouch (st : Store) (k : Key) (watchId expireTime : Nat) :
    (Option Ptr × Reason) × Store :=
  match st.entry k with
  | none => ((none, .notFound), st)
  | some e =>
    if st.watchOk watchId then
      ((some e.ptr, .success),
        st.put k (some ({ e with expireTime := expireTime }.addWatchIf watchId)))
    else ((none, .watchNotFound), st.put k (some { e with expireTime := expireTime }))

def updateFlags (st : Store) (k : Key) (cacheId flags : Nat) : (Bool × Nat) × Store :=
  match st.entry k with
  | none => ((false, 0), st)
  | some e =>
    if cacheId = 0 ∨ cacheId = e.cacheId then
      ((true, st.nextId),
        (st.notify e.watchIds e.cacheId .baseInfoUpdated).link k
          { e with flags := flags, watch := e.watch.map fun ws => ws.keep st.live })
    else ((false, e.cacheId), st)

def updateExpiration (st : Store) (k : Key) (cacheId expireTime : Nat) : (Bool × Nat) × Store :=
  match st.entry k with
  | none => ((false, 0), st)
  | some e =>
    if cacheId = 0 ∨ cacheId = e.cacheId then
      ((true, e.cacheId), st.put k (some { e with expireTime := expireTime }))
    else ((false, 2 ^ 64 - 1), st)

/-- `add`, for a request item with the content `e`. -/
def add (st : Store) (k : Key) (e : Entry) (watchId : Nat) : (Reason × Option Nat) × Store :=
  match st.entry k with
  | none =>
    if st.watchOk watchId then
      ((.success, some st.nextId), st.link k (e.addWatchIf watchId))
    else ((.watchNotFound, none), st)
  | some _ => ((.exists, none), st)

/-- `replace`; the cache id of `e` is the one the request asks for. -/
def replace (st : Store) (k : Key) (e : Entry) (watchId : Nat) : (Reason × Option Nat) × Store :=
  match st.entry k with
  | none => ((.notFound, none), st)
  | some old =>
    if e.cacheId = 0 ∨ e.cacheId = old.cacheId then
      if st.watchOk watchId then
        ((.success, some st.nextId),
          (st.unlink k .dataUpdated).link k (e.addWatchIf watchId))
      else ((.watchNotFound, none), st)
    else ((.mismatch, none), st)

def set (st : Store) (k : Key) (e : Entry) (watchId : Nat) : (Reason × Option Nat) × Store :=
  match st.entry k with
  | none => st.add k e watchId
  | some _ => st.replace k e watchId

/-- `append` and `prepend`: `new` is the item they allocate. -/
def append (st : Store) (k : Key) (cacheId : Nat) (new : Option Entry) (watchId : Nat) :
    (Reason × Option Nat) × Store :=
  match st.entry k with
  | none => ((.notFound, none), st)
  | some old =>
    if cacheId ≠ 0 ∧ cacheId ≠ old.cacheId then ((.mismatch, none), st)
    else
      match new with
      | none => ((.outOfMemory, none), st)
      | some e =>
        if st.watchOk watchId then
          ((.success, some st.nextId), (st.unlink k .dataUpdated).link k e)
        else ((.watchNotFound, none), st)

def remove (st : Store) (k : Key) (cacheId : Nat) : Reason × Store :=
  match st.entry k with
  | none => (.notFound, st)
  | some e =>
    if cacheId = 0 ∨ cacheId = e.cacheId then (.success, st.unlink k .deleted)
    else (.mismatch, st)

/-- `delta`: `value` is the new number, `buf` its text, `new` the item that is
allocated when the text has another length than the data. -/
def delta (st : Store) (k : Key) (cacheId : Nat) (value : Int) (buf : Bytes) (new : Option Entry) :
    (Reason × Nat × Int) × Store :=
  match st.entry k with
  | none => ((.notFound, 0, 0), st)
  | some e =>
    if cacheId = 0 ∨ cacheId = e.cacheId then
      if buf.length ≠ e.data.length then
        match new with
        | none => ((.outOfMemory, cacheId, value), st)
        | some ne => ((.success, st.nextId, value), (st.unlink k .dataUpdated).link k ne)
      else ((.success, st.nextId, value), st.link k { e with data := buf })
    else ((.mismatch, 0, 0), st)

/-- The second half of `load_from_file`. -/
def loadFromFileLink (st : Store) (k : Key) (e : Entry) (watchId : Nat) :
    (Option Ptr × Reason) × Store :=
  match st.entry k with
  | none =>
    if st.watchOk watchId then ((some e.ptr, .success), st.link k (e.addWatchIf watchId))
    else ((none, .watchNotFound), st)
  | some old => ((some old.ptr, .success), st)

/-! ## What the steps do -/

@[simp] theorem entry_notify (st : Store) (ids : List Nat) (x : Nat) (t : NotifyType) :
    (st.notify ids x t).entry = st.entry := rfl

@[simp] theorem lastCacheId_notify (st : Store) (ids : List Nat) (x : Nat) (t : NotifyType) :
    (st.notify ids x t).lastCacheId = st.lastCacheId := rfl

@[simp] theorem nextId_notify (st : Store) (ids : List Nat) (x : Nat) (t : NotifyType) :
    (st.notify ids x t).nextId = st.nextId := rfl

@[simp] theorem currTime_notify (st : Store) (ids : List Nat) (x : Nat) (t : NotifyType) :
    (st.notify ids x t).currTime = st.currTime := rfl

@[simp] theorem live_notify (st : Store) (ids : List Nat) (x : Nat) (t : NotifyType) (w : Nat) :
    (st.notify ids x t).live w = st.live w := by
  simp only [live, notify]
  split <;> simp

@[simp] theorem notify_nil (st : Store) (x : Nat) (t : NotifyType) : st.notify [] x t = st := by
  simp [notify]

@[simp] theorem entry_put (st : Store) (k : Key) (e : Option Entry) :
    (st.put k e).entry = Function.update st.entry k e := rfl

@[simp] theorem pending_put (st : Store) (k : Key) (e : Option Entry) :
    (st.put k e).pending = st.pending := rfl

@[simp] theorem lastCacheId_put (st : Store) (k : Key) (e : Option Entry) :
    (st.put k e).lastCacheId = st.lastCacheId := rfl

@[simp] theorem nextId_put (st : Store) (k : Key) (e : Option Entry) :
    (st.put k e).nextId = st.nextId := rfl

theorem notify_put (st : Store) (k : Key) (e : Option Entry) (ids : List Nat) (x : Nat)
    (t : NotifyType) : (st.put k e).notify ids x t = (st.notify ids x t).put k e := rfl

theorem put_self {st : Store} {k : Key} {e : Option Entry} (h : st.entry k = e) :
    st.put k e = st := by
  subst h
  simp [put]

@[simp] theorem put_put (st : Store) (k : Key) (e e' : Option Entry) :
    (st.put k e).put k e' = st.put k e' := by
  simp [put]

@[simp] theorem put_link (st : Store) (k : Key) (e : Entry) (o : Option Entry) :
    (st.put k o).link k e = st.link k e := by
  simp only [link, put_put, nextId_put]

/-- The watch may be added after the entry has been stored. -/
theorem link_addWatchIf (st : Store) (k : Key) (e : Entry) (w : Nat) :
    (st.link k e).put k (some ({ e with cacheId := st.nextId }.addWatchIf w)) =
      st.link k (e.addWatchIf w) := by
  have he : { e.addWatchIf w with cacheId := st.nextId } =
      ({ e with cacheId := st.nextId } : Entry).addWatchIf w := by
    unfold Entry.addWatchIf
    split <;> rfl
  simp only [link, he, put, Function.update_idem]

@[simp] theorem entry_unlink (st : Store) (k : Key) (t : NotifyType) :
    (st.unlink k t).entry = Function.update st.entry k none := by
  unfold unlink
  split
  · next h => simp [← h]
  · rfl

@[simp] theorem lastCacheId_unlink (st : Store) (k : Key) (t : NotifyType) :
    (st.unlink k t).lastCacheId = st.lastCacheId := by
  unfold unlink
  split <;> rfl

@[simp] theorem currTime_unlink (st : Store) (k : Key) (t : NotifyType) :
    (st.unlink k t).currTime = st.currTime := by
  unfold unlink
  split <;> rfl

@[simp] theorem nextId_unlink (st : Store) (k : Key) (t : NotifyType) :
    (st.unlink k t).nextId = st.nextId := by
  simp [nextId]

@[simp] theorem entry_link (st : Store) (k : Key) (e : Entry) :
    (st.link k e).entry = Function.update st.entry k (some { e with cacheId := st.nextId }) := rfl

@[simp] theorem pending_link (st : Store) (k : Key) (e : Entry) :
    (st.link k e).pending = st.pending := rfl

@[simp] theorem lastCacheId_link (st : Store) (k : Key) (e : Entry) :
    (st.link k e).lastCacheId = st.nextId := rfl

/-- The watches of the entry, and only they, get one notification. -/
theorem pending_unlink {st : Store} {k : Key} {e : Entry} (t : NotifyType)
    (h : st.entry k = some e) (w : Nat) :
    (st.unlink k t).pending w =
      if w ∈ e.watchIds then (st.pending w).map (push e.cacheId t) else st.pending w := by
  simp only [unlink, h]
  rfl

@[simp] theorem live_put (st : Store) (k : Key) (e : Option Entry) (w : Nat) :
    (st.put k e).live w = st.live w := rfl

@[simp] theorem live_link (st : Store) (k : Key) (e : Entry) (w : Nat) :
    (st.link k e).live w = st.live w := rfl

@[simp] theorem live_unlink (st : Store) (k : Key) (t : NotifyType) (w : Nat) :
    (st.unlink k t).live w = st.live w := by
  unfold unlink
  split
  · rfl
  · rw [live_put, live_notify]

/-! ## Sweeps -/

/-- The cache ids that a watch is told when the keys are unlinked. -/
def watched (st : Store) (w : Nat) (ks : List Key) : List Nat :=
  ks.filterMap fun k => (st.entry k).bind fun e => if w ∈ e.watchIds then some e.cacheId else none

@[simp] theorem unlinkAll_nil (st : Store) (t : NotifyType) : st.unlinkAll t [] = st := rfl

@[simp] theorem unlinkAll_cons (st : Store) (t : NotifyType) (k : Key) (ks : List Key) :
    st.unlinkAll t (k :: ks) = (st.unlink k t).unlinkAll t ks := rfl

theorem unlinkAll_append (st : Store) (t : NotifyType) (ks ks' : List Key) :
    st.unlinkAll t (ks ++ ks') = (st.unlinkAll t ks).unlinkAll t ks' := List.foldl_append

@[simp] theorem currTime_unlinkAll (st : Store) (t : NotifyType) (ks : List Key) :
    (st.unlinkAll t ks).currTime = st.currTime := by
  induction ks generalizing st with
  | nil => rfl
  | cons k ks ih => rw [unlinkAll_cons, ih, currTime_unlink]

@[simp] theorem lastCacheId_unlinkAll (st : Store) (t : NotifyType) (ks : List Key) :
    (st.unlinkAll t ks).lastCacheId = st.lastCacheId := by
  induction ks generalizing st with
  | nil => rfl
  | cons k ks ih => rw [unlinkAll_cons, ih, lastCacheId_unlink]

@[simp] theorem live_unlinkAll (st : Store) (t : NotifyType) (ks : List Key) (w : Nat) :
    (st.unlinkAll t ks).live w = st.live w := by
  induction ks generalizing st with
  | nil => rfl
  | cons k ks ih => rw [unlinkAll_cons, ih, live_unlink]

theorem entry_unlinkAll (st : Store) (t : NotifyType) (ks : List Key) (k : Key) :
    (st.unlinkAll t ks).entry k = if k ∈ ks then none else st.entry k := by
  induction ks generalizing st with
  | nil => simp
  | cons a ks ih =>
    rw [unlinkAll_cons, ih, entry_unlink]
    by_cases hk : k = a
    · subst hk
      simp
    · simp [hk]

theorem watched_congr {st st' : Store} {ks : List Key} (w : Nat)
    (h : ∀ k ∈ ks, st'.entry k = st.entry k) : st'.watched w ks = st.watched w ks := by
  induction ks with
  | nil => rfl
  | cons a ks ih =>
    have ha := h a (List.mem_cons_self ..)
    have ih' := ih fun k hk => h k (List.mem_cons_of_mem _ hk)
    simp only [watched] at ih' ⊢
    rw [List.filterMap_cons, List.filterMap_cons, ha, ih']

theorem pending_unlinkAll (st : Store) (t : NotifyType) {ks : List Key} (hnd : ks.Nodup) (w : Nat) :
    (st.unlinkAll t ks).pending w = (st.pending w).map fun q =>
      (q.1 ++ st.watched w ks, q.2 ++ List.replicate (st.watched w ks).length t) := by
  induction ks generalizing st with
  | nil => simp [watched]
  | cons a ks ih =>
    obtain ⟨ha, hnd⟩ := List.nodup_cons.mp hnd
    have hw : (st.unlink a t).watched w ks = st.watched w ks := by
      refine watched_congr w fun k hk => ?_
      have hne : k ≠ a := fun he => ha (he ▸ hk)
      rw [entry_unlink, Function.update_of_ne hne]
    rw [unlinkAll_cons, ih _ hnd, hw]
    cases he : st.entry a with
    | none =>
      have hz : st.watched w (a :: ks) = st.watched w ks := by simp [watched, he]
      rw [hz, unlink, he]
    | some e =>
      rw [pending_unlink t he]
      by_cases hm : w ∈ e.watchIds
      · have hz : st.watched w (a :: ks) = e.cacheId :: st.watched w ks := by simp [watched, he, hm]
        rw [if_pos hm, hz]
        cases st.pending w with
        | none => rfl
        | some q => simp [push, List.replicate_succ]
      · have hz : st.watched w (a :: ks) = st.watched w ks := by simp [watched, he, hm]
        rw [if_neg hm, hz]

/-! ## The branches of `append` and `delta` -/

theorem append_mismatch {st : Store} {k : Key} {old : Entry} {x : Nat} (h : st.entry k = some old)
    (hx : ¬ (x = 0 ∨ x = old.cacheId)) (new : Option Entry) (w : Nat) :
    st.append k x new w = ((.mismatch, none), st) := by
  rw [not_or] at hx
  simp only [append, h]
  exact if_pos hx

theorem append_match {st : Store} {k : Key} {old : Entry} {x : Nat} (h : st.entry k = some old)
    (hx : x = 0 ∨ x = old.cacheId) (new : Option Entry) (w : Nat) :
    st.append k x new w =
      match new with
      | none => ((.outOfMemory, none), st)
      | some e =>
        if st.watchOk w then
          ((.success, some st.nextId), (st.unlink k .dataUpdated).link k e)
        else ((.watchNotFound, none), st) := by
  have hn : ¬ (x ≠ 0 ∧ x ≠ old.cacheId) := fun h => hx.elim h.1 h.2
  simp only [append, h]
  exact if_neg hn

theorem delta_mismatch {st : Store} {k : Key} {e : Entry} {x : Nat} (h : st.entry k = some e)
    (hx : ¬ (x = 0 ∨ x = e.cacheId)) (value : Int) (buf : Bytes) (new : Option Entry) :
    st.delta k x value buf new = ((.mismatch, 0, 0), st) := by
  simp only [delta, h]
  exact if_neg hx

/-- The text has another length: a new item takes the place of the old one. -/
theorem delta_realloc {st : Store} {k : Key} {e : Entry} {x : Nat} {buf : Bytes}
    (h : st.entry k = some e) (hx : x = 0 ∨ x = e.cacheId) (hlen : buf.length ≠ e.data.length)
    (value : Int) (new : Option Entry) :
    st.delta k x value buf new =
      match new with
      | none => ((.outOfMemory, x, value), st)
      | some ne => ((.success, st.nextId, value), (st.unlink k .dataUpdated).link k ne) := by
  simp only [delta, h]
  rw [if_pos hx, if_pos hlen]

/-- The text has the length of the data and overwrites it. -/
theorem delta_inPlace {st : Store} {k : Key} {e : Entry} {x : Nat} {buf : Bytes}
    (h : st.entry k = some e) (hx : x = 0 ∨ x = e.cacheId) (hlen : buf.length = e.data.length)
    (value : Int) (new : Option Entry) :
    st.delta k x value buf new =
      ((.success, st.nextId, value), st.link k { e with data := buf }) := by
  simp only [delta, h]
  rw [if_pos hx, if_neg (not_not.mpr hlen)]

end Store
end Xixi
