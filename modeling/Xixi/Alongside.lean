import Xixi.System

/-!
# Two stores side by side

The server's store and one that differs from it in expire times only. Whatever a client asks of
both, they answer alike and differ in expire times only again, but for a `get` of an entry that has
run out in one of them.

1. `Beside`: the two stores differ in expire times only.
2. `Parallel`: what may become of a key in the two stores at one step. `Alongside`: of every key.
3. `along_get`, `along_updateFlags`, ...: the operations one by one.
4. `Store.others`: an operation of the manager, as the second store does it.
5. `along_others`: it does it alongside the first.
-/

namespace Xixi

/-- What there is to an entry apart from its expire time. -/
def Entry.untimed (e : Entry) : Entry := { e with expireTime := 0 }

/-- The two stores differ in the expire times of their entries only. -/
structure Beside (st st' : Store) : Prop where
  entry : ∀ k, (st'.entry k).map Entry.untimed = (st.entry k).map Entry.untimed
  pending : st'.pending = st.pending
  lastCacheId : st'.lastCacheId = st.lastCacheId
  currTime : st'.currTime = st.currTime

/-- What one step makes of a key in two stores, from `o` and `o'`. New entries have the id `id`;
another expire time is given to an entry only by a step that is `retiming`. -/
inductive Parallel (id : Nat) (retiming : Prop) :
    Option Entry → Option Entry → Option Entry → Option Entry → Prop
  | same (o o' : Option Entry) : Parallel id retiming o o' o o'
  | gone (o o' : Option Entry) : Parallel id retiming o o' none none
  | fresh {e : Entry} (o o' : Option Entry) (hid : e.cacheId = id) :
      Parallel id retiming o o' (some e) (some e)
  | kept {e e₁ : Entry} (t : Nat) (hid : e₁.cacheId = e.cacheId ∨ e₁.cacheId = id)
      (htime : e₁.expireTime = e.expireTime) :
      Parallel id retiming (some e) (some { e with expireTime := t }) (some e₁)
        (some { e₁ with expireTime := t })
  | retimed {e₁ : Entry} (o o' : Option Entry) (h : retiming) :
      Parallel id retiming o o' (some e₁) (some e₁)

/-- One step of both stores. -/
structure Alongside (retiming : Key → Prop) (st st' st₁ st₁' : Store) : Prop where
  entry : ∀ k, Parallel st.nextId (retiming k) (st.entry k) (st'.entry k) (st₁.entry k)
    (st₁'.entry k)
  lastCacheId : st₁'.lastCacheId = st₁.lastCacheId
  currTime : st₁.currTime = st.currTime
  currTime' : st₁'.currTime = st'.currTime

/-- The entry of the key, if there is one, has not run out. -/
def Store.Alive (st : Store) (k : Key) : Prop :=
  ∀ e, st.entry k = some e → e.expireTime = 0 ∨ st.currTime < e.expireTime

/-- The operation gives the entry of the key another expire time. -/
def Op.Retimes (st : Store) (k : Key) : Op → Prop
  | .getTouch g k' _ _ => (g, k') = k ∧ (st.entry k).isSome
  | .updateExpiration g k' x _ =>
    (g, k') = k ∧ ∃ e, st.entry k = some e ∧ (x = 0 ∨ x = e.cacheId)
  | _ => False

namespace Store

/-- The item that the first store has got for `append` or `delta`; the expire time is copied from
the old entry of the second one. -/
def allocated (st after : Store) (k : Key) (r : Outcome) : Option Entry :=
  if r.succeeded then
    (after.entry k).bind fun ne => (st.entry k).map fun old =>
      { ne with expireTime := old.expireTime }
  else none

/-- What the operation does to the entries. In the first store the manager has done it, from `s` to
`after` with the outcome `r`: what is sent with it is read there. -/
def othersEntry (st : Store) (s : CacheMgr) (after : Store) (r : Outcome) : Op → Store
  | .get g k w _ => (st.get (g, k) w).2
  | .getTouch g k w t => (st.getTouch (g, k) w (CacheMgr.realtime st.currTime t)).2
  | .updateFlags g k x flags => (st.updateFlags (g, k) x flags).2
  | .updateExpiration g k x t => (st.updateExpiration (g, k) x (CacheMgr.realtime st.currTime t)).2
  | .update .add _ p w => (st.add (s.item p).ident ((s.item p).entry p) w).2
  | .update .set _ p w => (st.set (s.item p).ident ((s.item p).entry p) w).2
  | .update .replace _ p w => (st.replace (s.item p).ident ((s.item p).entry p) w).2
  | .update .append _ p w | .update .prepend _ p w =>
    let k := (s.item p).ident
    (st.append k (s.item p).cacheId (st.allocated after k r) w).2
  | .loadFromFileLink _ p w => (st.loadFromFileLink (s.item p).ident ((s.item p).entry p) w).2
  | .remove g k x => (st.remove (g, k) x).2
  | .delta _ g k incr d x =>
    let value := (st.entry (g, k)).elim 0 fun e => CacheMgr.deltaValue (s.item e.ptr) incr d
    (st.delta (g, k) x value (formatInt64 value) (st.allocated after (g, k) r)).2
  | .flush g => { st with entry := fun k => if k.1 = g then none else st.entry k }
  | .alloc .. | .fill .. | .checkExpired | .releaseReference .. | .createWatch ..
  | .checkWatchAndSetCallback .. | .checkWatchAndClearCallback .. | .setCurrentTime ..
  | .connections .. => st

/-- The operation, done to the second store as well. It has the watches of the first. -/
def others (st : Store) (s : CacheMgr) (after : Store) (r : Outcome) (op : Op) : Store :=
  { st.othersEntry s after r op with pending := after.pending }

end Store

variable {n t : Nat} {retiming : Prop} {o o' o₁ o₁' : Option Entry} {e e' : Entry}
  {R : Key → Prop} {st st' st₁ st₁' : Store} {k : Key}

/-! ## One key -/

theorem Entry.eq_of_untimed (h : e'.untimed = e.untimed) :
    e' = { e with expireTime := e'.expireTime } := by
  cases e
  cases e'
  simp only [Entry.untimed, Entry.mk.injEq] at h
  obtain ⟨rfl, rfl, rfl, rfl, rfl, -, rfl⟩ := h
  rfl

/-- Two entries for the key, or none. -/
theorem Beside.cases (h : Beside st st') (k : Key) : (st.entry k = none ∧ st'.entry k = none) ∨
    ∃ e t, st.entry k = some e ∧ st'.entry k = some { e with expireTime := t } := by
  have hk := h.entry k
  cases he : st.entry k with
  | none =>
    rw [he, Option.map_none, Option.map_eq_none_iff] at hk
    exact .inl ⟨rfl, hk⟩
  | some e =>
    rw [he, Option.map_some, Option.map_eq_some_iff] at hk
    obtain ⟨e', he', hu⟩ := hk
    exact .inr ⟨e, e'.expireTime, rfl, he'.trans (congrArg some (Entry.eq_of_untimed hu))⟩

theorem Beside.nextId (h : Beside st st') : st'.nextId = st.nextId := by
  rw [Store.nextId, Store.nextId, h.lastCacheId]

theorem Beside.watchOk (h : Beside st st') (w : Nat) : st'.watchOk w = st.watchOk w := by
  rw [Store.watchOk, Store.watchOk, Store.live, Store.live, h.pending]

theorem Beside.live (h : Beside st st') : st'.live = st.live := by
  funext w
  rw [Store.live, Store.live, h.pending]

theorem Beside.of_some (h : Beside st st') (he : st.entry k = some e) :
    ∃ t, st'.entry k = some { e with expireTime := t } := by
  rcases h.cases k with ⟨hnone, -⟩ | ⟨e', t, he', ht⟩
  · exact nomatch hnone.symm.trans he
  · obtain rfl := Option.some.inj (he'.symm.trans he)
    exact ⟨t, ht⟩

theorem Beside.put (h : Beside st st') (k : Key) (a a' : Option Entry)
    (ha : a'.map Entry.untimed = a.map Entry.untimed) : Beside (st.put k a) (st'.put k a') := by
  refine ⟨fun k' => ?_, h.pending, h.lastCacheId, h.currTime⟩
  rw [Store.entry_put, Store.entry_put]
  by_cases hk : k' = k
  · subst hk
    rw [Function.update_self, Function.update_self]
    exact ha
  · rw [Function.update_of_ne hk, Function.update_of_ne hk]
    exact h.entry k'

/-- An entry of the first store gets another expire time. -/
theorem Beside.retime_left (h : Beside st st') (he : st.entry k = some e) (t : Nat) :
    Beside (st.put k (some { e with expireTime := t })) st' := by
  have hput := h.put k (some { e with expireTime := t }) (st'.entry k)
    ((h.entry k).trans (by rw [he]; rfl))
  rwa [Store.put_self rfl] at hput

/-- An entry of the second store gets another expire time. -/
theorem Beside.retime_right (h : Beside st st') (k : Key) (t : Nat) :
    Beside st (st'.put k ((st'.entry k).map fun e => { e with expireTime := t })) := by
  have hput := h.put k (st.entry k) ((st'.entry k).map fun e => { e with expireTime := t })
    (by rw [← h.entry k, Option.map_map]; rfl)
  rwa [Store.put_self rfl] at hput

theorem Beside.alive (h : Beside st st') (he : st.entry k = st'.entry k) :
    st.Alive k ↔ st'.Alive k := by
  rw [Store.Alive, Store.Alive, he, h.currTime]

theorem Parallel.untimed (h : Parallel n retiming o o' o₁ o₁')
    (hbefore : o'.map Entry.untimed = o.map Entry.untimed) :
    o₁'.map Entry.untimed = o₁.map Entry.untimed := by
  cases h with
  | same => exact hbefore
  | gone | fresh | retimed | kept => rfl

/-- Where the stores agree, they go on to. -/
theorem Parallel.agree (h : Parallel n retiming o o' o₁ o₁') (hbefore : o = o') : o₁ = o₁' := by
  cases h with
  | same => exact hbefore
  | gone | fresh | retimed => rfl
  | @kept e e₁ t _ htime =>
    have ht : e.expireTime = t := congrArg Entry.expireTime (Option.some.inj hbefore)
    rw [← ht, ← htime]

/-- Without retiming, either there is a new entry, or expire time and id are what they were. -/
theorem Parallel.cases_of_not (h : Parallel n retiming o o' o₁ o₁') (hr : ¬ retiming)
    (he : o₁' = some e') :
    (∃ e₁, o₁ = some e₁ ∧ e₁.cacheId = n) ∨
      (∃ e₀, o' = some e₀ ∧ e₀.expireTime = e'.expireTime) ∧
        ∀ e, o = some e → ∃ e₁, o₁ = some e₁ ∧ e₁.cacheId = e.cacheId := by
  cases h with
  | same => exact .inr ⟨⟨e', he, rfl⟩, fun e h => ⟨e, h, rfl⟩⟩
  | gone => exact nomatch he
  | fresh _ _ hid => exact .inl ⟨_, rfl, hid⟩
  | kept t hid =>
    obtain rfl := Option.some.inj he
    rcases hid with hid | hid
    · refine .inr ⟨⟨_, rfl, rfl⟩, fun e h => ⟨_, rfl, ?_⟩⟩
      obtain rfl := Option.some.inj h
      exact hid
    · exact .inl ⟨_, rfl, hid⟩
  | retimed _ _ h => exact absurd h hr

/-- An entry that is replaced by one with the same expire time, in each of the stores. -/
theorem Parallel.renewed {a a' : Entry} (hid : a.cacheId = n) (htime : a.expireTime = e.expireTime)
    (ha : a' = { a with expireTime := t }) :
    Parallel n retiming (some e) (some { e with expireTime := t }) (some a) (some a') := by
  subst ha
  exact .kept t (.inr hid) htime

namespace AlongsideLemmas

/-! ## The steps of the store -/

theorem along_refl (h : Beside st st') : Alongside R st st' st st' :=
  ⟨fun _ => .same .., h.lastCacheId, rfl, rfl⟩

/-- A step that changes one key. -/
theorem along_update (k : Key) {a a' : Option Entry}
    (hentry : st₁.entry = Function.update st.entry k a)
    (hentry' : st₁'.entry = Function.update st'.entry k a')
    (hlast : st₁'.lastCacheId = st₁.lastCacheId)
    (htime : st₁.currTime = st.currTime) (htime' : st₁'.currTime = st'.currTime)
    (hk : Parallel st.nextId (R k) (st.entry k) (st'.entry k) a a') :
    Alongside R st st' st₁ st₁' := by
  refine ⟨fun k' => ?_, hlast, htime, htime'⟩
  rw [hentry, hentry']
  by_cases he : k' = k
  · subst he
    rw [Function.update_self, Function.update_self]
    exact hk
  · rw [Function.update_of_ne he, Function.update_of_ne he]
    exact .same ..

theorem along_put (h : Beside st st') (k : Key) {a a' : Option Entry}
    (hk : Parallel st.nextId (R k) (st.entry k) (st'.entry k) a a') :
    Alongside R st st' (st.put k a) (st'.put k a') :=
  along_update k rfl rfl h.lastCacheId rfl rfl hk

theorem along_unlink (h : Beside st st') (k : Key) (n : NotifyType) :
    Alongside R st st' (st.unlink k n) (st'.unlink k n) := by
  refine along_update k (Store.entry_unlink ..) (Store.entry_unlink ..) ?_
    (Store.currTime_unlink ..) (Store.currTime_unlink ..) (.gone ..)
  rw [Store.lastCacheId_unlink, Store.lastCacheId_unlink, h.lastCacheId]

/-- The same entry is linked in both. -/
theorem along_link (h : Beside st st') (k : Key) (e : Entry) :
    Alongside R st st' (st.link k e) (st'.link k e) := by
  refine along_update k rfl (Store.entry_link ..) ?_ rfl rfl ?_
  · rw [Store.lastCacheId_link, Store.lastCacheId_link, h.nextId]
  · rw [h.nextId]
    exact .fresh _ _ rfl

theorem entry_relink (st : Store) (k : Key) (n : NotifyType) (e : Entry) :
    ((st.unlink k n).link k e).entry =
      Function.update st.entry k (some { e with cacheId := st.nextId }) := by
  rw [Store.entry_link, Store.entry_unlink, Store.nextId_unlink, Function.update_idem]

theorem along_relink (h : Beside st st') (k : Key) (n : NotifyType) {a a' : Entry}
    (hk : Parallel st.nextId (R k) (st.entry k) (st'.entry k) (some { a with cacheId := st.nextId })
      (some { a' with cacheId := st.nextId })) :
    Alongside R st st' ((st.unlink k n).link k a) ((st'.unlink k n).link k a') := by
  refine along_update k (entry_relink ..) (entry_relink ..) ?_ (Store.currTime_unlink ..)
    (Store.currTime_unlink ..) (h.nextId ▸ hk)
  rw [Store.lastCacheId_link, Store.lastCacheId_link, Store.nextId_unlink, Store.nextId_unlink,
    h.nextId]

/-! ## The operations -/

theorem addWatchIf_time (e : Entry) (t w : Nat) :
    ({ e with expireTime := t } : Entry).addWatchIf w =
      { e.addWatchIf w with expireTime := t } := by
  unfold Entry.addWatchIf
  split <;> rfl

theorem along_get (h : Beside st st') (k : Key) (w : Nat) (halive : st.Alive k ↔ st'.Alive k) :
    Alongside R st st' (st.get k w).2 (st'.get k w).2 := by
  rcases h.cases k with ⟨he, he'⟩ | ⟨e, t, he, he'⟩
  · simp only [Store.get, he, he']
    exact along_refl h
  · have hiff : (e.expireTime = 0 ∨ st.currTime < e.expireTime) ↔ (t = 0 ∨ st'.currTime < t) := by
      simpa [Store.Alive, he, he'] using halive
    simp only [Store.get, he, he']
    by_cases hlive : e.expireTime = 0 ∨ st.currTime < e.expireTime
    · rw [if_pos hlive, if_pos (hiff.mp hlive), h.watchOk]
      split
      · refine along_put h k ?_
        rw [he, he', addWatchIf_time e t w]
        exact .kept t (.inl (e.cacheId_addWatchIf w)) (e.expireTime_addWatchIf w)
      · exact along_refl h
    · rw [if_neg hlive, if_neg fun hl => hlive (hiff.mpr hl)]
      exact along_unlink h k .expired

theorem along_getTouch (h : Beside st st') (k : Key) (w t : Nat)
    (hr : (st.entry k).isSome → R k) :
    Alongside R st st' (st.getTouch k w t).2 (st'.getTouch k w t).2 := by
  rcases h.cases k with ⟨he, he'⟩ | ⟨e, t', he, he'⟩
  · simp only [Store.getTouch, he, he']
    exact along_refl h
  · have hk : R k := hr (by rw [he]; rfl)
    simp only [Store.getTouch, he, he', h.watchOk]
    split
    · exact along_put h k (.retimed _ _ hk)
    · exact along_put h k (.retimed _ _ hk)

theorem along_updateFlags (h : Beside st st') (k : Key) (x fl : Nat) :
    Alongside R st st' (st.updateFlags k x fl).2 (st'.updateFlags k x fl).2 := by
  rcases h.cases k with ⟨he, he'⟩ | ⟨e, t, he, he'⟩
  · simp only [Store.updateFlags, he, he']
    exact along_refl h
  · simp only [Store.updateFlags, he, he']
    split
    · refine along_update k rfl rfl h.nextId rfl rfl ?_
      rw [he, he', Store.nextId_notify, Store.nextId_notify, h.nextId, h.live]
      exact .renewed rfl rfl rfl
    · exact along_refl h

theorem along_updateExpiration (h : Beside st st') (k : Key) (x t : Nat)
    (hr : ∀ e, st.entry k = some e → x = 0 ∨ x = e.cacheId → R k) :
    Alongside R st st' (st.updateExpiration k x t).2 (st'.updateExpiration k x t).2 := by
  rcases h.cases k with ⟨he, he'⟩ | ⟨e, t', he, he'⟩
  · simp only [Store.updateExpiration, he, he']
    exact along_refl h
  · simp only [Store.updateExpiration, he, he']
    split
    · next hx => exact along_put h k (.retimed _ _ (hr e he hx))
    · exact along_refl h

theorem along_add (h : Beside st st') (k : Key) (e : Entry) (w : Nat) :
    Alongside R st st' (st.add k e w).2 (st'.add k e w).2 := by
  rcases h.cases k with ⟨he, he'⟩ | ⟨old, t, he, he'⟩
  · simp only [Store.add, he, he', h.watchOk]
    split
    · exact along_link h k _
    · exact along_refl h
  · simp only [Store.add, he, he']
    exact along_refl h

theorem along_replace (h : Beside st st') (k : Key) (e : Entry) (w : Nat) :
    Alongside R st st' (st.replace k e w).2 (st'.replace k e w).2 := by
  rcases h.cases k with ⟨he, he'⟩ | ⟨old, t, he, he'⟩
  · simp only [Store.replace, he, he']
    exact along_refl h
  · simp only [Store.replace, he, he', h.watchOk]
    split
    · split
      · exact along_relink h k .dataUpdated (.fresh _ _ rfl)
      · exact along_refl h
    · exact along_refl h

theorem along_set (h : Beside st st') (k : Key) (e : Entry) (w : Nat) :
    Alongside R st st' (st.set k e w).2 (st'.set k e w).2 := by
  rcases h.cases k with ⟨he, he'⟩ | ⟨old, t, he, he'⟩
  · simp only [Store.set, he, he']
    exact along_add h k e w
  · simp only [Store.set, he, he']
    exact along_replace h k e w

theorem along_loadFromFileLink (h : Beside st st') (k : Key) (e : Entry) (w : Nat) :
    Alongside R st st' (st.loadFromFileLink k e w).2 (st'.loadFromFileLink k e w).2 := by
  rcases h.cases k with ⟨he, he'⟩ | ⟨old, t, he, he'⟩
  · simp only [Store.loadFromFileLink, he, he', h.watchOk]
    split
    · exact along_link h k _
    · exact along_refl h
  · simp only [Store.loadFromFileLink, he, he']
    exact along_refl h

theorem along_remove (h : Beside st st') (k : Key) (x : Nat) :
    Alongside R st st' (st.remove k x).2 (st'.remove k x).2 := by
  rcases h.cases k with ⟨he, he'⟩ | ⟨old, t, he, he'⟩
  · simp only [Store.remove, he, he']
    exact along_refl h
  · simp only [Store.remove, he, he']
    split
    · exact along_unlink h k .deleted
    · exact along_refl h

theorem allocated_some {after : Store} {ne old : Entry} {r : Outcome} (hr : r.succeeded = true)
    (hne : after.entry k = some ne) (hold : st'.entry k = some old) :
    st'.allocated after k r = some { ne with expireTime := old.expireTime } := by
  rw [Store.allocated, if_pos hr, hne, hold]
  rfl

theorem allocated_none {after : Store} {r : Outcome} (hr : r.succeeded = false) :
    st'.allocated after k r = none := by
  rw [Store.allocated, hr]
  rfl

/-- The new item takes the place of the old entry in both. -/
theorem along_copied {ne : Entry} (h : Beside st st') (he : st.entry k = some e)
    (he' : st'.entry k = some { e with expireTime := t }) (hne : ne.expireTime = e.expireTime) :
    Alongside R st st' ((st.unlink k .dataUpdated).link k ne)
      ((st'.unlink k .dataUpdated).link k { ne with cacheId := st.nextId, expireTime := t }) := by
  refine along_relink h k .dataUpdated ?_
  rw [he, he']
  exact .renewed rfl hne rfl

theorem entry_relink_self (st : Store) (k : Key) (n : NotifyType) (ne : Entry) :
    ((st.unlink k n).link k ne).entry k = some { ne with cacheId := st.nextId } := by
  rw [entry_relink, Function.update_self]

theorem along_append {new : Option Entry} {r : Outcome} {after : Store} (h : Beside st st')
    (k : Key) (x w : Nat)
    (hnew : ∀ ne old, new = some ne → st.entry k = some old → ne.expireTime = old.expireTime)
    (hact : (st.append k x new w).map .update id = (r, after)) :
    Alongside R st st' after (st'.append k x (st'.allocated after k r) w).2 := by
  obtain ⟨hr, rfl⟩ : Outcome.update (st.append k x new w).1 = r ∧ (st.append k x new w).2 = after :=
    Prod.mk.inj hact
  rcases h.cases k with ⟨he, he'⟩ | ⟨e, t, he, he'⟩
  · simp only [Store.append, he, he']
    exact along_refl h
  by_cases hx : x = 0 ∨ x = e.cacheId
  swap
  · rw [Store.append_mismatch he hx, Store.append_mismatch he' hx]
    exact along_refl h
  rw [Store.append_match he' hx]
  rw [Store.append_match he hx] at hr ⊢
  cases new with
  | none =>
    rw [allocated_none (hr ▸ rfl)]
    exact along_refl h
  | some ne =>
    by_cases hw : st.watchOk w = true
    · simp only [if_pos hw] at hr ⊢
      rw [allocated_some (hr ▸ rfl) (entry_relink_self ..) he']
      simp only [h.watchOk, if_pos hw]
      exact along_copied h he he' (hnew ne e rfl he)
    · simp only [if_neg hw] at hr ⊢
      rw [allocated_none (hr ▸ rfl)]
      exact along_refl h

theorem along_delta {new : Option Entry} {r : Outcome} {after : Store} {value value' : Int}
    (h : Beside st st') (k : Key) (x : Nat) (hvalue : (st.entry k).isSome → value' = value)
    (hnew : ∀ ne old, new = some ne → st.entry k = some old → ne.expireTime = old.expireTime)
    (hact : (st.delta k x value (formatInt64 value) new).map .delta id = (r, after)) :
    Alongside R st st' after
      (st'.delta k x value' (formatInt64 value') (st'.allocated after k r)).2 := by
  obtain ⟨hr, rfl⟩ : Outcome.delta (st.delta k x value (formatInt64 value) new).1 = r ∧
    (st.delta k x value (formatInt64 value) new).2 = after := Prod.mk.inj hact
  rcases h.cases k with ⟨he, he'⟩ | ⟨e, t, he, he'⟩
  · simp only [Store.delta, he, he']
    exact along_refl h
  obtain rfl := hvalue (by rw [he]; rfl)
  by_cases hx : x = 0 ∨ x = e.cacheId
  swap
  · rw [Store.delta_mismatch he hx, Store.delta_mismatch he' hx]
    exact along_refl h
  by_cases hlen : (formatInt64 value').length = e.data.length
  · rw [Store.delta_inPlace he hx hlen, Store.delta_inPlace he' hx hlen]
    refine along_update k rfl rfl h.nextId rfl rfl ?_
    rw [he, he', h.nextId]
    exact .renewed rfl rfl rfl
  · rw [Store.delta_realloc he' hx hlen]
    rw [Store.delta_realloc he hx hlen] at hr ⊢
    cases new with
    | none =>
      rw [allocated_none (hr ▸ rfl)]
      exact along_refl h
    | some ne =>
      rw [allocated_some (hr ▸ rfl) (entry_relink_self ..) he']
      exact along_copied h he he' (hnew ne e rfl he)

theorem along_flush {ks : List Key} {g : Nat} (h : Beside st st')
    (hks : ∀ k, k ∈ ks ↔ k.1 = g ∧ (st.entry k).isSome) :
    Alongside R st st' (st.unlinkAll .flushed ks)
      { st' with entry := fun k => if k.1 = g then none else st'.entry k } := by
  refine ⟨fun k => ?_, h.lastCacheId.trans (Store.lastCacheId_unlinkAll ..).symm,
    Store.currTime_unlinkAll .., rfl⟩
  rw [Store.entry_unlinkAll]
  show Parallel _ _ _ _ _ (if k.1 = g then none else st'.entry k)
  by_cases hg : k.1 = g
  · rw [if_pos hg]
    cases he : st.entry k with
    | none =>
      rw [ite_self]
      exact .gone ..
    | some e =>
      rw [if_pos ((hks k).mpr ⟨hg, by rw [he]; rfl⟩)]
      exact .gone ..
  · rw [if_neg hg, if_neg fun hk => hg ((hks k).mp hk).1]
    exact .same ..

/-- The watches of the two stores are left out. -/
theorem along_pending {q q' : Nat → Option (List Nat × List NotifyType)}
    (h : Alongside R st st' st₁ st₁') :
    Alongside R st st' { st₁ with pending := q } { st₁' with pending := q' } :=
  ⟨h.entry, h.lastCacheId, h.currTime, h.currTime'⟩

variable {env : Env} {x y : Sys} {op : Op} {r : Outcome}

theorem along_othersEntry (hx : ∃ lost, SysInv env lost x) (h : x.RoomStep env (op, r) y)
    (hsweep : op ≠ .checkExpired) (hclock : ∀ tt, op ≠ .setCurrentTime tt)
    (hb : Beside (abs env x.mgr) st')
    (halive : ∀ g k w b, op = .get g k w b → ((abs env x.mgr).Alive (g, k) ↔ st'.Alive (g, k))) :
    Alongside (fun k => op.Retimes (abs env x.mgr) k) (abs env x.mgr) st' (abs env y.mgr)
      (st'.othersEntry x.mgr (abs env y.mgr) r op) := by
  obtain ⟨-, a, hacts, hact⟩ := SysInv.act hx h
  have hst : ((abs env x.mgr).act a).2 = abs env y.mgr := congrArg Prod.snd hact
  have htime : st'.currTime = x.mgr.currTime := hb.currTime
  cases hacts with
  | checkExpired | checkExpiredNot => exact absurd rfl hsweep
  | setCurrentTime => exact absurd rfl (hclock _)
  | alloc | fill | releaseReference | createWatchNot | checkWatchAndSetCallbackNot
  | checkWatchAndClearCallbackNot | connections =>
    rw [← hst]
    exact along_refl hb
  | createWatch | checkWatchAndSetCallback | checkWatchAndClearCallback =>
    rw [← hst]
    exact along_pending (along_refl hb)
  | get =>
    rw [← hst]
    exact along_get hb _ _ (halive _ _ _ _ rfl)
  | getTouch =>
    rw [← hst]
    simp only [Store.othersEntry, htime]
    exact along_getTouch hb _ _ _ fun hsome => ⟨rfl, hsome⟩
  | updateFlags =>
    rw [← hst]
    exact along_updateFlags hb ..
  | updateExpiration =>
    rw [← hst]
    simp only [Store.othersEntry, htime]
    exact along_updateExpiration hb _ _ _ fun e he hid => ⟨rfl, e, he, hid⟩
  | add =>
    rw [← hst]
    exact along_add hb ..
  | set =>
    rw [← hst]
    exact along_set hb ..
  | replace =>
    rw [← hst]
    exact along_replace hb ..
  | append hnew =>
    exact along_append hb _ _ _ (fun ne old hne hold => (hnew ne old hne hold).expireTime) hact
  | prepend hnew =>
    exact along_append hb _ _ _ (fun ne old hne hold => (hnew ne old hne hold).expireTime) hact
  | loadFromFileLink =>
    rw [← hst]
    exact along_loadFromFileLink hb ..
  | remove =>
    rw [← hst]
    exact along_remove hb ..
  | @delta _ g k _ _ _ value new hnew =>
    refine along_delta hb _ _ (fun hsome => ?_)
      (fun ne old hne hold => ((hnew old hold).2 ne hne).expireTime) hact
    rcases hb.cases (g, k) with ⟨he, -⟩ | ⟨e, t, he, he'⟩
    · rw [he] at hsome
      exact nomatch hsome
    · rw [he', (hnew e he).1]
      rfl
  | flush _ hkeys =>
    rw [← hst]
    exact along_flush hb hkeys

/-- Both stores do the operation alike. -/
theorem along_others (hx : ∃ lost, SysInv env lost x) (h : x.RoomStep env (op, r) y)
    (hsweep : op ≠ .checkExpired) (hclock : ∀ tt, op ≠ .setCurrentTime tt)
    (hb : Beside (abs env x.mgr) st')
    (halive : ∀ g k w b, op = .get g k w b → ((abs env x.mgr).Alive (g, k) ↔ st'.Alive (g, k))) :
    Alongside (fun k => op.Retimes (abs env x.mgr) k) (abs env x.mgr) st' (abs env y.mgr)
        (st'.others x.mgr (abs env y.mgr) r op) ∧
      Beside (abs env y.mgr) (st'.others x.mgr (abs env y.mgr) r op) := by
  have ha := along_othersEntry hx h hsweep hclock hb halive
  refine ⟨along_pending ha, fun k => (ha.entry k).untimed (hb.entry k), rfl, ha.lastCacheId, ?_⟩
  exact ha.currTime'.trans (hb.currTime.trans ha.currTime.symm)

/-! ## Other keys -/

section OtherKeys

variable {k' : Key} (hk : k ≠ k')

include hk

end OtherKeys

end AlongsideLemmas
end Xixi
