import Xixi.System

/-!
# Notifications and registration of watches

Clients keep copies of entries on the strength of two promises: whoever has
registered a watch on an entry is told when the entry changes, and an operation
with a watch id registers that watch. Both are compared here with what the
operations do.

1. `Notified st st'`: every watch gains one notification for each changed item it is
   registered on, and no others.
2. `notified_iff`: an operation notifies, unless it is a `delta` that overwrites the
   data of a watched item in place.
3. `Registered st st' k w`: the watch `w` is registered on what is stored under `k`.
4. `registered_iff`: a successful operation registers its watch, unless it is `append`
   or `prepend`, or `load_from_file` finds an item without the watch.
-/

namespace Xixi

open Lib Store

namespace Store

/-- The item stored under `k` is unlinked, or gets other data or flags. -/
def Changed (st st' : Store) (k : Key) : Prop :=
  ∃ e, st.entry k = some e ∧ ∀ e', st'.entry k = some e' → e'.ptr = e.ptr →
    e'.data ≠ e.data ∨ e'.flags ≠ e.flags

/-- The watch set of the item stored under `k`. -/
def watchIds (st : Store) (k : Key) : List Nat := (st.entry k).elim [] Entry.watchIds

def cacheId (st : Store) (k : Key) : Nat := (st.entry k).elim 0 Entry.cacheId

/-- When items change, a live watch gains one entry for each of those it is registered
on, with the cache id from before the change. A watch that the operation itself
expires is no longer live. -/
def Notified (st st' : Store) : Prop :=
  (∃ k, Changed st st' k) → ∀ w q q', st.pending w = some q → st'.pending w = some q' →
    ∃ ks : List Key, ks.Nodup ∧ (∀ k, k ∈ ks ↔ Changed st st' k ∧ w ∈ st.watchIds k) ∧
      q'.1 = q.1 ++ ks.map st.cacheId

end Store

namespace NotificationLemmas

variable {st st' : Store} {k k' : Key} {e : Entry} {o : Option Entry}

theorem watchIds_of_entry (he : st.entry k = some e) : st.watchIds k = e.watchIds := by
  rw [Store.watchIds, he]
  rfl

theorem cacheId_of_entry (he : st.entry k = some e) : st.cacheId k = e.cacheId := by
  rw [Store.cacheId, he]
  rfl

/-- The keys of `ks` that the watch is registered on, and their cache ids. -/
theorem watched_eq (st : Store) (w : Nat) (ks : List Key) :
    st.watched w ks = (ks.filter fun k => decide (w ∈ st.watchIds k)).map st.cacheId := by
  induction ks with
  | nil => rfl
  | cons k ks ih =>
    have hcons : st.watched w (k :: ks) = ((st.entry k).bind fun e =>
        if w ∈ e.watchIds then some e.cacheId else none).toList ++ st.watched w ks := by
      unfold Store.watched
      rw [List.filterMap_cons]
      split
      · next h => rw [h]; rfl
      · next h => rw [h]; rfl
    rw [hcons, ih, List.filter_cons]
    cases he : st.entry k with
    | none =>
      have hn : w ∉ st.watchIds k := by simp [Store.watchIds, he]
      simp [hn]
    | some e =>
      rw [watchIds_of_entry he]
      by_cases hm : w ∈ e.watchIds
      · simp [hm, cacheId_of_entry he]
      · simp [hm]

theorem notified_of_keys {ks : List Key} (hnd : ks.Nodup) (hks : ∀ k, k ∈ ks ↔ Changed st st' k)
    (hp : ∀ w q q', st.pending w = some q → st'.pending w = some q' →
      q'.1 = q.1 ++ st.watched w ks) : Notified st st' := by
  intro _ w q q' hq hq'
  refine ⟨ks.filter fun k => decide (w ∈ st.watchIds k), hnd.filter _, fun k => ?_, ?_⟩
  · rw [List.mem_filter, hks k, decide_eq_true_iff]
  · rw [hp w q q' hq hq', watched_eq]

theorem notified_of_unchanged (h : ∀ k, ¬ Changed st st' k) : Notified st st' := by
  rintro ⟨k, hk⟩
  exact absurd hk (h k)

theorem not_changed_self (st : Store) (k : Key) : ¬ Changed st st k := by
  rintro ⟨e, he, hne⟩
  rcases hne e he rfl with h | h <;> exact h rfl

theorem notified_self (st : Store) : Notified st st := notified_of_unchanged (not_changed_self st)

/-- Where only `k` is stored anew, only `k` can change. -/
theorem changed_update (hst : st'.entry = Function.update st.entry k o)
    (h : Changed st st' k') : k' = k := by
  obtain ⟨e, he, hne⟩ := h
  by_contra hk
  have he' : st'.entry k' = some e := by rw [hst, Function.update_of_ne hk, he]
  rcases hne e he' rfl with h | h <;> exact h rfl

/-- A key that is stored for the first time. -/
theorem notified_of_absent (hk : st.entry k = none)
    (hst : st'.entry = Function.update st.entry k o) : Notified st st' := by
  refine notified_of_unchanged fun k' hc => ?_
  obtain rfl := changed_update hst hc
  obtain ⟨e, he, -⟩ := hc
  rw [hk] at he
  exact nomatch he

/-- The item is touched: its data and flags stay. -/
theorem notified_of_touched {e' : Entry} (he : st.entry k = some e)
    (hst : st'.entry = Function.update st.entry k (some e')) (hptr : e'.ptr = e.ptr)
    (hdata : e'.data = e.data) (hflags : e'.flags = e.flags) : Notified st st' := by
  refine notified_of_unchanged fun k' hc => ?_
  obtain rfl := changed_update hst hc
  obtain ⟨e₁, he₁, hne⟩ := hc
  obtain rfl := Option.some.inj (he.symm.trans he₁)
  have hnew : st'.entry k' = some e' := by rw [hst, Function.update_self]
  rcases hne e' hnew hptr with h | h
  · exact h hdata
  · exact h hflags

/-- The item under `k` is stored anew or unlinked, and its watches are told. -/
theorem notified_of_notify {t : NotifyType} (he : st.entry k = some e)
    (hst : st'.entry = Function.update st.entry k o)
    (hp : st'.pending = (st.notify e.watchIds e.cacheId t).pending) : Notified st st' := by
  by_cases hc : Changed st st' k
  · refine notified_of_keys (List.nodup_singleton k) (fun k' => ?_)
      fun w q q' hq hq' => ?_
    · rw [List.mem_singleton]
      constructor
      · rintro rfl
        exact hc
      · exact changed_update hst
    · rw [hp] at hq'
      have hw : st.watched w [k] = if w ∈ e.watchIds then [e.cacheId] else [] := by
        rw [watched_eq, List.filter_singleton, watchIds_of_entry he]
        by_cases hm : w ∈ e.watchIds
        · simp [hm, cacheId_of_entry he]
        · simp [hm]
      rw [hw]
      simp only [Store.notify] at hq'
      by_cases hm : w ∈ e.watchIds
      · rw [if_pos hm, hq] at hq'
        rw [if_pos hm, ← Option.some.inj hq']
        rfl
      · rw [if_neg hm, hq] at hq'
        rw [if_neg hm, Option.some.inj hq', List.append_nil]
  · refine notified_of_unchanged fun k' hc' => ?_
    obtain rfl := changed_update hst hc'
    exact hc hc'

/-- The item under `k` changes and nobody is told. -/
theorem notified_silent_iff (he : st.entry k = some e)
    (hst : st'.entry = Function.update st.entry k o) (hp : st'.pending = st.pending) :
    Notified st st' ↔ ¬ (Changed st st' k ∧ ∃ w ∈ e.watchIds, st.live w = true) := by
  constructor
  · rintro h ⟨hc, w, hw, hlive⟩
    obtain ⟨q, hq⟩ := Option.isSome_iff_exists.mp hlive
    obtain ⟨ks, -, hks, happ⟩ := h ⟨k, hc⟩ w q q hq (by rw [hp, hq])
    have hmem : k ∈ ks := (hks k).mpr ⟨hc, by rw [watchIds_of_entry he]; exact hw⟩
    have hnil : ks.map st.cacheId = [] := List.append_right_eq_self.mp happ.symm
    rw [List.map_eq_nil_iff.mp hnil] at hmem
    exact nomatch hmem
  · intro h
    rintro ⟨k', hk'⟩ w q q' hq hq'
    obtain rfl := changed_update hst hk'
    have hw : w ∉ e.watchIds := fun hw => h ⟨hk', w, hw, by rw [Store.live, hq]; rfl⟩
    rw [hp, hq] at hq'
    refine ⟨[], List.nodup_nil, fun k'' => ⟨nofun, ?_⟩, by simp [Option.some.inj hq']⟩
    rintro ⟨hc, hw'⟩
    obtain rfl := changed_update hst hc
    rw [watchIds_of_entry he] at hw'
    exact absurd hw' hw

theorem pending_unlink_eq (he : st.entry k = some e) (t : NotifyType) :
    (st.unlink k t).pending = (st.notify e.watchIds e.cacheId t).pending := by
  rw [unlink, he]
  rfl

theorem notified_unlink (he : st.entry k = some e) (t : NotifyType) :
    Notified st (st.unlink k t) :=
  notified_of_notify he (entry_unlink st k t) (pending_unlink_eq he t)

theorem notified_unlink_link (he : st.entry k = some e) (t : NotifyType) (e' : Entry) :
    Notified st ((st.unlink k t).link k e') := by
  refine notified_of_notify (o := some { e' with cacheId := st.nextId }) he ?_
    (pending_unlink_eq he t)
  rw [entry_link, entry_unlink, Function.update_idem, nextId_unlink]

/-- A sweep over linked keys. -/
theorem notified_unlinkAll {t : NotifyType} {ks : List Key} (gone : Nat → Bool) (hnd : ks.Nodup)
    (hks : ∀ k ∈ ks, (st.entry k).isSome) :
    Notified st ((st.expireWatchs gone).unlinkAll t ks) := by
  refine notified_of_keys hnd (fun k => ?_) fun w q q' hq hq' => ?_
  · constructor
    · intro hk
      obtain ⟨e, he⟩ := Option.isSome_iff_exists.mp (hks k hk)
      refine ⟨e, he, fun e' he' => ?_⟩
      rw [entry_unlinkAll, if_pos hk] at he'
      exact nomatch he'
    · rintro ⟨e, he, hne⟩
      by_contra hk
      have he' : ((st.expireWatchs gone).unlinkAll t ks).entry k = some e := by
        rw [entry_unlinkAll, if_neg hk]
        exact he
      rcases hne e he' rfl with h | h <;> exact h rfl
  · rw [pending_unlinkAll _ _ hnd] at hq'
    cases hg : gone w with
    | true => simp [Store.expireWatchs, hg] at hq'
    | false =>
      have hpend : (st.expireWatchs gone).pending w = some q := by simp [Store.expireWatchs, hg, hq]
      rw [hpend] at hq'
      rw [← Option.some.inj hq']
      rfl

end NotificationLemmas

open NotificationLemmas

/-! ## Notification of changes -/

/-- The request overwrites the data of a watched item in place, with another text. -/
def Overwrites (st : Store) (k : Key) (cacheId : Nat) (text : Bytes) : Prop :=
  ∃ e, st.entry k = some e ∧ (cacheId = 0 ∨ cacheId = e.cacheId) ∧
    text.length = e.data.length ∧ text ≠ e.data ∧ ∃ w ∈ e.watchIds, st.live w = true

def Action.overwrites (st : Store) : Action → Prop
  | .delta k x v _ => Overwrites st k x (formatInt64 v)
  | _ => False

/-- A sweep meets linked keys, each once. -/
def Action.Sweeps (st : Store) : Action → Prop
  | .flush _ ks => ks.Nodup ∧ ∀ k ∈ ks, (st.entry k).isSome
  | .checkExpired _ ks => ks.Nodup ∧ ∀ k ∈ ks, (st.entry k).isSome
  | _ => True

namespace NotificationLemmas

variable {st : Store} {k : Key} {e : Entry}

theorem notified_get (st : Store) (k : Key) (w : Nat) : Notified st (st.get k w).2 := by
  unfold Store.get
  split
  · exact notified_self st
  · next e he =>
    split
    · split
      · refine notified_of_touched he rfl ?_ ?_ ?_ <;> unfold Entry.addWatchIf <;> split <;> rfl
      · exact notified_self st
    · exact notified_unlink he .expired

theorem notified_getTouch (st : Store) (k : Key) (w t : Nat) :
    Notified st (st.getTouch k w t).2 := by
  unfold Store.getTouch
  split
  · exact notified_self st
  · next e he =>
    split
    · refine notified_of_touched he rfl ?_ ?_ ?_ <;> unfold Entry.addWatchIf <;> split <;> rfl
    · exact notified_of_touched he rfl rfl rfl rfl

theorem notified_updateFlags (st : Store) (k : Key) (x fl : Nat) :
    Notified st (st.updateFlags k x fl).2 := by
  unfold Store.updateFlags
  split
  · exact notified_self st
  · next e he =>
    split
    · exact notified_of_notify (t := .baseInfoUpdated) he rfl rfl
    · exact notified_self st

theorem notified_updateExpiration (st : Store) (k : Key) (x t : Nat) :
    Notified st (st.updateExpiration k x t).2 := by
  unfold Store.updateExpiration
  split
  · exact notified_self st
  · next e he =>
    split
    · exact notified_of_touched he rfl rfl rfl rfl
    · exact notified_self st

theorem notified_add (st : Store) (k : Key) (e : Entry) (w : Nat) :
    Notified st (st.add k e w).2 := by
  unfold Store.add
  split
  · next hk =>
    split
    · exact notified_of_absent hk (entry_link ..)
    · exact notified_self st
  · exact notified_self st

theorem notified_replace (st : Store) (k : Key) (e : Entry) (w : Nat) :
    Notified st (st.replace k e w).2 := by
  unfold Store.replace
  split
  · exact notified_self st
  · next old he =>
    split
    · split
      · exact notified_unlink_link he .dataUpdated _
      · exact notified_self st
    · exact notified_self st

theorem notified_append (st : Store) (k : Key) (x : Nat) (new : Option Entry) (w : Nat) :
    Notified st (st.append k x new w).2 := by
  unfold Store.append
  split
  · exact notified_self st
  · next old he =>
    split
    · exact notified_self st
    · split
      · exact notified_self st
      · split
        · exact notified_unlink_link he .dataUpdated _
        · exact notified_self st

theorem notified_loadFromFileLink (st : Store) (k : Key) (e : Entry) (w : Nat) :
    Notified st (st.loadFromFileLink k e w).2 := by
  unfold Store.loadFromFileLink
  split
  · next hk =>
    split
    · exact notified_of_absent hk (entry_link ..)
    · exact notified_self st
  · exact notified_self st

theorem notified_remove (st : Store) (k : Key) (x : Nat) : Notified st (st.remove k x).2 := by
  unfold Store.remove
  split
  · exact notified_self st
  · next e he =>
    split
    · exact notified_unlink he .deleted
    · exact notified_self st

/-- The path that overwrites the data tells nobody. -/
theorem notified_delta_iff (st : Store) (k : Key) (x : Nat) (v : Int) (buf : Bytes)
    (new : Option Entry) : Notified st (st.delta k x v buf new).2 ↔ ¬ Overwrites st k x buf := by
  cases he : st.entry k with
  | none =>
    have hst : (st.delta k x v buf new).2 = st := by simp only [Store.delta, he]
    rw [hst]
    refine iff_of_true (notified_self st) ?_
    rintro ⟨e, he', -⟩
    rw [he] at he'
    cases he'
  | some e =>
    have hover : Overwrites st k x buf ↔ (x = 0 ∨ x = e.cacheId) ∧ buf.length = e.data.length ∧
        buf ≠ e.data ∧ ∃ w ∈ e.watchIds, st.live w = true := by
      constructor
      · rintro ⟨e', he', h⟩
        obtain rfl := Option.some.inj (he.symm.trans he')
        exact h
      · exact fun h => ⟨e, he, h⟩
    rw [hover]
    by_cases hm : x = 0 ∨ x = e.cacheId
    · by_cases hlen : buf.length = e.data.length
      · rw [delta_inPlace he hm hlen]
        have hnew : (st.link k { e with data := buf }).entry k =
            some { e with data := buf, cacheId := st.nextId } := by
          rw [entry_link, Function.update_self]
        have hchanged : Changed st (st.link k { e with data := buf }) k ↔ buf ≠ e.data := by
          constructor
          · rintro ⟨e₁, he₁, hne⟩
            obtain rfl := Option.some.inj (he.symm.trans he₁)
            rcases hne _ hnew rfl with h | h
            · exact h
            · exact absurd rfl h
          · intro h
            refine ⟨e, he, fun e' he' _ => .inl ?_⟩
            rw [← Option.some.inj (hnew.symm.trans he')]
            exact h
        rw [notified_silent_iff he (entry_link ..) rfl, hchanged]
        exact not_congr ⟨fun h => ⟨hm, hlen, h⟩, fun h => h.2.2⟩
      · rw [delta_realloc he hm hlen]
        refine iff_of_true ?_ fun h => hlen h.2.1
        cases new with
        | none => exact notified_self st
        | some ne => exact notified_unlink_link he .dataUpdated ne
    · rw [delta_mismatch he hm]
      exact iff_of_true (notified_self st) fun h => hm h.1

end NotificationLemmas

/-- An action notifies exactly when it does not overwrite a watched item. -/
theorem act_notified_iff {st : Store} {a : Action} (hs : a.Sweeps st) :
    Notified st (st.act a).2 ↔ ¬ a.overwrites st := by
  cases a with
  | delta k x v new => exact notified_delta_iff st k x v (formatInt64 v) new
  | silent r => exact iff_of_true (notified_self st) id
  | get k w => exact iff_of_true (notified_get st k w) id
  | getTouch k w t => exact iff_of_true (notified_getTouch st k w t) id
  | updateFlags k x fl => exact iff_of_true (notified_updateFlags st k x fl) id
  | updateExpiration k x t => exact iff_of_true (notified_updateExpiration st k x t) id
  | add k e w => exact iff_of_true (notified_add st k e w) id
  | set k e w =>
    refine iff_of_true ?_ id
    show Notified st (st.set k e w).2
    unfold Store.set
    split
    · exact notified_add st k e w
    · exact notified_replace st k e w
  | replace k e w => exact iff_of_true (notified_replace st k e w) id
  | append k x new w => exact iff_of_true (notified_append st k x new w) id
  | loadFromFileLink k e w => exact iff_of_true (notified_loadFromFileLink st k e w) id
  | remove k x => exact iff_of_true (notified_remove st k x) id
  | flush r ks => exact iff_of_true (notified_unlinkAll (fun _ => false) hs.1 hs.2) id
  | checkExpired gone ks => exact iff_of_true (notified_unlinkAll gone hs.1 hs.2) id
  | watch r w q => exact iff_of_true (notified_of_unchanged (not_changed_self st)) id
  | clock t => exact iff_of_true (notified_of_unchanged (not_changed_self st)) id

/-- The `delta` that goes unreported: the number it computes has as many characters as
the data, but other ones, and a live watch is registered on the item. -/
def Unreported (env : Env) (s : CacheMgr) : Op → Prop
  | .delta _ g k incr d x => ∃ e, (abs env s).entry (g, k) = some e ∧
      Overwrites (abs env s) (g, k) x (formatInt64 (CacheMgr.deltaValue (s.item e.ptr) incr d))
  | _ => False

variable {env : Env} {x y : Sys} {l : Op × Outcome} {t : List (Sys × (Op × Outcome))}

namespace NotificationLemmas

theorem sweeps_of_acts {s : CacheMgr} {op : Op} {a : Action} (h : Acts env s op a) :
    a.Sweeps (abs env s) := by
  cases h with
  | flush nodup keys => exact ⟨nodup, fun k hk => ((keys k).mp hk).2⟩
  | checkExpired nodup keys =>
    refine ⟨nodup, fun k hk => ?_⟩
    obtain ⟨e, he, -⟩ := keys k hk
    rw [he]
    rfl
  | _ => exact trivial

theorem overwrites_of_acts {s : CacheMgr} {op : Op} {a : Action} (h : Acts env s op a) :
    a.overwrites (abs env s) ↔ Unreported env s op := by
  cases h with
  | delta hnew =>
    constructor
    · rintro ⟨e, he, h⟩
      refine ⟨e, he, e, he, ?_⟩
      rw [← (hnew e he).1]
      exact h
    · rintro ⟨e, he, h⟩
      rw [← (hnew e he).1] at h
      exact h
  | _ => exact Iff.rfl

end NotificationLemmas

/-- In every reachable state an operation notifies the watches of what it changes, unless
it is a `delta` that overwrites the data in place. -/
theorem notified_iff {lastTime limit itemSizeMax itemSizeMin : Nat} {factor : Rat}
    (h : Run (Sys.RoomStep env) (Sys.start env lastTime limit itemSizeMax itemSizeMin factor) t x)
    (hs : x.RoomStep env l y) :
    Notified (abs env x.mgr) (abs env y.mgr) ↔ ¬ Unreported env x.mgr l.1 := by
  obtain ⟨-, a, hacts, hact⟩ := SysInv.act (SysInv.roomRun h ⟨_, sysInv_start⟩) hs
  have hiff := act_notified_iff (sweeps_of_acts hacts)
  rw [hact, overwrites_of_acts hacts] at hiff
  exact hiff

/-- A watch, and the item "5" stored under "k" with it. -/
def watchedOps : List Op :=
  [.createWatch 1 60, .alloc .zeros 1 1 0 0 1 0, .fill 0 ⟨[107], [53], [], 0⟩,
    .update .set .zeros 0 1, .releaseReference 0]

/-- `update_flags` on the watched item. -/
theorem notified_updateFlags_small :
    let env := Env.colliding .uint16
    let x := (Sys.small .uint16).execAll env watchedOps
    Notified (abs env x.mgr) (abs env (x.execAll env [.updateFlags 1 [107] 0 9]).mgr) := by
  intro env x
  have hrun : Run (Sys.RoomStep env) (Sys.small .uint16) _ x :=
    Sys.roomRun_execAll (by decide +kernel) (by decide +kernel)
  have hstep : x.RoomStep env (.updateFlags 1 [107] 0 9, .base (true, 2))
      (x.execAll env [.updateFlags 1 [107] 0 9]) :=
    ⟨by decide +kernel, Sys.step_execAll trivial (by decide +kernel)⟩
  exact (notified_iff hrun hstep).mpr id

/-- A watched item gets other data, and the watch gains nothing. -/
theorem not_notified_of_data {st st' : Store} {k : Key} {w : Nat} {ids : List Nat}
    {data data' : Bytes} {q : List Nat × List NotifyType}
    (h : (st.entry k).map (fun e => (e.data, e.watchIds)) = some (data, ids))
    (h' : (st'.entry k).map Entry.data = some data') (hne : data' ≠ data) (hw : w ∈ ids)
    (hq : st.pending w = some q) (hq' : st'.pending w = some q) : ¬ Notified st st' := by
  intro hn
  obtain ⟨e, he, hcontent⟩ := Option.map_eq_some_iff.mp h
  obtain ⟨e', he', hdata'⟩ := Option.map_eq_some_iff.mp h'
  obtain ⟨hdata, hids⟩ := Prod.mk.inj hcontent
  have hchanged : Changed st st' k := by
    refine ⟨e, he, fun e₁ he₁ _ => .inl ?_⟩
    obtain rfl := Option.some.inj (he'.symm.trans he₁)
    rw [hdata, hdata']
    exact hne
  obtain ⟨ks, -, hks, happ⟩ := hn ⟨k, hchanged⟩ w q q hq hq'
  have hmem : k ∈ ks := (hks k).mpr ⟨hchanged, by rw [watchIds_of_entry he, hids]; exact hw⟩
  rw [List.map_eq_nil_iff.mp (List.append_right_eq_self.mp happ.symm)] at hmem
  exact nomatch hmem

/-- `delta` by 1 turns the watched "5" into "6", and the watch gains nothing. -/
theorem not_notified_delta :
    let env := Env.colliding .uint16
    let x := (Sys.small .uint16).execAll env watchedOps
    let y := x.execAll env [.delta .zeros 1 [107] true 1 0]
    (∃ t, Run (Sys.RoomStep env) (Sys.small .uint16) t x) ∧
      x.RoomStep env (.delta .zeros 1 [107] true 1 0, .delta (.success, 2, 6)) y ∧
      ¬ Notified (abs env x.mgr) (abs env y.mgr) := by
  intro env x y
  refine ⟨⟨_, Sys.roomRun_execAll (by decide +kernel) (by decide +kernel)⟩,
    ⟨by decide +kernel, Sys.step_execAll (by decide) (by decide +kernel)⟩, ?_⟩
  have hbefore : ((abs env x.mgr).entry (1, [107])).map (fun e => (e.data, e.watchIds)) =
      some ([53], [1]) := by
    decide +kernel
  have hafter : ((abs env y.mgr).entry (1, [107])).map Entry.data = some [54] := by decide +kernel
  have hpending : (abs env x.mgr).pending 1 = some ([], []) := by decide +kernel
  have hpending' : (abs env y.mgr).pending 1 = some ([], []) := by decide +kernel
  exact not_notified_of_data hbefore hafter (by decide) (by decide) hpending hpending'

/-! ## Registration of watches -/

namespace Store

/-- The watch `w` is registered on the item stored under `k`, and only watches that were
registered on the item before have been told something. -/
structure Registered (st st' : Store) (k : Key) (w : Nat) : Prop where
  watching : w ∈ st'.watchIds k
  told : ∀ v, v ∉ st.watchIds k → st'.pending v = st.pending v

end Store

/-- The key and the watch that an operation is to register there. -/
def Op.registers (s : CacheMgr) : Op → Option (Key × Nat)
  | .get g k w _ => some ((g, k), w)
  | .getTouch g k w _ => some ((g, k), w)
  | .update _ _ p w => some ((s.item p).ident, w)
  | .loadFromFileLink _ p w => some ((s.item p).ident, w)
  | _ => none

/-- `append` and `prepend` register the watch on the request item, which is thrown away,
and `load_from_file` does not register it on an item that it finds. -/
def Unregistered (env : Env) (s : CacheMgr) : Op → Prop
  | .update .append _ _ _ => True
  | .update .prepend _ _ _ => True
  | .loadFromFileLink _ p w =>
    ((abs env s).entry (s.item p).ident).isSome ∧ w ∉ (abs env s).watchIds (s.item p).ident
  | _ => False

namespace NotificationLemmas

variable {st st' : Store} {k : Key} {e : Entry} {w : Nat}

theorem live_act {a : Action} (h : (st.act a).2.live w = true) :
    st.live w = true ∨ ∃ r q, a = .watch r w q := by
  cases a with
  | watch r v q =>
    by_cases hv : w = v
    · exact .inr ⟨r, q, by rw [hv]⟩
    · refine .inl ?_
      have hp : (Function.update st.pending v (some q) w).isSome = true := h
      rw [Function.update_of_ne hv] at hp
      exact hp
  | checkExpired gone ks =>
    have hp : ((st.expireWatchs gone).unlinkAll .expired ks).live w = true := h
    rw [live_unlinkAll] at hp
    simp only [Store.live, Store.expireWatchs] at hp ⊢
    split at hp
    · cases hp
    · exact .inl hp
  | flush r ks =>
    have hp : (st.unlinkAll .flushed ks).live w = true := h
    rw [live_unlinkAll] at hp
    exact .inl hp
  | silent r => exact .inl h
  | clock t => exact .inl h
  | _ =>
    left
    revert h
    simp only [Store.act, Prod.map_snd, id, Store.get, Store.getTouch, Store.updateFlags,
      Store.updateExpiration, Store.set, Store.add, Store.replace, Store.append,
      Store.loadFromFileLink, Store.remove, Store.delta]
    repeat' split
    all_goals simp

theorem watchIds_put (st : Store) (k : Key) (e : Entry) :
    (st.put k (some e)).watchIds k = e.watchIds :=
  watchIds_of_entry (by rw [entry_put, Function.update_self])

theorem watchIds_link (st : Store) (k : Key) (e : Entry) :
    (st.link k e).watchIds k = e.watchIds := by
  rw [watchIds_of_entry (by rw [entry_link, Function.update_self])]
  rfl

theorem mem_watchIds_addWatchIf (e : Entry) (hw : w ≠ 0) : w ∈ (e.addWatchIf w).watchIds := by
  rw [Entry.addWatchIf, if_pos hw, Entry.mem_watchIds_addWatch]
  exact .inl rfl

theorem pending_unlink_of_not_mem {v : Nat} (t : NotifyType) (hv : v ∉ st.watchIds k) :
    (st.unlink k t).pending v = st.pending v := by
  cases he : st.entry k with
  | none => rw [unlink, he]
  | some e =>
    rw [watchIds_of_entry he] at hv
    rw [pending_unlink t he, if_neg hv]

theorem registered_add (hw : w ≠ 0) (h : (st.add k e w).1.1 = .success) :
    Registered st (st.add k e w).2 k w := by
  unfold Store.add at h ⊢
  split at h
  · split at h
    · next hok =>
      rw [if_pos hok]
      exact ⟨by rw [watchIds_link]; exact mem_watchIds_addWatchIf e hw, fun _ _ => rfl⟩
    · exact nomatch h
  · exact nomatch h

theorem registered_replace (hw : w ≠ 0) (h : (st.replace k e w).1.1 = .success) :
    Registered st (st.replace k e w).2 k w := by
  unfold Store.replace at h ⊢
  split at h
  · exact nomatch h
  · split at h
    · next hm =>
      rw [if_pos hm]
      split at h
      · next hok =>
        rw [if_pos hok]
        exact ⟨by rw [watchIds_link]; exact mem_watchIds_addWatchIf e hw,
          fun v hv => pending_unlink_of_not_mem .dataUpdated hv⟩
      · exact nomatch h
    · exact nomatch h

theorem registered_set (hw : w ≠ 0) (h : (st.set k e w).1.1 = .success) :
    Registered st (st.set k e w).2 k w := by
  unfold Store.set at h ⊢
  split at h
  · exact registered_add hw h
  · exact registered_replace hw h

theorem registered_get (hw : w ≠ 0) (h : (st.get k w).1.2 = .success) :
    Registered st (st.get k w).2 k w := by
  unfold Store.get at h ⊢
  split at h
  · exact nomatch h
  · next e he =>
    split at h
    · next hfresh =>
      rw [if_pos hfresh]
      split at h
      · next hok =>
        rw [if_pos hok]
        exact ⟨by rw [watchIds_put]; exact mem_watchIds_addWatchIf e hw, fun _ _ => rfl⟩
      · exact nomatch h
    · exact nomatch h

theorem registered_getTouch {t : Nat} (hw : w ≠ 0) (h : (st.getTouch k w t).1.2 = .success) :
    Registered st (st.getTouch k w t).2 k w := by
  unfold Store.getTouch at h ⊢
  split at h
  · exact nomatch h
  · next e he =>
    split at h
    · next hok =>
      rw [if_pos hok]
      exact ⟨by rw [watchIds_put]; exact mem_watchIds_addWatchIf _ hw, fun _ _ => rfl⟩
    · exact nomatch h

/-- The item that `append` links has no watch. -/
theorem not_registered_append {x : Nat} {new : Option Entry}
    (hnew : ∀ e old, new = some e → st.entry k = some old → e.watch = none)
    (h : (st.append k x new w).1.1 = .success) : ¬ Registered st (st.append k x new w).2 k w := by
  intro hr
  have hmem := hr.watching
  cases he : st.entry k with
  | none =>
    simp only [Store.append, he] at h
    cases h
  | some old =>
    by_cases hm : x = 0 ∨ x = old.cacheId
    · rw [append_match he hm] at h hmem
      cases new with
      | none => cases h
      | some e =>
        dsimp only at h hmem
        split at h
        · next hok =>
          rw [if_pos hok, watchIds_link, Entry.watchIds, hnew e old rfl he] at hmem
          cases hmem
        · cases h
    · rw [append_mismatch he hm] at h
      cases h

theorem registered_loadFromFileLink_iff (hw : w ≠ 0)
    (h : (st.loadFromFileLink k e w).1.2 = .success) :
    Registered st (st.loadFromFileLink k e w).2 k w ↔
      ¬ ((st.entry k).isSome ∧ w ∉ st.watchIds k) := by
  unfold Store.loadFromFileLink at h ⊢
  split at h
  · next he =>
    refine iff_of_true ?_ fun hs => by rw [he] at hs; exact nomatch hs.1
    split at h
    · next hok =>
      rw [if_pos hok]
      exact ⟨by rw [watchIds_link]; exact mem_watchIds_addWatchIf e hw, fun _ _ => rfl⟩
    · exact nomatch h
  · next old he =>
    rw [he]
    constructor
    · exact fun hr hs => hs.2 hr.watching
    · exact fun hs => ⟨by_contra fun hm => hs ⟨rfl, hm⟩, fun _ _ => rfl⟩

theorem eq_success_of_beq {r : Reason} (h : (r == .success) = true) : r = .success := by
  simpa using h

/-- The action of a successful operation with a watch. -/
theorem act_registered_iff {s : CacheMgr} {op : Op} {a : Action} (hacts : Acts env s op a)
    (hreg : op.registers s = some (k, w)) (hw : w ≠ 0)
    (hsucc : ((abs env s).act a).1.succeeded = true) :
    Registered (abs env s) ((abs env s).act a).2 k w ↔ ¬ Unregistered env s op := by
  cases hacts with
  | get =>
    obtain ⟨rfl, rfl⟩ := Prod.mk.inj (Option.some.inj hreg)
    exact iff_of_true (registered_get hw (eq_success_of_beq hsucc)) id
  | getTouch =>
    obtain ⟨rfl, rfl⟩ := Prod.mk.inj (Option.some.inj hreg)
    exact iff_of_true (registered_getTouch hw (eq_success_of_beq hsucc)) id
  | add =>
    obtain ⟨rfl, rfl⟩ := Prod.mk.inj (Option.some.inj hreg)
    exact iff_of_true (registered_add hw (eq_success_of_beq hsucc)) id
  | set =>
    obtain ⟨rfl, rfl⟩ := Prod.mk.inj (Option.some.inj hreg)
    exact iff_of_true (registered_set hw (eq_success_of_beq hsucc)) id
  | replace =>
    obtain ⟨rfl, rfl⟩ := Prod.mk.inj (Option.some.inj hreg)
    exact iff_of_true (registered_replace hw (eq_success_of_beq hsucc)) id
  | append hnew =>
    obtain ⟨rfl, rfl⟩ := Prod.mk.inj (Option.some.inj hreg)
    exact iff_of_false (not_registered_append (fun e old he ho => (hnew e old he ho).watch)
      (eq_success_of_beq hsucc)) (not_not.mpr trivial)
  | prepend hnew =>
    obtain ⟨rfl, rfl⟩ := Prod.mk.inj (Option.some.inj hreg)
    exact iff_of_false (not_registered_append (fun e old he ho => (hnew e old he ho).watch)
      (eq_success_of_beq hsucc)) (not_not.mpr trivial)
  | loadFromFileLink =>
    obtain ⟨rfl, rfl⟩ := Prod.mk.inj (Option.some.inj hreg)
    exact registered_loadFromFileLink_iff hw (eq_success_of_beq hsucc)
  | _ => exact nomatch hreg

/-- The watch id 0 is never given out. -/
theorem not_live_zero {s : CacheMgr} {op : Op} {a : Action} (hacts : Acts env s op a)
    (h : (abs env s).live 0 = false) : ((abs env s).act a).2.live 0 = false := by
  refine Bool.eq_false_iff.mpr fun hl => ?_
  rcases live_act hl with hl | ⟨r, q, rfl⟩
  · rw [h] at hl
    exact nomatch hl
  · cases hacts with
    | createWatch hid => exact hid rfl
    | checkWatchAndSetCallback hlive => rw [h] at hlive; exact nomatch hlive
    | checkWatchAndClearCallback hlive => rw [h] at hlive; exact nomatch hlive

theorem reached_not_live_zero {lastTime limit itemSizeMax itemSizeMin : Nat} {factor : Rat}
    (h : Run (Sys.RoomStep env) (Sys.start env lastTime limit itemSizeMax itemSizeMin factor) t x) :
    (∃ lost, SysInv env lost x) ∧ (abs env x.mgr).live 0 = false := by
  refine h.invariant (I := fun x => (∃ lost, SysInv env lost x) ∧ (abs env x.mgr).live 0 = false)
    (fun x l y hx hs => ?_) ⟨⟨_, sysInv_start⟩, by rw [abs_start]; rfl⟩
  obtain ⟨hy, a, hacts, hact⟩ := SysInv.act hx.1 hs
  have hzero := not_live_zero hacts hx.2
  rw [hact] at hzero
  exact ⟨hy, hzero⟩

end NotificationLemmas

/-- In every reachable state a successful operation with a live watch registers it on what is
stored under its key when it returns, unless it is `append` or `prepend`, or
`load_from_file` finds an item without the watch. -/
theorem registered_iff {lastTime limit itemSizeMax itemSizeMin : Nat} {factor : Rat} {k : Key}
    {w : Nat}
    (h : Run (Sys.RoomStep env) (Sys.start env lastTime limit itemSizeMax itemSizeMin factor) t x)
    (hs : x.RoomStep env l y) (hreg : l.1.registers x.mgr = some (k, w))
    (hlive : (abs env x.mgr).live w = true) (hsucc : l.2.succeeded = true) :
    Registered (abs env x.mgr) (abs env y.mgr) k w ↔ ¬ Unregistered env x.mgr l.1 := by
  obtain ⟨hx, hzero⟩ := reached_not_live_zero h
  have hw : w ≠ 0 := by
    rintro rfl
    rw [hzero] at hlive
    exact nomatch hlive
  obtain ⟨-, a, hacts, hact⟩ := SysInv.act hx hs
  have hiff := act_registered_iff hacts hreg hw (by rw [hact]; exact hsucc)
  rw [hact] at hiff
  exact hiff

/-- `get` with the watch finds the item that was stored without it. -/
theorem registered_get_small :
    let env := Env.colliding .uint16
    let x := (Sys.small .uint16).execAll env (watchedOps ++ [.createWatch 1 60])
    Registered (abs env x.mgr) (abs env (x.execAll env [.get 1 [107] 2 false]).mgr) (1, [107]) 2 := by
  intro env x
  have hrun : Run (Sys.RoomStep env) (Sys.small .uint16) _ x :=
    Sys.roomRun_execAll (by decide +kernel) (by decide +kernel)
  have hstep : x.RoomStep env (.get 1 [107] 2 false, .get (some (0, 0), .success))
      (x.execAll env [.get 1 [107] 2 false]) :=
    ⟨by decide +kernel, Sys.step_execAll trivial (by decide +kernel)⟩
  exact (registered_iff hrun hstep (by rw [Op.registers]) (by decide +kernel)
    (by rw [Outcome.succeeded]; rfl)).mpr id

/-- `append` with the watch succeeds, and the item it links has no watch. -/
theorem not_registered_append_small :
    let env := Env.colliding .uint16
    let x := (Sys.small .uint16).execAll env
      (watchedOps ++ [.alloc .zeros 1 1 0 0 1 0, .fill 1 ⟨[107], [54], [], 0⟩])
    let y := x.execAll env [.update .append .zeros 1 1]
    (∃ t, Run (Sys.RoomStep env) (Sys.small .uint16) t x) ∧
      x.RoomStep env (.update .append .zeros 1 1, .update (.success, some 2)) y ∧
      (Op.update .append .zeros 1 1).registers x.mgr = some ((1, [107]), 1) ∧
      (abs env x.mgr).live 1 = true ∧ ¬ Registered (abs env x.mgr) (abs env y.mgr) (1, [107]) 1 := by
  intro env x y
  refine ⟨⟨_, Sys.roomRun_execAll (by decide +kernel) (by decide +kernel)⟩,
    ⟨by decide +kernel, Sys.step_execAll (by decide +kernel) (by decide +kernel)⟩,
    by decide +kernel, by decide +kernel, fun h => ?_⟩
  have hnone : (abs env y.mgr).watchIds (1, [107]) = [] := by decide +kernel
  have hmem := h.watching
  rw [hnone] at hmem
  exact nomatch hmem

end Xixi
