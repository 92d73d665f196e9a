import Xixi.Lib.Index
import Xixi.Client.LocalCache

/-!
# The index of cache ids

A notification names a cache id, and `cacheIdMap` says which item that is. `GroupItem.clear` leaves
the index alone: `LocalCacheWatch.clear` empties it afterwards, but `flush` does not, and the ids of
the flushed items stay. Later such an id takes an item away that has been put under the same key
since.

1. `LocalCacheWatch.stored`: what a host stores under a group and a key.
2. `IndexExact`: the index maps an id to an item exactly if this item is stored, and an update
   removes exactly the items whose ids it names.
3. `Distinct`: items that are put for different groups or keys have different ids.
4. `indexExact_run`: in every run with distinct ids that flushes no group with items, the index is
   exact.
5. `not_indexExact_flush`: a notification of a flushed item removes another one.
-/

namespace Xixi.Local

open Lib

/-- Where an item belongs. -/
def CacheItem.place (item : CacheItem) : Nat × String := (item.groupId, item.key)

/-- What the host stores under a group and a key. -/
def LocalCacheWatch.stored (w : LocalCacheWatch) (k : Nat × String) : Option CacheItem :=
  (w.groupMap.lookup k.1).bind fun g => g.find k.2

/-- The index finds what is stored, and an update removes what it names. -/
structure IndexExact (w : LocalCacheWatch) : Prop where
  index : ∀ cacheId item, w.cacheIdMap.lookup cacheId = some item ↔
    w.stored item.place = some item ∧ item.cacheId = cacheId
  update : ∀ cacheIds c k item, (w.update cacheIds c).1.stored k = some item ↔
    w.stored k = some item ∧ item.cacheId ∉ cacheIds

/-- Items that are put for different groups or keys of a host have different ids. -/
def Distinct (ops : List Op) : Prop :=
  ∀ op ∈ ops, ∀ op' ∈ ops, ∀ host key item key' item', op.puts = some (host, key, item) →
    op'.puts = some (host, key', item') → item.cacheId = item'.cacheId →
    item.groupId = item'.groupId ∧ key = key'

/-- An item is put under its own key. -/
def Op.Keyed (op : Op) : Prop :=
  ∀ host key item, op.puts = some (host, key, item) → item.key = key

/-- A flush meets a group without items, or none at all. -/
def Op.Spares (x : LocalCache) : Op → Prop
  | .flush host groupId => ∀ w, x.watchMap.lookup host = some w →
    ∀ g, w.groupMap.lookup groupId = some g → ∀ k, g.find k = none
  | _ => True

/-- The invariant of a host; `own` tells for which group and key an id has been put. -/
structure HostExact (own : Nat → Nat × String) (w : LocalCacheWatch) : Prop where
  valid : w.Valid fun id item => item.groupId = id
  indexed : Indexed CacheItem.place CacheItem.cacheId w.stored fun c => w.cacheIdMap.lookup c
  owned : ∀ k item, w.stored k = some item → own item.cacheId = k

/-- An item is put under its own key, and its id belongs there. -/
def Op.Owned (own : String → Nat → Nat × String) (op : Op) : Prop :=
  ∀ host key item, op.puts = some (host, key, item) →
    item.key = key ∧ own host item.cacheId = item.place

namespace IndexLemmas

variable {own : Nat → Nat × String} {w w' : LocalCacheWatch} {id : Nat} {g g' : GroupItem}
  {item : CacheItem} {k : String} {m : Table Nat CacheItem} {c : Counters} {x : Shared}

/-! ## Changes of one group -/

theorem stored_of_lookup (h : w.groupMap.lookup id = some g) (k : String) :
    w.stored (id, k) = g.find k := by
  rw [LocalCacheWatch.stored, h]
  rfl

theorem stored_insert (w : LocalCacheWatch) (id : Nat) (g : GroupItem) (m : Table Nat CacheItem)
    (k : Nat × String) : LocalCacheWatch.stored ⟨w.groupMap.insert id g, m⟩ k =
      if k.1 = id then g.find k.2 else w.stored k := by
  rw [LocalCacheWatch.stored, Table.lookup_insert_eq]
  split
  · rfl
  · rfl

/-- A key of a group gets another item, or none. -/
theorem stored_update (hlook : w.groupMap.lookup id = some g) {o : Option CacheItem}
    (hfind : g'.find = Function.update g.find k o) (m : Table Nat CacheItem) :
    LocalCacheWatch.stored ⟨w.groupMap.insert id g', m⟩ =
      Function.update w.stored (id, k) o := by
  funext ⟨id', k'⟩
  rw [stored_insert, Function.update_apply, hfind]
  dsimp only
  by_cases hid : id' = id
  · subst hid
    rw [if_pos rfl, Function.update_apply, stored_of_lookup hlook]
    by_cases hk : k' = k
    · rw [if_pos hk, if_pos (by rw [hk])]
    · rw [if_neg hk, if_neg fun he => hk (Prod.mk.inj he).2]
  · rw [if_neg hid, if_neg fun he => hid (Prod.mk.inj he).1]

/-- The maps of a group change, but not what is stored. -/
theorem exact_same (h : HostExact own w) (hlook : w.groupMap.lookup id = some g)
    (hvalid : g'.Valid fun item => item.groupId = id) (hfind : g'.find = g.find) :
    HostExact own ⟨w.groupMap.insert id g', w.cacheIdMap⟩ := by
  have hstored : LocalCacheWatch.stored ⟨w.groupMap.insert id g', w.cacheIdMap⟩ = w.stored := by
    funext ⟨id', k'⟩
    rw [stored_insert, hfind]
    split
    · next hid =>
      obtain rfl : id' = id := hid
      exact (stored_of_lookup hlook k').symm
    · rfl
  refine ⟨LocalCacheWatch.valid_insert h.valid hvalid _, ?_, ?_⟩
  · rw [hstored]
    exact h.indexed
  · rw [hstored]
    exact h.owned

/-- An item leaves a group and the index. -/
theorem exact_erase (h : HostExact own w) (hlook : w.groupMap.lookup id = some g)
    (hvalid : g'.Valid fun item => item.groupId = id) (hk : g.find k = some item)
    (hfind : g'.find = Function.update g.find k none) :
    HostExact own ⟨w.groupMap.insert id g', w.cacheIdMap.erase item.cacheId⟩ := by
  have hstored := stored_update hlook hfind (w.cacheIdMap.erase item.cacheId)
  have hbefore : w.stored (id, k) = some item := (stored_of_lookup hlook k).trans hk
  refine ⟨LocalCacheWatch.valid_insert h.valid hvalid _, ?_, fun k' i hi => ?_⟩
  · rw [hstored]
    dsimp only
    rw [Table.lookup_erase_update]
    exact h.indexed.erase hbefore
  · rw [hstored, Function.update_apply] at hi
    split at hi
    · exact nomatch hi
    · exact h.owned k' i hi

/-- An item enters a group and the index. -/
theorem exact_insert (h : HostExact own w) (hlook : w.groupMap.lookup item.groupId = some g)
    (hvalid : g'.Valid fun i => i.groupId = item.groupId) (hk : g.find item.key = none)
    (hown : own item.cacheId = item.place)
    (hfind : g'.find = Function.update g.find item.key (some item)) :
    HostExact own ⟨w.groupMap.insert item.groupId g', w.cacheIdMap.insert item.cacheId item⟩ := by
  have hstored := stored_update hlook hfind (w.cacheIdMap.insert item.cacheId item)
  have hfree : w.stored item.place = none := (stored_of_lookup hlook item.key).trans hk
  have hnew : ∀ u, w.stored u.place = some u → u.cacheId ≠ item.cacheId := by
    intro u hu hid
    have hplace := h.owned _ u hu
    rw [hid, hown] at hplace
    rw [← hplace, hfree] at hu
    exact nomatch hu
  refine ⟨LocalCacheWatch.valid_insert h.valid hvalid _, ?_, fun k' i hi => ?_⟩
  · rw [hstored]
    dsimp only
    rw [Table.lookup_insert_update]
    exact h.indexed.insert hfree hnew
  · rw [hstored, Function.update_apply] at hi
    split at hi
    · next hk' =>
      rw [← Option.some.inj hi, hk']
      exact hown
    · exact h.owned k' i hi

/-- What is stored is found in its group. -/
theorem find_of_stored {k : Nat × String} (h : w.stored k = some item) :
    ∃ g, w.groupMap.lookup k.1 = some g ∧ g.find k.2 = some item :=
  Option.bind_eq_some_iff.mp h

/-! ## The methods of a group -/

/-- The host with this group and this index in place of its own. -/
def Embedded (own : Nat → Nat × String) (w : LocalCacheWatch) (id : Nat) (r : GroupItem × Shared) :
    Prop := HostExact own ⟨w.groupMap.insert id r.1, r.2.cacheIdMap⟩

namespace Embedded

variable {y : Shared}

theorem valid (h : Embedded own w id (g, x)) : g.Valid fun item => item.groupId = id :=
  HostExact.valid h id g (AList.lookup_insert _)

/-- The index finds what the group stores. -/
theorem index (h : Embedded own w id (g, x)) (hk : g.find k = some item) :
    x.cacheIdMap.lookup item.cacheId = some item := by
  obtain ⟨hkey, hid⟩ := h.valid.of_find hk
  refine (HostExact.indexed h).exact.mpr ⟨?_, rfl⟩
  rw [stored_insert, CacheItem.place, hid, hkey, if_pos rfl]
  exact hk

theorem same (h : Embedded own w id (g, x)) (hvalid : g'.Valid fun item => item.groupId = id)
    (hfind : g'.find = g.find) (hx : y.cacheIdMap = x.cacheIdMap) :
    Embedded own w id (g', y) := by
  have hsame := exact_same h (AList.lookup_insert _) hvalid hfind
  dsimp only at hsame
  rw [AList.insert_insert, ← hx] at hsame
  exact hsame

theorem erase (h : Embedded own w id (g, x)) (hvalid : g'.Valid fun item => item.groupId = id)
    (hk : g.find k = some item) (hfind : g'.find = Function.update g.find k none)
    (hx : y.cacheIdMap = x.cacheIdMap.erase item.cacheId) : Embedded own w id (g', y) := by
  have herase := exact_erase h (AList.lookup_insert _) hvalid hk hfind
  dsimp only at herase
  rw [AList.insert_insert, ← hx] at herase
  exact herase

theorem insert (h : Embedded own w item.groupId (g, x))
    (hvalid : g'.Valid fun i => i.groupId = item.groupId) (hk : g.find item.key = none)
    (hown : own item.cacheId = item.place)
    (hfind : g'.find = Function.update g.find item.key (some item))
    (hx : y.cacheIdMap = x.cacheIdMap.insert item.cacheId item) :
    Embedded own w item.groupId (g', y) := by
  have hinsert := exact_insert h (AList.lookup_insert _) hvalid hk hown hfind
  dsimp only at hinsert
  rw [AList.insert_insert, ← hx] at hinsert
  exact hinsert

/-- An inactive item is dropped. -/
theorem eraseInactive (h : Embedded own w id (g, x)) (hk : g.inactiveCacheMap.lookup k = some item)
    (hx : y.cacheIdMap = x.cacheIdMap.erase item.cacheId) :
    Embedded own w id ({ g with inactiveCacheMap := g.inactiveCacheMap.erase k }, y) :=
  h.erase (GroupItem.valid_eraseInactive h.valid k) (h.valid.find_of_inactive hk).2
    (GroupItem.find_eraseInactive h.valid hk) hx

/-- An active item is dropped. -/
theorem eraseActive (h : Embedded own w id (g, x)) (hk : g.activeCacheMap.lookup k = some item)
    (hx : y.cacheIdMap = x.cacheIdMap.erase item.cacheId) :
    Embedded own w id ({ g with activeCacheMap := g.activeCacheMap.erase k }, y) :=
  h.erase (GroupItem.valid_eraseActive h.valid k) (GroupItem.find_of_active hk)
    (GroupItem.find_eraseActive h.valid hk) hx

theorem get (h : Embedded own w id (g, x)) (k : String) : Embedded own w id ((g.get k).2, x) :=
  h.same (GroupItem.valid_get h.valid k) (GroupItem.find_get h.valid k) rfl

theorem remove (h : Embedded own w id (g, x)) (k : String) :
    Embedded own w id (g.remove k x).2 := by
  unfold GroupItem.remove
  split
  · next item hk => exact h.eraseActive hk rfl
  · split
    · next item hk => exact h.eraseInactive hk rfl
    · exact h

theorem put (h : Embedded own w item.groupId (g, x)) (hown : own item.cacheId = item.place) :
    Embedded own w item.groupId (g.put item.key item x) := by
  -- once the key is free, the item enters
  have hadd {g : GroupItem} {x : Shared} (h : Embedded own w item.groupId (g, x))
      (hi : g.inactiveCacheMap.lookup item.key = none)
      (ha : g.activeCacheMap.lookup item.key = none) : Embedded own w item.groupId
        ({ g with inactiveCacheMap := g.inactiveCacheMap.insert item.key item }, x.record item) :=
    h.insert (GroupItem.valid_insert h.valid ha rfl rfl)
      (GroupItem.find_eq_none_iff.mpr ⟨ha, hi⟩) hown (GroupItem.find_insert ha item) rfl
  unfold GroupItem.put
  dsimp only
  split
  · next old hk =>
    have hdrop := h.eraseInactive (y := x.forget old) hk rfl
    have hput := hadd hdrop (AList.lookup_erase _ _) (h.valid.find_of_inactive hk).1
    dsimp only at hput
    rwa [Table.insert_erase_self] at hput
  · next hi =>
    split
    · next old hk =>
      exact hadd (h.eraseActive (y := x.forget old) hk rfl) hi (AList.lookup_erase _ _)
    · next ha => exact hadd h hi ha

/-- The first loop of `dropInactive`: what the iterator returns is stored, so the index finds it. -/
theorem dropLoop (o : Order) (n : Nat) {l : List CacheItem} (h : Embedded own w id (g, x))
    (hit : ∀ i ∈ l, ∃ k, g.inactiveCacheMap.lookup k = some i) :
    Embedded own w id (GroupItem.dropLoop o n l g x) := by
  induction n generalizing l g x with
  | zero => exact h
  | succ n ih =>
    cases l with
    | nil => exact h
    | cons item l =>
      obtain ⟨k, hk⟩ := hit item List.mem_cons_self
      have hkey := (h.valid.inactive k item hk).1
      rw [GroupItem.dropLoop, h.index (h.valid.find_of_inactive hk).2]
      dsimp only
      rw [hkey, hk]
      have hdrop := h.eraseInactive (y := Shared.discharge
        { x with cacheIdMap := x.cacheIdMap.erase item.cacheId } item) hk rfl
      refine ih hdrop fun i hi => ?_
      exact GroupItem.mem_values.mp ((o.values_perm _).mem_iff.mp hi)

theorem dropInactive (o : Order) (maxCount : Int) (h : Embedded own w id (g, x)) :
    Embedded own w id (g.dropInactive o maxCount x) := by
  have hloop := h.dropLoop o maxCount.toNat (l := o.values g.inactiveCacheMap)
    fun i hi => GroupItem.mem_values.mp ((o.values_perm _).mem_iff.mp hi)
  exact same hloop (GroupItem.valid_deactivate (valid hloop)) (GroupItem.find_deactivate (valid hloop))
    rfl

end Embedded

/-! ## The methods of a host -/

theorem embedded_of_lookup (h : HostExact own w) (hlook : w.groupMap.lookup id = some g) :
    Embedded own w id (g, ⟨c, w.cacheIdMap⟩) := exact_same h hlook (h.valid id g hlook) rfl

theorem exact_onGroup {f : GroupItem → Shared → GroupItem × Shared}
    (hf : ∀ g x, Embedded own w id (g, x) → Embedded own w id (f g x)) (h : HostExact own w)
    (c : Counters) : HostExact own (w.onGroup f id c).1 := by
  unfold LocalCacheWatch.onGroup
  split
  · exact h
  · next g hlook => exact hf g _ (embedded_of_lookup h hlook)

theorem exact_get (h : HostExact own w) (id : Nat) (k : String) :
    HostExact own (w.get id k).2 := by
  unfold LocalCacheWatch.get
  split
  · exact h
  · next g hlook => exact (embedded_of_lookup (c := ⟨0, 0⟩) h hlook).get k

theorem exact_remove (h : HostExact own w) (id : Nat) (k : String) (c : Counters) :
    HostExact own (w.remove id k c).2.1 := by
  unfold LocalCacheWatch.remove
  split
  · exact h
  · next g hlook => exact (embedded_of_lookup h hlook).remove k

theorem exact_put (h : HostExact own w) (hown : own item.cacheId = item.place) (c : Counters) :
    HostExact own (w.put item.key item c).1 := by
  unfold LocalCacheWatch.put
  split
  · exact exact_onGroup (fun g x hg => hg.put hown) h c
  · next hnone =>
    -- the new group stores nothing
    have hstored : LocalCacheWatch.stored
        ⟨w.groupMap.insert item.groupId .empty, w.cacheIdMap⟩ = w.stored := by
      funext k
      rw [stored_insert]
      split
      · next hid =>
        rw [LocalCacheWatch.stored, hid, hnone]
        rfl
      · rfl
    have hnew : HostExact own ⟨w.groupMap.insert item.groupId .empty, w.cacheIdMap⟩ := by
      refine ⟨LocalCacheWatch.valid_insert h.valid GroupItem.valid_empty _, ?_, ?_⟩
      · rw [hstored]
        exact h.indexed
      · rw [hstored]
        exact h.owned
    exact exact_onGroup (fun g x hg => hg.put hown) hnew c

theorem exact_dropInactive (h : HostExact own w) (o : Order) (maxCount : Int) (c : Counters) :
    HostExact own (w.dropInactive o maxCount c).1 := by
  unfold LocalCacheWatch.dropInactive LocalCacheWatch.onGroups
  generalize o.groups w.groupMap = ids
  induction ids generalizing w c with
  | nil => exact h
  | cons id ids ih => exact ih (exact_onGroup (fun g x hg => hg.dropInactive o maxCount) h c) _

/-- A group without items stays as it is. -/
theorem exact_flush (h : HostExact own w) (hempty : ∀ g, w.groupMap.lookup id = some g →
    ∀ k, g.find k = none) (c : Counters) : HostExact own (w.flush id c).1 := by
  unfold LocalCacheWatch.flush LocalCacheWatch.onGroup
  split
  · exact h
  · next g hlook =>
    have hnone := hempty g hlook
    have hvalues {m : Table String CacheItem} (hm : ∀ k, m.lookup k = none) :
        GroupItem.values m = [] := by
      refine List.eq_nil_iff_forall_not_mem.mpr fun i hi => ?_
      obtain ⟨k, hk⟩ := GroupItem.mem_values.mp hi
      rw [hm k] at hk
      exact nomatch hk
    have hclear : g.clear ⟨c, w.cacheIdMap⟩ = (.empty, ⟨c, w.cacheIdMap⟩) := by
      rw [GroupItem.clear, hvalues fun k => (GroupItem.find_eq_none_iff.mp (hnone k)).2,
        hvalues fun k => (GroupItem.find_eq_none_iff.mp (hnone k)).1]
      rfl
    rw [hclear]
    exact exact_same h hlook GroupItem.valid_empty (funext fun k => (hnone k).symm)

/-- After all groups have been cleared, nothing is stored. -/
theorem lookup_onGroups_clear (ids : List Nat) (c : Counters)
    (hlook : (w.onGroups GroupItem.clear ids c).1.groupMap.lookup id = some g) :
    g = .empty ∨ id ∉ ids ∧ w.groupMap.lookup id = some g := by
  unfold LocalCacheWatch.onGroups at hlook
  induction ids generalizing w c with
  | nil => exact .inr ⟨List.not_mem_nil, hlook⟩
  | cons id' ids ih =>
    rcases ih _ hlook with hg | ⟨hid, hg⟩
    · exact .inl hg
    · have hgroup : (w.onGroup GroupItem.clear id' c).1.groupMap.lookup id = some g := hg
      clear hg hlook
      unfold LocalCacheWatch.onGroup at hgroup
      split at hgroup
      · next hnone =>
        refine .inr ⟨fun hmem => ?_, hgroup⟩
        rcases List.mem_cons.mp hmem with rfl | hmem
        · exact nomatch hnone.symm.trans hgroup
        · exact hid hmem
      · have hg : (w.groupMap.insert id' .empty).lookup id = some g := hgroup
        rw [Table.lookup_insert_eq] at hg
        split at hg
        · exact .inl (Option.some.inj hg).symm
        · next hne => exact .inr ⟨fun hmem => (List.mem_cons.mp hmem).elim hne hid, hg⟩

theorem exact_clear (c : Counters) : HostExact own (w.clear c).1 := by
  have hgroup {id : Nat} {g : GroupItem} (hlook : (w.clear c).1.groupMap.lookup id = some g) :
      g = .empty := by
    rcases lookup_onGroups_clear w.groupMap.keys c hlook with hg | ⟨hid, hg⟩
    · exact hg
    · exact absurd (AList.mem_keys.mp (AList.lookup_isSome.mp (by rw [hg]; rfl))) hid
  have hstored : (w.clear c).1.stored = fun _ => none := by
    funext k
    rw [LocalCacheWatch.stored]
    cases hlook : (w.clear c).1.groupMap.lookup k.1 with
    | none => rfl
    | some g => rw [hgroup hlook]; rfl
  refine ⟨fun id g hlook => ?_, ?_, ?_⟩
  · rw [hgroup hlook]
    exact GroupItem.valid_empty
  · rw [hstored]
    exact Indexed.empty
  · rw [hstored]
    exact nofun

/-- One id of an update: the item that has it leaves, and the index with it. -/
theorem exact_updateOne (h : HostExact own w) (cacheId : Nat) (c : Counters) :
    HostExact own (w.updateOne cacheId c).1 ∧ ∀ k item,
      (w.updateOne cacheId c).1.stored k = some item ↔
        w.stored k = some item ∧ item.cacheId ≠ cacheId := by
  unfold LocalCacheWatch.updateOne
  split
  · next hnone =>
    refine ⟨h, fun k item => ⟨fun hk => ⟨hk, fun hid => ?_⟩, And.left⟩⟩
    have hplace := h.indexed.placed hk
    have hindex : w.cacheIdMap.lookup cacheId = some item :=
      h.indexed.exact.mpr ⟨hplace.symm ▸ hk, hid⟩
    rw [hnone] at hindex
    exact nomatch hindex
  · next it hindex =>
    obtain ⟨hstored, rfl⟩ := h.indexed.exact.mp hindex
    obtain ⟨g, hlook, hfind⟩ := find_of_stored hstored
    have hg := h.valid _ g hlook
    -- what the group does, in either of its maps
    obtain ⟨g', x, hupdate, hx, hvalid, hfind'⟩ : ∃ g' x, g.update it
        ⟨c, w.cacheIdMap.erase it.cacheId⟩ = (g', x) ∧
        x.cacheIdMap = w.cacheIdMap.erase it.cacheId ∧
        (g'.Valid fun item => item.groupId = it.groupId) ∧
        g'.find = Function.update g.find it.key none := by
      unfold GroupItem.update
      split
      · next item hk =>
        exact ⟨_, _, rfl, rfl, GroupItem.valid_eraseActive hg _, GroupItem.find_eraseActive hg hk⟩
      · next hactive =>
        split
        · next item hk =>
          exact ⟨_, _, rfl, rfl, GroupItem.valid_eraseInactive hg _,
            GroupItem.find_eraseInactive hg hk⟩
        · next hinactive =>
          have hno := GroupItem.find_eq_none_iff.mpr ⟨hactive, hinactive⟩
          exact nomatch hno.symm.trans hfind
    have hresult : LocalCacheWatch.onGroup (GroupItem.update it) it.groupId
        { w with cacheIdMap := w.cacheIdMap.erase it.cacheId } c =
        (⟨w.groupMap.insert it.groupId g', w.cacheIdMap.erase it.cacheId⟩, x.counters) := by
      unfold LocalCacheWatch.onGroup
      dsimp only
      rw [show w.groupMap.lookup it.groupId = some g from hlook]
      dsimp only
      rw [hupdate, ← hx]
    have hlook : w.groupMap.lookup it.groupId = some g := hlook
    have hfind : g.find it.key = some it := hfind
    rw [hresult]
    refine ⟨exact_erase h hlook hvalid hfind hfind', fun k item => ?_⟩
    rw [stored_update hlook hfind' (w.cacheIdMap.erase it.cacheId), Function.update_apply]
    split
    · next hk =>
      refine ⟨nofun, fun hitem => absurd ?_ hitem.2⟩
      have hsame : w.stored k = some it := hk ▸ hstored
      exact congrArg CacheItem.cacheId (Option.some.inj (hitem.1.symm.trans hsame))
    · next hk =>
      refine ⟨fun hitem => ⟨hitem, fun hid => hk ?_⟩, And.left⟩
      have hplace := h.indexed.placed hitem
      have heq := h.indexed.eq_of_id (hplace.symm ▸ hitem) hstored hid
      rw [← hplace, heq]
      rfl

theorem exact_update (h : HostExact own w) (cacheIds : List Nat) (c : Counters) :
    HostExact own (w.update cacheIds c).1 ∧ ∀ k item,
      (w.update cacheIds c).1.stored k = some item ↔
        w.stored k = some item ∧ item.cacheId ∉ cacheIds := by
  unfold LocalCacheWatch.update
  induction cacheIds generalizing w c with
  | nil => exact ⟨h, fun k item => ⟨fun hk => ⟨hk, List.not_mem_nil⟩, And.left⟩⟩
  | cons cacheId cacheIds ih =>
    obtain ⟨hone, hstored⟩ := exact_updateOne h cacheId c
    obtain ⟨hrest, hall⟩ := ih hone (w.updateOne cacheId c).2
    refine ⟨hrest, fun k item => (hall k item).trans ?_⟩
    rw [hstored, List.mem_cons, not_or, and_assoc]

theorem indexExact_of_exact (h : HostExact own w) : IndexExact w :=
  ⟨fun _ _ => h.indexed.exact, fun cacheIds c => (exact_update h cacheIds c).2⟩

/-! ## The methods of the cache -/

/-- What every method keeps. -/
def AllExact (own : String → Nat → Nat × String) (x : LocalCache) : Prop :=
  ∀ host w, x.watchMap.lookup host = some w → HostExact (own host) w

section Cache

variable {own : String → Nat → Nat × String} {x : LocalCache}
  {f : LocalCacheWatch → Counters → LocalCacheWatch × Counters}

theorem exact_onHost {host : String} (h : AllExact own x)
    (hf : ∀ w c, x.watchMap.lookup host = some w → HostExact (own host) w →
      HostExact (own host) (f w c).1) : AllExact own (x.onHost f host) := by
  unfold LocalCache.onHost
  split
  · exact h
  · next w hlook =>
    intro host' w' hw'
    have hw' : (x.watchMap.insert host (f w x.counters).1).lookup host' = some w' := hw'
    rw [Table.lookup_insert_eq] at hw'
    split at hw'
    · next hhost =>
      rw [hhost, ← Option.some.inj hw']
      exact hf w x.counters hlook (h host w hlook)
    · exact h host' w' hw'

theorem exact_dropAll (o : Order) (n : Int) (h : AllExact own x) :
    AllExact own (x.dropInactive o n) := by
  unfold LocalCache.dropInactive
  generalize o.hosts x.watchMap = hosts
  induction hosts generalizing x with
  | nil => exact h
  | cons host hosts ih => exact ih (exact_onHost h fun w c _ hw => exact_dropInactive hw o n c)

theorem exact_exec {op : Op} (h : AllExact own x) (hown : op.Owned own) (hspare : op.Spares x) :
    AllExact own (x.exec op) := by
  cases op with
  | put host key item =>
    obtain ⟨rfl, hplace⟩ := hown host key item rfl
    exact exact_onHost h fun w c _ hw => exact_put hw hplace c
  | get host id key => exact exact_onHost h fun w _ _ hw => exact_get hw id key
  | remove host id key => exact exact_onHost h fun w c _ hw => exact_remove hw id key c
  | update host cacheIds => exact exact_onHost h fun w c _ hw => (exact_update hw cacheIds c).1
  | dropInactive host o n => exact exact_onHost h fun w c _ hw => exact_dropInactive hw o n c
  | flush host id => exact exact_onHost h fun w c hlook hw => exact_flush hw (hspare w hlook) c
  | clear host => exact exact_onHost h fun w c _ _ => exact_clear c
  | localPut o host key item =>
    obtain ⟨rfl, hplace⟩ := hown host key item rfl
    have hput (x : LocalCache) (h : AllExact own x) :
        AllExact own (x.onHost (LocalCacheWatch.put item.key item) host) :=
      exact_onHost h fun w c _ hw => exact_put hw hplace c
    show AllExact own (x.put o host item.key item)
    unfold LocalCache.put
    split
    · exact h
    · split
      · dsimp only
        split
        · exact hput _ (exact_dropAll o 100 h)
        · exact exact_dropAll o 100 h
      · exact hput x h
  | localDropInactive o n => exact exact_dropAll o n h

theorem exact_start (hosts : List String) (maxCacheSize warningCacheSize : BitVec 64) :
    AllExact own (.start hosts maxCacheSize warningCacheSize) := by
  intro host w hw
  rw [LocalCache.lookup_start hw]
  exact ⟨nofun, .empty, nofun⟩

theorem exact_run {ops : List Op} (h : AllExact own x) (hown : ∀ op ∈ ops, op.Owned own)
    (hspare : Admitted (fun x op => op.Spares x) LocalCache.exec x ops) :
    AllExact own (ops.foldl LocalCache.exec x) := by
  induction ops generalizing x with
  | nil => exact h
  | cons op ops ih =>
    obtain ⟨hop, hops⟩ := List.forall_mem_cons.mp hown
    exact ih (exact_exec h hop hspare.1) hops hspare.2

end Cache

/-- Where ids belong can be read off the calls. -/
theorem exists_own {ops : List Op} (hkey : ∀ op ∈ ops, op.Keyed) (hdistinct : Distinct ops) :
    ∃ own, ∀ op ∈ ops, Op.Owned own op := by
  have hplace (host : String) (cacheId : Nat) : ∃ p, ∀ op ∈ ops, ∀ key item,
      op.puts = some (host, key, item) → item.cacheId = cacheId → item.place = p := by
    by_cases h : ∃ op ∈ ops, ∃ key item, op.puts = some (host, key, item) ∧ item.cacheId = cacheId
    · obtain ⟨op, hop, key, item, hputs, hid⟩ := h
      refine ⟨item.place, fun op' hop' key' item' hputs' hid' => ?_⟩
      obtain ⟨hgroup, hkeys⟩ :=
        hdistinct op' hop' op hop host key' item' key item hputs' hputs (hid'.trans hid.symm)
      have hkey' := hkey op' hop' host key' item' hputs'
      exact Prod.ext hgroup ((hkey'.trans hkeys).trans (hkey op hop host key item hputs).symm)
    · exact ⟨(0, ""), fun op hop key item hputs hid => absurd ⟨op, hop, key, item, hputs, hid⟩ h⟩
  choose own hown using hplace
  exact ⟨own, fun op hop host key item hputs => ⟨hkey op hop host key item hputs,
    (hown host item.cacheId op hop key item hputs rfl).symm⟩⟩

theorem distinct_of_forall {ops : List Op} (h : ∀ p ∈ ops.filterMap Op.puts,
    ∀ p' ∈ ops.filterMap Op.puts, p.1 = p'.1 → p.2.2.cacheId = p'.2.2.cacheId →
      p.2.2.groupId = p'.2.2.groupId ∧ p.2.1 = p'.2.1) : Distinct ops :=
  fun op hop op' hop' _ _ _ _ _ hputs hputs' hid => h _ (List.mem_filterMap.mpr ⟨op, hop, hputs⟩)
    _ (List.mem_filterMap.mpr ⟨op', hop', hputs'⟩) rfl hid

end IndexLemmas

open IndexLemmas

/-- In every run of calls that puts items under their own keys, with different ids for different
groups or keys, and that flushes no group with items, the index is exact. -/
theorem indexExact_run {hosts : List String} {maxCacheSize warningCacheSize : BitVec 64}
    {ops : List Op} (hkey : ∀ op ∈ ops, op.Keyed) (hdistinct : Distinct ops)
    (hspare : Admitted (fun x op => op.Spares x) LocalCache.exec
      (.start hosts maxCacheSize warningCacheSize) ops) :
    ∀ host w, (ops.foldl LocalCache.exec
      (.start hosts maxCacheSize warningCacheSize)).watchMap.lookup host = some w →
        IndexExact w := by
  obtain ⟨own, hown⟩ := exists_own hkey hdistinct
  have hexact := exact_run (exact_start hosts maxCacheSize warningCacheSize) hown hspare
  exact fun host w hw => indexExact_of_exact (hexact host w hw)

/-- Two items are put, one of them is got, and a notification names the other one. -/
theorem indexExact_small :
    let ops : List Op := [.put "host" "k" ⟨0, 7, 1, "k", 600⟩, .put "host" "l" ⟨1, 8, 2, "l", 700⟩,
      .get "host" 1 "k", .update "host" [8], .flush "host" 3]
    ∀ w, (ops.foldl LocalCache.exec (.start ["host"] 65536 32768)).watchMap.lookup "host" =
      some w → w.stored (1, "k") = some ⟨0, 7, 1, "k", 600⟩ ∧ IndexExact w := by
  intro ops w hw
  have hstored : ((ops.foldl LocalCache.exec
      (.start ["host"] 65536 32768)).watchMap.lookup "host").map (·.stored (1, "k")) =
      some (some ⟨0, 7, 1, "k", 600⟩) := by decide +kernel
  have hnone : ((ops.dropLast.foldl LocalCache.exec
      (.start ["host"] 65536 32768)).watchMap.lookup "host").bind (·.groupMap.lookup 3) = none := by
    decide +kernel
  have hkey : ∀ op ∈ ops, op.Keyed := by
    simp [ops, Op.Keyed, Op.puts]
  have hdistinct : Distinct ops := distinct_of_forall (by decide +kernel)
  refine ⟨?_, indexExact_run hkey hdistinct ?_ "host" w hw⟩
  · rw [hw] at hstored
    exact Option.some.inj hstored
  · refine ⟨trivial, trivial, trivial, trivial, fun w hw g hg => ?_, trivial⟩
    exact nomatch hg.symm.trans (Option.bind_eq_none_iff.mp hnone w hw)

/-- The notification of a flushed item removes the one that has been put since. -/
theorem not_indexExact_flush :
    let ops : List Op := [.put "host" "k" ⟨0, 7, 1, "k", 600⟩, .flush "host" 1,
      .put "host" "k" ⟨1, 8, 1, "k", 600⟩]
    (∀ op ∈ ops, op.Keyed) ∧ Distinct ops ∧ ¬ ∀ host w, (ops.foldl LocalCache.exec
      (.start ["host"] 65536 32768)).watchMap.lookup host = some w → IndexExact w := by
  intro ops
  have hkey : ∀ op ∈ ops, op.Keyed := by
    simp [ops, Op.Keyed, Op.puts]
  have hdistinct : Distinct ops := distinct_of_forall (by decide +kernel)
  refine ⟨hkey, hdistinct, fun h => ?_⟩
  have hstored : ((ops.foldl LocalCache.exec
      (.start ["host"] 65536 32768)).watchMap.lookup "host").map (fun w =>
        (w.stored (1, "k"), (w.update [7] ⟨0, 0⟩).1.stored (1, "k"))) =
      some (some ⟨1, 8, 1, "k", 600⟩, none) := by decide +kernel
  obtain ⟨w, hw, hboth⟩ := Option.map_eq_some_iff.mp hstored
  obtain ⟨hbefore, hafter⟩ := Prod.mk.inj hboth
  have hkept := ((h "host" w hw).update [7] ⟨0, 0⟩ (1, "k") _).mpr ⟨hbefore, by decide⟩
  exact nomatch hafter.symm.trans hkept
end Xixi.Local
