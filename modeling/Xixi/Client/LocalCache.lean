import Mathlib.Data.BitVec
import Xixi.Lib.Run
import Xixi.Lib.Table

/-!
# The local cache of the client (`LocalCacheWatch.java`, `LocalCache.java`)

An item is in one of two maps of its group: `get` moves it to the active one, `dropInactive` drops
items of the inactive one and moves the active ones there. All groups of a host share an index of
cache ids, and all hosts share the counters. Sizes are 32-bit numbers, and `-item.itemSize` is
computed before it is widened.

1. `GroupItem`, `LocalCacheWatch`, `LocalCache`: the maps and what the methods do to them.
2. `Order`: the order in which maps are iterated.
3. `GroupItem.Valid`: no key is in both maps of a group, and items are under their own keys.
4. `GroupItem.find`: what a group stores under a key, and what the changes of its maps do to that.
-/

namespace Xixi.Local

open Lib

/-- A `CacheItem`; `ref` tells objects apart. -/
structure CacheItem where
  ref : Nat
  cacheId : Nat
  groupId : Nat
  key : String
  itemSize : BitVec 32
deriving DecidableEq, Repr

/-- The counters that all hosts share. -/
structure Counters where
  cacheSize : BitVec 64
  cacheCount : BitVec 32
deriving DecidableEq, Repr

namespace Counters

/-- `cacheSize.addAndGet(item.itemSize); cacheCount.getAndIncrement()`. -/
def charge (c : Counters) (item : CacheItem) : Counters :=
  ⟨c.cacheSize + item.itemSize.signExtend 64, c.cacheCount + 1⟩

/-- `cacheSize.addAndGet(-item.itemSize); cacheCount.getAndDecrement()`. -/
def discharge (c : Counters) (item : CacheItem) : Counters :=
  ⟨c.cacheSize + (-item.itemSize).signExtend 64, c.cacheCount - 1⟩

end Counters

/-- What a group shares with others. -/
structure Shared where
  counters : Counters
  cacheIdMap : Table Nat CacheItem

namespace Shared

def discharge (x : Shared) (item : CacheItem) : Shared :=
  { x with counters := x.counters.discharge item }

/-- The item is taken out of the counters and of the index. -/
def forget (x : Shared) (item : CacheItem) : Shared :=
  ⟨x.counters.discharge item, x.cacheIdMap.erase item.cacheId⟩

def record (x : Shared) (item : CacheItem) : Shared :=
  ⟨x.counters.charge item, x.cacheIdMap.insert item.cacheId item⟩

end Shared

structure GroupItem where
  inactiveCacheMap : Table String CacheItem
  activeCacheMap : Table String CacheItem

/-- The maps of a `LocalCacheWatch`. -/
structure LocalCacheWatch where
  groupMap : Table Nat GroupItem
  cacheIdMap : Table Nat CacheItem

/-- The orders in which a call iterates over maps. -/
structure Order where
  values : Table String CacheItem → List CacheItem
  groups : Table Nat GroupItem → List Nat
  hosts : Table String LocalCacheWatch → List String
  values_perm : ∀ m, (values m).Perm (m.entries.map Sigma.snd)
  groups_perm : ∀ m, (groups m).Perm m.keys
  hosts_perm : ∀ m, (hosts m).Perm m.keys

namespace GroupItem

def empty : GroupItem := ⟨∅, ∅⟩

def values (m : Table String CacheItem) : List CacheItem := m.entries.map Sigma.snd

def clear (g : GroupItem) (x : Shared) : GroupItem × Shared :=
  let x := (values g.inactiveCacheMap).foldl Shared.discharge x
  let x := (values g.activeCacheMap).foldl Shared.discharge x
  (empty, x)

/-- The first loop of `dropInactive`: `it` is what the iterator has still to return. -/
def dropLoop (o : Order) : Nat → List CacheItem → GroupItem → Shared → GroupItem × Shared
  | 0, _, g, x => (g, x)
  | _ + 1, [], g, x => (g, x)
  | n + 1, item :: it, g, x =>
    match x.cacheIdMap.lookup item.cacheId with
    | none => dropLoop o n it g x
    | some item2 =>
      let x := { x with cacheIdMap := x.cacheIdMap.erase item.cacheId }
      match g.inactiveCacheMap.lookup item2.key with
      | none => dropLoop o n (o.values g.inactiveCacheMap) g x
      | some item =>
        let g := { g with inactiveCacheMap := g.inactiveCacheMap.erase item2.key }
        dropLoop o n (o.values g.inactiveCacheMap) g (x.discharge item)

/-- The second loop of `dropInactive`. -/
def deactivate (g : GroupItem) : GroupItem :=
  ⟨Table.insertAll CacheItem.key (values g.activeCacheMap) g.inactiveCacheMap, ∅⟩

def dropInactive (o : Order) (maxCount : Int) (g : GroupItem) (x : Shared) : GroupItem × Shared :=
  let (g, x) := dropLoop o maxCount.toNat (o.values g.inactiveCacheMap) g x
  (g.deactivate, x)

def get (g : GroupItem) (key : String) : Option CacheItem × GroupItem :=
  match g.activeCacheMap.lookup key with
  | some item => (some item, g)
  | none =>
    match g.inactiveCacheMap.lookup key with
    | some item =>
      (some item, ⟨g.inactiveCacheMap.erase key, g.activeCacheMap.insert key item⟩)
    | none => (none, g)

def put (key : String) (value : CacheItem) (g : GroupItem) (x : Shared) : GroupItem × Shared :=
  let oldItem := g.inactiveCacheMap.lookup key
  let g := { g with inactiveCacheMap := g.inactiveCacheMap.insert key value }
  match oldItem with
  | some oldItem => (g, (x.forget oldItem).record value)
  | none =>
    match g.activeCacheMap.lookup key with
    | some oldItem =>
      ({ g with activeCacheMap := g.activeCacheMap.erase key }, (x.forget oldItem).record value)
    | none => (g, x.record value)

def remove (key : String) (g : GroupItem) (x : Shared) : Option CacheItem × GroupItem × Shared :=
  match g.activeCacheMap.lookup key with
  | some item =>
    (some item, { g with activeCacheMap := g.activeCacheMap.erase key }, x.forget item)
  | none =>
    match g.inactiveCacheMap.lookup key with
    | some item =>
      (some item, { g with inactiveCacheMap := g.inactiveCacheMap.erase key }, x.forget item)
    | none => (none, g, x)

def update (it : CacheItem) (g : GroupItem) (x : Shared) : GroupItem × Shared :=
  match g.activeCacheMap.lookup it.key with
  | some item => ({ g with activeCacheMap := g.activeCacheMap.erase it.key }, x.discharge item)
  | none =>
    match g.inactiveCacheMap.lookup it.key with
    | some item =>
      ({ g with inactiveCacheMap := g.inactiveCacheMap.erase it.key }, x.discharge item)
    | none => (g, x)

end GroupItem

namespace LocalCacheWatch

def empty : LocalCacheWatch := ⟨∅, ∅⟩

/-- A method of the group, if there is one. -/
def onGroup (f : GroupItem → Shared → GroupItem × Shared) (groupId : Nat) (w : LocalCacheWatch)
    (c : Counters) : LocalCacheWatch × Counters :=
  match w.groupMap.lookup groupId with
  | none => (w, c)
  | some g =>
    let (g, x) := f g ⟨c, w.cacheIdMap⟩
    (⟨w.groupMap.insert groupId g, x.cacheIdMap⟩, x.counters)

/-- A method of each of the groups. -/
def onGroups (f : GroupItem → Shared → GroupItem × Shared) (groupIds : List Nat)
    (w : LocalCacheWatch) (c : Counters) : LocalCacheWatch × Counters :=
  groupIds.foldl (fun r groupId => onGroup f groupId r.1 r.2) (w, c)

def clear (w : LocalCacheWatch) (c : Counters) : LocalCacheWatch × Counters :=
  let (w, c) := onGroups GroupItem.clear w.groupMap.keys w c
  ({ w with cacheIdMap := ∅ }, c)

def dropInactive (o : Order) (maxCount : Int) (w : LocalCacheWatch) (c : Counters) :
    LocalCacheWatch × Counters :=
  onGroups (GroupItem.dropInactive o maxCount) (o.groups w.groupMap) w c

def get (groupId : Nat) (key : String) (w : LocalCacheWatch) : Option CacheItem × LocalCacheWatch :=
  match w.groupMap.lookup groupId with
  | none => (none, w)
  | some g =>
    let (item, g) := g.get key
    (item, { w with groupMap := w.groupMap.insert groupId g })

def put (key : String) (item : CacheItem) (w : LocalCacheWatch) (c : Counters) :
    LocalCacheWatch × Counters :=
  match w.groupMap.lookup item.groupId with
  | some _ => onGroup (GroupItem.put key item) item.groupId w c
  | none =>
    let w := { w with groupMap := w.groupMap.insert item.groupId .empty }
    onGroup (GroupItem.put key item) item.groupId w c

def remove (groupId : Nat) (key : String) (w : LocalCacheWatch) (c : Counters) :
    Option CacheItem × LocalCacheWatch × Counters :=
  match w.groupMap.lookup groupId with
  | none => (none, w, c)
  | some g =>
    let (item, g, x) := g.remove key ⟨c, w.cacheIdMap⟩
    (item, ⟨w.groupMap.insert groupId g, x.cacheIdMap⟩, x.counters)

def flush (groupId : Nat) (w : LocalCacheWatch) (c : Counters) : LocalCacheWatch × Counters :=
  onGroup GroupItem.clear groupId w c

/-- The body of the loop of `update`. -/
def updateOne (cacheId : Nat) (w : LocalCacheWatch) (c : Counters) : LocalCacheWatch × Counters :=
  match w.cacheIdMap.lookup cacheId with
  | none => (w, c)
  | some it =>
    let w := { w with cacheIdMap := w.cacheIdMap.erase cacheId }
    onGroup (GroupItem.update it) it.groupId w c

def update (cacheIds : List Nat) (w : LocalCacheWatch) (c : Counters) : LocalCacheWatch × Counters :=
  cacheIds.foldl (fun r cacheId => updateOne cacheId r.1 r.2) (w, c)

end LocalCacheWatch

structure LocalCache where
  watchMap : Table String LocalCacheWatch
  counters : Counters
  maxCacheSize : BitVec 64
  warningCacheSize : BitVec 64

namespace LocalCache

/-- A method of a host, if there is one. -/
def onHost (f : LocalCacheWatch → Counters → LocalCacheWatch × Counters) (host : String)
    (x : LocalCache) : LocalCache :=
  match x.watchMap.lookup host with
  | none => x
  | some w =>
    let (w, c) := f w x.counters
    { x with watchMap := x.watchMap.insert host w, counters := c }

def dropInactive (o : Order) (maxDropCount : Int) (x : LocalCache) : LocalCache :=
  (o.hosts x.watchMap).foldl
    (fun x host => onHost (LocalCacheWatch.dropInactive o maxDropCount) host x) x

/-- `put`: over the warning size, items are dropped, and the new one is not stored if it does not
fit. -/
def put (o : Order) (host key : String) (item : CacheItem) (x : LocalCache) : LocalCache :=
  match x.watchMap.lookup host with
  | none => x
  | some _ =>
    if x.warningCacheSize.slt x.counters.cacheSize then
      let x := dropInactive o 100 x
      if (x.counters.cacheSize + item.itemSize.signExtend 64).slt x.maxCacheSize then
        onHost (LocalCacheWatch.put key item) host x
      else x
    else onHost (LocalCacheWatch.put key item) host x

/-- `start`, with the servers' names. -/
def start (hosts : List String) (maxCacheSize warningCacheSize : BitVec 64) : LocalCache :=
  ⟨hosts.foldl (fun m host => m.insert host .empty) ∅, ⟨0, 0⟩, maxCacheSize, warningCacheSize⟩

end LocalCache

/-- A call of a method. The last two are those of `LocalCache`. -/
inductive Op
  | put (host key : String) (item : CacheItem)
  | get (host : String) (groupId : Nat) (key : String)
  | remove (host : String) (groupId : Nat) (key : String)
  | update (host : String) (cacheIds : List Nat)
  | dropInactive (host : String) (o : Order) (maxCount : Int)
  | flush (host : String) (groupId : Nat)
  | clear (host : String)
  | localPut (o : Order) (host key : String) (item : CacheItem)
  | localDropInactive (o : Order) (maxDropCount : Int)

/-- The item that is put, its host and its key. -/
def Op.puts : Op → Option (String × String × CacheItem)
  | .put host key item => some (host, key, item)
  | .localPut _ host key item => some (host, key, item)
  | _ => none

def LocalCache.exec (x : LocalCache) : Op → LocalCache
  | .put host key item => x.onHost (LocalCacheWatch.put key item) host
  | .get host groupId key => x.onHost (fun w c => ((w.get groupId key).2, c)) host
  | .remove host groupId key => x.onHost (fun w c => (w.remove groupId key c).2) host
  | .update host cacheIds => x.onHost (LocalCacheWatch.update cacheIds) host
  | .dropInactive host o maxCount => x.onHost (LocalCacheWatch.dropInactive o maxCount) host
  | .flush host groupId => x.onHost (LocalCacheWatch.flush groupId) host
  | .clear host => x.onHost LocalCacheWatch.clear host
  | .localPut o host key item => x.put o host key item
  | .localDropInactive o maxDropCount => x.dropInactive o maxDropCount

/-! ## Well-formed groups -/

/-- The item under a key, in whichever map it is. -/
def GroupItem.find (g : GroupItem) (k : String) : Option CacheItem :=
  (g.activeCacheMap.lookup k).or (g.inactiveCacheMap.lookup k)

/-- No key is in both maps, and items are under their own keys and have a property. -/
structure GroupItem.Valid (P : CacheItem → Prop) (g : GroupItem) : Prop where
  disjoint : ∀ k, g.inactiveCacheMap.lookup k = none ∨ g.activeCacheMap.lookup k = none
  inactive : ∀ k i, g.inactiveCacheMap.lookup k = some i → i.key = k ∧ P i
  active : ∀ k i, g.activeCacheMap.lookup k = some i → i.key = k ∧ P i

/-- The items of a group have a property that depends on the group. -/
def LocalCacheWatch.Valid (P : Nat → CacheItem → Prop) (w : LocalCacheWatch) : Prop :=
  ∀ id g, w.groupMap.lookup id = some g → g.Valid (P id)

namespace GroupItem

variable {P : CacheItem → Prop} {g : GroupItem} {item : CacheItem} {k : String}

theorem valid_empty : empty.Valid P := ⟨fun _ => .inl rfl, nofun, nofun⟩

theorem mem_values {m : Table String CacheItem} :
    item ∈ values m ↔ ∃ k, m.lookup k = some item := by
  rw [values, List.mem_map]
  constructor
  · rintro ⟨e, he, rfl⟩
    exact ⟨e.1, Table.mem_entries_iff.mp he⟩
  · rintro ⟨k, hk⟩
    exact ⟨⟨k, item⟩, Table.mem_entries_iff.mpr hk, rfl⟩

theorem map_key_values {m : Table String CacheItem}
    (h : ∀ k i, m.lookup k = some i → i.key = k ∧ P i) :
    (values m).map CacheItem.key = m.keys := by
  rw [values, List.map_map]
  exact List.map_congr_left fun e he => (h e.1 e.2 (Table.mem_entries_iff.mp he)).1

/-- A key that is not in the active map is free there or in the inactive map. -/
theorem Valid.find_of_inactive (h : g.Valid P) (hk : g.inactiveCacheMap.lookup k = some item) :
    g.activeCacheMap.lookup k = none ∧ g.find k = some item := by
  have hactive : g.activeCacheMap.lookup k = none :=
    (h.disjoint k).resolve_left (by rw [hk]; exact nofun)
  exact ⟨hactive, by rw [find, hactive, hk]; rfl⟩

theorem find_of_active (hk : g.activeCacheMap.lookup k = some item) : g.find k = some item := by
  rw [find, hk]
  rfl

theorem find_eq_none_iff : g.find k = none ↔
    g.activeCacheMap.lookup k = none ∧ g.inactiveCacheMap.lookup k = none := Option.or_eq_none_iff

theorem Valid.of_find (h : g.Valid P) (hk : g.find k = some item) : item.key = k ∧ P item := by
  rcases Option.or_eq_some_iff.mp hk with hactive | ⟨-, hinactive⟩
  · exact h.active k item hactive
  · exact h.inactive k item hinactive

theorem valid_eraseInactive (h : g.Valid P) (k : String) :
    Valid P { g with inactiveCacheMap := g.inactiveCacheMap.erase k } := by
  refine ⟨fun k' => ?_, fun k' i hi => ?_, h.active⟩
  · rw [Table.lookup_erase_eq]
    split
    · exact .inl rfl
    · exact h.disjoint k'
  · rw [Table.lookup_erase_eq] at hi
    split at hi
    · exact nomatch hi
    · exact h.inactive k' i hi

theorem find_eraseInactive (h : g.Valid P) (hk : g.inactiveCacheMap.lookup k = some item) :
    find { g with inactiveCacheMap := g.inactiveCacheMap.erase k } =
      Function.update g.find k none := by
  funext k'
  rw [find, Table.lookup_erase_eq]
  by_cases hkk : k' = k
  · rw [hkk, if_pos rfl, Function.update_self, (h.find_of_inactive hk).1]
    rfl
  · rw [if_neg hkk, Function.update_of_ne hkk]
    rfl

theorem valid_eraseActive (h : g.Valid P) (k : String) :
    Valid P { g with activeCacheMap := g.activeCacheMap.erase k } := by
  refine ⟨fun k' => ?_, h.inactive, fun k' i hi => ?_⟩
  · rw [Table.lookup_erase_eq]
    split
    · exact .inr rfl
    · exact h.disjoint k'
  · rw [Table.lookup_erase_eq] at hi
    split at hi
    · exact nomatch hi
    · exact h.active k' i hi

theorem find_eraseActive (h : g.Valid P) (hk : g.activeCacheMap.lookup k = some item) :
    find { g with activeCacheMap := g.activeCacheMap.erase k } =
      Function.update g.find k none := by
  have hinactive : g.inactiveCacheMap.lookup k = none :=
    (h.disjoint k).resolve_right (by rw [hk]; exact nofun)
  funext k'
  rw [find, Table.lookup_erase_eq]
  by_cases hkk : k' = k
  · rw [hkk, if_pos rfl, Function.update_self, hinactive]
    rfl
  · rw [if_neg hkk, Function.update_of_ne hkk]
    rfl

theorem valid_insert (h : g.Valid P) (ha : g.activeCacheMap.lookup k = none)
    (hkey : item.key = k) (hP : P item) :
    Valid P { g with inactiveCacheMap := g.inactiveCacheMap.insert k item } := by
  refine ⟨fun k' => ?_, fun k' i hk' => ?_, h.active⟩
  · by_cases hk : k' = k
    · exact .inr (hk ▸ ha)
    · rw [AList.lookup_insert_ne hk]
      exact h.disjoint k'
  · rw [Table.lookup_insert_eq] at hk'
    split at hk'
    · next hk => exact Option.some.inj hk' ▸ ⟨hkey.trans hk.symm, hP⟩
    · exact h.inactive k' i hk'

theorem find_insert (ha : g.activeCacheMap.lookup k = none) (item : CacheItem) :
    find { g with inactiveCacheMap := g.inactiveCacheMap.insert k item } =
      Function.update g.find k (some item) := by
  funext k'
  rw [find, Table.lookup_insert_eq]
  by_cases hkk : k' = k
  · rw [hkk, if_pos rfl, Function.update_self, ha]
    rfl
  · rw [if_neg hkk, Function.update_of_ne hkk]
    rfl

/-- `get` moves the item it returns. -/
theorem valid_get (h : g.Valid P) (k : String) : (g.get k).2.Valid P := by
  unfold get
  split
  · exact h
  · split
    · next item hlook =>
      refine ⟨fun k' => ?_, (valid_eraseInactive h k).inactive, fun k' i hi => ?_⟩
      · rw [Table.lookup_erase_eq, Table.lookup_insert_eq]
        split
        · exact .inl rfl
        · exact h.disjoint k'
      · rw [Table.lookup_insert_eq] at hi
        split at hi
        · next hk => exact Option.some.inj hi ▸ hk ▸ h.inactive k item hlook
        · exact h.active k' i hi
    · exact h

theorem find_get (h : g.Valid P) (k : String) : (g.get k).2.find = g.find := by
  unfold get
  split
  · rfl
  · split
    · next item hlook =>
      funext k'
      rw [find, Table.lookup_erase_eq, Table.lookup_insert_eq]
      by_cases hkk : k' = k
      · rw [hkk, if_pos rfl, if_pos rfl, (h.find_of_inactive hlook).2]
        rfl
      · rw [if_neg hkk, if_neg hkk]
        rfl
    · rfl

theorem fst_get (g : GroupItem) (k : String) : (g.get k).1 = g.find k := by
  unfold get find
  cases g.activeCacheMap.lookup k with
  | some item => rfl
  | none =>
    cases g.inactiveCacheMap.lookup k with
    | some item => rfl
    | none => rfl

theorem nodup_active (h : g.Valid P) : ((values g.activeCacheMap).map CacheItem.key).Nodup := by
  rw [map_key_values h.active]
  exact g.activeCacheMap.keys_nodup

theorem valid_deactivate (h : g.Valid P) : g.deactivate.Valid P := by
  refine ⟨fun k => .inr rfl, fun k i hi => ?_, nofun⟩
  rcases (Table.lookup_insertAll (nodup_active h)).mp hi with ⟨hmem, hkey⟩ | ⟨hlook, -⟩
  · obtain ⟨k', hk'⟩ := mem_values.mp hmem
    exact ⟨hkey, (h.active k' i hk').2⟩
  · exact h.inactive k i hlook

theorem find_deactivate (h : g.Valid P) : g.deactivate.find = g.find := by
  funext k
  refine Option.ext fun i => ?_
  show (Table.insertAll CacheItem.key (values g.activeCacheMap) g.inactiveCacheMap).lookup k =
    some i ↔ g.find k = some i
  rw [Table.lookup_insertAll (nodup_active h), find, Option.or_eq_some_iff]
  refine or_congr ?_ ?_
  · constructor
    · rintro ⟨hmem, hkey⟩
      obtain ⟨k', hk'⟩ := mem_values.mp hmem
      rw [← hkey, (h.active k' i hk').1]
      exact hk'
    · intro hk
      exact ⟨mem_values.mpr ⟨k, hk⟩, (h.active k i hk).1⟩
  · constructor
    · rintro ⟨hlook, -⟩
      exact ⟨(h.find_of_inactive hlook).1, hlook⟩
    · rintro ⟨hnone, hlook⟩
      refine ⟨hlook, fun u hu hkey => ?_⟩
      obtain ⟨k', hk'⟩ := mem_values.mp hu
      rw [← hkey, (h.active k' u hk').1, hk'] at hnone
      exact nomatch hnone

end GroupItem

theorem LocalCacheWatch.valid_insert {P : Nat → CacheItem → Prop} {w : LocalCacheWatch} {id : Nat}
    {g : GroupItem} (h : w.Valid P) (hg : g.Valid (P id)) (m : Table Nat CacheItem) :
    Valid P ⟨w.groupMap.insert id g, m⟩ := by
  intro id' g' hg'
  rw [Table.lookup_insert_eq] at hg'
  split at hg'
  · next hid =>
    rw [← Option.some.inj hg', hid]
    exact hg
  · exact h id' g' hg'

theorem LocalCacheWatch.valid_get {P : Nat → CacheItem → Prop} {w : LocalCacheWatch}
    (h : w.Valid P) (id : Nat) (k : String) : (w.get id k).2.Valid P := by
  unfold LocalCacheWatch.get
  cases hlook : w.groupMap.lookup id with
  | none => exact h
  | some g => exact LocalCacheWatch.valid_insert h (GroupItem.valid_get (h id g hlook) k) _

/-- The item that is returned is under its key, and one of the group. -/
theorem LocalCacheWatch.of_get {P : Nat → CacheItem → Prop} {w : LocalCacheWatch} {id : Nat}
    {k : String} {item : CacheItem} (h : w.Valid P) (hget : (w.get id k).1 = some item) :
    item.key = k ∧ P id item := by
  unfold LocalCacheWatch.get at hget
  cases hlook : w.groupMap.lookup id with
  | none =>
    rw [hlook] at hget
    exact nomatch hget
  | some g =>
    rw [hlook] at hget
    have hfind : g.find k = some item := (GroupItem.fst_get g k).symm.trans hget
    exact (h id g hlook).of_find hfind

/-- The hosts start without groups. -/
theorem LocalCache.lookup_start {hosts : List String} {maxCacheSize warningCacheSize : BitVec 64}
    {host : String} {w : LocalCacheWatch}
    (h : (start hosts maxCacheSize warningCacheSize).watchMap.lookup host = some w) :
    w = .empty := by
  have hempty (m : Table String LocalCacheWatch)
      (hm : ∀ host w, m.lookup host = some w → w = .empty) (hosts : List String) :
      ∀ host w, (hosts.foldl (fun m host => m.insert host .empty) m).lookup host = some w →
        w = LocalCacheWatch.empty := by
    induction hosts generalizing m with
    | nil => exact hm
    | cons host hosts ih =>
      refine ih _ fun host' w hw => ?_
      rw [Table.lookup_insert_eq] at hw
      split at hw
      · exact (Option.some.inj hw).symm
      · exact hm host' w hw
  exact hempty ∅ nofun hosts host w h

theorem LocalCache.exists_lookup_start {hosts : List String} {host : String}
    (maxCacheSize warningCacheSize : BitVec 64) (h : host ∈ hosts) :
    ∃ w, (start hosts maxCacheSize warningCacheSize).watchMap.lookup host = some w := by
  have hkeep (m : Table String LocalCacheWatch) (hosts : List String)
      (hm : host ∈ hosts ∨ host ∈ m) :
      host ∈ hosts.foldl (fun m host => m.insert host .empty) m := by
    induction hosts generalizing m with
    | nil => exact hm.resolve_left List.not_mem_nil
    | cons host' hosts ih =>
      refine ih _ ?_
      rcases hm with hm | hm
      · rcases List.mem_cons.mp hm with rfl | hm
        · exact .inr (AList.mem_insert _ |>.mpr (.inl rfl))
        · exact .inl hm
      · exact .inr ((AList.mem_insert _).mpr (.inr hm))
  exact Option.isSome_iff_exists.mp (AList.lookup_isSome.mpr (hkeep ∅ hosts (.inl h)))

end Xixi.Local
