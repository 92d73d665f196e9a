import Mathlib.Algebra.Order.BigOperators.Group.List
import Xixi.Client.Accounting
import Xixi.Client.CacheIdIndex

/-!
# The size limit of the local cache

`LocalCache.put` looks at the limit only when the cache is over the warning size. Below it, an item
is stored whatever its size.

1. `GroupItem.size`, `LocalCacheWatch.size`: the sums of the sizes of stored items.
2. `Lighter`: no method but `put` makes a sum larger. `size_put`: what `put` does.
3. `LocalCache.Fits`: an item that is stored without a look at the limit is not larger than what
   stands between the warning size and the limit.
4. `limited_run`: with such items only, the counter is never over the limit; with items of one byte
   more it can be.
-/

namespace Xixi.Local

open Lib AccountingLemmas

def CacheItem.size (item : CacheItem) : Int := item.itemSize.toInt

/-- The size is not negative. -/
def CacheItem.Counted (item : CacheItem) : Prop := 0 ≤ item.size

instance (item : CacheItem) : Decidable item.Counted := inferInstanceAs (Decidable (_ ≤ _))

def GroupItem.size (g : GroupItem) : Int := g.sum CacheItem.size

def LocalCacheWatch.size (w : LocalCacheWatch) : Int := Table.total GroupItem.size w.groupMap

/-- The size of what is stored in the place of an item. -/
def LocalCacheWatch.overwritten (w : LocalCacheWatch) (key : String) (item : CacheItem) : Int :=
  ((w.stored (item.groupId, key)).map CacheItem.size).getD 0

/-- An item can be put: its size and the counter are below `2 ^ 63` together, and if the cache is
not over the warning size, it is not larger than what stands between that and the limit. -/
def LocalCache.Fits (item : CacheItem) (x : LocalCache) : Prop :=
  x.counters.cacheSize.toInt + item.size < 2 ^ 63 ∧
    (x.counters.cacheSize.toInt ≤ x.warningCacheSize.toInt →
      item.size ≤ x.maxCacheSize.toInt - x.warningCacheSize.toInt)

instance (item : CacheItem) (x : LocalCache) : Decidable (x.Fits item) :=
  inferInstanceAs (Decidable (_ ∧ _))

/-- The calls that the client makes: items are put through `LocalCache`, under their own keys, and
their sizes are not negative. -/
def Op.Public : Op → Prop
  | .put .. => False
  | .localPut _ _ key item => item.key = key ∧ item.Counted
  | _ => True

def Op.Fits (x : LocalCache) : Op → Prop
  | .localPut _ _ _ item => x.Fits item
  | _ => True

instance (x : LocalCache) : DecidablePred (Op.Fits x)
  | .localPut _ _ _ item => inferInstanceAs (Decidable (x.Fits item))
  | .put .. | .get .. | .remove .. | .update .. | .dropInactive .. | .flush .. | .clear ..
  | .localDropInactive .. => .isTrue trivial

/-! ## Groups -/

namespace GroupItem

/-- What is left is not larger. -/
structure Lighter (g g' : GroupItem) : Prop where
  valid : g'.Valid CacheItem.Counted
  size : g'.size ≤ g.size

variable {g g' g'' : GroupItem} {item : CacheItem} {k : String}

theorem Lighter.refl (h : g.Valid CacheItem.Counted) : g.Lighter g := ⟨h, le_refl _⟩

theorem Lighter.trans (h : g.Lighter g') (h' : g'.Lighter g'') : g.Lighter g'' :=
  ⟨h'.valid, h'.size.trans h.size⟩

theorem size_empty : empty.size = 0 := rfl

theorem size_nonneg (h : g.Valid CacheItem.Counted) : 0 ≤ g.size := by
  have hmap (m : Table String CacheItem) (hm : ∀ k i, m.lookup k = some i → i.key = k ∧ i.Counted) :
      0 ≤ Table.total CacheItem.size m := by
    refine List.sum_nonneg fun n hn => ?_
    obtain ⟨e, he, rfl⟩ := List.mem_map.mp hn
    exact (hm e.1 e.2 (Table.mem_entries_iff.mp he)).2
  exact add_nonneg (hmap _ h.inactive) (hmap _ h.active)

theorem lighter_eraseInactive (h : g.Valid CacheItem.Counted)
    (hk : g.inactiveCacheMap.lookup k = some item) :
    g.Lighter { g with inactiveCacheMap := g.inactiveCacheMap.erase k } := by
  have hsum := sum_eraseInactive CacheItem.size hk
  have hpos : 0 ≤ item.size := (h.inactive k item hk).2
  exact ⟨valid_eraseInactive h k, by rw [size, size]; omega⟩

theorem lighter_eraseActive (h : g.Valid CacheItem.Counted)
    (hk : g.activeCacheMap.lookup k = some item) :
    g.Lighter { g with activeCacheMap := g.activeCacheMap.erase k } := by
  have hsum := sum_eraseActive CacheItem.size hk
  have hpos : 0 ≤ item.size := (h.active k item hk).2
  exact ⟨valid_eraseActive h k, by rw [size, size]; omega⟩

theorem lighter_clear (h : g.Valid CacheItem.Counted) (x : Shared) : g.Lighter (g.clear x).1 :=
  ⟨valid_empty, size_nonneg h⟩

theorem lighter_dropLoop (o : Order) (n : Nat) (it : List CacheItem) (h : g.Valid CacheItem.Counted)
    (x : Shared) : g.Lighter (dropLoop o n it g x).1 := by
  induction n generalizing it g x with
  | zero => exact .refl h
  | succ n ih =>
    cases it with
    | nil => exact .refl h
    | cons item it =>
      rw [dropLoop]
      split
      · exact ih it h x
      · next item2 _ =>
        dsimp only
        split
        · exact ih _ h _
        · next dropped hlook =>
          have hstep := lighter_eraseInactive h hlook
          exact hstep.trans (ih _ hstep.valid _)

theorem lighter_dropInactive (o : Order) (maxCount : Int) (h : g.Valid CacheItem.Counted)
    (x : Shared) : g.Lighter (g.dropInactive o maxCount x).1 := by
  obtain ⟨hvalid, hsize⟩ := lighter_dropLoop o maxCount.toNat (o.values g.inactiveCacheMap) h x
  exact ⟨valid_deactivate hvalid, (sum_deactivate CacheItem.size hvalid).le.trans hsize⟩

theorem lighter_get (h : g.Valid CacheItem.Counted) (k : String) : g.Lighter (g.get k).2 :=
  ⟨valid_get h k, (sum_get CacheItem.size g k).le⟩

theorem lighter_remove (h : g.Valid CacheItem.Counted) (k : String) (x : Shared) :
    g.Lighter (g.remove k x).2.1 := by
  unfold remove
  split
  · next item hlook => exact lighter_eraseActive h hlook
  · split
    · next item hlook => exact lighter_eraseInactive h hlook
    · exact .refl h

theorem lighter_update (h : g.Valid CacheItem.Counted) (it : CacheItem) (x : Shared) :
    g.Lighter (g.update it x).1 := by
  unfold update
  split
  · next item hlook => exact lighter_eraseActive h hlook
  · split
    · next item hlook => exact lighter_eraseInactive h hlook
    · exact .refl h

/-- An item takes the place of the one under its key. -/
theorem size_put (h : g.Valid CacheItem.Counted) (k : String) (item : CacheItem) (x : Shared) :
    (g.put k item x).1.size + ((g.find k).map CacheItem.size).getD 0 = g.size + item.size := by
  unfold put
  dsimp only
  split
  · next old hold =>
    have hdrop := sum_eraseInactive CacheItem.size hold
    have hadd := sum_insert CacheItem.size
      (g := { g with inactiveCacheMap := g.inactiveCacheMap.erase k }) (AList.lookup_erase k _) item
    dsimp only at hadd
    rw [Table.insert_erase_self] at hadd
    rw [(h.find_of_inactive hold).2, size, size, hadd]
    simp only [Option.map_some, Option.getD_some]
    omega
  · next hnone =>
    split
    · next old hold =>
      have hdrop := sum_eraseActive CacheItem.size hold
      have hadd := sum_insert CacheItem.size
        (g := { g with activeCacheMap := g.activeCacheMap.erase k }) hnone item
      rw [find_of_active hold, size, size, hadd]
      simp only [Option.map_some, Option.getD_some]
      omega
    · next hactive =>
      rw [find_eq_none_iff.mpr ⟨hactive, hnone⟩, size, sum_insert CacheItem.size hnone, size]
      simp only [Option.map_none, Option.getD_none]
      omega

theorem valid_put (h : g.Valid CacheItem.Counted) (hkey : item.key = k) (hsize : item.Counted)
    (x : Shared) : (g.put k item x).1.Valid CacheItem.Counted := by
  unfold put
  dsimp only
  split
  · next old hold => exact valid_insert h (h.find_of_inactive hold).1 hkey hsize
  · split
    · exact valid_insert (valid_eraseActive h k) (AList.lookup_erase k _) hkey hsize
    · next hactive => exact valid_insert h hactive hkey hsize

end GroupItem

/-! ## Hosts -/

namespace LocalCacheWatch

/-- What is left is not larger. -/
structure Lighter (w w' : LocalCacheWatch) : Prop where
  valid : w'.Valid fun _ => CacheItem.Counted
  size : w'.size ≤ w.size

variable {w w' w'' : LocalCacheWatch} {c : Counters} {g' : GroupItem} {id : Nat}
  {f : GroupItem → Shared → GroupItem × Shared} {item : CacheItem} {k : String}

theorem Lighter.refl (h : w.Valid fun _ => CacheItem.Counted) : w.Lighter w := ⟨h, le_refl _⟩

theorem Lighter.trans (h : w.Lighter w') (h' : w'.Lighter w'') : w.Lighter w'' :=
  ⟨h'.valid, h'.size.trans h.size⟩

theorem lighter_insert {g : GroupItem} (h : w.Valid fun _ => CacheItem.Counted)
    (hlook : w.groupMap.lookup id = some g) (hg : g.Lighter g') (m : Table Nat CacheItem) :
    w.Lighter ⟨w.groupMap.insert id g', m⟩ := by
  have hsum := Table.add_total_insert GroupItem.size hlook g'
  have hsize := hg.size
  refine ⟨valid_insert h hg.valid m, ?_⟩
  show Table.total GroupItem.size (w.groupMap.insert id g') ≤ Table.total GroupItem.size w.groupMap
  omega

theorem lighter_onGroup
    (hf : ∀ (g : GroupItem) (x : Shared), g.Valid CacheItem.Counted → g.Lighter (f g x).1)
    (h : w.Valid fun _ => CacheItem.Counted) (id : Nat) (c : Counters) :
    w.Lighter (onGroup f id w c).1 := by
  unfold onGroup
  split
  · exact .refl h
  · next g hlook => exact lighter_insert h hlook (hf g _ (h id g hlook)) _

theorem lighter_onGroups
    (hf : ∀ (g : GroupItem) (x : Shared), g.Valid CacheItem.Counted → g.Lighter (f g x).1)
    (h : w.Valid fun _ => CacheItem.Counted) (ids : List Nat) (c : Counters) :
    w.Lighter (onGroups f ids w c).1 := by
  unfold onGroups
  induction ids generalizing w c with
  | nil => exact .refl h
  | cons id ids ih =>
    have hstep := lighter_onGroup hf h id c
    exact hstep.trans (ih hstep.valid _)

theorem lighter_clear (h : w.Valid fun _ => CacheItem.Counted) (c : Counters) :
    w.Lighter (w.clear c).1 := by
  obtain ⟨hvalid, hsize⟩ :=
    lighter_onGroups (fun g x hg => GroupItem.lighter_clear hg x) h w.groupMap.keys c
  exact ⟨hvalid, hsize⟩

theorem lighter_get (h : w.Valid fun _ => CacheItem.Counted) (id : Nat) (k : String) :
    w.Lighter (w.get id k).2 := by
  unfold get
  split
  · exact .refl h
  · next g hlook => exact lighter_insert h hlook (GroupItem.lighter_get (h id g hlook) k) _

theorem lighter_remove (h : w.Valid fun _ => CacheItem.Counted) (id : Nat) (k : String)
    (c : Counters) : w.Lighter (w.remove id k c).2.1 := by
  unfold remove
  split
  · exact .refl h
  · next g hlook => exact lighter_insert h hlook (GroupItem.lighter_remove (h id g hlook) k _) _

theorem lighter_update (h : w.Valid fun _ => CacheItem.Counted) (cacheIds : List Nat)
    (c : Counters) : w.Lighter (w.update cacheIds c).1 := by
  unfold update
  induction cacheIds generalizing w c with
  | nil => exact .refl h
  | cons cacheId cacheIds ih =>
    have hstep : w.Lighter (w.updateOne cacheId c).1 := by
      unfold updateOne
      split
      · exact .refl h
      · next it _ =>
        obtain ⟨hvalid, hsize⟩ := lighter_onGroup (w := { w with
          cacheIdMap := w.cacheIdMap.erase cacheId })
          (fun g x hg => GroupItem.lighter_update hg it x) h it.groupId c
        exact ⟨hvalid, hsize⟩
    exact hstep.trans (ih hstep.valid _)

/-- `put` into a group that is there. -/
theorem size_put_some {g : GroupItem} (h : w.Valid fun _ => CacheItem.Counted)
    (hlook : w.groupMap.lookup item.groupId = some g) (hkey : item.key = k) (hsize : item.Counted)
    (c : Counters) :
    (onGroup (GroupItem.put k item) item.groupId w c).1.Valid (fun _ => CacheItem.Counted) ∧
      (onGroup (GroupItem.put k item) item.groupId w c).1.size + w.overwritten k item =
        w.size + item.size := by
  have hg := h _ g hlook
  have hput := GroupItem.size_put hg k item ⟨c, w.cacheIdMap⟩
  have hstored : w.stored (item.groupId, k) = g.find k := by
    rw [stored, hlook]
    rfl
  have hsum := Table.add_total_insert GroupItem.size hlook (g.put k item ⟨c, w.cacheIdMap⟩).1
  rw [onGroup, hlook]
  refine ⟨valid_insert h (GroupItem.valid_put hg hkey hsize _) _, ?_⟩
  rw [overwritten, hstored]
  show Table.total GroupItem.size
      (w.groupMap.insert item.groupId (g.put k item ⟨c, w.cacheIdMap⟩).1) +
    ((g.find k).map CacheItem.size).getD 0 = Table.total GroupItem.size w.groupMap + item.size
  omega

/-- An item takes the place of the one under its group and key. -/
theorem size_put (h : w.Valid fun _ => CacheItem.Counted) (hkey : item.key = k)
    (hsize : item.Counted) (c : Counters) : (w.put k item c).1.Valid (fun _ => CacheItem.Counted) ∧
      (w.put k item c).1.size + w.overwritten k item = w.size + item.size := by
  unfold put
  split
  · next g hlook => exact size_put_some h hlook hkey hsize c
  · next hnone =>
    -- a new group has nothing to overwrite
    let w₁ : LocalCacheWatch := { w with groupMap := w.groupMap.insert item.groupId .empty }
    have hvalid : w₁.Valid fun _ => CacheItem.Counted := valid_insert h GroupItem.valid_empty _
    have hlook : w₁.groupMap.lookup item.groupId = some .empty := AList.lookup_insert _
    have hsize₁ : w₁.size = w.size := by
      show Table.total GroupItem.size (w.groupMap.insert item.groupId .empty) = _
      rw [Table.total_insert_of_none _ hnone, GroupItem.size_empty, zero_add]
      rfl
    have hold : w.overwritten k item = 0 := by
      rw [overwritten, stored, hnone]
      rfl
    have hold₁ : w₁.overwritten k item = 0 := by
      rw [overwritten, stored, hlook]
      rfl
    obtain ⟨hv, hs⟩ := size_put_some hvalid hlook hkey hsize c
    rw [hold₁, hsize₁] at hs
    rw [hold]
    exact ⟨hv, hs⟩

end LocalCacheWatch

/-! ## The local cache -/

namespace CapacityLemmas

variable {x y : LocalCache} {f : LocalCacheWatch → Counters → LocalCacheWatch × Counters}

/-- The counters are right, and what is stored is counted. -/
structure Sound (x : LocalCache) : Prop where
  balance : Balance x
  counted : ∀ host w, x.watchMap.lookup host = some w → w.Valid fun _ => CacheItem.Counted

/-- What is left is not larger. -/
structure Lighter (x y : LocalCache) : Prop where
  sound : Sound y
  size : y.itemSizes ≤ x.itemSizes
  limit : y.maxCacheSize = x.maxCacheSize

theorem Lighter.refl (h : Sound x) : Lighter x x := ⟨h, le_refl _, rfl⟩

theorem Lighter.trans {z : LocalCache} (h : Lighter x y) (h' : Lighter y z) : Lighter x z :=
  ⟨h'.sound, h'.size.trans h.size, h'.limit.trans h.limit⟩

theorem sized_of_counted {item : CacheItem} (h : item.Counted) : item.Sized := by
  intro hmin
  rw [CacheItem.Counted, CacheItem.size, hmin] at h
  exact absurd h (by decide)

theorem itemSizes_nonneg (h : Sound x) : 0 ≤ x.itemSizes := by
  have hgroups (w : LocalCacheWatch) (hw : w.Valid fun _ => CacheItem.Counted) : 0 ≤ w.size := by
    refine List.sum_nonneg fun n hn => ?_
    obtain ⟨e, he, rfl⟩ := List.mem_map.mp hn
    exact GroupItem.size_nonneg (hw e.1 e.2 (Table.mem_entries_iff.mp he))
  refine List.sum_nonneg fun n hn => ?_
  obtain ⟨e, he, rfl⟩ := List.mem_map.mp hn
  exact hgroups e.2 (h.counted e.1 e.2 (Table.mem_entries_iff.mp he))

/-- The counter is the sum, as long as there are 63 bits for it. -/
theorem toInt_cacheSize (h : Sound x) (hlt : x.itemSizes < 2 ^ 63) :
    x.counters.cacheSize.toInt = x.itemSizes := by
  have hnonneg := itemSizes_nonneg h
  rw [(accounted_of_balance h.balance).cacheSize, BitVec.toInt_ofInt]
  exact Int.bmod_eq_of_le (by omega) (by omega)

theorem counted_insert (h : Sound x) {host : String} {w : LocalCacheWatch}
    (hw : w.Valid fun _ => CacheItem.Counted) (c : Counters) : ∀ host' w',
      ({ x with watchMap := x.watchMap.insert host w, counters := c } : LocalCache).watchMap.lookup
        host' = some w' → w'.Valid fun _ => CacheItem.Counted := by
  intro host' w' hw'
  rw [Table.lookup_insert_eq] at hw'
  split at hw'
  · exact Option.some.inj hw' ▸ hw
  · exact h.counted host' w' hw'

theorem lighter_onHost
    (hbalanced : ∀ (w : LocalCacheWatch) (c : Counters),
      w.Valid (fun _ => CacheItem.Sized) → w.Balanced c (f w c))
    (hf : ∀ (w : LocalCacheWatch) (c : Counters),
      w.Valid (fun _ => CacheItem.Counted) → w.Lighter (f w c).1)
    (h : Sound x) (host : String) : Lighter x (x.onHost f host) := by
  have hbalance := balance_onHost hbalanced h.balance host
  unfold LocalCache.onHost at hbalance ⊢
  cases hlook : x.watchMap.lookup host with
  | none => exact .refl h
  | some w =>
    rw [hlook] at hbalance
    have hw := hf w x.counters (h.counted host w hlook)
    have hsum := Table.add_total_insert LocalCacheWatch.size hlook (f w x.counters).1
    refine ⟨⟨hbalance, counted_insert h hw.valid _⟩, ?_, rfl⟩
    have hsize := hw.size
    show Table.total LocalCacheWatch.size (x.watchMap.insert host (f w x.counters).1) ≤
      Table.total LocalCacheWatch.size x.watchMap
    omega

theorem lighter_dropInactive (o : Order) (n : Int) (h : Sound x) :
    Lighter x (x.dropInactive o n) := by
  unfold LocalCache.dropInactive
  generalize o.hosts x.watchMap = hosts
  induction hosts generalizing x with
  | nil => exact .refl h
  | cons host hosts ih =>
    have hstep := lighter_onHost
      (fun w c hw => LocalCacheWatch.balanced_dropInactive o n hw c)
      (fun w c hw => LocalCacheWatch.lighter_onGroups
        (fun g x hg => GroupItem.lighter_dropInactive o n hg x) hw _ c) h host
    exact hstep.trans (ih hstep.sound)

/-- An item is stored. -/
theorem size_onHost_put {host key : String} {item : CacheItem} {w : LocalCacheWatch} (h : Sound x)
    (hlook : x.watchMap.lookup host = some w) (hkey : item.key = key) (hsize : item.Counted) :
    Sound (x.onHost (LocalCacheWatch.put key item) host) ∧
      (x.onHost (LocalCacheWatch.put key item) host).itemSizes + w.overwritten key item =
        x.itemSizes + item.size := by
  have hbalance := balance_onHost
    (fun w c hw => LocalCacheWatch.balanced_put hw hkey (sized_of_counted hsize) c) h.balance host
  obtain ⟨hvalid, hput⟩ := LocalCacheWatch.size_put (h.counted host w hlook) hkey hsize x.counters
  have hsum := Table.add_total_insert LocalCacheWatch.size hlook (w.put key item x.counters).1
  rw [LocalCache.onHost, hlook] at hbalance ⊢
  refine ⟨⟨hbalance, counted_insert h hvalid _⟩, ?_⟩
  show Table.total LocalCacheWatch.size (x.watchMap.insert host (w.put key item x.counters).1) +
    w.overwritten key item = Table.total LocalCacheWatch.size x.watchMap + item.size
  omega

theorem overwritten_nonneg {w : LocalCacheWatch} (hw : w.Valid fun _ => CacheItem.Counted)
    (key : String) (item : CacheItem) : 0 ≤ w.overwritten key item := by
  rw [LocalCacheWatch.overwritten]
  cases hstored : w.stored (item.groupId, key) with
  | none => exact le_refl _
  | some old =>
    obtain ⟨g, hg, hfind⟩ := Option.bind_eq_some_iff.mp hstored
    exact ((hw _ g hg).of_find hfind).2

theorem limit_onHost (f : LocalCacheWatch → Counters → LocalCacheWatch × Counters) (host : String) :
    (x.onHost f host).maxCacheSize = x.maxCacheSize := by
  unfold LocalCache.onHost
  split <;> rfl

/-- What every call keeps. -/
structure Limited (limit : BitVec 64) (x : LocalCache) : Prop where
  sound : Sound x
  size : x.itemSizes ≤ limit.toInt
  limit : x.maxCacheSize = limit

variable {limit : BitVec 64}

theorem Limited.of_lighter (h : Limited limit x) (hy : Lighter x y) : Limited limit y :=
  ⟨hy.sound, hy.size.trans h.size, hy.limit.trans h.limit⟩

theorem Limited.lt (h : Limited limit x) : x.itemSizes < 2 ^ 63 := h.size.trans_lt BitVec.toInt_lt

theorem limited_put {o : Order} {host key : String} {item : CacheItem} (h : Limited limit x)
    (hfits : x.Fits item) (hkey : item.key = key) (hsize : item.Counted) :
    Limited limit (x.put o host key item) := by
  have hcounter := toInt_cacheSize h.sound h.lt
  obtain ⟨hwide, hfits⟩ := hfits
  unfold LocalCache.put
  cases hlook : x.watchMap.lookup host with
  | none => exact h
  | some w =>
    dsimp only
    split
    · next hover =>
      have hdrop := lighter_dropInactive o 100 h.sound
      have hy : Limited limit (x.dropInactive o 100) := h.of_lighter hdrop
      generalize x.dropInactive o 100 = y at hdrop hy ⊢
      have hcounter' := toInt_cacheSize hy.sound hy.lt
      split
      · next hroom =>
        -- the sum is compared without an overflow
        have hsum : (y.counters.cacheSize + item.itemSize.signExtend 64).toInt =
            y.itemSizes + item.size := by
          have hnonneg := itemSizes_nonneg hy.sound
          have hitem : 0 ≤ item.itemSize.toInt := hsize
          have hless := hdrop.size
          rw [BitVec.toInt_add, BitVec.toInt_signExtend_of_le (by decide), hcounter']
          rw [hcounter, CacheItem.size] at hwide
          exact Int.bmod_eq_of_le (by omega) (by omega)
        have hlt : y.itemSizes + item.size < limit.toInt := by
          rw [← hsum, ← hy.limit]
          exact BitVec.slt_iff_toInt_lt.mp hroom
        cases hlook' : y.watchMap.lookup host with
        | none =>
          rw [LocalCache.onHost, hlook']
          exact hy
        | some w' =>
          obtain ⟨hsound, hput⟩ := size_onHost_put hy.sound hlook' hkey hsize
          have hold := overwritten_nonneg (hy.sound.counted host w' hlook') key item
          exact ⟨hsound, by omega, (limit_onHost _ host).trans hy.limit⟩
      · exact hy
    · next hunder =>
      obtain ⟨hsound, hput⟩ := size_onHost_put h.sound hlook hkey hsize
      have hwarning : x.counters.cacheSize.toInt ≤ x.warningCacheSize.toInt :=
        Int.not_lt.mp fun hlt => hunder (BitVec.slt_iff_toInt_lt.mpr hlt)
      have hroom := hfits hwarning
      have hold := overwritten_nonneg (h.sound.counted host w hlook) key item
      rw [h.limit] at hroom
      rw [hcounter] at hwarning
      exact ⟨hsound, by omega, (limit_onHost _ host).trans h.limit⟩

theorem limited_exec {op : Op} (h : Limited limit x) (hop : op.Public) (hfits : op.Fits x) :
    Limited limit (x.exec op) := by
  cases op with
  | put host key item => exact hop.elim
  | get host id key =>
    exact h.of_lighter (lighter_onHost (fun w c hw => LocalCacheWatch.balanced_get hw id key c)
      (fun w _ hw => LocalCacheWatch.lighter_get hw id key) h.sound host)
  | remove host id key =>
    exact h.of_lighter (lighter_onHost (fun w c hw => LocalCacheWatch.balanced_remove hw id key c)
      (fun w c hw => LocalCacheWatch.lighter_remove hw id key c) h.sound host)
  | update host cacheIds =>
    exact h.of_lighter (lighter_onHost (fun w c hw => LocalCacheWatch.balanced_update hw cacheIds c)
      (fun w c hw => LocalCacheWatch.lighter_update hw cacheIds c) h.sound host)
  | dropInactive host o n =>
    exact h.of_lighter (lighter_onHost
      (fun w c hw => LocalCacheWatch.balanced_dropInactive o n hw c)
      (fun w c hw => LocalCacheWatch.lighter_onGroups
        (fun g x hg => GroupItem.lighter_dropInactive o n hg x) hw _ c) h.sound host)
  | flush host id =>
    exact h.of_lighter (lighter_onHost
      (fun w c hw => LocalCacheWatch.balanced_onGroup (fun g x hg => GroupItem.balanced_clear hg x)
        hw id c)
      (fun w c hw => LocalCacheWatch.lighter_onGroup (fun g x hg => GroupItem.lighter_clear hg x)
        hw id c) h.sound host)
  | clear host =>
    exact h.of_lighter (lighter_onHost (fun w c hw => LocalCacheWatch.balanced_clear hw c)
      (fun w c hw => LocalCacheWatch.lighter_clear hw c) h.sound host)
  | localPut o host key item => exact limited_put h hfits hop.1 hop.2
  | localDropInactive o n => exact h.of_lighter (lighter_dropInactive o n h.sound)

theorem sound_start {hosts : List String} {maxCacheSize warningCacheSize : BitVec 64} :
    Sound (.start hosts maxCacheSize warningCacheSize) := by
  refine ⟨balance_start hosts maxCacheSize warningCacheSize, fun host w hw => ?_⟩
  rw [LocalCache.lookup_start hw]
  exact nofun

theorem itemSizes_start {hosts : List String} {maxCacheSize warningCacheSize : BitVec 64} :
    (LocalCache.start hosts maxCacheSize warningCacheSize).itemSizes = 0 := by
  refine List.sum_eq_zero fun n hn => ?_
  obtain ⟨e, he, rfl⟩ := List.mem_map.mp hn
  rw [LocalCache.lookup_start (Table.mem_entries_iff.mp he)]
  rfl

theorem limited_start {hosts : List String} {maxCacheSize warningCacheSize : BitVec 64}
    (hmax : 0 ≤ maxCacheSize.toInt) :
    Limited maxCacheSize (.start hosts maxCacheSize warningCacheSize) :=
  ⟨sound_start, itemSizes_start.trans_le hmax, rfl⟩

theorem limited_foldl {ops : List Op} (h : Limited limit x) (hpublic : ∀ op ∈ ops, op.Public)
    (hfits : Admitted (fun x op => op.Fits x) LocalCache.exec x ops) :
    Limited limit (ops.foldl LocalCache.exec x) := by
  induction ops generalizing x with
  | nil => exact h
  | cons op ops ih =>
    obtain ⟨hop, hops⟩ := List.forall_mem_cons.mp hpublic
    exact ih (limited_exec h hop hfits.1) hops hfits.2

end CapacityLemmas

open CapacityLemmas

/-- The order in which the entries stand. -/
def Order.entries : Order where
  values m := m.entries.map Sigma.snd
  groups m := m.keys
  hosts m := m.keys
  values_perm _ := .refl _
  groups_perm _ := .refl _
  hosts_perm _ := .refl _

/-- The items that are put are not larger than `size`. -/
def Op.AtMost (size : Int) : Op → Prop
  | .localPut _ _ _ item => item.size ≤ size
  | _ => True

/-- The items of a host take `size` bytes, and groups from `id` on have not been used. -/
structure LocalCache.Filled (host : String) (size : Int) (id : Nat) (x : LocalCache) : Prop where
  sound : Sound x
  size : x.itemSizes = size
  unused : ∃ w, x.watchMap.lookup host = some w ∧ ∀ i, id ≤ i → w.groupMap.lookup i = none

namespace CapacityLemmas

variable {x : LocalCache} {host key : String} {item : CacheItem} {size : Int} {id : Nat}

/-- `put` changes no group but that of the item. -/
theorem groupMap_put (w : LocalCacheWatch) (key : String) (item : CacheItem) (c : Counters)
    {i : Nat} (hi : i ≠ item.groupId) :
    (w.put key item c).1.groupMap.lookup i = w.groupMap.lookup i := by
  have hgroup (w : LocalCacheWatch) :
      (LocalCacheWatch.onGroup (GroupItem.put key item) item.groupId w c).1.groupMap.lookup i =
        w.groupMap.lookup i := by
    unfold LocalCacheWatch.onGroup
    split
    · rfl
    · exact AList.lookup_insert_ne hi
  unfold LocalCacheWatch.put
  split
  · exact hgroup w
  · rw [hgroup]
    exact AList.lookup_insert_ne hi

/-- Up to the warning size an item is stored whatever its size. -/
theorem filled_put (h : x.Filled host size id) (hunder : size ≤ x.warningCacheSize.toInt)
    (o : Order) (item : CacheItem) (hkey : item.key = key) (hid : item.groupId = id)
    (hitem : item.Counted) :
    (x.put o host key item).Filled host (size + item.size) (id + 1) ∧
      (x.put o host key item).warningCacheSize = x.warningCacheSize := by
  obtain ⟨w, hlook, hnone⟩ := h.unused
  have hlt : x.itemSizes < 2 ^ 63 := by
    have hwarning := BitVec.toInt_lt (x := x.warningCacheSize)
    have hsize := h.size
    omega
  have hcounter := toInt_cacheSize h.sound hlt
  have hbelow : x.warningCacheSize.slt x.counters.cacheSize = false := by
    rw [BitVec.slt_eq_decide, hcounter, h.size]
    exact decide_eq_false (Int.not_lt.mpr hunder)
  have hput : x.put o host key item = x.onHost (LocalCacheWatch.put key item) host := by
    rw [LocalCache.put, hlook, hbelow]
    rfl
  have hfresh : w.overwritten key item = 0 := by
    rw [LocalCacheWatch.overwritten, LocalCacheWatch.stored, hnone item.groupId hid.ge]
    rfl
  obtain ⟨hsound, hsum⟩ := size_onHost_put h.sound hlook hkey hitem
  have hmap : (x.onHost (LocalCacheWatch.put key item) host).watchMap.lookup host =
      some (w.put key item x.counters).1 := by
    rw [LocalCache.onHost, hlook]
    exact AList.lookup_insert _
  rw [hput]
  refine ⟨⟨hsound, ?_, _, hmap, fun i hi => ?_⟩, ?_⟩
  · rw [hfresh, h.size, add_zero] at hsum
    exact hsum
  · rw [groupMap_put w key item x.counters (by omega)]
    exact hnone i (by omega)
  · rw [LocalCache.onHost, hlook]

/-- A host can be filled byte by byte up to the warning size, and by one item more. -/
theorem exists_filled {hosts : List String} {warningCacheSize : BitVec 64}
    (maxCacheSize : BitVec 64) (hhost : host ∈ hosts) (bound : Int) (hbound : 1 ≤ bound) (n : Nat)
    (hn : (n : Int) ≤ warningCacheSize.toInt) : ∃ (ops : List Op) (id : Nat),
      (∀ op ∈ ops, op.Public ∧ op.AtMost bound) ∧
      (ops.foldl LocalCache.exec (.start hosts maxCacheSize warningCacheSize)).Filled host n id ∧
      (ops.foldl LocalCache.exec (.start hosts maxCacheSize warningCacheSize)).warningCacheSize =
        warningCacheSize := by
  induction n with
  | zero =>
    obtain ⟨w, hw⟩ := LocalCache.exists_lookup_start maxCacheSize warningCacheSize hhost
    have hnone (i : Nat) : w.groupMap.lookup i = none := by
      rw [LocalCache.lookup_start hw]
      rfl
    exact ⟨[], 0, nofun, ⟨sound_start, itemSizes_start, w, hw, fun i _ => hnone i⟩, rfl⟩
  | succ n ih =>
    obtain ⟨ops, id, hops, hfilled, hwarning⟩ := ih (by omega)
    have hcounted : CacheItem.Counted ⟨0, 0, id, "k", 1⟩ := show (0 : Int) ≤ 1 by decide
    have hput : Op.Public (.localPut .entries host "k" ⟨0, 0, id, "k", 1⟩) ∧
        Op.AtMost bound (.localPut .entries host "k" ⟨0, 0, id, "k", 1⟩) :=
      ⟨⟨rfl, hcounted⟩, hbound⟩
    obtain ⟨hstep, hsame⟩ := filled_put hfilled (by rw [hwarning]; omega) .entries
      ⟨0, 0, id, "k", 1⟩ rfl rfl hcounted
    refine ⟨ops ++ [.localPut .entries host "k" ⟨0, 0, id, "k", 1⟩], id + 1, ?_, ?_, ?_⟩
    · exact List.forall_mem_append.mpr ⟨hops, List.forall_mem_singleton.mpr hput⟩
    · rw [List.foldl_append]
      exact hstep
    · rw [List.foldl_append]
      exact hsame.trans hwarning

end CapacityLemmas
/-- In every run of calls in which each item that is put fits, the counter is never over the limit.
With items of a size that does not fit, however they are bounded, there is a run in which it is. -/
theorem limited_run {hosts : List String} {maxCacheSize warningCacheSize : BitVec 64}
    (hmax : 0 ≤ maxCacheSize.toInt) :
    (∀ ops : List Op, (∀ op ∈ ops, op.Public) →
      Admitted (fun x op => op.Fits x) LocalCache.exec
        (.start hosts maxCacheSize warningCacheSize) ops →
      (ops.foldl LocalCache.exec
        (.start hosts maxCacheSize warningCacheSize)).counters.cacheSize.toInt ≤
          maxCacheSize.toInt) ∧
    ∀ host ∈ hosts, ∀ bound : BitVec 32, 0 ≤ warningCacheSize.toInt →
      warningCacheSize.toInt ≤ maxCacheSize.toInt → maxCacheSize.toInt + 1 < 2 ^ 63 →
      maxCacheSize.toInt - warningCacheSize.toInt < bound.toInt →
      ∃ ops : List Op, (∀ op ∈ ops, op.Public ∧ op.AtMost bound.toInt) ∧
        maxCacheSize.toInt < (ops.foldl LocalCache.exec
          (.start hosts maxCacheSize warningCacheSize)).counters.cacheSize.toInt := by
  refine ⟨fun ops hpublic hfits => ?_, fun host hhost bound hpos hle hwide hbound => ?_⟩
  · have h := limited_foldl (limited_start hmax) hpublic hfits
    rw [toInt_cacheSize h.sound h.lt]
    exact h.size
  · obtain ⟨n, hn⟩ := Int.eq_ofNat_of_zero_le hpos
    obtain ⟨ops, id, hops, hfilled, hwarning⟩ := exists_filled maxCacheSize hhost bound.toInt
      (by omega) n hn.ge
    -- one byte more than there is room for
    let last : CacheItem := ⟨0, 0, id, "k", .ofInt 32 (maxCacheSize.toInt + 1 - n)⟩
    have hlast : last.size = maxCacheSize.toInt + 1 - n := by
      have hlt := BitVec.toInt_lt (x := bound)
      rw [CacheItem.size, BitVec.toInt_ofInt]
      exact Int.bmod_eq_of_le (by omega) (by omega)
    have hcounted : last.Counted := by
      rw [CacheItem.Counted, hlast]
      omega
    obtain ⟨hover, -⟩ := filled_put hfilled (by rw [hwarning, hn]) .entries last rfl rfl
      hcounted
    refine ⟨ops ++ [.localPut .entries host "k" last], ?_, ?_⟩
    · have hop : Op.Public (.localPut .entries host "k" last) ∧
          Op.AtMost bound.toInt (.localPut .entries host "k" last) :=
        ⟨⟨rfl, hcounted⟩, by show last.size ≤ _; omega⟩
      exact List.forall_mem_append.mpr ⟨hops, List.forall_mem_singleton.mpr hop⟩
    · rw [List.foldl_append]
      show _ < (LocalCache.put _ _ _ _ _).counters.cacheSize.toInt
      rw [toInt_cacheSize hover.sound (by rw [hover.size, hlast]; omega), hover.size, hlast]
      omega

/-- Three items fill the cache over the warning size, and a fourth one of more bytes takes the
place of those that have not been read; an item of 301 bytes would not fit. -/
theorem limited_small :
    let ops : List Op := [.localPut .entries "host" "k" ⟨0, 7, 1, "k", 300⟩,
      .localPut .entries "host" "l" ⟨1, 8, 2, "l", 300⟩,
      .localPut .entries "host" "m" ⟨2, 9, 2, "m", 300⟩, .get "host" 2 "l",
      .localPut .entries "host" "n" ⟨3, 10, 1, "n", 600⟩]
    let x := ops.foldl LocalCache.exec (.start ["host"] 1000 700)
    (x.counters.cacheSize = 900 ∧ x.counters.cacheSize.toInt ≤ (1000 : BitVec 64).toInt) ∧
      ∃ ops : List Op, (∀ op ∈ ops, op.Public ∧ op.AtMost 301) ∧
        (1000 : BitVec 64).toInt <
          (ops.foldl LocalCache.exec (.start ["host"] 1000 700)).counters.cacheSize.toInt := by
  intro ops x
  have hpublic : ∀ op ∈ ops, op.Public := by
    simp [ops, Op.Public, CacheItem.Counted, CacheItem.size]
  have hfits : Admitted (fun x op => op.Fits x) LocalCache.exec (.start ["host"] 1000 700) ops := by
    decide +kernel
  have hrun := @limited_run ["host"] 1000 700 (by decide)
  exact ⟨⟨by decide +kernel, hrun.1 ops hpublic hfits⟩,
    hrun.2 "host" (.head _) 301 (by decide) (by decide) (by decide) (by decide)⟩

/-- An item that is larger than the limit is put into an empty cache. -/
theorem not_limited_first :
    let x := LocalCache.put .entries "host" "k" ⟨0, 7, 1, "k", 1100⟩ (.start ["host"] 1000 700)
    Op.Public (.localPut .entries "host" "k" ⟨0, 7, 1, "k", 1100⟩) ∧
      ¬ x.counters.cacheSize.toInt ≤ (1000 : BitVec 64).toInt := by
  refine ⟨⟨rfl, by decide⟩, ?_⟩
  decide +kernel

end Xixi.Local
