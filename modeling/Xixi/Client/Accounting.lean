import Mathlib.Algebra.Group.Prod
import Mathlib.Tactic.Abel
import Xixi.Client.LocalCache

/-!
# Accounting in the local cache

1. `CacheItem.weight`, `GroupItem.weight`, ...: what is stored, as the counters should have it.
2. `Balanced`: a method changes the counters by what it changes the weight by.
3. `Accounted`: no key is in both maps of a group, and the counters are the sums.
4. `accounted_run`: this holds in every run that never puts an item of the size -2^31.
-/

namespace Xixi.Local

open Lib

/-- A size and a count. -/
abbrev Amount := BitVec 64 × BitVec 32

def Counters.amount (c : Counters) : Amount := (c.cacheSize, c.cacheCount)

/-- The size can be negated with 32 bits. -/
def CacheItem.Sized (item : CacheItem) : Prop := item.itemSize ≠ BitVec.intMin 32

instance (item : CacheItem) : Decidable item.Sized := inferInstanceAs (Decidable (_ ≠ _))

def CacheItem.weight (item : CacheItem) : Amount := (item.itemSize.signExtend 64, 1)

def GroupItem.weight (g : GroupItem) : Amount :=
  Table.total CacheItem.weight g.inactiveCacheMap + Table.total CacheItem.weight g.activeCacheMap

/-- The sum of a weight over the items of a group. -/
def GroupItem.sum {M : Type} [AddCommMonoid M] (f : CacheItem → M) (g : GroupItem) : M :=
  Table.total f g.inactiveCacheMap + Table.total f g.activeCacheMap

def LocalCacheWatch.weight (w : LocalCacheWatch) : Amount := Table.total GroupItem.weight w.groupMap

def LocalCache.weight (x : LocalCache) : Amount := Table.total LocalCacheWatch.weight x.watchMap

def LocalCache.Valid (x : LocalCache) : Prop :=
  ∀ host w, x.watchMap.lookup host = some w → w.Valid fun _ => CacheItem.Sized

namespace AccountingLemmas

variable {c : Counters} {g g' : GroupItem} {x y : Shared} {item : CacheItem} {k : String}

/-! ## Counters -/

theorem signExtend_neg {v : BitVec 32} (h : v ≠ BitVec.intMin 32) :
    (-v).signExtend 64 = -v.signExtend 64 := by
  rw [BitVec.signExtend, BitVec.toInt_neg_of_ne_intMin h, BitVec.ofInt_neg, BitVec.signExtend]

theorem amount_charge (c : Counters) (item : CacheItem) :
    (c.charge item).amount = c.amount + item.weight := rfl

theorem amount_discharge (h : item.Sized) : (c.discharge item).amount + item.weight = c.amount := by
  refine Prod.ext ?_ ?_
  · show c.cacheSize + (-item.itemSize).signExtend 64 + item.itemSize.signExtend 64 = c.cacheSize
    rw [signExtend_neg h]
    abel
  · show c.cacheCount - 1 + 1 = c.cacheCount
    abel

theorem amount_foldl_discharge {l : List CacheItem} (h : ∀ i ∈ l, i.Sized) (x : Shared) :
    (l.foldl Shared.discharge x).counters.amount + (l.map CacheItem.weight).sum =
      x.counters.amount := by
  induction l generalizing x with
  | nil => exact add_zero _
  | cons i l ih =>
    obtain ⟨hi, hl⟩ := List.forall_mem_cons.mp h
    have hrest := ih hl (x.discharge i)
    have hfirst : (x.discharge i).counters.amount + i.weight = x.counters.amount :=
      amount_discharge hi
    rw [List.foldl_cons, List.map_cons, List.sum_cons, ← hfirst, ← hrest]
    abel

/-- One change after the other: `a` is an amount of the counters, `w` a weight. -/
theorem amount_trans {a a₁ a₂ w w₁ w₂ : Amount} (h : a₁ + w = a + w₁) (h' : a₂ + w₁ = a₁ + w₂) :
    a₂ + w = a + w₂ := by
  have hsum : a₂ + w + (a₁ + w₁) = a + w₂ + (a₁ + w₁) := by
    calc a₂ + w + (a₁ + w₁) = (a₂ + w₁) + (a₁ + w) := by abel
      _ = (a₁ + w₂) + (a + w₁) := by rw [h, h']
      _ = a + w₂ + (a₁ + w₁) := by abel
  exact add_right_cancel hsum

/-- A change of one of several parts: `t` is the weight of all of them. -/
theorem amount_part {a a' w w' t t' : Amount} (h : a' + w = a + w') (ht : w + t' = w' + t) :
    a' + t = a + t' := by
  have hsum : a' + t + (w + w') = a + t' + (w + w') := by
    calc a' + t + (w + w') = (a' + w) + (w' + t) := by abel
      _ = (a + w') + (w + t') := by rw [h, ht]
      _ = a + t' + (w + w') := by abel
  exact add_right_cancel hsum

section Sums

variable {M : Type} [AddCommMonoid M] (f : CacheItem → M)

theorem total_eq_sum (m : Table String CacheItem) :
    Table.total f m = ((GroupItem.values m).map f).sum := by
  rw [Table.total, GroupItem.values, List.map_map]
  rfl

theorem sum_eraseInactive (hk : g.inactiveCacheMap.lookup k = some item) :
    f item + GroupItem.sum f { g with inactiveCacheMap := g.inactiveCacheMap.erase k } = g.sum f := by
  rw [GroupItem.sum, GroupItem.sum, ← add_assoc, Table.add_total_erase f hk]

theorem sum_eraseActive (hk : g.activeCacheMap.lookup k = some item) :
    f item + GroupItem.sum f { g with activeCacheMap := g.activeCacheMap.erase k } = g.sum f := by
  rw [GroupItem.sum, GroupItem.sum, add_left_comm, Table.add_total_erase f hk]

theorem sum_insert (hi : g.inactiveCacheMap.lookup k = none) (item : CacheItem) :
    GroupItem.sum f { g with inactiveCacheMap := g.inactiveCacheMap.insert k item } =
      f item + g.sum f := by
  rw [GroupItem.sum, GroupItem.sum, Table.total_insert_of_none f hi, add_assoc]

theorem sum_deactivate {P : CacheItem → Prop} (h : g.Valid P) : g.deactivate.sum f = g.sum f := by
  have hfree : ∀ i ∈ GroupItem.values g.activeCacheMap, g.inactiveCacheMap.lookup i.key = none := by
    intro i hi
    obtain ⟨k, hk⟩ := GroupItem.mem_values.mp hi
    have hkey := (h.active k i hk).1
    refine (h.disjoint i.key).resolve_right fun hnone => ?_
    rw [hkey, hk] at hnone
    exact nomatch hnone
  rw [GroupItem.sum, GroupItem.deactivate, Table.total_empty, add_zero,
    Table.total_insertAll f (GroupItem.nodup_active h) hfree, ← total_eq_sum, GroupItem.sum, add_comm]

/-- `get` moves the item it returns. -/
theorem sum_get (g : GroupItem) (k : String) : (g.get k).2.sum f = g.sum f := by
  unfold GroupItem.get
  split
  · rfl
  · next hactive =>
    split
    · next item hlook =>
      have hsum := Table.add_total_erase f hlook
      dsimp only
      rw [GroupItem.sum, GroupItem.sum, Table.total_insert_of_none f hactive, ← hsum, add_left_comm,
        add_assoc]
    · rfl

end Sums
end AccountingLemmas

open AccountingLemmas

/-! ## Groups -/

/-- The counters change by what the weight changes by. -/
structure GroupItem.Balanced (g : GroupItem) (x : Shared) (r : GroupItem × Shared) : Prop where
  valid : r.1.Valid CacheItem.Sized
  amount : r.2.counters.amount + g.weight = x.counters.amount + r.1.weight

namespace GroupItem

variable {g : GroupItem} {x y : Shared} {r r' : GroupItem × Shared} {item : CacheItem} {k : String}

theorem Balanced.refl (h : g.Valid CacheItem.Sized) (x : Shared) : g.Balanced x (g, x) := ⟨h, rfl⟩

theorem Balanced.trans (h : g.Balanced x r) (h' : r.1.Balanced r.2 r') : g.Balanced x r' :=
  ⟨h'.valid, amount_trans h.amount h'.amount⟩

theorem weight_empty : empty.weight = 0 := rfl

/-- An inactive item is dropped. -/
theorem balanced_eraseInactive (h : g.Valid CacheItem.Sized) (hk : g.inactiveCacheMap.lookup k = some item)
    (hx : y.counters = x.counters.discharge item) : g.Balanced x
      ({ g with inactiveCacheMap := g.inactiveCacheMap.erase k }, y) := by
  refine ⟨valid_eraseInactive h k, ?_⟩
  have hsum := sum_eraseInactive CacheItem.weight hk
  have hamount := amount_discharge (c := x.counters) (h.inactive k item hk).2
  show y.counters.amount + g.sum CacheItem.weight = x.counters.amount + sum CacheItem.weight _
  rw [hx, ← hsum, ← hamount, add_assoc]

/-- An active item is dropped. -/
theorem balanced_eraseActive (h : g.Valid CacheItem.Sized) (hk : g.activeCacheMap.lookup k = some item)
    (hx : y.counters = x.counters.discharge item) : g.Balanced x
      ({ g with activeCacheMap := g.activeCacheMap.erase k }, y) := by
  refine ⟨valid_eraseActive h k, ?_⟩
  have hsum := sum_eraseActive CacheItem.weight hk
  have hamount := amount_discharge (c := x.counters) (h.active k item hk).2
  show y.counters.amount + g.sum CacheItem.weight = x.counters.amount + sum CacheItem.weight _
  rw [hx, ← hsum, ← hamount, add_assoc]

/-- An item is added under a key that is in neither map. -/
theorem balanced_insert (h : g.Valid CacheItem.Sized) (hi : g.inactiveCacheMap.lookup k = none)
    (ha : g.activeCacheMap.lookup k = none) (hkey : item.key = k) (hsize : item.Sized)
    (hx : y.counters = x.counters.charge item) : g.Balanced x
      ({ g with inactiveCacheMap := g.inactiveCacheMap.insert k item }, y) := by
  refine ⟨valid_insert h ha hkey hsize, ?_⟩
  show y.counters.amount + g.sum CacheItem.weight = x.counters.amount + sum CacheItem.weight _
  rw [hx, amount_charge, sum_insert CacheItem.weight hi, add_assoc]

/-! ### The methods -/

theorem sized_of_mem_values {m : Table String CacheItem}
    (h : ∀ k i, m.lookup k = some i → i.key = k ∧ i.Sized) : ∀ i ∈ values m, i.Sized := by
  intro i hi
  obtain ⟨k, hk⟩ := mem_values.mp hi
  exact (h k i hk).2

theorem balanced_clear (h : g.Valid CacheItem.Sized) (x : Shared) : g.Balanced x (g.clear x) := by
  refine ⟨valid_empty, ?_⟩
  have hinactive := amount_foldl_discharge (sized_of_mem_values h.inactive) x
  have hactive := amount_foldl_discharge (sized_of_mem_values h.active)
    ((values g.inactiveCacheMap).foldl Shared.discharge x)
  rw [← total_eq_sum] at hinactive hactive
  rw [clear, weight_empty, weight, ← hinactive, ← hactive]
  dsimp only
  abel

theorem balanced_dropLoop (o : Order) (n : Nat) (it : List CacheItem) (h : g.Valid CacheItem.Sized) (x : Shared) :
    g.Balanced x (dropLoop o n it g x) := by
  induction n generalizing it g x with
  | zero => exact .refl h x
  | succ n ih =>
    cases it with
    | nil => exact .refl h x
    | cons item it =>
      rw [dropLoop]
      split
      · exact ih it h x
      · next item2 _ =>
        dsimp only
        split
        · -- the index is stale: only the index changes
          obtain ⟨hvalid, hamount⟩ := ih (o.values g.inactiveCacheMap) h
            { x with cacheIdMap := x.cacheIdMap.erase item.cacheId }
          exact ⟨hvalid, hamount⟩
        · next dropped hlook =>
          have hstep : g.Balanced x ({ g with
              inactiveCacheMap := g.inactiveCacheMap.erase item2.key },
              { x with cacheIdMap := x.cacheIdMap.erase item.cacheId }.discharge dropped) :=
            balanced_eraseInactive h hlook rfl
          exact hstep.trans (ih _ hstep.valid _)

theorem balanced_dropInactive (o : Order) (maxCount : Int) (h : g.Valid CacheItem.Sized) (x : Shared) :
    g.Balanced x (g.dropInactive o maxCount x) := by
  obtain ⟨hvalid, hamount⟩ :=
    balanced_dropLoop o maxCount.toNat (o.values g.inactiveCacheMap) h x
  refine ⟨valid_deactivate hvalid, hamount.trans (congrArg _ ?_)⟩
  exact (sum_deactivate CacheItem.weight hvalid).symm

theorem balanced_get (h : g.Valid CacheItem.Sized) (k : String) (x : Shared) :
    g.Balanced x ((g.get k).2, x) := by
  exact ⟨valid_get h k, congrArg _ (sum_get CacheItem.weight g k).symm⟩

theorem balanced_put (h : g.Valid CacheItem.Sized) (hkey : item.key = k) (hsize : item.Sized) (x : Shared) :
    g.Balanced x (g.put k item x) := by
  unfold put
  dsimp only
  split
  · next old hold =>
    -- the old item goes, then there is room for the new one
    have hdrop : g.Balanced x ({ g with inactiveCacheMap := g.inactiveCacheMap.erase k },
        x.forget old) := balanced_eraseInactive h hold rfl
    have hactive : g.activeCacheMap.lookup k = none :=
      (h.disjoint k).resolve_left (by rw [hold]; exact nofun)
    have hadd := balanced_insert (y := (x.forget old).record item) hdrop.valid
      (AList.lookup_erase k _) hactive hkey hsize rfl
    dsimp only at hadd
    rw [Table.insert_erase_self] at hadd
    exact hdrop.trans hadd
  · next hnone =>
    split
    · next old hold =>
      have hdrop : g.Balanced x ({ g with activeCacheMap := g.activeCacheMap.erase k },
          x.forget old) := balanced_eraseActive h hold rfl
      exact hdrop.trans (balanced_insert hdrop.valid hnone (AList.lookup_erase k _) hkey hsize rfl)
    · next hactive => exact balanced_insert h hnone hactive hkey hsize rfl

theorem balanced_remove (h : g.Valid CacheItem.Sized) (k : String) (x : Shared) :
    g.Balanced x (g.remove k x).2 := by
  unfold remove
  split
  · next item hlook => exact balanced_eraseActive h hlook rfl
  · split
    · next item hlook => exact balanced_eraseInactive h hlook rfl
    · exact .refl h x

theorem balanced_update (h : g.Valid CacheItem.Sized) (it : CacheItem) (x : Shared) :
    g.Balanced x (g.update it x) := by
  unfold update
  split
  · next item hlook => exact balanced_eraseActive h hlook rfl
  · split
    · next item hlook => exact balanced_eraseInactive h hlook rfl
    · exact .refl h x

end GroupItem

/-! ## Hosts -/

/-- The counters change by what the weight changes by. -/
structure LocalCacheWatch.Balanced (w : LocalCacheWatch) (c : Counters)
    (r : LocalCacheWatch × Counters) : Prop where
  valid : r.1.Valid fun _ => CacheItem.Sized
  amount : r.2.amount + w.weight = c.amount + r.1.weight

namespace LocalCacheWatch

variable {w w' : LocalCacheWatch} {c : Counters} {r r' : LocalCacheWatch × Counters}
  {f : GroupItem → Shared → GroupItem × Shared}

theorem Balanced.refl (h : w.Valid fun _ => CacheItem.Sized) (c : Counters) : w.Balanced c (w, c) := ⟨h, rfl⟩

theorem Balanced.trans (h : w.Balanced c r) (h' : r.1.Balanced r.2 r') : w.Balanced c r' :=
  ⟨h'.valid, amount_trans h.amount h'.amount⟩

/-- A group takes the place of one from which a balanced method has led to it. -/
theorem balanced_insert (h : w.Valid fun _ => CacheItem.Sized) {id : Nat} {g : GroupItem}
    (hlook : w.groupMap.lookup id = some g) {x : GroupItem × Shared}
    (hg : g.Balanced ⟨c, w.cacheIdMap⟩ x) :
    w.Balanced c (⟨w.groupMap.insert id x.1, x.2.cacheIdMap⟩, x.2.counters) := by
  exact ⟨valid_insert h hg.valid _,
    amount_part hg.amount (Table.add_total_insert GroupItem.weight hlook x.1)⟩

theorem balanced_onGroup (hf : ∀ (g : GroupItem) (x : Shared), g.Valid CacheItem.Sized → g.Balanced x (f g x)) (h : w.Valid fun _ => CacheItem.Sized) (id : Nat)
    (c : Counters) : w.Balanced c (onGroup f id w c) := by
  unfold onGroup
  split
  · exact .refl h c
  · next g hlook => exact balanced_insert h hlook (hf g _ (h id g hlook))

theorem balanced_onGroups (hf : ∀ (g : GroupItem) (x : Shared), g.Valid CacheItem.Sized → g.Balanced x (f g x)) (h : w.Valid fun _ => CacheItem.Sized)
    (ids : List Nat) (c : Counters) : w.Balanced c (onGroups f ids w c) := by
  unfold onGroups
  induction ids generalizing w c with
  | nil => exact .refl h c
  | cons id ids ih =>
    have hstep := balanced_onGroup hf h id c
    exact hstep.trans (ih hstep.valid _)

theorem balanced_clear (h : w.Valid fun _ => CacheItem.Sized) (c : Counters) : w.Balanced c (w.clear c) := by
  obtain ⟨hvalid, hamount⟩ :=
    balanced_onGroups (fun g x hg => GroupItem.balanced_clear hg x) h w.groupMap.keys c
  exact ⟨hvalid, hamount⟩

theorem balanced_dropInactive (o : Order) (maxCount : Int) (h : w.Valid fun _ => CacheItem.Sized) (c : Counters) :
    w.Balanced c (w.dropInactive o maxCount c) :=
  balanced_onGroups (fun _ x hg => GroupItem.balanced_dropInactive o maxCount hg x) h _ c

theorem balanced_get (h : w.Valid fun _ => CacheItem.Sized) (id : Nat) (k : String) (c : Counters) :
    w.Balanced c ((w.get id k).2, c) := by
  unfold get
  split
  · exact .refl h c
  · next g hlook =>
    exact balanced_insert h hlook (GroupItem.balanced_get (h id g hlook) k ⟨c, w.cacheIdMap⟩)

theorem balanced_put {k : String} {item : CacheItem} (h : w.Valid fun _ => CacheItem.Sized) (hkey : item.key = k)
    (hsize : item.Sized) (c : Counters) : w.Balanced c (w.put k item c) := by
  have hput : ∀ (g : GroupItem) (x : Shared), g.Valid CacheItem.Sized → g.Balanced x (GroupItem.put k item g x) :=
    fun g x hg => GroupItem.balanced_put hg hkey hsize x
  unfold put
  split
  · exact balanced_onGroup hput h _ c
  · next hnone =>
    -- a new group weighs nothing
    have hnew : w.Balanced c ({ w with groupMap := w.groupMap.insert item.groupId .empty }, c) := by
      refine ⟨valid_insert h GroupItem.valid_empty _, ?_⟩
      dsimp only
      rw [weight, weight, Table.total_insert_of_none _ hnone, GroupItem.weight_empty, zero_add]
    exact hnew.trans (balanced_onGroup hput hnew.valid _ c)

theorem balanced_remove (h : w.Valid fun _ => CacheItem.Sized) (id : Nat) (k : String) (c : Counters) :
    w.Balanced c (w.remove id k c).2 := by
  unfold remove
  split
  · exact .refl h c
  · next g hlook =>
    exact balanced_insert h hlook (GroupItem.balanced_remove (h id g hlook) k ⟨c, w.cacheIdMap⟩)

theorem balanced_updateOne (h : w.Valid fun _ => CacheItem.Sized) (cacheId : Nat) (c : Counters) :
    w.Balanced c (w.updateOne cacheId c) := by
  unfold updateOne
  split
  · exact .refl h c
  · next it _ =>
    obtain ⟨hvalid, hamount⟩ := balanced_onGroup (w := { w with
      cacheIdMap := w.cacheIdMap.erase cacheId }) (fun g x hg => GroupItem.balanced_update hg it x)
      h it.groupId c
    exact ⟨hvalid, hamount⟩

theorem balanced_update (h : w.Valid fun _ => CacheItem.Sized) (cacheIds : List Nat) (c : Counters) :
    w.Balanced c (w.update cacheIds c) := by
  unfold update
  induction cacheIds generalizing w c with
  | nil => exact .refl h c
  | cons cacheId cacheIds ih =>
    have hstep := balanced_updateOne h cacheId c
    exact hstep.trans (ih hstep.valid _)

end LocalCacheWatch

/-! ## The local cache -/

/-- The number of stored items. -/
def LocalCache.itemCount (x : LocalCache) : Nat :=
  Table.total (fun w : LocalCacheWatch => Table.total (fun g : GroupItem =>
    g.inactiveCacheMap.entries.length + g.activeCacheMap.entries.length) w.groupMap) x.watchMap

/-- The sum of the sizes of stored items. -/
def LocalCache.itemSizes (x : LocalCache) : Int :=
  Table.total (fun w : LocalCacheWatch => Table.total (fun g : GroupItem =>
    Table.total (fun i : CacheItem => i.itemSize.toInt) g.inactiveCacheMap +
      Table.total (fun i : CacheItem => i.itemSize.toInt) g.activeCacheMap) w.groupMap) x.watchMap

/-- No key is in both maps of a group, and the counters are the sums. -/
structure Accounted (x : LocalCache) : Prop where
  disjoint : ∀ host w id g, x.watchMap.lookup host = some w → w.groupMap.lookup id = some g →
    ∀ k, g.inactiveCacheMap.lookup k = none ∨ g.activeCacheMap.lookup k = none
  cacheCount : x.counters.cacheCount = BitVec.ofNat 32 x.itemCount
  cacheSize : x.counters.cacheSize = BitVec.ofInt 64 x.itemSizes

/-- An item is put under its own key, and its size can be negated. -/
def Op.Regular (op : Op) : Prop :=
  ∀ host key item, op.puts = some (host, key, item) → item.key = key ∧ item.Sized

namespace AccountingLemmas

/-- What every method keeps. -/
structure Balance (x : LocalCache) : Prop where
  valid : x.Valid
  amount : x.counters.amount = x.weight

variable {x : LocalCache} {f : LocalCacheWatch → Counters → LocalCacheWatch × Counters}

theorem balance_onHost (hf : ∀ (w : LocalCacheWatch) (c : Counters),
    w.Valid (fun _ => CacheItem.Sized) → w.Balanced c (f w c)) (h : Balance x)
    (host : String) : Balance (x.onHost f host) := by
  unfold LocalCache.onHost
  split
  · exact h
  · next w hlook =>
    obtain ⟨hvalid, hamount⟩ := hf w x.counters (h.valid host w hlook)
    have hsum := Table.add_total_insert LocalCacheWatch.weight hlook (f w x.counters).1
    refine ⟨fun host' w' hw' => ?_, ?_⟩
    · rw [Table.lookup_insert_eq] at hw'
      split at hw'
      · exact Option.some.inj hw' ▸ hvalid
      · exact h.valid host' w' hw'
    · have hpart := amount_part hamount hsum
      have hbefore : x.counters.amount = Table.total LocalCacheWatch.weight x.watchMap := h.amount
      rw [hbefore, add_comm] at hpart
      exact add_left_cancel hpart

theorem balance_dropInactive (o : Order) (n : Int) (h : Balance x) : Balance (x.dropInactive o n) := by
  unfold LocalCache.dropInactive
  generalize o.hosts x.watchMap = hosts
  induction hosts generalizing x with
  | nil => exact h
  | cons host hosts ih =>
    exact ih (balance_onHost (fun w c hw => LocalCacheWatch.balanced_dropInactive o n hw c) h host)

theorem balance_exec {op : Op} (h : Balance x) (hop : op.Regular) : Balance (x.exec op) := by
  cases op with
  | put host key item =>
    obtain ⟨hkey, hsize⟩ := hop host key item rfl
    exact balance_onHost (fun w c hw => LocalCacheWatch.balanced_put hw hkey hsize c) h host
  | get host id key =>
    exact balance_onHost (fun w c hw => LocalCacheWatch.balanced_get hw id key c) h host
  | remove host id key =>
    exact balance_onHost (fun w c hw => LocalCacheWatch.balanced_remove hw id key c) h host
  | update host cacheIds =>
    exact balance_onHost (fun w c hw => LocalCacheWatch.balanced_update hw cacheIds c) h host
  | dropInactive host o n =>
    exact balance_onHost (fun w c hw => LocalCacheWatch.balanced_dropInactive o n hw c) h host
  | flush host id =>
    exact balance_onHost (fun w c hw => LocalCacheWatch.balanced_onGroup
      (fun g x hg => GroupItem.balanced_clear hg x) hw id c) h host
  | clear host =>
    exact balance_onHost (fun w c hw => LocalCacheWatch.balanced_clear hw c) h host
  | localPut o host key item =>
    obtain ⟨hkey, hsize⟩ := hop host key item rfl
    have hput (x : LocalCache) (h : Balance x) :
        Balance (x.onHost (LocalCacheWatch.put key item) host) :=
      balance_onHost (fun w c hw => LocalCacheWatch.balanced_put hw hkey hsize c) h host
    show Balance (x.put o host key item)
    unfold LocalCache.put
    split
    · exact h
    · split
      · dsimp only
        split
        · exact hput _ (balance_dropInactive o 100 h)
        · exact balance_dropInactive o 100 h
      · exact hput x h
  | localDropInactive o n => exact balance_dropInactive o n h

theorem balance_start (hosts : List String) (maxCacheSize warningCacheSize : BitVec 64) :
    Balance (.start hosts maxCacheSize warningCacheSize) := by
  refine ⟨fun host w hw => ?_, ?_⟩
  · rw [LocalCache.lookup_start hw]
    exact nofun
  · have hzero : ∀ e ∈ (LocalCache.start hosts maxCacheSize warningCacheSize).watchMap.entries.map
        (fun e => LocalCacheWatch.weight e.2), e = 0 := by
      intro a ha
      obtain ⟨e, he, rfl⟩ := List.mem_map.mp ha
      rw [LocalCache.lookup_start (Table.mem_entries_iff.mp he)]
      rfl
    exact (List.sum_eq_zero hzero).symm

/-- Sums of numbers and sums of 64-bit numbers. -/
def ofIntHom : Int →+ BitVec 64 where
  toFun := BitVec.ofInt 64
  map_zero' := rfl
  map_add' := fun a b => BitVec.ofInt_add a b

def ofNatHom : Nat →+ BitVec 32 where
  toFun := BitVec.ofNat 32
  map_zero' := rfl
  map_add' := fun a b => BitVec.ofNat_add a b

theorem fst_total (m : Table String CacheItem) : (Table.total CacheItem.weight m).1 =
    ofIntHom (Table.total (fun i : CacheItem => i.itemSize.toInt) m) := by
  rw [Table.map_total]
  exact Table.map_total CacheItem.weight (AddMonoidHom.fst _ _) m

theorem snd_total (m : Table String CacheItem) :
    (Table.total CacheItem.weight m).2 = ofNatHom m.entries.length := by
  have hlength : m.entries.length = Table.total (fun _ : CacheItem => 1) m := by
    simp [Table.total]
  rw [hlength, Table.map_total]
  exact Table.map_total CacheItem.weight (AddMonoidHom.snd _ _) m

theorem fst_weight (x : LocalCache) : x.weight.1 = ofIntHom x.itemSizes := by
  have hgroup (g : GroupItem) : g.weight.1 =
      ofIntHom (Table.total (fun i : CacheItem => i.itemSize.toInt) g.inactiveCacheMap +
        Table.total (fun i : CacheItem => i.itemSize.toInt) g.activeCacheMap) := by
    rw [map_add, ← fst_total, ← fst_total]
    rfl
  have hhost (w : LocalCacheWatch) : w.weight.1 =
      ofIntHom (Table.total (fun g : GroupItem =>
        Table.total (fun i : CacheItem => i.itemSize.toInt) g.inactiveCacheMap +
          Table.total (fun i : CacheItem => i.itemSize.toInt) g.activeCacheMap) w.groupMap) := by
    rw [Table.map_total]
    simp only [← hgroup]
    exact Table.map_total GroupItem.weight (AddMonoidHom.fst _ _) w.groupMap
  rw [LocalCache.itemSizes, Table.map_total]
  simp only [← hhost]
  exact Table.map_total LocalCacheWatch.weight (AddMonoidHom.fst _ _) x.watchMap

theorem snd_weight (x : LocalCache) : x.weight.2 = ofNatHom x.itemCount := by
  have hgroup (g : GroupItem) : g.weight.2 =
      ofNatHom (g.inactiveCacheMap.entries.length + g.activeCacheMap.entries.length) := by
    rw [map_add, ← snd_total, ← snd_total]
    rfl
  have hhost (w : LocalCacheWatch) : w.weight.2 = ofNatHom (Table.total (fun g : GroupItem =>
      g.inactiveCacheMap.entries.length + g.activeCacheMap.entries.length) w.groupMap) := by
    rw [Table.map_total]
    simp only [← hgroup]
    exact Table.map_total GroupItem.weight (AddMonoidHom.snd _ _) w.groupMap
  rw [LocalCache.itemCount, Table.map_total]
  simp only [← hhost]
  exact Table.map_total LocalCacheWatch.weight (AddMonoidHom.snd _ _) x.watchMap

theorem accounted_of_balance (h : Balance x) : Accounted x where
  disjoint host w id g hw hg := (h.valid host w hw id g hg).disjoint
  cacheCount := (congrArg Prod.snd h.amount).trans (snd_weight x)
  cacheSize := (congrArg Prod.fst h.amount).trans (fst_weight x)

end AccountingLemmas

/-- In every run of calls that puts items under their own keys, and none of the size -2^31, no key
is ever in both maps of a group, and the counters are the sums. -/
theorem accounted_run {hosts : List String} {maxCacheSize warningCacheSize : BitVec 64}
    {ops : List Op} (h : ∀ op ∈ ops, op.Regular) :
    Accounted (ops.foldl LocalCache.exec (.start hosts maxCacheSize warningCacheSize)) := by
  refine accounted_of_balance ?_
  have hrun (x : LocalCache) (hx : Balance x) : Balance (ops.foldl LocalCache.exec x) := by
    induction ops generalizing x with
    | nil => exact hx
    | cons op ops ih =>
      obtain ⟨hop, hops⟩ := List.forall_mem_cons.mp h
      exact ih hops _ (balance_exec hx hop)
  exact hrun _ (balance_start hosts maxCacheSize warningCacheSize)

/-- Two items are put and the first one is got and removed again. -/
theorem accounted_small :
    let ops : List Op := [.put "host" "k" ⟨0, 7, 1, "k", 600⟩, .put "host" "l" ⟨1, 8, 2, "l", 700⟩,
      .get "host" 1 "k", .remove "host" 1 "k"]
    let x := ops.foldl LocalCache.exec (.start ["host"] 65536 32768)
    x.counters = ⟨700, 1⟩ ∧ Accounted x := by
  intro ops x
  refine ⟨by decide +kernel, accounted_run fun op hop => ?_⟩
  simp only [ops, List.mem_cons, List.not_mem_nil, or_false] at hop
  rcases hop with rfl | rfl | rfl | rfl
  · rintro _ _ _ ⟨⟩
    exact ⟨rfl, by decide⟩
  · rintro _ _ _ ⟨⟩
    exact ⟨rfl, by decide⟩
  · exact nofun
  · exact nofun

/-- An item of the size -2^31 is put under its own key and removed. -/
theorem not_accounted_min :
    let item : CacheItem := ⟨0, 7, 1, "k", BitVec.intMin 32⟩
    let ops : List Op := [.put "host" "k" item, .remove "host" 1 "k"]
    ¬ Accounted (ops.foldl LocalCache.exec (.start ["host"] 65536 32768)) := by
  intro item ops h
  have hsize := h.cacheSize
  revert hsize
  decide +kernel

end Xixi.Local
