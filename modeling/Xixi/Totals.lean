import Xixi.Memory
import Xixi.StatLog
import Xixi.Statistics

/-!
# The totals that are reported (`Stats::merage`, `Group_Stats_Item::to_string`)

1. `CacheStatsItem.merge`, `Stats.merage`: the sum over the classes. `merge` leaves out the two
   counters of `update_expiration`, and the loop stops below the last class.
2. `GroupStatsItem.toString`: the listing, a line for each counter that is not zero.
3. `totals_of_run`: after fewer than `2 ^ 64` calls the totals cover every class if and only if no
   call was about the last class or about the expiration of an item.
-/

namespace Xixi

open StatisticsLemmas Lib

/-! ## `Cache_Stats_Item` -/

/-- `Cache_Stats_Item`: the counters of one class. -/
abbrev CacheStatsItem := CacheField → Nat

/-- `cache_stats_[class_id]`. -/
def GroupStatsItem.classStats (item : GroupStatsItem) (classId : Nat) : CacheStatsItem :=
  fun f => item (.cacheStats classId f)

namespace CacheStatsItem

def clear : CacheStatsItem := fun _ => 0

/-- The fields that `merge` adds, in its order. -/
def mergedFields : List CacheField :=
  [.getHitNoWatch, .getHitWatch, .getHitWatchMiss,
    .getTouchHitNoWatch, .getTouchHitWatch, .getTouchHitWatchMiss,
    .getBaseHit, .getBaseMiss,
    .updateFlagsSuccess, .updateFlagsMismatch,
    .addSuccess, .addSuccessWatch, .addWatchMiss, .addFail,
    .setSuccess, .setSuccessWatch, .setWatchMiss, .setMismatch,
    .replaceSuccess, .replaceSuccessWatch, .replaceWatchMiss, .replaceMismatch,
    .appendSuccess, .appendSuccessWatch, .appendWatchMiss, .appendMismatch, .appendOutOfMemory,
    .prependSuccess, .prependSuccessWatch, .prependWatchMiss, .prependMismatch,
    .prependOutOfMemory,
    .deleteSuccess, .deleteMismatch]

/-- `merge`: `cs.field += field;` for one field after the other. -/
def merge (item cs : CacheStatsItem) : CacheStatsItem :=
  mergedFields.foldl (fun cs f => Function.update cs f ((cs f + item f) % 2 ^ 64)) cs

end CacheStatsItem

/-- `merage`, `max_class_id_` being the bound of its loop. -/
def Stats.merage (st : Stats) (maxClassId : Nat) (cacheStat : CacheStatsItem) : CacheStatsItem :=
  (List.range' 1 (maxClassId - 1)).foldl (fun cs i => (st.groupSum.classStats i).merge cs) cacheStat

/-! ## The listing -/

/-- The name in the listing. -/
def CacheField.name : CacheField → String
  | .getHitNoWatch => "get_hit_no_watch"
  | .getHitWatch => "get_hit_watch"
  | .getHitWatchMiss => "get_hit_watch_miss"
  | .getTouchHitNoWatch => "get_touch_hit_no_watch"
  | .getTouchHitWatch => "get_touch_hit_watch"
  | .getTouchHitWatchMiss => "get_touch_hit_watch_miss"
  | .getBaseHit => "get_base_hit"
  | .getBaseMiss => "get_base_miss"
  | .updateFlagsSuccess => "update_flags_success"
  | .updateFlagsMismatch => "update_flags_mismatch"
  | .updateExpirationSuccess => "update_expiration_success"
  | .updateExpirationMismatch => "update_expiration_mismatch"
  | .addSuccess => "add_success"
  | .addSuccessWatch => "add_success_watch"
  | .addWatchMiss => "add_watch_miss"
  | .addFail => "add_fail"
  | .setSuccess => "set_success"
  | .setSuccessWatch => "set_success_watch"
  | .setWatchMiss => "set_watch_miss"
  | .setMismatch => "set_mismatch"
  | .replaceSuccess => "replace_success"
  | .replaceSuccessWatch => "replace_success_watch"
  | .replaceWatchMiss => "replace_watch_miss"
  | .replaceMismatch => "replace_mismatch"
  | .appendSuccess => "append_success"
  | .appendSuccessWatch => "append_success_watch"
  | .appendWatchMiss => "append_watch_miss"
  | .appendMismatch => "append_mismatch"
  | .appendOutOfMemory => "append_out_of_memory"
  | .prependSuccess => "prepend_success"
  | .prependSuccessWatch => "prepend_success_watch"
  | .prependWatchMiss => "prepend_watch_miss"
  | .prependMismatch => "prepend_mismatch"
  | .prependOutOfMemory => "prepend_out_of_memory"
  | .deleteSuccess => "delete_success"
  | .deleteMismatch => "delete_mismatch"

/-- A line of the listing. -/
structure StatsLine where
  name : String
  classId : Option Nat
  value : Nat
deriving DecidableEq, Repr

namespace StatsLine

def text (l : StatsLine) : String :=
  l.name ++ (l.classId.map Nat.repr).getD "" ++ "=" ++ l.value.repr ++ "\n"

/-- `append`: nothing for a counter that is zero. -/
def append (classId : Option Nat) (k : String) (v : Nat) : List StatsLine :=
  if v ≠ 0 then [⟨k, classId, v⟩] else []

end StatsLine

/-- `Cache_Stats_Item::to_string`; its `class_id` is a `uint8_t`. -/
def CacheStatsItem.toString (item : CacheStatsItem) (classId : Nat) : List StatsLine :=
  [CacheField.getHitNoWatch, .getHitWatch, .getHitWatchMiss,
    .getTouchHitNoWatch, .getTouchHitWatch, .getTouchHitWatchMiss,
    .getBaseHit, .getBaseMiss,
    .updateFlagsSuccess, .updateFlagsMismatch,
    .updateExpirationSuccess, .updateExpirationMismatch,
    .addSuccess, .addSuccessWatch, .addWatchMiss, .addFail,
    .setSuccess, .setSuccessWatch, .setWatchMiss, .setMismatch,
    .replaceSuccess, .replaceSuccessWatch, .replaceWatchMiss, .replaceMismatch,
    .appendSuccess, .appendSuccessWatch, .appendWatchMiss, .appendMismatch, .appendOutOfMemory,
    .prependSuccess, .prependSuccessWatch, .prependWatchMiss, .prependMismatch,
    .prependOutOfMemory,
    .deleteSuccess, .deleteMismatch].flatMap fun f =>
      StatsLine.append (some (classId % 2 ^ 8)) f.name (item f)

namespace GroupStatsItem

/-- The counters that are not of a class, in the order of the listing. -/
def groupLines : List (String × Counter) :=
  [("get_miss", .getMiss), ("get_touch_miss", .getTouchMiss), ("get_base_miss_", .getBaseMiss),
    ("update_flags_miss", .updateFlagsMiss), ("update_expiration_miss", .updateExpirationMiss),
    ("replace_miss", .replaceMiss), ("append_miss", .appendMiss), ("prepend_miss", .prependMiss),
    ("delete_miss", .deleteMiss), ("incr_success", .incrSuccess), ("incr_mismatch", .incrMismatch),
    ("incr_miss", .incrMiss), ("decr_success", .decrSuccess), ("decr_mismatch", .decrMismatch),
    ("decr_miss", .decrMiss), ("create_watch", .createWatch), ("check_watch", .checkWatch),
    ("check_watch_miss", .checkWatchMiss), ("bytes_read", .bytesRead), ("bytes_write", .bytesWrite),
    ("link_caches", .linkItems), ("unlink_caches", .unlinkItems), ("link_bytes", .linkBytes),
    ("unlink_bytes", .unlinkBytes), ("flush", .flush)]

/-- `Group_Stats_Item::to_string`: one class, or all of them. -/
def toString (item : GroupStatsItem) (classId maxClassId : Nat) : List StatsLine :=
  (groupLines.flatMap fun l => StatsLine.append none l.1 (item l.2)) ++
    if 0 < classId ∧ classId < 200 then (item.classStats classId).toString classId
    else (List.range' 1 (maxClassId - 1)).flatMap fun i => (item.classStats i).toString i

/-- The text of the listing. -/
def out (item : GroupStatsItem) (classId maxClassId : Nat) : String :=
  String.join ((item.toString classId maxClassId).map StatsLine.text)

/-- The listing of all classes has every counter of a class that is not zero. -/
def Lists (item : GroupStatsItem) (maxClassId : Nat) : Prop :=
  ∀ classId, ¬ (0 < classId ∧ classId < 200) → ∀ i f, item (.cacheStats i f) ≠ 0 →
    ⟨f.name, some i, item (.cacheStats i f)⟩ ∈ item.toString classId maxClassId

end GroupStatsItem

/-- The totals cover every class. -/
structure Stats.Covers (st : Stats) (maxClassId classIdMax : Nat) : Prop where
  merged : ∀ f, st.merage maxClassId .clear f =
    ∑ i ∈ Finset.Icc 1 classIdMax, st.groupSum (.cacheStats i f)
  sum : st.groupSum.Lists maxClassId
  group : ∀ g item, st.groupMap g = some item → item.Lists maxClassId

/-! ## The calls -/

namespace StatCall

/-- The counter of a class that the call adds one to in `group_sum_`. -/
def counted : StatCall → Option (Nat × CacheField)
  | .getHitNoWatch _ c _ => some (c, .getHitNoWatch)
  | .getHitWatch _ c _ => some (c, .getHitWatch)
  | .getHitWatchMiss _ c => some (c, .getHitWatchMiss)
  | .getTouchHitNoWatch _ c _ => some (c, .getTouchHitNoWatch)
  | .getTouchHitWatch _ c _ => some (c, .getTouchHitWatch)
  | .getTouchHitWatchMiss _ c => some (c, .getTouchHitWatchMiss)
  | .getBaseHit _ c => some (c, .getBaseHit)
  | .updateFlagsSuccess _ c => some (c, .updateFlagsSuccess)
  | .updateFlagsMismatch _ c => some (c, .updateFlagsMismatch)
  | .updateExpirationSuccess _ c => some (c, .updateExpirationSuccess)
  | .updateExpirationMismatch _ c => some (c, .updateExpirationMismatch)
  | .addSuccess _ c _ | .addSuccessWatch _ c _ | .addWatchMiss _ c => some (c, .addSuccess)
  | .addFail _ c => some (c, .addFail)
  | .setSuccess _ c _ | .setSuccessWatch _ c _ | .setWatchMiss _ c => some (c, .setSuccess)
  | .setMismatch _ c => some (c, .setMismatch)
  | .replaceSuccess _ c _ | .replaceSuccessWatch _ c _ | .replaceWatchMiss _ c =>
    some (c, .replaceSuccess)
  | .replaceMismatch _ c => some (c, .replaceMismatch)
  | .appendSuccess _ c _ | .appendSuccessWatch _ c _ | .appendWatchMiss _ c =>
    some (c, .appendSuccess)
  | .appendMismatch _ c => some (c, .appendMismatch)
  | .appendOutOfMemory _ c => some (c, .appendOutOfMemory)
  | .prependSuccess _ c _ | .prependSuccessWatch _ c _ | .prependWatchMiss _ c =>
    some (c, .prependSuccess)
  | .prependMismatch _ c => some (c, .prependMismatch)
  | .prependOutOfMemory _ c => some (c, .prependOutOfMemory)
  | .deleteSuccess _ c => some (c, .deleteSuccess)
  | .deleteMismatch _ c => some (c, .deleteMismatch)
  | _ => none

/-- The call is about a class below the last one and not about an expiration, if it is about a
class at all. -/
def Below (c : StatCall) (classIdMax : Nat) : Prop :=
  ∀ i f, c.counted = some (i, f) → (1 ≤ i ∧ i < classIdMax) ∧
    f ≠ .updateExpirationSuccess ∧ f ≠ .updateExpirationMismatch

end StatCall

variable {env : Env} {maxStatsGroup : Nat}

namespace TotalsLemmas

variable {x y : Counted} {st : Stats} {item : GroupStatsItem}

/-! ## Merging -/

theorem foldl_update (item : CacheStatsItem) (fs : List CacheField) (hfs : fs.Nodup)
    (cs : CacheStatsItem) (f : CacheField) :
    fs.foldl (fun cs f => Function.update cs f ((cs f + item f) % 2 ^ 64)) cs f =
      if f ∈ fs then (cs f + item f) % 2 ^ 64 else cs f := by
  induction fs generalizing cs with
  | nil => rfl
  | cons a fs ih =>
    obtain ⟨ha, hfs⟩ := List.nodup_cons.mp hfs
    rw [List.foldl_cons, ih hfs]
    rcases eq_or_ne f a with rfl | hne
    · rw [if_neg ha, if_pos List.mem_cons_self, Function.update_self]
    · simp only [List.mem_cons, hne, false_or, Function.update_of_ne hne]

theorem merge_apply (item cs : CacheStatsItem) (f : CacheField) :
    item.merge cs f =
      if f ∈ CacheStatsItem.mergedFields then (cs f + item f) % 2 ^ 64 else cs f :=
  foldl_update item _ (by decide) cs f

/-- Every field is merged but the two of `update_expiration`. -/
theorem mem_mergedFields (f : CacheField) : f ∈ CacheStatsItem.mergedFields ↔
    f ≠ .updateExpirationSuccess ∧ f ≠ .updateExpirationMismatch := by
  cases f <;> decide

theorem foldl_merge (f : CacheField) (hf : f ∈ CacheStatsItem.mergedFields)
    (item : Nat → CacheStatsItem) (is : List Nat) (cs : CacheStatsItem) (hcs : cs f < 2 ^ 64) :
    is.foldl (fun cs i => (item i).merge cs) cs f =
      (cs f + (is.map fun i => item i f).sum) % 2 ^ 64 := by
  induction is generalizing cs with
  | nil => exact (Nat.mod_eq_of_lt hcs).symm
  | cons i is ih =>
    have happly : (item i).merge cs f = (cs f + item i f) % 2 ^ 64 := by
      rw [merge_apply, if_pos hf]
    have hlt : (item i).merge cs f < 2 ^ 64 := by
      rw [happly]
      exact Nat.mod_lt _ (Nat.two_pow_pos 64)
    rw [List.foldl_cons, ih _ hlt, happly, Nat.mod_add_mod, List.map_cons, List.sum_cons,
      Nat.add_assoc]

theorem foldl_merge_other (f : CacheField) (hf : f ∉ CacheStatsItem.mergedFields)
    (item : Nat → CacheStatsItem) (is : List Nat) (cs : CacheStatsItem) :
    is.foldl (fun cs i => (item i).merge cs) cs f = cs f := by
  induction is generalizing cs with
  | nil => rfl
  | cons i is ih =>
    rw [List.foldl_cons, ih, merge_apply, if_neg hf]

theorem sum_range' (g : Nat → Nat) (n : Nat) :
    ((List.range' 1 n).map g).sum = ∑ i ∈ Finset.Icc 1 n, g i := by
  induction n with
  | zero => rfl
  | succ n ih =>
    rw [List.range'_concat, List.map_append, List.sum_append, ih,
      Finset.sum_Icc_succ_top (Nat.le_add_left 1 n), List.map_singleton, List.sum_singleton,
      Nat.one_mul, Nat.add_comm 1 n]

/-- What `merage` computes. -/
theorem merage_apply (n : Nat) (f : CacheField) : st.merage n .clear f =
    if f ∈ CacheStatsItem.mergedFields then
      (∑ i ∈ Finset.Icc 1 (n - 1), st.groupSum (.cacheStats i f)) % 2 ^ 64
    else 0 := by
  unfold Stats.merage
  split
  · next hf =>
    rw [foldl_merge f hf (fun i => st.groupSum.classStats i) _ _ (Nat.two_pow_pos 64), sum_range',
      CacheStatsItem.clear, Nat.zero_add]
    rfl
  · next hf => exact foldl_merge_other f hf (fun i => st.groupSum.classStats i) _ _

/-! ## Listing -/

theorem mem_append {l : StatsLine} {classId : Option Nat} {k : String} {v : Nat} :
    l ∈ StatsLine.append classId k v ↔ v ≠ 0 ∧ l = ⟨k, classId, v⟩ := by
  unfold StatsLine.append
  split
  · next hv => simp [hv]
  · next hv => simp [hv]

theorem mem_toString (cs : CacheStatsItem) (i : Nat) (l : StatsLine) :
    l ∈ cs.toString i ↔ ∃ f, cs f ≠ 0 ∧ l = ⟨f.name, some (i % 2 ^ 8), cs f⟩ := by
  unfold CacheStatsItem.toString
  rw [List.mem_flatMap]
  constructor
  · rintro ⟨f, -, hl⟩
    exact ⟨f, mem_append.mp hl⟩
  · rintro ⟨f, hl⟩
    refine ⟨f, ?_, mem_append.mpr hl⟩
    cases f <;> decide

/-- A line about a class is in the listing of all classes. -/
theorem mem_listing {classId n i : Nat} {f : CacheField} (hall : ¬ (0 < classId ∧ classId < 200))
    (hn : n ≤ 200) (hv : item (.cacheStats i f) ≠ 0) :
    ⟨f.name, some i, item (.cacheStats i f)⟩ ∈ item.toString classId n ↔ 1 ≤ i ∧ i < n := by
  have hmod : ∀ j, j < n → j % 2 ^ 8 = j := fun j hj =>
    Nat.mod_eq_of_lt ((hj.trans_le hn).trans (by decide))
  unfold GroupStatsItem.toString
  rw [if_neg hall, List.mem_append, List.mem_flatMap, List.mem_flatMap]
  constructor
  · rintro (⟨l, -, hl⟩ | ⟨j, hj, hl⟩)
    · exact nomatch congrArg StatsLine.classId (mem_append.mp hl).2
    · obtain ⟨f', -, hl⟩ := (mem_toString _ _ _).mp hl
      have hij : some i = some (j % 2 ^ 8) := congrArg StatsLine.classId hl
      rw [List.mem_range'_1] at hj
      rw [hmod j (by omega)] at hij
      obtain rfl := Option.some.inj hij
      omega
  · rintro ⟨h1, h2⟩
    refine .inr ⟨i, List.mem_range'_1.mpr (by omega), (mem_toString _ _ _).mpr ⟨f, hv, ?_⟩⟩
    rw [hmod i h2]
    rfl

/-- The listing has every class that is used, if no class outside the loop is. -/
theorem lists_iff {n : Nat} (hn : n ≤ 200) :
    item.Lists n ↔ ∀ i f, item (.cacheStats i f) ≠ 0 → 1 ≤ i ∧ i < n := by
  constructor
  · intro h i f hv
    exact (mem_listing (by decide) hn hv).mp (h 0 (by decide) i f hv)
  · intro h classId hall i f hv
    exact (mem_listing hall hn hv).mpr (h i f hv)

/-! ## Counting -/

theorem adds_class (c : StatCall) (i : Nat) (f : CacheField) :
    c.adds (.cacheStats i f) = if c.counted = some (i, f) then 1 else 0 := by
  cases c <;>
    simp [StatCall.adds, Stats.record, Stats.both, Stats.apart, Stats.new, GroupStatsItem.addAll,
      GroupStatsItem.add, GroupStatsItem.clear, StatCall.counted, Function.update_apply,
      Counter.width, eq_comm]

theorem total_class (cs : List StatCall) (i : Nat) (f : CacheField) :
    (Counter.cacheStats i f).total cs = cs.countP fun c => c.counted = some (i, f) := by
  induction cs with
  | nil => rfl
  | cons c cs ih =>
    have htotal : (Counter.cacheStats i f).total (c :: cs) =
        c.adds (.cacheStats i f) + (Counter.cacheStats i f).total cs := List.sum_cons
    rw [htotal, ih, adds_class, List.countP_cons, Nat.add_comm]
    simp only [decide_eq_true_eq]

/-- A call is about one class at most. -/
theorem sum_total_le (cs : List StatCall) (is : Finset Nat) (f : CacheField) :
    ∑ i ∈ is, (Counter.cacheStats i f).total cs ≤ cs.length := by
  induction cs with
  | nil => exact (Finset.sum_eq_zero fun i _ => rfl).le
  | cons c cs ih =>
    have htotal : ∀ i, (Counter.cacheStats i f).total (c :: cs) =
        c.adds (.cacheStats i f) + (Counter.cacheStats i f).total cs := fun i => List.sum_cons
    have hone : ∑ i ∈ is, c.adds (.cacheStats i f) ≤ 1 := by
      cases hc : c.counted with
      | none => simp [adds_class, hc]
      | some a =>
        obtain ⟨j, f'⟩ := a
        calc ∑ i ∈ is, c.adds (.cacheStats i f) ≤ ∑ i ∈ is, if i = j then 1 else 0 := by
              refine Finset.sum_le_sum fun i _ => ?_
              rw [adds_class, hc]
              split
              · next h => simp [(Prod.mk.inj (Option.some.inj h)).1]
              · exact Nat.zero_le _
          _ ≤ 1 := by
              rw [Finset.sum_ite_eq' is j fun _ => 1]
              split
              · exact Nat.le_refl 1
              · exact Nat.zero_le 1
    rw [Finset.sum_congr rfl fun i _ => htotal i, Finset.sum_add_distrib, List.length_cons]
    omega

theorem record_apart (c : StatCall) : ∃ sum as, (∀ st : Stats, st.record c =
    st.apart c.groupId sum as) ∧
      ∀ i f n, (Counter.cacheStats i f, n) ∈ as → ∃ f', c.counted = some (i, f') := by
  cases c <;> exact ⟨_, _, fun _ => rfl, by simp +contextual [StatCall.counted]⟩

theorem addAll_of_not_mem {k : Counter} (as : List (Counter × Nat)) (h : ∀ n, (k, n) ∉ as) :
    item.addAll as k = item k := by
  induction as generalizing item with
  | nil => rfl
  | cons a as ih =>
    have hne : k ≠ a.1 := by
      rintro rfl
      exact h a.2 List.mem_cons_self
    calc item.addAll (a :: as) k = item.add a k := ih fun n hn => h n (List.mem_cons_of_mem _ hn)
      _ = item k := Function.update_of_ne hne _ _

/-- What is not zero in a group is about a call. -/
def Grounded (st : Stats) (cs : List StatCall) : Prop :=
  ∀ g item, st.groupMap g = some item → ∀ i f, item (.cacheStats i f) ≠ 0 →
    ∃ c ∈ cs, ∃ f', c.counted = some (i, f')

theorem grounded_record {cs : List StatCall} (c : StatCall) (h : Grounded st cs) :
    Grounded (st.record c) (cs ++ [c]) := by
  obtain ⟨sum, as, hrecord, has⟩ := record_apart c
  intro g item hitem i f hv
  rw [hrecord] at hitem
  have hold : ∀ item', st.groupMap g = some item' → item' (.cacheStats i f) ≠ 0 →
      ∃ c' ∈ cs ++ [c], ∃ f', c'.counted = some (i, f') := by
    intro item' hitem' hv'
    obtain ⟨c', hc', hf⟩ := h g item' hitem' i f hv'
    exact ⟨c', List.mem_append_left _ hc', hf⟩
  rcases eq_or_ne g c.groupId with rfl | hne
  · have hmap : (st.groupMap c.groupId).map (fun it => it.addAll as) = some item := by
      simpa only [Stats.apart, Function.update_self] using hitem
    obtain ⟨item', hitem', rfl⟩ := Option.map_eq_some_iff.mp hmap
    by_cases hmem : ∃ n, (Counter.cacheStats i f, n) ∈ as
    · obtain ⟨n, hn⟩ := hmem
      exact ⟨c, List.mem_append_right _ List.mem_cons_self, has i f n hn⟩
    · rw [addAll_of_not_mem as (not_exists.mp hmem)] at hv
      exact hold item' hitem' hv
  · have hmap : st.groupMap g = some item := by
      simpa only [Stats.apart, Function.update_of_ne hne] using hitem
    exact hold item hmap hv

theorem grounded_recordAll {cs : List StatCall} (cs' : List StatCall) (h : Grounded st cs) :
    Grounded (st.recordAll cs') (cs ++ cs') := by
  induction cs' generalizing st cs with
  | nil => rwa [List.append_nil]
  | cons c cs' ih =>
    rw [List.append_cons]
    exact ih (grounded_record c h)

theorem grounded_addGroup {cs : List StatCall} {n g : Nat} (h : Grounded st cs) :
    Grounded (st.addGroup n g).2 cs := by
  unfold Stats.addGroup
  split
  · split
    · exact h
    · intro g' item hitem i f hv
      rcases eq_or_ne g' g with rfl | hne
      · simp only [Function.update_self] at hitem
        obtain rfl := Option.some.inj hitem
        exact absurd rfl hv
      · simp only [Function.update_of_ne hne] at hitem
        exact h g' item hitem i f hv
  · exact h

theorem grounded_removeGroup {cs : List StatCall} {g : Nat} (h : Grounded st cs) :
    Grounded (st.removeGroup g).2 cs := by
  unfold Stats.removeGroup
  split
  · intro g' item hitem i f hv
    rcases eq_or_ne g' g with rfl | hne
    · simp only [Function.update_self] at hitem
      exact nomatch hitem
    · simp only [Function.update_of_ne hne] at hitem
      exact h g' item hitem i f hv
  · exact h

/-- The counters are those of the calls so far. -/
structure Recorded (n : Nat) (x : Counted) : Prop where
  classIdMax : x.sys.mgr.classIdMax = n
  sum : ∀ c : Counter, x.stats.groupSum c = c.total x.sys.mgr.stats % 2 ^ c.width
  group : Grounded x.stats x.sys.mgr.stats

theorem recorded_step {n : Nat} {l : CountedOp} (hx : Recorded n x)
    (h : Counted.Step env maxStatsGroup x l y) : Recorded n y := by
  cases h with
  | @cache l sys h =>
    have hmgr : (x.sys.mgr.exec env l.1).2 = sys.mgr := congrArg (fun r => r.2.mgr) h.2
    have hlog : x.sys.mgr.Logged sys.mgr := hmgr ▸ logged_exec env x.sys.mgr l.1
    obtain ⟨cs, hcs⟩ := hlog.stats
    have hlt : ∀ c : Counter, x.stats.groupSum c < 2 ^ c.width := by
      intro c
      rw [hx.sum]
      exact Nat.mod_lt _ (Nat.two_pow_pos _)
    refine ⟨hlog.classIdMax.trans hx.classIdMax, fun c => ?_, ?_⟩
    · dsimp only
      rw [← hcs, List.drop_left, recordAll_groupSum cs hlt, hx.sum, total_append, Nat.mod_add_mod]
    · dsimp only
      rw [← hcs, List.drop_left]
      exact grounded_recordAll cs hx.group
  | addGroup g =>
    refine ⟨hx.classIdMax, fun c => ?_, grounded_addGroup hx.group⟩
    rw [addGroup_groupSum]
    exact hx.sum c
  | removeGroup g =>
    refine ⟨hx.classIdMax, fun c => ?_, grounded_removeGroup hx.group⟩
    rw [removeGroup_groupSum]
    exact hx.sum c

variable {lastTime limit itemSizeMax itemSizeMin : Nat} {factor : Rat}

theorem recorded_start :
    Recorded (Sys.start env lastTime limit itemSizeMax itemSizeMin factor).mgr.classIdMax
      (Counted.start env lastTime limit itemSizeMax itemSizeMin factor) := by
  obtain ⟨hstats, -, -⟩ :=
    start_empty (rfl : (Sys.start env lastTime limit itemSizeMax itemSizeMin factor).mgr = _)
  refine ⟨rfl, fun c => ?_, nofun⟩
  simp only [Counted.start, hstats]
  exact (Nat.zero_mod _).symm

/-! ## Covering -/

/-- As long as no counter can have wrapped, it is zero exactly if no call was about it. -/
theorem groupSum_eq {n : Nat} (hx : Recorded n x) (hfew : x.sys.mgr.stats.length < 2 ^ 64)
    (i : Nat) (f : CacheField) : x.stats.groupSum (.cacheStats i f) =
      x.sys.mgr.stats.countP fun c => c.counted = some (i, f) := by
  rw [hx.sum, total_class]
  exact Nat.mod_eq_of_lt (List.countP_le_length.trans_lt hfew)

theorem groupSum_pos {n : Nat} (hx : Recorded n x) (hfew : x.sys.mgr.stats.length < 2 ^ 64)
    {i : Nat} {f : CacheField} : x.stats.groupSum (.cacheStats i f) ≠ 0 ↔
      ∃ c ∈ x.sys.mgr.stats, c.counted = some (i, f) := by
  rw [groupSum_eq hx hfew, ← Nat.pos_iff_ne_zero, List.countP_pos_iff]
  simp only [decide_eq_true_eq]

theorem covers_of_below {n : Nat} (hn : n ≤ 200) (hx : Recorded n x)
    (hfew : x.sys.mgr.stats.length < 2 ^ 64) (hbelow : ∀ c ∈ x.sys.mgr.stats, c.Below n) :
    x.stats.Covers n n := by
  have hused : ∀ i f, x.stats.groupSum (.cacheStats i f) ≠ 0 → (1 ≤ i ∧ i < n) ∧
      f ∈ CacheStatsItem.mergedFields := by
    intro i f hv
    obtain ⟨c, hc, hf⟩ := (groupSum_pos hx hfew).mp hv
    rw [mem_mergedFields]
    exact hbelow c hc i f hf
  have hlast : ∀ f, ∑ i ∈ Finset.Icc 1 n, x.stats.groupSum (.cacheStats i f) =
      ∑ i ∈ Finset.Icc 1 (n - 1), x.stats.groupSum (.cacheStats i f) := by
    intro f
    refine (Finset.sum_subset (Finset.Icc_subset_Icc_right (Nat.sub_le n 1)) ?_).symm
    intro i hi hout
    rw [Finset.mem_Icc] at hi hout
    by_contra hv
    have := (hused i f hv).1
    omega
  refine ⟨fun f => ?_, (lists_iff hn).mpr fun i f hv => (hused i f hv).1, fun g item hitem =>
    (lists_iff hn).mpr fun i f hv => ?_⟩
  · rw [merage_apply, hlast]
    split
    · refine Nat.mod_eq_of_lt (lt_of_le_of_lt ?_ hfew)
      rw [Finset.sum_congr rfl fun i _ => (groupSum_eq hx hfew i f).trans (total_class _ i f).symm]
      exact sum_total_le _ _ f
    · next hf =>
      refine (Finset.sum_eq_zero fun i _ => ?_).symm
      by_contra hv
      exact hf (hused i f hv).2
  · obtain ⟨c, hc, f', hf⟩ := hx.group g item hitem i f hv
    exact (hbelow c hc i f' hf).1

theorem below_of_covers {n : Nat} (hn : n ≤ 200) (hx : Recorded n x)
    (hfew : x.sys.mgr.stats.length < 2 ^ 64) (h : x.stats.Covers n n) :
    ∀ c ∈ x.sys.mgr.stats, c.Below n := by
  intro c hc i f hf
  have hv : x.stats.groupSum (.cacheStats i f) ≠ 0 := (groupSum_pos hx hfew).mpr ⟨c, hc, hf⟩
  have hi : 1 ≤ i ∧ i < n := (lists_iff hn).mp h.sum i f hv
  refine ⟨hi, ?_⟩
  rw [← mem_mergedFields]
  by_contra hout
  have hzero := h.merged f
  rw [merage_apply, if_neg hout] at hzero
  exact hv (Finset.sum_eq_zero_iff.mp hzero.symm i (Finset.mem_Icc.mpr ⟨hi.1, hi.2.le⟩))

end TotalsLemmas

open TotalsLemmas MemoryLemmas

/-- `init` gives `class_id_max_` to the statistics as `max_class_id_`. After fewer than `2 ^ 64`
calls the totals cover every class if and only if every call was about a class below the last one
and not about an expiration. -/
theorem totals_of_run {lastTime limit itemSizeMax itemSizeMin : Nat} {factor : Rat} {y : Counted}
    {t : List (Counted × CountedOp)}
    (h : Run (Counted.Step env maxStatsGroup)
      (Counted.start env lastTime limit itemSizeMax itemSizeMin factor) t y)
    (hfew : y.sys.mgr.stats.length < 2 ^ 64) :
    y.stats.Covers (Sys.start env lastTime limit itemSizeMax itemSizeMin factor).mgr.classIdMax
        y.sys.mgr.classIdMax ↔
      ∀ c ∈ y.sys.mgr.stats, c.Below y.sys.mgr.classIdMax := by
  obtain ⟨-, hn, -⟩ := init_bounds
    (rfl : (Sys.start env lastTime limit itemSizeMax itemSizeMin factor).mgr = _)
  have hy := h.invariant (I := Recorded _) (fun _ _ _ hx hs => recorded_step hx hs)
    recorded_start
  rw [hy.classIdMax]
  exact ⟨below_of_covers hn hy hfew, covers_of_below hn hy hfew⟩

/-- A manager with two size classes, of 112 and of 296 bytes. -/
def Counted.twoClasses : Counted := Counted.start (.colliding .uint16) 0 100000 200 10 2

/-- The key `k` is set to `n` bytes. -/
def setBytes (n : Nat) : List Op :=
  [.alloc .zeros 1 1 0 0 n 0, .fill 0 ⟨[107], List.replicate n 55, [], 0⟩,
    .update .set .zeros 0 0]

/-- An item of the first class is covered. -/
theorem totals_first_class :
    (Counted.twoClasses.execAll (.colliding .uint16) (setBytes 2)).stats.Covers 2 2 := by
  have hrun : Run (Counted.Step (.colliding .uint16) 0)
      (Counted.start (.colliding .uint16) 0 100000 200 10 2) _
      (Counted.twoClasses.execAll (.colliding .uint16) (setBytes 2)) :=
    Counted.run_execAll 0 (by decide +kernel)
  have hcalls : (Counted.twoClasses.execAll (.colliding .uint16) (setBytes 2)).sys.mgr.stats =
      [.setSuccess 1 1 99, .itemLink 1 1 99] := by decide +kernel
  have hfirst : (Sys.start (.colliding .uint16) 0 100000 200 10 2).mgr.classIdMax = 2 := by
    decide +kernel
  have hmax : (Counted.twoClasses.execAll (.colliding .uint16) (setBytes 2)).sys.mgr.classIdMax =
      2 := by decide +kernel
  have hcovers := totals_of_run hrun (by rw [hcalls]; decide)
  rw [hcalls, hfirst, hmax] at hcovers
  refine hcovers.mpr fun c hc i f hf => ?_
  rcases List.mem_cons.mp hc with rfl | hc
  · obtain ⟨rfl, rfl⟩ := Prod.mk.inj (Option.some.inj hf)
    decide
  · rw [List.mem_singleton.mp hc] at hf
    exact nomatch hf

/-- An item of the last class is neither merged nor listed. -/
theorem totals_last_class :
    let y := Counted.twoClasses.execAll (.colliding .uint16) (setBytes 40)
    Run (Counted.Step (.colliding .uint16) 0) Counted.twoClasses
        (Counted.twoClasses.trace (.colliding .uint16) (setBytes 40)) y ∧
      y.sys.mgr.classIdMax = 2 ∧ y.stats.groupSum (.cacheStats 2 .setSuccess) = 1 ∧
      y.stats.merage 2 .clear .setSuccess = 0 ∧
      ⟨"set_success", some 2, 1⟩ ∉ y.stats.groupSum.toString 0 2 ∧ ¬ y.stats.Covers 2 2 := by
  intro y
  have hset : y.stats.groupSum (.cacheStats 2 .setSuccess) = 1 := by decide +kernel
  have hmerged : y.stats.merage 2 .clear .setSuccess = 0 := by decide +kernel
  refine ⟨Counted.run_execAll 0 (by decide +kernel), by decide +kernel, hset, hmerged,
    by decide +kernel, fun h => ?_⟩
  have hall := h.merged .setSuccess
  rw [hmerged] at hall
  have hzero := Finset.sum_eq_zero_iff.mp hall.symm 2 (by decide)
  exact nomatch hset.symm.trans hzero

end Xixi
