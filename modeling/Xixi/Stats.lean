import Xixi.Item

/-!
# The statistics (`stats.h`, `stats.cpp`)

`Stats` keeps every counter twice, once in `group_sum_` and once in the item of the group, when
the group has one. The recording functions update both copies. A counter is a field of
`Group_Stats_Item`, or a field of one of the `Cache_Stats_Item`s of the classes in it.

1. `Stats.record`: the recording functions.
2. `Stats.addGroup`, `Stats.removeGroup`: the groups that are counted on their own.
3. `StatCall.Faithful`: the recording functions that treat both copies alike.
-/

namespace Xixi

/-- The fields of `Cache_Stats_Item`. -/
inductive CacheField
  | getHitNoWatch | getHitWatch | getHitWatchMiss
  | getTouchHitNoWatch | getTouchHitWatch | getTouchHitWatchMiss
  | getBaseHit | getBaseMiss
  | updateFlagsSuccess | updateFlagsMismatch
  | updateExpirationSuccess | updateExpirationMismatch
  | addSuccess | addSuccessWatch | addWatchMiss | addFail
  | setSuccess | setSuccessWatch | setWatchMiss | setMismatch
  | replaceSuccess | replaceSuccessWatch | replaceWatchMiss | replaceMismatch
  | appendSuccess | appendSuccessWatch | appendWatchMiss | appendMismatch | appendOutOfMemory
  | prependSuccess | prependSuccessWatch | prependWatchMiss | prependMismatch | prependOutOfMemory
  | deleteSuccess | deleteMismatch
deriving DecidableEq, Repr

/-- The counters of a `Group_Stats_Item`; those of `cache_stats_` with their class. -/
inductive Counter
  | getMiss | getTouchMiss | getBaseMiss | updateFlagsMiss | updateExpirationMiss
  | replaceMiss | appendMiss | prependMiss | deleteMiss
  | incrSuccess | incrMismatch | incrMiss | decrSuccess | decrMismatch | decrMiss
  | createWatch | checkWatch | checkWatchMiss
  | bytesRead | bytesWrite
  | linkItems | unlinkItems | linkBytes | unlinkBytes
  | flush
  | cacheStats (classId : Nat) (field : CacheField)
deriving DecidableEq, Repr

/-- `flush_` is a `uint32_t`, every other counter a `uint64_t`. -/
def Counter.width : Counter → Nat
  | .flush => 32
  | _ => 64

/-- `Group_Stats_Item`. -/
abbrev GroupStatsItem := Counter → Nat

namespace GroupStatsItem

/-- `clear`. -/
def clear : GroupStatsItem := fun _ => 0

/-- `item.counter += n;` -/
def add (item : GroupStatsItem) (a : Counter × Nat) : GroupStatsItem :=
  Function.update item a.1 ((item a.1 + a.2) % 2 ^ a.1.width)

def addAll (item : GroupStatsItem) (as : List (Counter × Nat)) : GroupStatsItem := as.foldl add item

end GroupStatsItem

/-- `Stats`: `group_sum_` and `group_map_`. -/
structure Stats where
  groupSum : GroupStatsItem
  groupMap : Nat → Option GroupStatsItem
  groups : List Nat

namespace Stats

def new : Stats where
  groupSum := .clear
  groupMap := fun _ => none
  groups := []

/-- `add_group`: `insert` leaves an item that is already there. -/
def addGroup (st : Stats) (maxStatsGroup groupId : Nat) : Bool × Stats :=
  if st.groups.length < maxStatsGroup then
    if (st.groupMap groupId).isSome then (true, st)
    else (true, { st with
      groupMap := Function.update st.groupMap groupId (some .clear)
      groups := groupId :: st.groups })
  else (false, st)

def removeGroup (st : Stats) (groupId : Nat) : Bool × Stats :=
  if (st.groupMap groupId).isSome then
    (true, { st with
      groupMap := Function.update st.groupMap groupId none
      groups := st.groups.erase groupId })
  else (false, st)

/-- A recording function: what it adds to `group_sum_`, and what to the item of the group. -/
def apart (st : Stats) (groupId : Nat) (sum item : List (Counter × Nat)) : Stats :=
  { st with
    groupSum := st.groupSum.addAll sum
    groupMap := Function.update st.groupMap groupId
      ((st.groupMap groupId).map fun it => it.addAll item) }

/-- A recording function that adds the same to both. -/
def both (st : Stats) (groupId : Nat) (as : List (Counter × Nat)) : Stats := st.apart groupId as as

/-- The recording functions. -/
def record (st : Stats) : StatCall → Stats
  | .getHitNoWatch g c n => st.both g [(.cacheStats c .getHitNoWatch, 1), (.bytesRead, n)]
  | .getHitWatch g c n => st.both g [(.cacheStats c .getHitWatch, 1), (.bytesRead, n)]
  | .getHitWatchMiss g c => st.both g [(.cacheStats c .getHitWatchMiss, 1)]
  | .getMiss g => st.both g [(.getMiss, 1)]
  | .getTouchHitNoWatch g c n => st.both g [(.cacheStats c .getTouchHitNoWatch, 1), (.bytesRead, n)]
  | .getTouchHitWatch g c n => st.both g [(.cacheStats c .getTouchHitWatch, 1), (.bytesRead, n)]
  | .getTouchHitWatchMiss g c => st.both g [(.cacheStats c .getTouchHitWatchMiss, 1)]
  | .getTouchMiss g => st.both g [(.getTouchMiss, 1)]
  | .getBaseHit g c => st.both g [(.cacheStats c .getBaseHit, 1)]
  | .getBaseMiss g => st.both g [(.getBaseMiss, 1)]
  | .updateFlagsSuccess g c => st.both g [(.cacheStats c .updateFlagsSuccess, 1)]
  | .updateFlagsMismatch g c => st.both g [(.cacheStats c .updateFlagsMismatch, 1)]
  | .updateFlagsMiss g => st.both g [(.updateFlagsMiss, 1)]
  | .updateExpirationSuccess g c => st.both g [(.cacheStats c .updateExpirationSuccess, 1)]
  | .updateExpirationMismatch g c => st.both g [(.cacheStats c .updateExpirationMismatch, 1)]
  | .updateExpirationMiss g => st.both g [(.updateExpirationMiss, 1)]
  | .addSuccess g c n => st.both g [(.cacheStats c .addSuccess, 1), (.bytesWrite, n)]
  | .addSuccessWatch g c n =>
    st.apart g [(.cacheStats c .addSuccess, 1), (.bytesWrite, n)]
      [(.cacheStats c .addSuccessWatch, 1), (.bytesWrite, n)]
  | .addWatchMiss g c =>
    st.apart g [(.cacheStats c .addSuccess, 1)] [(.cacheStats c .addWatchMiss, 1)]
  | .addFail g c => st.both g [(.cacheStats c .addFail, 1)]
  | .setSuccess g c n => st.both g [(.cacheStats c .setSuccess, 1), (.bytesWrite, n)]
  | .setSuccessWatch g c n =>
    st.apart g [(.cacheStats c .setSuccess, 1), (.bytesWrite, n)]
      [(.cacheStats c .setSuccessWatch, 1), (.bytesWrite, n)]
  | .setWatchMiss g c =>
    st.apart g [(.cacheStats c .setSuccess, 1)] [(.cacheStats c .setWatchMiss, 1)]
  | .setMismatch g c => st.both g [(.cacheStats c .setMismatch, 1)]
  | .replaceSuccess g c n => st.both g [(.cacheStats c .replaceSuccess, 1), (.bytesWrite, n)]
  | .replaceSuccessWatch g c n =>
    st.apart g [(.cacheStats c .replaceSuccess, 1), (.bytesWrite, n)]
      [(.cacheStats c .replaceSuccessWatch, 1), (.bytesWrite, n)]
  | .replaceWatchMiss g c =>
    st.apart g [(.cacheStats c .replaceSuccess, 1)] [(.cacheStats c .replaceWatchMiss, 1)]
  | .replaceMismatch g c => st.both g [(.cacheStats c .replaceMismatch, 1)]
  | .replaceMiss g => st.both g [(.replaceMiss, 1)]
  | .appendSuccess g c n => st.both g [(.cacheStats c .appendSuccess, 1), (.bytesWrite, n)]
  | .appendSuccessWatch g c n =>
    st.apart g [(.cacheStats c .appendSuccess, 1), (.bytesWrite, n)]
      [(.cacheStats c .appendSuccessWatch, 1), (.bytesWrite, n)]
  | .appendWatchMiss g c =>
    st.apart g [(.cacheStats c .appendSuccess, 1)] [(.cacheStats c .appendWatchMiss, 1)]
  | .appendMismatch g c => st.both g [(.cacheStats c .appendMismatch, 1)]
  | .appendOutOfMemory g c => st.both g [(.cacheStats c .appendOutOfMemory, 1)]
  | .appendMiss g => st.both g [(.appendMiss, 1)]
  | .prependSuccess g c n => st.both g [(.cacheStats c .prependSuccess, 1), (.bytesWrite, n)]
  | .prependSuccessWatch g c n =>
    st.apart g [(.cacheStats c .prependSuccess, 1), (.bytesWrite, n)]
      [(.cacheStats c .prependSuccessWatch, 1), (.bytesWrite, n)]
  | .prependWatchMiss g c =>
    st.apart g [(.cacheStats c .prependSuccess, 1)] [(.cacheStats c .prependWatchMiss, 1)]
  | .prependMismatch g c => st.both g [(.cacheStats c .prependMismatch, 1)]
  | .prependOutOfMemory g c => st.both g [(.cacheStats c .prependOutOfMemory, 1)]
  | .prependMiss g => st.both g [(.prependMiss, 1)]
  | .deleteSuccess g c => st.both g [(.cacheStats c .deleteSuccess, 1)]
  | .deleteMismatch g c => st.both g [(.cacheStats c .deleteMismatch, 1)]
  | .deleteMiss g => st.both g [(.deleteMiss, 1)]
  | .incrSuccess g => st.both g [(.incrSuccess, 1)]
  | .incrMismatch g => st.both g [(.incrMismatch, 1)]
  | .incrMiss g => st.both g [(.incrMiss, 1)]
  | .decrSuccess g => st.both g [(.decrSuccess, 1)]
  | .decrMismatch g => st.both g [(.decrMismatch, 1)]
  | .decrMiss g => st.both g [(.decrMiss, 1)]
  | .createWatch g => st.both g [(.createWatch, 1)]
  | .checkWatch g => st.both g [(.checkWatch, 1)]
  | .checkWatchMiss g => st.both g [(.checkWatchMiss, 1)]
  | .flush g => st.both g [(.flush, 1)]
  | .itemLink g _ n => st.both g [(.linkItems, 1), (.linkBytes, n)]
  -- the bytes go to `unlink_bytes_` of the sum and to `link_bytes_` of the group
  | .itemUnlink g _ n =>
    st.apart g [(.unlinkItems, 1), (.unlinkBytes, n)] [(.unlinkItems, 1), (.linkBytes, n)]

def recordAll (st : Stats) (cs : List StatCall) : Stats := cs.foldl record st

end Stats

/-! ## The calls -/

namespace StatCall

/-- The first argument of the call. -/
def groupId : StatCall → Nat
  | .getHitNoWatch g _ _ | .getHitWatch g _ _ | .getHitWatchMiss g _ | .getMiss g
  | .getTouchHitNoWatch g _ _ | .getTouchHitWatch g _ _ | .getTouchHitWatchMiss g _
  | .getTouchMiss g | .getBaseHit g _ | .getBaseMiss g
  | .updateFlagsSuccess g _ | .updateFlagsMismatch g _ | .updateFlagsMiss g
  | .updateExpirationSuccess g _ | .updateExpirationMismatch g _ | .updateExpirationMiss g
  | .addSuccess g _ _ | .addSuccessWatch g _ _ | .addWatchMiss g _ | .addFail g _
  | .setSuccess g _ _ | .setSuccessWatch g _ _ | .setWatchMiss g _ | .setMismatch g _
  | .replaceSuccess g _ _ | .replaceSuccessWatch g _ _ | .replaceWatchMiss g _
  | .replaceMismatch g _ | .replaceMiss g
  | .appendSuccess g _ _ | .appendSuccessWatch g _ _ | .appendWatchMiss g _
  | .appendMismatch g _ | .appendOutOfMemory g _ | .appendMiss g
  | .prependSuccess g _ _ | .prependSuccessWatch g _ _ | .prependWatchMiss g _
  | .prependMismatch g _ | .prependOutOfMemory g _ | .prependMiss g
  | .deleteSuccess g _ | .deleteMismatch g _ | .deleteMiss g
  | .incrSuccess g | .incrMismatch g | .incrMiss g
  | .decrSuccess g | .decrMismatch g | .decrMiss g
  | .createWatch g | .checkWatch g | .checkWatchMiss g | .flush g
  | .itemLink g _ _ | .itemUnlink g _ _ => g

/-- The calls that the five updates make for a watch. -/
def watched : StatCall → Bool
  | .addSuccessWatch .. | .addWatchMiss .. | .setSuccessWatch .. | .setWatchMiss ..
  | .replaceSuccessWatch .. | .replaceWatchMiss .. | .appendSuccessWatch .. | .appendWatchMiss ..
  | .prependSuccessWatch .. | .prependWatchMiss .. => true
  | _ => false

/-- `item_link` or `item_unlink`. -/
def linking : StatCall → Bool
  | .itemLink .. | .itemUnlink .. => true
  | _ => false

/-- The recording function adds the same to both copies. -/
def Faithful (c : StatCall) : Prop := ∃ as, ∀ st : Stats, st.record c = st.both c.groupId as

theorem faithful_of_not_watched {c : StatCall} (hw : c.watched = false)
    (hu : ∀ g i n, c ≠ .itemUnlink g i n) : c.Faithful := by
  cases c with
  | addSuccessWatch | addWatchMiss | setSuccessWatch | setWatchMiss | replaceSuccessWatch
  | replaceWatchMiss | appendSuccessWatch | appendWatchMiss | prependSuccessWatch
  | prependWatchMiss => exact nomatch hw
  | itemUnlink g i n => exact absurd rfl (hu g i n)
  | _ => exact ⟨_, fun _ => rfl⟩

end StatCall
end Xixi
