import Mathlib.Logic.Function.Basic
import Xixi.Watch

/-!
# Items, reason codes and the recorded statistics (`cache.h`, `xixibase.h`, `stats.h`)

`Cache_Item` without its list and hash links (those are in `Lists` and
`HashMap`). `body` is the memory that starts at the member of that name: the key,
the data and the extension lie in it one behind the other, at the offsets that
`get_key`, `get_data` and `get_ext` compute from the lengths.

1. `slice_memcpy_self`, `slice_memcpy_before`: what a copy into a region leaves.
2. `fill_key`, `fill_data`, `fill_ext`, `copy_key`, `copy_data`, `copy_ext`: an item
   whose regions have been filled.
-/

namespace Xixi

/-- The address of a `Cache_Item`. -/
abbrev Ptr := Nat

abbrev Bytes := List UInt8

/-- The `xixi_reason` codes the cache manager and its callers use. -/
inductive Reason
  | success
  | notFound
  | exists
  | tooLarge
  | mismatch
  | outOfMemory
  | watchNotFound
deriving DecidableEq, Repr

/-- How `ref_count` is stored: `uint16_t` in the source. `unbounded` sets
wrap-around aside. -/
inductive RefWidth
  | unbounded
  | uint16
deriving DecidableEq, Repr

def RefWidth.store : RefWidth → Nat → Nat
  | .unbounded, n => n
  | .uint16, n => n % 2 ^ 16

/-- What the manager is compiled with: the hash function, `sizeof(Cache_Item)`
and the width of `ref_count`. -/
structure Env where
  hash32 : Bytes → Nat → Nat
  sizeofItem : Nat
  refWidth : RefWidth

/-- The outcome of the calls of `malloc` during one operation: whether there is
memory for an item and what it holds, and whether there is memory for the table
of an expanding hash map. -/
structure Malloc where
  item : Bool
  memory : Nat → UInt8
  table : Bool

/-! ## Memory -/

/-- The `n` bytes from `off` on. -/
def slice (mem : Nat → UInt8) (off n : Nat) : Bytes := (List.range n).map fun i => mem (off + i)

/-- `memcpy(mem + off, bytes, bytes.length)`. -/
def memcpy (mem : Nat → UInt8) (off : Nat) (bytes : Bytes) : Nat → UInt8 := fun i =>
  if off ≤ i ∧ i < off + bytes.length then bytes.getD (i - off) 0 else mem i

@[simp] theorem length_slice (mem : Nat → UInt8) (off n : Nat) : (slice mem off n).length = n := by
  simp [slice]

theorem slice_congr {mem mem' : Nat → UInt8} {off n : Nat}
    (h : ∀ i < n, mem (off + i) = mem' (off + i)) : slice mem off n = slice mem' off n := by
  simp only [slice, List.map_inj_left, List.mem_range]
  exact h

theorem slice_memcpy_self (mem : Nat → UInt8) (off : Nat) (bytes : Bytes) :
    slice (memcpy mem off bytes) off bytes.length = bytes := by
  refine List.ext_getElem (by simp) fun i h1 h2 => ?_
  simp only [slice, memcpy, List.getElem_map, List.getElem_range]
  rw [if_pos ⟨Nat.le_add_right off i, Nat.add_lt_add_left h2 off⟩, Nat.add_sub_cancel_left]
  simp [List.getD_eq_getElem?_getD, h2]

/-- A copy does not touch what lies before its target. -/
theorem slice_memcpy_before {mem : Nat → UInt8} {off off' n : Nat} {bytes : Bytes}
    (h : off' + n ≤ off) : slice (memcpy mem off bytes) off' n = slice mem off' n := by
  refine slice_congr fun i hi => ?_
  rw [memcpy, if_neg]
  omega

/-- A copy does not touch what lies behind its target. -/
theorem slice_memcpy_behind {mem : Nat → UInt8} {off off' n : Nat} {bytes : Bytes}
    (h : off + bytes.length ≤ off') : slice (memcpy mem off bytes) off' n = slice mem off' n := by
  refine slice_congr fun i hi => ?_
  rw [memcpy, if_neg]
  omega

theorem slice_add (mem : Nat → UInt8) (off m n : Nat) :
    slice mem off (m + n) = slice mem off m ++ slice mem (off + m) n := by
  simp only [slice, List.range_add, List.map_append, List.map_map, Function.comp_def]
  simp only [Nat.add_assoc]

/-! ## Items -/

/-- `Cache_Item`. -/
structure CacheItem where
  expireTime : Nat
  watchItem : Option WatchSet
  cacheId : Nat
  groupId : Nat
  flags : Nat
  dataSize : Nat
  lastUpdateTime : Nat
  refCount : Nat
  keyLength : Nat
  extSize : Nat
  classId : Nat
  expirationId : Nat
  body : Nat → UInt8

/-- What a caller writes into an item it has allocated. -/
structure Contents where
  key : Bytes
  data : Bytes
  ext : Bytes
  cacheId : Nat
deriving DecidableEq, Repr

namespace CacheItem

/-- The constructor, on memory that holds `memory`. -/
def new (memory : Nat → UInt8) : CacheItem where
  expireTime := 0
  watchItem := none
  cacheId := 0
  groupId := 0
  flags := 0
  dataSize := 0
  lastUpdateTime := 0
  refCount := 0
  keyLength := 0
  extSize := 0
  classId := 0
  expirationId := 0
  body := memory

/-- `reset` sets every field but the body. -/
def reset (it : CacheItem) : CacheItem := new it.body

def key (it : CacheItem) : Bytes := slice it.body 0 it.keyLength

def data (it : CacheItem) : Bytes := slice it.body it.keyLength it.dataSize

def ext (it : CacheItem) : Bytes := slice it.body (it.keyLength + it.dataSize) it.extSize

def setKey (it : CacheItem) (key : Bytes) : CacheItem :=
  { it with body := memcpy it.body 0 (key.take it.keyLength) }

/-- `memcpy(it->get_data() + off, bytes, ..)`. -/
def setData (it : CacheItem) (off : Nat) (bytes : Bytes) : CacheItem :=
  { it with body := memcpy it.body (it.keyLength + off) bytes }

def setExt (it : CacheItem) (ext : Bytes) : CacheItem :=
  { it with body := memcpy it.body (it.keyLength + it.dataSize) (ext.take it.extSize) }

def totalSize (env : Env) (it : CacheItem) : Nat :=
  (env.sizeofItem + it.keyLength + it.dataSize + it.extSize) % 2 ^ 32

/-- `is_key` against `Cache_Key(groupId, key, key.length)`. -/
def isKey (groupId : Nat) (key : Bytes) (it : CacheItem) : Bool :=
  it.groupId == groupId && it.keyLength == key.length && it.key == key

def addWatch (it : CacheItem) (watchId : Nat) : CacheItem :=
  { it with watchItem := some ((it.watchItem.getD .empty).addWatch watchId) }

/-- A caller fills the item: key, data, extension and the request's cache id. -/
def fill (it : CacheItem) (c : Contents) : CacheItem :=
  { it with
    body := (((it.setKey c.key).setData 0 c.data).setExt c.ext).body
    cacheId := c.cacheId }

/-- The copies into an item that `append`, `prepend` and `delta` make: the key, the
data `first` and `second` one behind the other, the extension. -/
def copy (it : CacheItem) (key first second ext : Bytes) : CacheItem :=
  { it with
    body := ((((it.setKey key).setData 0 first).setData first.length second).setExt ext).body }

/-- The copies only change the body. -/
theorem copy_eq (it : CacheItem) (key first second ext : Bytes) :
    ∃ body, it.copy key first second ext = { it with body := body } := ⟨_, rfl⟩

/-- The contents have the lengths the item was allocated with. -/
def Fits (it : CacheItem) (c : Contents) : Prop :=
  c.key.length = it.keyLength ∧ c.data.length = it.dataSize ∧ c.ext.length = it.extSize

instance (it : CacheItem) (c : Contents) : Decidable (it.Fits c) :=
  inferInstanceAs (Decidable (_ ∧ _ ∧ _))

@[simp] theorem length_key (it : CacheItem) : it.key.length = it.keyLength := length_slice ..

@[simp] theorem length_data (it : CacheItem) : it.data.length = it.dataSize := length_slice ..

@[simp] theorem length_ext (it : CacheItem) : it.ext.length = it.extSize := length_slice ..

theorem fill_key {it : CacheItem} {c : Contents} (h : it.Fits c) : (it.fill c).key = c.key := by
  obtain ⟨hk, hd, -⟩ := h
  simp only [key, fill, setExt, setData, setKey]
  rw [slice_memcpy_before (by omega), slice_memcpy_before (by omega),
    List.take_of_length_le (Nat.le_of_eq hk), ← hk, slice_memcpy_self]

theorem fill_data {it : CacheItem} {c : Contents} (h : it.Fits c) : (it.fill c).data = c.data := by
  obtain ⟨hk, hd, -⟩ := h
  simp only [data, fill, setExt, setData, setKey]
  rw [slice_memcpy_before (by omega), ← hd, Nat.add_zero, slice_memcpy_self]

theorem fill_ext {it : CacheItem} {c : Contents} (h : it.Fits c) : (it.fill c).ext = c.ext := by
  obtain ⟨-, -, he⟩ := h
  simp only [ext, fill, setExt, setData, setKey]
  rw [List.take_of_length_le (Nat.le_of_eq he), ← he, slice_memcpy_self]

/-- Overwriting the data with as many bytes leaves the key and the extension. -/
theorem setData_fields {it : CacheItem} {bytes : Bytes} (h : bytes.length = it.dataSize) :
    (it.setData 0 bytes).key = it.key ∧ (it.setData 0 bytes).data = bytes ∧
      (it.setData 0 bytes).ext = it.ext := by
  simp only [CacheItem.key, data, CacheItem.ext, setData, Nat.add_zero]
  refine ⟨slice_memcpy_before (by omega), ?_, slice_memcpy_behind (by omega)⟩
  rw [← h, slice_memcpy_self]

theorem copy_key {it : CacheItem} {key first second ext : Bytes} (h : key.length = it.keyLength) :
    (it.copy key first second ext).key = key := by
  simp only [CacheItem.key, copy, setExt, setData, setKey]
  rw [slice_memcpy_before (by omega), slice_memcpy_before (by omega),
    slice_memcpy_before (by omega), List.take_of_length_le (Nat.le_of_eq h), ← h, slice_memcpy_self]

theorem copy_data {it : CacheItem} {key first second ext : Bytes}
    (h : first.length + second.length = it.dataSize) :
    (it.copy key first second ext).data = first ++ second := by
  simp only [data, copy, setExt, setData, setKey]
  rw [slice_memcpy_before (by omega), ← h, slice_add, slice_memcpy_before (by omega), Nat.add_zero,
    slice_memcpy_self, slice_memcpy_self]

theorem copy_ext {it : CacheItem} {key first second ext : Bytes} (h : ext.length = it.extSize) :
    (it.copy key first second ext).ext = ext := by
  simp only [CacheItem.ext, copy, setExt, setData, setKey]
  rw [List.take_of_length_le (Nat.le_of_eq h), ← h, slice_memcpy_self]

theorem isKey_iff {g : Nat} {k : Bytes} {it : CacheItem} :
    it.isKey g k = true ↔ it.groupId = g ∧ it.key = k := by
  simp only [isKey, Bool.and_eq_true, beq_iff_eq]
  constructor
  · rintro ⟨⟨hg, -⟩, hk⟩
    exact ⟨hg, hk⟩
  · rintro ⟨hg, hk⟩
    exact ⟨⟨hg, by rw [← hk, length_key]⟩, hk⟩

attribute [irreducible] copy

end CacheItem

/-- The calls of the recording functions of `Stats` that the manager makes, with
their arguments (`group_id`, `class_id`, `bytes`). -/
inductive StatCall
  | getHitNoWatch (g c n : Nat)
  | getHitWatch (g c n : Nat)
  | getHitWatchMiss (g c : Nat)
  | getMiss (g : Nat)
  | getTouchHitNoWatch (g c n : Nat)
  | getTouchHitWatch (g c n : Nat)
  | getTouchHitWatchMiss (g c : Nat)
  | getTouchMiss (g : Nat)
  | getBaseHit (g c : Nat)
  | getBaseMiss (g : Nat)
  | updateFlagsSuccess (g c : Nat)
  | updateFlagsMismatch (g c : Nat)
  | updateFlagsMiss (g : Nat)
  | updateExpirationSuccess (g c : Nat)
  | updateExpirationMismatch (g c : Nat)
  | updateExpirationMiss (g : Nat)
  | addSuccess (g c n : Nat)
  | addSuccessWatch (g c n : Nat)
  | addWatchMiss (g c : Nat)
  | addFail (g c : Nat)
  | setSuccess (g c n : Nat)
  | setSuccessWatch (g c n : Nat)
  | setWatchMiss (g c : Nat)
  | setMismatch (g c : Nat)
  | replaceSuccess (g c n : Nat)
  | replaceSuccessWatch (g c n : Nat)
  | replaceWatchMiss (g c : Nat)
  | replaceMismatch (g c : Nat)
  | replaceMiss (g : Nat)
  | appendSuccess (g c n : Nat)
  | appendSuccessWatch (g c n : Nat)
  | appendWatchMiss (g c : Nat)
  | appendMismatch (g c : Nat)
  | appendOutOfMemory (g c : Nat)
  | appendMiss (g : Nat)
  | prependSuccess (g c n : Nat)
  | prependSuccessWatch (g c n : Nat)
  | prependWatchMiss (g c : Nat)
  | prependMismatch (g c : Nat)
  | prependOutOfMemory (g c : Nat)
  | prependMiss (g : Nat)
  | deleteSuccess (g c : Nat)
  | deleteMismatch (g c : Nat)
  | deleteMiss (g : Nat)
  | incrSuccess (g : Nat)
  | incrMismatch (g : Nat)
  | incrMiss (g : Nat)
  | decrSuccess (g : Nat)
  | decrMismatch (g : Nat)
  | decrMiss (g : Nat)
  | createWatch (g : Nat)
  | checkWatch (g : Nat)
  | checkWatchMiss (g : Nat)
  | flush (g : Nat)
  | itemLink (g c n : Nat)
  | itemUnlink (g c n : Nat)
deriving DecidableEq, Repr

end Xixi
