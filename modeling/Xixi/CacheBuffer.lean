import Mathlib.Data.List.Pairwise
import Mathlib.Tactic.NormNum
import Xixi.Lib.Run

/-!
# The scratch buffer of a connection (`cache_buffer.hpp`)

`Cache_Buffer<BASE_SIZE>` hands out regions, first from `base_buf_`, then from blocks that it
gets from `malloc`. It takes all of them back at once, in `reset`.

1. `CacheBuffer.prepare`, `CacheBuffer.reset`: the code. `malloc` always has a block.
2. `CacheBuffer.Holds b rs`: the regions `rs` have been handed out and not been taken back, and
   no two of them overlap.
3. `holds_prepare`: a further region does not overlap them, as long as `total_size_` does not
   wrap.
4. `CacheBuffer.prepareIf`, `CacheBuffer.freeLoop`: the same when `malloc` may fail, and what `reset`
   frees. `apart_of_run`: the regions in every run.
-/

namespace Xixi

open Lib

/-- Some bytes of a block. Block 0 is `base_buf_`, the others are numbered as `malloc` returns
them. -/
structure Region where
  block : Nat
  offset : Nat
  size : Nat
deriving DecidableEq, Repr

/-- No byte belongs to both. -/
def Region.Disjoint (r r' : Region) : Prop :=
  r.block ≠ r'.block ∨ r.offset + r.size ≤ r'.offset ∨ r'.offset + r'.size ≤ r.offset

instance (r r' : Region) : Decidable (r.Disjoint r') := inferInstanceAs (Decidable (_ ∨ _))

/-- `Cache_Buffer`; `extend` has the number and the `buf_size` of each block, the one in use
first. -/
structure CacheBuffer where
  totalSize : Nat
  offset : Nat
  extend : List (Nat × Nat)
  /-- How many blocks `malloc` has returned so far. -/
  mallocs : Nat
deriving DecidableEq, Repr

namespace CacheBuffer

def new : CacheBuffer := ⟨0, 0, [], 0⟩

/-- A further block. -/
def grow (baseSize : Nat) (b : CacheBuffer) (size : Nat) : CacheBuffer :=
  { b with
    extend := (b.mallocs + 1, max baseSize size) :: b.extend
    offset := 0
    mallocs := b.mallocs + 1 }

/-- The block in use. -/
def current (b : CacheBuffer) : Nat := (b.extend.head?.map Prod.fst).getD 0

/-- `offset_ += size; total_size_ += size;` -/
def take (b : CacheBuffer) (size : Nat) : Region × CacheBuffer :=
  (⟨b.current, b.offset, size⟩,
    { b with offset := (b.offset + size) % 2 ^ 32, totalSize := (b.totalSize + size) % 2 ^ 32 })

def prepare (baseSize : Nat) (b : CacheBuffer) (size : Nat) : Region × CacheBuffer :=
  if (size + b.totalSize) % 2 ^ 32 ≤ baseSize then
    (⟨0, b.offset, size⟩, (b.take size).2)
  else
    match b.extend with
    | [] => (b.grow baseSize size).take size
    | (_, bufSize) :: _ =>
      if bufSize < (size + b.offset) % 2 ^ 32 then (b.grow baseSize size).take size
      else b.take size

/-- `reset`: the blocks are freed. -/
def reset (b : CacheBuffer) : CacheBuffer := { b with totalSize := 0, offset := 0, extend := [] }

/-- How long a block is; `none` if it is not there. -/
def bufSize (baseSize : Nat) (b : CacheBuffer) (block : Nat) : Option Nat :=
  if block = 0 then some baseSize else (b.extend.find? fun e => e.1 = block).map Prod.snd

/-- The region lies in a block that has not been freed, before what will be handed out next. -/
structure Has (baseSize : Nat) (b : CacheBuffer) (r : Region) : Prop where
  inside : ∃ n, b.bufSize baseSize r.block = some n ∧ r.offset + r.size ≤ n
  used : r.block = b.current → r.offset + r.size ≤ b.offset

/-- The regions have been handed out and not been taken back. -/
structure Holds (baseSize : Nat) (b : CacheBuffer) (rs : List Region) : Prop where
  base : b.extend = [] → b.offset = b.totalSize ∧ b.totalSize ≤ baseSize
  extended : b.extend ≠ [] → baseSize < b.totalSize
  offset : b.offset ≤ b.totalSize
  numbered : ∀ e ∈ b.extend, 0 < e.1 ∧ e.1 ≤ b.mallocs
  has : ∀ r ∈ rs, b.Has baseSize r
  disjoint : rs.Pairwise Region.Disjoint

variable {baseSize : Nat} {b : CacheBuffer} {rs : List Region} {size : Nat}

namespace CacheBufferLemmas

theorem current_nil (h : b.extend = []) : b.current = 0 := by
  rw [current, h]
  rfl

theorem current_cons {e : Nat × Nat} {es : List (Nat × Nat)} (h : b.extend = e :: es) :
    b.current = e.1 := by
  rw [current, h]
  rfl

theorem bufSize_current_cons {e : Nat × Nat} {es : List (Nat × Nat)} (h : b.extend = e :: es)
    (hpos : 0 < e.1) : b.bufSize baseSize e.1 = some e.2 := by
  rw [bufSize, if_neg hpos.ne', h, List.find?_cons_of_pos (by simp)]
  rfl

/-- A region of the size that is left in the block in use. -/
theorem holds_take {n : Nat} (h : Holds baseSize b rs) (hfit : b.totalSize + size < 2 ^ 32)
    (hroom : b.bufSize baseSize b.current = some n) (hn : b.offset + size ≤ n)
    (hbase : b.extend = [] → b.totalSize + size ≤ baseSize) :
    Holds baseSize (b.take size).2 (rs ++ [(b.take size).1]) := by
  have hoff : (b.offset + size) % 2 ^ 32 = b.offset + size :=
    Nat.mod_eq_of_lt ((Nat.add_le_add_right h.offset _).trans_lt hfit)
  have htot : (b.totalSize + size) % 2 ^ 32 = b.totalSize + size := Nat.mod_eq_of_lt hfit
  have htake : (b.take size).2 = { b with
      offset := b.offset + size, totalSize := b.totalSize + size } := by
    rw [take, hoff, htot]
  rw [htake]
  refine {
    base := fun he => ⟨congrArg (· + size) (h.base he).1, hbase he⟩
    extended := fun he => (h.extended he).trans_le (Nat.le_add_right _ _)
    offset := Nat.add_le_add_right h.offset _
    numbered := h.numbered
    has := fun r hr => ?_
    disjoint := ?_ }
  · rcases List.mem_append.mp hr with hr | hr
    · obtain ⟨hin, hused⟩ := h.has r hr
      exact ⟨hin, fun hc => (hused hc).trans (Nat.le_add_right _ _)⟩
    · rw [List.mem_singleton.mp hr]
      exact ⟨⟨n, hroom, hn⟩, fun _ => Nat.le_refl _⟩
  · refine List.pairwise_append.mpr ⟨h.disjoint, List.pairwise_singleton _ _, fun r hr r' hr' => ?_⟩
    rw [List.mem_singleton.mp hr']
    by_cases hc : r.block = b.current
    · exact .inr (.inl ((h.has r hr).used hc))
    · exact .inl hc

theorem bufSize_le {n block : Nat} (h : Holds baseSize b rs)
    (hn : b.bufSize baseSize block = some n) : block ≤ b.mallocs := by
  unfold bufSize at hn
  split at hn
  · next h0 => exact h0 ▸ Nat.zero_le _
  · obtain ⟨e, he, -⟩ := Option.map_eq_some_iff.mp hn
    have hblock : e.1 = block := by
      have hfound := List.find?_some he
      exact of_decide_eq_true hfound
    exact hblock ▸ (h.numbered e (List.mem_of_find?_eq_some he)).2

theorem bufSize_grow {n block : Nat} (h : Holds baseSize b rs)
    (hn : b.bufSize baseSize block = some n) :
    (b.grow baseSize size).bufSize baseSize block = some n := by
  have hle := bufSize_le h hn
  unfold bufSize at hn ⊢
  split
  · next h0 => rwa [if_pos h0] at hn
  · next h0 =>
    rw [if_neg h0] at hn
    have hne : ¬ b.mallocs + 1 = block := fun he => absurd (he ▸ hle) (Nat.not_succ_le_self _)
    rw [grow, List.find?_cons_of_neg (by simpa using hne)]
    exact hn

/-- A region in a further block; what has been handed out stays where it is. -/
theorem holds_grow (h : Holds baseSize b rs) (hbig : baseSize < b.totalSize + size)
    (hfit : b.totalSize + size < 2 ^ 32) :
    Holds baseSize ((b.grow baseSize size).take size).2
      (rs ++ [((b.grow baseSize size).take size).1]) := by
  have hlt : size < 2 ^ 32 := (Nat.le_add_left _ _).trans_lt hfit
  have hoff : (0 + size) % 2 ^ 32 = size := by rw [Nat.zero_add, Nat.mod_eq_of_lt hlt]
  have htake : ((b.grow baseSize size).take size).2 = { b.grow baseSize size with
      offset := size, totalSize := b.totalSize + size } := by
    rw [take, grow]
    simp only [hoff, Nat.mod_eq_of_lt hfit]
  have hregion : ((b.grow baseSize size).take size).1 = ⟨b.mallocs + 1, 0, size⟩ := rfl
  have hother : ∀ r ∈ rs, r.block ≠ b.mallocs + 1 := by
    intro r hr he
    obtain ⟨n, hn, -⟩ := (h.has r hr).inside
    exact absurd (he ▸ bufSize_le h hn) (Nat.not_succ_le_self _)
  rw [htake, hregion]
  refine {
    base := fun he => nomatch he
    extended := fun _ => hbig
    offset := Nat.le_add_left _ _
    numbered := fun e he => ?_
    has := fun r hr => ?_
    disjoint := ?_ }
  · rcases List.mem_cons.mp he with rfl | he
    · exact ⟨Nat.succ_pos _, Nat.le_refl _⟩
    · exact ⟨(h.numbered e he).1, (h.numbered e he).2.trans (Nat.le_succ _)⟩
  · rcases List.mem_append.mp hr with hr | hr
    · obtain ⟨n, hn, hle⟩ := (h.has r hr).inside
      exact ⟨⟨n, bufSize_grow h hn, hle⟩, fun hc => absurd hc (hother r hr)⟩
    · rw [List.mem_singleton.mp hr]
      have hnew : bufSize baseSize { b.grow baseSize size with
          offset := size, totalSize := b.totalSize + size } (b.mallocs + 1) =
          some (max baseSize size) :=
        bufSize_current_cons (e := (b.mallocs + 1, max baseSize size)) rfl (Nat.succ_pos _)
      refine ⟨⟨max baseSize size, hnew, ?_⟩, fun _ => ?_⟩
      · rw [Nat.zero_add]
        exact le_max_right _ _
      · exact (Nat.zero_add _).le
  · refine List.pairwise_append.mpr ⟨h.disjoint, List.pairwise_singleton _ _, fun r hr r' hr' => ?_⟩
    rw [List.mem_singleton.mp hr']
    exact .inl (hother r hr)

end CacheBufferLemmas

open CacheBufferLemmas

/-- A further region overlaps nothing that has been handed out. -/
theorem holds_prepare (h : Holds baseSize b rs) (hfit : b.totalSize + size < 2 ^ 32) :
    Holds baseSize (b.prepare baseSize size).2 (rs ++ [(b.prepare baseSize size).1]) := by
  have htot : (size + b.totalSize) % 2 ^ 32 = b.totalSize + size := by
    rw [Nat.add_comm, Nat.mod_eq_of_lt hfit]
  unfold prepare
  rw [htot]
  split
  · next hle =>
    -- with a block in use `total_size_` is beyond the base already
    have he : b.extend = [] := by
      by_contra hne
      exact absurd (h.extended hne) (by omega)
    have hcur := current_nil he
    have hregion : (⟨0, b.offset, size⟩ : Region) = (b.take size).1 := by rw [take, hcur]
    rw [hregion]
    refine holds_take h hfit (n := baseSize) ?_ ?_ fun _ => hle
    · rw [hcur]
      rfl
    · rw [(h.base he).1]
      exact hle
  · next hgt =>
    have hbig : baseSize < b.totalSize + size := Nat.lt_of_not_le hgt
    split
    · exact holds_grow h hbig hfit
    · next i n es he =>
      split
      · exact holds_grow h hbig hfit
      · next hroom =>
        have hsum : (size + b.offset) % 2 ^ 32 = b.offset + size := by
          rw [Nat.add_comm]
          exact Nat.mod_eq_of_lt ((Nat.add_le_add_right h.offset _).trans_lt hfit)
        rw [hsum] at hroom
        have hpos := (h.numbered (i, n) (he ▸ List.mem_cons_self)).1
        refine holds_take h hfit (n := n) ?_ (Nat.le_of_not_lt hroom) fun hnil => ?_
        · rw [current_cons he]
          exact bufSize_current_cons he hpos
        · exact nomatch he.symm.trans hnil

theorem holds_reset : Holds baseSize b.reset [] where
  base _ := ⟨rfl, Nat.zero_le _⟩
  extended he := absurd rfl he
  offset := Nat.le_refl _
  numbered _ he := nomatch he
  has _ hr := nomatch hr
  disjoint := .nil

/-- Some of the regions are done with. -/
theorem Holds.sublist {rs' : List Region} (h : Holds baseSize b rs) (hs : rs'.Sublist rs) :
    Holds baseSize b rs' :=
  { h with
    has := fun r hr => h.has r (hs.subset hr)
    disjoint := h.disjoint.sublist hs }

/-! ## When `malloc` fails -/

/-- `prepare`; `granted` tells whether `malloc` has a block if it is called. Without a region the
result is `NULL`. -/
def prepareIf (baseSize : Nat) (b : CacheBuffer) (size : Nat) (granted : Bool) :
    Option Region × CacheBuffer :=
  if (size + b.totalSize) % 2 ^ 32 ≤ baseSize then
    (some ⟨0, b.offset, size⟩, (b.take size).2)
  else if (match b.extend with
      | [] => true
      | (_, bufSize) :: _ => decide (bufSize < (size + b.offset) % 2 ^ 32)) then
    if granted then (some ((b.grow baseSize size).take size).1, ((b.grow baseSize size).take size).2)
    else (none, b)
  else (some (b.take size).1, (b.take size).2)

/-- The loop of `reset`: the blocks that are given to `free`. -/
def freeLoop : List (Nat × Nat) → List Nat
  | [] => []
  | e :: next => e.1 :: freeLoop next

theorem prepareIf_eq (baseSize : Nat) (b : CacheBuffer) (size : Nat) (granted : Bool) :
    b.prepareIf baseSize size granted =
        (some (b.prepare baseSize size).1, (b.prepare baseSize size).2) ∨
      granted = false ∧ b.prepareIf baseSize size granted = (none, b) := by
  unfold prepareIf prepare
  split
  · exact .inl rfl
  · cases b.extend with
    | nil =>
      cases granted with
      | true => exact .inl rfl
      | false => exact .inr ⟨rfl, rfl⟩
    | cons e next =>
      obtain ⟨i, bufSize⟩ := e
      dsimp only
      by_cases hfull : bufSize < (size + b.offset) % 2 ^ 32
      · rw [if_pos (decide_eq_true hfull), if_pos hfull]
        cases granted with
        | true => exact .inl rfl
        | false => exact .inr ⟨rfl, rfl⟩
      · rw [if_neg (by simpa using hfull), if_neg hfull]
        exact .inl rfl

/-- What is asked of the buffer. -/
inductive Scratch
  | prepare (size : Nat) (granted : Bool)
  | reset

/-- The buffer, with the regions and the sum of the sizes that have been asked for since the last
`reset`, and the blocks that have been freed so far. -/
structure Traced where
  buffer : CacheBuffer
  regions : List Region
  asked : Nat
  freed : List Nat

namespace Traced

def new : Traced := ⟨.new, [], 0, []⟩

/-- The sizes since the last `reset` sum up to less than 2^32. -/
inductive Step (baseSize : Nat) : Traced → Scratch → Traced → Prop
  | prepare {x : Traced} (size : Nat) (granted : Bool) (h : x.asked + size < 2 ^ 32) :
      Step baseSize x (.prepare size granted)
        { x with
          buffer := (x.buffer.prepareIf baseSize size granted).2
          regions := x.regions ++ (x.buffer.prepareIf baseSize size granted).1.toList
          asked := x.asked + size }
  | reset {x : Traced} :
      Step baseSize x .reset ⟨x.buffer.reset, [], 0, x.freed ++ freeLoop x.buffer.extend⟩

/-- The region lies in `base_buf_` or in a block that has been allocated and not freed. -/
def Inside (baseSize : Nat) (x : Traced) (r : Region) : Prop :=
  (r.block = 0 ∧ r.offset + r.size ≤ baseSize) ∨
    ∃ bufSize, (r.block, bufSize) ∈ x.buffer.extend ∧ r.block ∉ x.freed ∧ r.offset + r.size ≤ bufSize

/-- The invariant of a run. -/
structure Kept (baseSize : Nat) (x : Traced) : Prop where
  holds : Holds baseSize x.buffer x.regions
  asked : x.buffer.totalSize ≤ x.asked
  blocks : (freeLoop x.buffer.extend ++ x.freed).Perm (List.range' 1 x.buffer.mallocs)

end Traced

namespace CacheBufferLemmas

variable {x y : Traced} {granted : Bool}

theorem freeLoop_eq (l : List (Nat × Nat)) : freeLoop l = l.map Prod.fst := by
  induction l with
  | nil => rfl
  | cons e l ih => exact congrArg (e.1 :: ·) ih

theorem prepare_size (baseSize : Nat) (b : CacheBuffer) (size : Nat) :
    (b.prepare baseSize size).1.size = size := by
  unfold prepare
  split
  · rfl
  · split
    · rfl
    · split <;> rfl

theorem prepare_totalSize (baseSize : Nat) (b : CacheBuffer) (size : Nat) :
    (b.prepare baseSize size).2.totalSize = (b.totalSize + size) % 2 ^ 32 := by
  unfold prepare
  split
  · rfl
  · split
    · rfl
    · split <;> rfl

/-- The blocks stay, and at most the next one comes. -/
theorem prepare_blocks (baseSize : Nat) (b : CacheBuffer) (size : Nat) :
    ((b.prepare baseSize size).2.extend = b.extend ∧ (b.prepare baseSize size).2.mallocs = b.mallocs) ∨
      (freeLoop (b.prepare baseSize size).2.extend = (b.mallocs + 1) :: freeLoop b.extend ∧
        (b.prepare baseSize size).2.mallocs = b.mallocs + 1) := by
  unfold prepare
  split
  · exact .inl ⟨rfl, rfl⟩
  · split
    · exact .inr ⟨rfl, rfl⟩
    · split
      · exact .inr ⟨rfl, rfl⟩
      · exact .inl ⟨rfl, rfl⟩

theorem kept_new (baseSize : Nat) : Traced.new.Kept baseSize where
  holds := holds_reset (b := .new)
  asked := Nat.le_refl _
  blocks := .nil

theorem kept_prepare (h : x.Kept baseSize) (hfit : x.asked + size < 2 ^ 32) :
    Traced.Kept baseSize { x with
      buffer := (x.buffer.prepare baseSize size).2
      regions := x.regions ++ [(x.buffer.prepare baseSize size).1]
      asked := x.asked + size } := by
  have hless : x.buffer.totalSize + size < 2 ^ 32 := (Nat.add_le_add_right h.asked _).trans_lt hfit
  refine ⟨holds_prepare h.holds hless, ?_, ?_⟩
  · show (x.buffer.prepare baseSize size).2.totalSize ≤ x.asked + size
    rw [prepare_totalSize, Nat.mod_eq_of_lt hless]
    exact Nat.add_le_add_right h.asked _
  · show (freeLoop (x.buffer.prepare baseSize size).2.extend ++ x.freed).Perm
      (List.range' 1 (x.buffer.prepare baseSize size).2.mallocs)
    rcases prepare_blocks baseSize x.buffer size with ⟨hextend, hmallocs⟩ | ⟨hextend, hmallocs⟩
    · rw [hextend, hmallocs]
      exact h.blocks
    · rw [hextend, hmallocs, List.range'_concat, Nat.one_mul, Nat.add_comm 1]
      exact (h.blocks.cons _).trans (List.perm_append_singleton _ _).symm

theorem kept_step {op : Scratch} (h : x.Kept baseSize) (hstep : Traced.Step baseSize x op y) :
    y.Kept baseSize := by
  cases hstep with
  | @prepare size granted hfit =>
    rcases prepareIf_eq baseSize x.buffer size granted with heq | ⟨-, heq⟩
    · rw [heq]
      exact kept_prepare h hfit
    · rw [heq, Option.toList_none, List.append_nil]
      exact ⟨h.holds, h.asked.trans (Nat.le_add_right _ _), h.blocks⟩
  | reset =>
    refine ⟨holds_reset, Nat.le_refl _, ?_⟩
    show (x.freed ++ freeLoop x.buffer.extend).Perm (List.range' 1 x.buffer.mallocs)
    exact List.perm_append_comm.trans h.blocks

theorem inside_of_has (h : x.Kept baseSize) {r : Region} (hr : r ∈ x.regions) :
    x.Inside baseSize r := by
  obtain ⟨n, hn, hle⟩ := (h.holds.has r hr).inside
  unfold bufSize at hn
  split at hn
  · next hzero => exact .inl ⟨hzero, Option.some.inj hn ▸ hle⟩
  · obtain ⟨e, he, rfl⟩ := Option.map_eq_some_iff.mp hn
    have hfound := List.find?_some he
    have hblock : e.1 = r.block := of_decide_eq_true hfound
    have hmem : (r.block, e.2) ∈ x.buffer.extend := hblock ▸ List.mem_of_find?_eq_some he
    refine .inr ⟨e.2, hmem, fun hfreed => ?_, hle⟩
    -- a block that is in use has not been freed: no block is listed twice
    have hnodup := (h.blocks.nodup_iff).mpr List.nodup_range'
    rw [freeLoop_eq] at hnodup
    exact (List.nodup_append.mp hnodup).2.2 _ (List.mem_map_of_mem hmem) _ hfreed rfl

end CacheBufferLemmas

/-- In every run whose sizes sum up to less than 2^32 from one `reset` to the next, whatever `malloc`
refuses: the regions lie in `base_buf_` or in blocks in use, and do not overlap. A call returns a region
of the size it is asked for, or changes nothing. After `reset`, every block has been freed once. -/
theorem apart_of_run {x : Traced} {t : List (Traced × Scratch)}
    (h : Run (Traced.Step baseSize) .new t x) :
    (∀ r ∈ x.regions, x.Inside baseSize r) ∧ x.regions.Pairwise Region.Disjoint ∧
      (∀ size granted y, Traced.Step baseSize x (.prepare size granted) y →
        (∃ r, (x.buffer.prepareIf baseSize size granted).1 = some r ∧ r.size = size ∧
            y.regions = x.regions ++ [r]) ∨
          granted = false ∧ (x.buffer.prepareIf baseSize size granted).1 = none ∧
            y.regions = x.regions ∧ y.buffer = x.buffer) ∧
      ∀ y, Traced.Step baseSize x .reset y →
        y.buffer.extend = [] ∧ y.freed.Perm (List.range' 1 y.buffer.mallocs) := by
  have hkept : x.Kept baseSize := h.invariant (fun _ _ _ => kept_step) (kept_new baseSize)
  refine ⟨fun r hr => inside_of_has hkept hr, hkept.holds.disjoint, fun size granted y hstep => ?_,
    fun y hstep => ?_⟩
  · cases hstep with
    | prepare _ _ hfit =>
      rcases prepareIf_eq baseSize x.buffer size granted with heq | ⟨hno, heq⟩
      · refine .inl ⟨(x.buffer.prepare baseSize size).1, by rw [heq], prepare_size _ _ _, ?_⟩
        rw [heq]
        rfl
      · refine .inr ⟨hno, by rw [heq], ?_, ?_⟩
        · rw [heq]
          exact List.append_nil _
        · rw [heq]
  · have hnext := kept_step hkept hstep
    cases hstep with
    | reset => exact ⟨rfl, hnext.blocks⟩

/-- A region in `base_buf_`, one for which there is no memory, one in a block of its own, and `reset`. -/
theorem apart_small :
    let b := ((CacheBuffer.new.prepareIf 8 6 true).2.prepareIf 8 3 false).2
    let b' := (b.prepareIf 8 4 true).2
    [⟨0, 0, 6⟩, ⟨1, 0, 4⟩].Pairwise Region.Disjoint ∧ b'.extend = [(1, 8)] ∧ b'.reset.extend = [] ∧
      freeLoop b'.extend = [1] := by
  intro b b'
  let x₁ : Traced := ⟨(CacheBuffer.new.prepareIf 8 6 true).2, [⟨0, 0, 6⟩], 6, []⟩
  let x₂ : Traced := ⟨b, [⟨0, 0, 6⟩], 9, []⟩
  let x₃ : Traced := ⟨b', [⟨0, 0, 6⟩, ⟨1, 0, 4⟩], 13, []⟩
  have hstep₁ : Traced.Step 8 .new (.prepare 6 true) x₁ := .prepare 6 true (by decide)
  have hstep₂ : Traced.Step 8 x₁ (.prepare 3 false) x₂ := .prepare 3 false (by decide)
  have hstep₃ : Traced.Step 8 x₂ (.prepare 4 true) x₃ := .prepare 4 true (by decide)
  obtain ⟨-, hapart, -, hreset⟩ := apart_of_run (((Run.single hstep₁).snoc hstep₂).snoc hstep₃)
  exact ⟨hapart, by decide +kernel, (hreset _ .reset).1, by decide +kernel⟩

end CacheBuffer
end Xixi
