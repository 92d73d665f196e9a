import Xixi.Lib.Run
import Xixi.Peer.Machine

/-!
# The receive buffer in memory (`util.h`)

`Receive_Buffer<DEFAULT_SIZE, HIGHWAT_SIZE>` reads into one block. What has been read and not been
processed lies somewhere in the middle of it; `handle_processed` moves it to the front, and makes
the block larger or smaller.

1. `ReceiveBuffer.handleProcessed`: the code, on the bytes of the block. `realloc` may fail.
2. `Traced.Step`: what the parsers do with the buffer, and all bytes that came and went.
3. `queue_of_run`: the buffer is a queue, and after `handle_processed` there is room to read.
4. `handleProcessed_view`: the peers' model of the buffer, which keeps the unread bytes only.
-/

namespace Xixi.Receive

open Lib

/-- What the allocator does in one call of `handle_processed`: whether the two calls of `realloc`
succeed, and what stands in the bytes that nobody has written. -/
structure Allocator where
  more : Bool
  less : Bool
  garbage : Nat → UInt8

/-- `Receive_Buffer`; `read_curr_` is given by its distance from `read_buf_`. -/
structure ReceiveBuffer where
  readBuf : Bytes
  readCurr : Nat
  readDataSize : Nat
  readBufSize : Nat

/-- `malloc` and `realloc`: the bytes that were there stay, as far as they fit. -/
def realloc (garbage : Nat → UInt8) (block : Bytes) (size : Nat) : Bytes :=
  block.take size ++ (List.range (size - block.length)).map garbage

/-- `memcpy` and `memmove` to a place in a block. -/
def store (block : Bytes) (i : Nat) (bytes : Bytes) : Bytes :=
  block.take i ++ bytes ++ block.drop (i + bytes.length)

namespace ReceiveBuffer

def new (defaultSize : Nat) (garbage : Nat → UInt8) : ReceiveBuffer :=
  ⟨realloc garbage [] defaultSize, 0, 0, defaultSize⟩

variable (b : ReceiveBuffer)

/-- `get_read_buf`, as a distance. -/
def getReadBuf : Nat := b.readCurr + b.readDataSize

/-- A difference of `uint32_t` and a `ptrdiff_t`, cut to `uint32_t`. -/
def getReadBufSize : Nat :=
  (((b.readBufSize : Int) - b.readCurr - b.readDataSize) % 2 ^ 32).toNat

/-- The unread bytes are moved to the front. -/
def compact : ReceiveBuffer :=
  if b.readCurr ≠ 0 then
    { b with
      readBuf := if 0 < b.readDataSize then
          store b.readBuf 0 ((b.readBuf.drop b.readCurr).take b.readDataSize) else b.readBuf
      readCurr := 0 }
  else b

/-- The second half of `handle_processed`. -/
def shrink (defaultSize highwatSize : Nat) (a : Allocator) : ReceiveBuffer :=
  if highwatSize < b.readBufSize ∧ b.readDataSize < defaultSize then
    let buf := if b.readCurr ≠ 0 then
      store b.readBuf 0 ((b.readBuf.drop b.readCurr).take b.readDataSize) else b.readBuf
    if a.less then
      ⟨realloc a.garbage buf defaultSize, 0, b.readDataSize, defaultSize⟩
    else { b with readBuf := buf, readCurr := 0 }
  else b

/-- `handle_processed`. `size` is an `int` that is compared with a `uint32_t`, and so is `new_size`
before it is given to `realloc`. -/
def handleProcessed (defaultSize highwatSize : Nat) (a : Allocator) : ReceiveBuffer :=
  let b := b.compact
  let size : Int := (b.getReadBufSize : Int).bmod (2 ^ 32)
  if (size % 2 ^ 32).toNat < defaultSize then
    let newSize : Int := ((b.readBufSize * 2 : Nat) : Int).bmod (2 ^ 32)
    if a.more ∧ 0 ≤ newSize then
      let b := { b with
        readBuf := realloc a.garbage b.readBuf newSize.toNat
        readBufSize := newSize.toNat }
      b.shrink defaultSize highwatSize a
    else b
  else b.shrink defaultSize highwatSize a

/-- What comes from the socket is put at `get_read_buf()`, and `read_data_size_ += length`. -/
def append (bytes : Bytes) : ReceiveBuffer :=
  { b with
    readBuf := store b.readBuf b.getReadBuf bytes
    readDataSize := (b.readDataSize + bytes.length) % 2 ^ 32 }

/-- `read_curr_ += n; read_data_size_ -= n;` -/
def consume (n : Nat) : ReceiveBuffer :=
  { b with
    readCurr := b.readCurr + n
    readDataSize := (b.readDataSize + (2 ^ 32 - n)) % 2 ^ 32 }

/-- The `read_data_size_` bytes at `read_curr_`. -/
def unread : Bytes := (b.readBuf.drop b.readCurr).take b.readDataSize

/-- The unread bytes lie in the block, which is as long as it is said to be. -/
structure Fits (defaultSize : Nat) : Prop where
  block : b.readBuf.length = b.readBufSize
  inside : b.readCurr + b.readDataSize ≤ b.readBufSize
  least : defaultSize ≤ b.readBufSize
  word : b.readBufSize < 2 ^ 32

end ReceiveBuffer

/-- What is done with the buffer. -/
inductive Use
  | append (bytes : Bytes)
  | consume (n : Nat)
  | handleProcessed (a : Allocator)

/-- The buffer, all bytes that have been put into it, and how many have been taken out. -/
structure Traced where
  buffer : ReceiveBuffer
  appended : Bytes
  consumed : Nat

namespace Traced

def new (defaultSize : Nat) (garbage : Nat → UInt8) : Traced :=
  ⟨.new defaultSize garbage, [], 0⟩

/-- No more is put into the buffer than `get_read_buf_size` says, and no more taken out than there
is. -/
inductive Step (defaultSize highwatSize : Nat) : Traced → Use → Traced → Prop
  | append {x : Traced} (bytes : Bytes) (h : bytes.length ≤ x.buffer.getReadBufSize) :
      Step defaultSize highwatSize x (.append bytes)
        { x with buffer := x.buffer.append bytes, appended := x.appended ++ bytes }
  | consume {x : Traced} (n : Nat) (h : n ≤ x.buffer.readDataSize) :
      Step defaultSize highwatSize x (.consume n)
        { x with buffer := x.buffer.consume n, consumed := x.consumed + n }
  | handleProcessed {x : Traced} (a : Allocator) (h : x.buffer.readBufSize < 2 ^ 30) :
      Step defaultSize highwatSize x (.handleProcessed a)
        { x with buffer := x.buffer.handleProcessed defaultSize highwatSize a }

/-- The buffer is a queue: what is in it came last and has not been taken out. -/
structure Queue (defaultSize : Nat) (x : Traced) : Prop where
  fits : x.buffer.Fits defaultSize
  within : x.consumed ≤ x.appended.length
  unread : x.buffer.unread = x.appended.drop x.consumed

end Traced

variable {defaultSize highwatSize : Nat} {b : ReceiveBuffer} {x y : Traced} {a : Allocator}

/-! ## Blocks -/

namespace ReceiveLemmas

variable {garbage : Nat → UInt8} {block bytes : Bytes} {i n size : Nat}

theorem length_realloc : (realloc garbage block size).length = size := by
  rw [realloc, List.length_append, List.length_take, List.length_map, List.length_range]
  omega

/-- What stands at the beginning of a block is not lost if it fits the new one. -/
theorem take_realloc (hn : n ≤ block.length) (hsize : n ≤ size) :
    (realloc garbage block size).take n = block.take n := by
  have hle : n ≤ (block.take size).length := by
    rw [List.length_take]
    exact Nat.le_min.mpr ⟨hsize, hn⟩
  rw [realloc, List.take_append_of_le_length hle, List.take_take, Nat.min_eq_left hsize]

theorem length_store (h : i + bytes.length ≤ block.length) :
    (store block i bytes).length = block.length := by
  rw [store, List.length_append, List.length_append, List.length_take, List.length_drop]
  omega

/-- A block is read from `i` on: what is stored there comes first. -/
theorem drop_store (h : i ≤ block.length) :
    (store block i bytes).drop i = bytes ++ block.drop (i + bytes.length) := by
  have hlen : (block.take i).length = i := List.length_take_of_le h
  rw [store, List.append_assoc, List.drop_left' hlen]

/-- What is stored behind `j + n` is not met when `n` bytes are read from `j` on. -/
theorem read_store {j : Nat} (h : j + n = i) (hi : i ≤ block.length) :
    ((store block i bytes).drop j).take (n + bytes.length) =
      (block.drop j).take n ++ bytes := by
  have hlen : (block.take i).length = i := List.length_take_of_le hi
  have hpart : ((block.take i).drop j) = (block.drop j).take n := by
    rw [List.drop_take, ← h, Nat.add_sub_cancel_left]
  have hn : ((block.drop j).take n).length = n := by
    rw [List.length_take, List.length_drop]
    omega
  rw [store, List.append_assoc, List.drop_append_of_le_length (by omega), hpart]
  conv_lhs => rw [← List.append_assoc]
  exact List.take_left' (by rw [List.length_append, hn])

/-! ## Sizes -/

theorem getReadBufSize_eq (h : b.Fits defaultSize) :
    b.getReadBufSize = b.readBufSize - b.readCurr - b.readDataSize := by
  have hin := h.inside
  have hword := h.word
  rw [ReceiveBuffer.getReadBufSize]
  omega

theorem length_unread (h : b.Fits defaultSize) : b.unread.length = b.readDataSize := by
  have hin := h.inside
  have hblock := h.block
  rw [ReceiveBuffer.unread, List.length_take, List.length_drop]
  omega

/-- A `uint32_t` that was an `int` in between. -/
theorem int_and_back (n : Nat) (h : n < 2 ^ 32) :
    ((((n : Int).bmod (2 ^ 32)) % 2 ^ 32).toNat : Nat) = n := by
  have hmod : (n : Int).bmod (2 ^ 32) % (2 ^ 32 : Nat) = (n : Int) % (2 ^ 32 : Nat) :=
    Int.bmod_emod
  rw [show ((2 : Int) ^ 32) = ((2 ^ 32 : Nat) : Int) from rfl, hmod]
  omega

theorem newSize_eq (h : n < 2 ^ 30) : ((n * 2 : Nat) : Int).bmod (2 ^ 32) = (n * 2 : Nat) :=
  Int.bmod_eq_of_le (by omega) (by omega)

/-! ## The parts of `handle_processed` -/

theorem compact_spec (h : b.Fits defaultSize) :
    b.compact.Fits defaultSize ∧ b.compact.unread = b.unread ∧ b.compact.readCurr = 0 ∧
      b.compact.readDataSize = b.readDataSize ∧ b.compact.readBufSize = b.readBufSize := by
  have hin := h.inside
  have hblock := h.block
  have hlen := length_unread h
  unfold ReceiveBuffer.compact
  split
  · have hfit : 0 + b.unread.length ≤ b.readBuf.length := by omega
    have hmove : ((store b.readBuf 0 b.unread).drop 0).take b.readDataSize = b.unread := by
      rw [drop_store (Nat.zero_le _), ← hlen, List.take_left']
      rfl
    split
    · refine ⟨⟨?_, ?_, h.least, h.word⟩, hmove, rfl, rfl, rfl⟩
      · exact (length_store hfit).trans hblock
      · show 0 + b.readDataSize ≤ b.readBufSize
        omega
    · next hnone =>
      have hzero : b.readDataSize = 0 := Nat.eq_zero_of_not_pos hnone
      refine ⟨⟨hblock, ?_, h.least, h.word⟩, ?_, rfl, rfl, rfl⟩
      · show 0 + b.readDataSize ≤ b.readBufSize
        omega
      · rw [ReceiveBuffer.unread, ReceiveBuffer.unread, hzero, List.take_zero, List.take_zero]
  · next hzero => exact ⟨h, rfl, Nat.eq_zero_of_not_pos fun hp => hzero hp.ne', rfl, rfl⟩

theorem handleProcessed_eq (highwatSize : Nat) (h : b.Fits defaultSize)
    (hsize : b.readBufSize < 2 ^ 30) :
    b.handleProcessed defaultSize highwatSize a =
      if b.compact.getReadBufSize < defaultSize then
        if a.more then
          ReceiveBuffer.shrink { b.compact with
            readBuf := realloc a.garbage b.compact.readBuf (b.readBufSize * 2)
            readBufSize := b.readBufSize * 2 } defaultSize highwatSize a
        else b.compact
      else b.compact.shrink defaultSize highwatSize a := by
  obtain ⟨hc, -, -, -, hbuf⟩ := compact_spec h
  have hfree : b.compact.getReadBufSize < 2 ^ 32 := by
    have hword := hc.word
    rw [getReadBufSize_eq hc]
    omega
  have hmore : (a.more = true ∧ (0 : Int) ≤ (b.readBufSize * 2 : Nat)) ↔ a.more = true :=
    and_iff_left (Int.natCast_nonneg _)
  unfold ReceiveBuffer.handleProcessed
  dsimp only
  rw [int_and_back _ hfree, hbuf, newSize_eq hsize]
  simp only [hmore, Int.toNat_natCast]

/-- The block is only made smaller if the unread bytes fit, and one more. -/
theorem shrink_spec (highwatSize : Nat) (a : Allocator) (h : b.Fits defaultSize) (hcurr : b.readCurr = 0)
    (hroom : b.readDataSize < b.readBufSize) :
    (b.shrink defaultSize highwatSize a).Fits defaultSize ∧
      (b.shrink defaultSize highwatSize a).unread = b.unread ∧
      0 < (b.shrink defaultSize highwatSize a).getReadBufSize := by
  have hsame : b.Fits defaultSize ∧ b.unread = b.unread ∧ 0 < b.getReadBufSize := by
    refine ⟨h, rfl, ?_⟩
    rw [getReadBufSize_eq h, hcurr]
    omega
  unfold ReceiveBuffer.shrink
  split
  · next hless =>
    rw [if_neg (not_not_intro hcurr)]
    dsimp only
    split
    · have hblock := h.block
      have hfits : ReceiveBuffer.Fits
          ⟨realloc a.garbage b.readBuf defaultSize, 0, b.readDataSize, defaultSize⟩ defaultSize := by
        refine ⟨length_realloc, ?_, Nat.le_refl _, h.least.trans_lt h.word⟩
        show 0 + b.readDataSize ≤ defaultSize
        omega
      refine ⟨hfits, ?_, ?_⟩
      · rw [ReceiveBuffer.unread, ReceiveBuffer.unread, hcurr, List.drop_zero, List.drop_zero]
        exact take_realloc (n := b.readDataSize) (by omega) hless.2.le
      · rw [getReadBufSize_eq hfits]
        show 0 < defaultSize - 0 - b.readDataSize
        omega
    · have heq : { b with readBuf := b.readBuf, readCurr := 0 } = b := by
        rw [← hcurr]
      rw [heq]
      exact hsame
  · exact hsame

theorem shrink_fields (hcurr : b.readCurr = 0) (hless : a.less = true) :
    (b.shrink defaultSize highwatSize a).readCurr = 0 ∧
      (b.shrink defaultSize highwatSize a).readBufSize =
        if highwatSize < b.readBufSize ∧ b.readDataSize < defaultSize then defaultSize
        else b.readBufSize := by
  rw [ReceiveBuffer.shrink, hless]
  split
  · exact ⟨rfl, rfl⟩
  · exact ⟨hcurr, rfl⟩

theorem handleProcessed_fields (highwatSize : Nat) (h : b.Fits defaultSize)
    (hsize : b.readBufSize < 2 ^ 30) (hmore : a.more = true) (hless : a.less = true) {size : Nat}
    (hgrown : size =
      if b.readBufSize - b.readDataSize < defaultSize then b.readBufSize * 2 else b.readBufSize) :
    (b.handleProcessed defaultSize highwatSize a).readCurr = 0 ∧
      (b.handleProcessed defaultSize highwatSize a).readBufSize =
        if highwatSize < size ∧ b.readDataSize < defaultSize then defaultSize else size := by
  obtain ⟨hc, -, hcurr, hdata, hbuf⟩ := compact_spec h
  have hfree : b.compact.getReadBufSize = b.readBufSize - b.readDataSize := by
    rw [getReadBufSize_eq hc, hcurr, hdata, hbuf, Nat.sub_zero]
  rw [handleProcessed_eq highwatSize h hsize, hfree, hgrown, if_pos hmore]
  split
  · rw [← hdata]
    exact shrink_fields hcurr hless
  · rw [← hbuf, ← hdata]
    exact shrink_fields hcurr hless

end ReceiveLemmas

open ReceiveLemmas

/-- Nothing that is unread is lost, and there is room afterwards if the block could be made larger. -/
theorem handleProcessed_spec (highwatSize : Nat) (a : Allocator) (hdefault : 1 ≤ defaultSize) (h : b.Fits defaultSize)
    (hsize : b.readBufSize < 2 ^ 30) :
    (b.handleProcessed defaultSize highwatSize a).Fits defaultSize ∧
      (b.handleProcessed defaultSize highwatSize a).unread = b.unread ∧
      (a.more = true → 0 < (b.handleProcessed defaultSize highwatSize a).getReadBufSize) := by
  obtain ⟨hc, hunread, hcurr, -, hbuf⟩ := compact_spec h
  have hin := hc.inside
  have hblock := hc.block
  have hleast := h.least
  have hfree := getReadBufSize_eq hc
  rw [hcurr, hbuf] at hfree hin
  rw [handleProcessed_eq highwatSize h hsize, hfree, ← hunread]
  split
  · split
    · have hgrown : ReceiveBuffer.Fits { b.compact with
          readBuf := realloc a.garbage b.compact.readBuf (b.readBufSize * 2)
          readBufSize := b.readBufSize * 2 } defaultSize := by
        refine ⟨length_realloc, ?_, ?_, ?_⟩
        · show b.compact.readCurr + b.compact.readDataSize ≤ b.readBufSize * 2
          omega
        · show defaultSize ≤ b.readBufSize * 2
          omega
        · show b.readBufSize * 2 < 2 ^ 32
          omega
      have hroom : b.compact.readDataSize < b.readBufSize * 2 := by omega
      obtain ⟨hfits, hkept, hpos⟩ := shrink_spec highwatSize a hgrown hcurr hroom
      refine ⟨hfits, hkept.trans ?_, fun _ => hpos⟩
      -- a block that grows keeps what was in it
      rw [ReceiveBuffer.unread, ReceiveBuffer.unread, hcurr, List.drop_zero, List.drop_zero]
      exact take_realloc (n := b.compact.readDataSize) (by omega) (by omega)
    · next hnone => exact ⟨hc, rfl, fun hmore => absurd hmore hnone⟩
  · next henough =>
    have hroom : b.compact.readDataSize < b.compact.readBufSize := by
      rw [hbuf]
      omega
    obtain ⟨hfits, hkept, hpos⟩ := shrink_spec highwatSize a hc hcurr hroom
    exact ⟨hfits, hkept, fun _ => hpos⟩

/-! ## Runs -/

namespace ReceiveLemmas

theorem queue_new (garbage : Nat → UInt8) (hword : defaultSize < 2 ^ 32) :
    (Traced.new defaultSize garbage).Queue defaultSize where
  fits := ⟨length_realloc, Nat.zero_le _, Nat.le_refl _, hword⟩
  within := Nat.le_refl _
  unread := rfl

theorem queue_append {bytes : Bytes} (h : x.Queue defaultSize)
    (hroom : bytes.length ≤ x.buffer.getReadBufSize) :
    Traced.Queue defaultSize
      { x with buffer := x.buffer.append bytes, appended := x.appended ++ bytes } := by
  have hin := h.fits.inside
  have hword := h.fits.word
  have hblock := h.fits.block
  rw [getReadBufSize_eq h.fits] at hroom
  have hsum : (x.buffer.readDataSize + bytes.length) % 2 ^ 32 =
      x.buffer.readDataSize + bytes.length := Nat.mod_eq_of_lt (by omega)
  refine ⟨⟨?_, ?_, h.fits.least, hword⟩, ?_, ?_⟩
  · refine (length_store ?_).trans hblock
    show x.buffer.readCurr + x.buffer.readDataSize + bytes.length ≤ x.buffer.readBuf.length
    omega
  · show x.buffer.readCurr + (x.buffer.readDataSize + bytes.length) % 2 ^ 32 ≤ x.buffer.readBufSize
    omega
  · show x.consumed ≤ (x.appended ++ bytes).length
    rw [List.length_append]
    exact h.within.trans (Nat.le_add_right _ _)
  · show ((store _ _ bytes).drop x.buffer.readCurr).take
      ((x.buffer.readDataSize + bytes.length) % 2 ^ 32) = _
    have hstart : x.buffer.getReadBuf ≤ x.buffer.readBuf.length := by
      rw [ReceiveBuffer.getReadBuf]
      omega
    rw [hsum, read_store (i := x.buffer.getReadBuf) rfl hstart]
    show x.buffer.unread ++ bytes = (x.appended ++ bytes).drop x.consumed
    rw [List.drop_append_of_le_length h.within, h.unread]

theorem queue_consume {n : Nat} (h : x.Queue defaultSize) (hn : n ≤ x.buffer.readDataSize) :
    Traced.Queue defaultSize
      { x with buffer := x.buffer.consume n, consumed := x.consumed + n } := by
  have hin := h.fits.inside
  have hword := h.fits.word
  have hlen := length_unread h.fits
  have hrest : (x.buffer.readDataSize + (2 ^ 32 - n)) % 2 ^ 32 = x.buffer.readDataSize - n := by
    omega
  refine ⟨⟨h.fits.block, ?_, h.fits.least, hword⟩, ?_, ?_⟩
  · show x.buffer.readCurr + n + (x.buffer.readDataSize + (2 ^ 32 - n)) % 2 ^ 32 ≤
      x.buffer.readBufSize
    omega
  · show x.consumed + n ≤ x.appended.length
    rw [h.unread, List.length_drop] at hlen
    have hwithin := h.within
    omega
  · show (x.buffer.readBuf.drop (x.buffer.readCurr + n)).take
      ((x.buffer.readDataSize + (2 ^ 32 - n)) % 2 ^ 32) = x.appended.drop (x.consumed + n)
    rw [hrest, ← List.drop_drop, ← List.drop_drop, ← h.unread, ReceiveBuffer.unread, List.drop_take]

theorem queue_step {u : Use} (hdefault : 1 ≤ defaultSize) (h : x.Queue defaultSize)
    (hstep : Traced.Step defaultSize highwatSize x u y) : y.Queue defaultSize := by
  cases hstep with
  | append _ hroom => exact queue_append h hroom
  | consume _ hn => exact queue_consume h hn
  | handleProcessed a hsize =>
    obtain ⟨hfits, hunread, -⟩ := handleProcessed_spec highwatSize a hdefault h.fits hsize
    exact ⟨hfits, h.within, hunread.trans h.unread⟩

end ReceiveLemmas

/-- After any use the unread bytes are those that came and have not been taken out, in their order,
and they lie in the block. After `handle_processed` there is room for at least one byte, if the
block could be made larger where it had to be. -/
theorem queue_of_run {garbage : Nat → UInt8} {t : List (Traced × Use)} (hdefault : 1 ≤ defaultSize)
    (hword : defaultSize < 2 ^ 32)
    (h : Run (Traced.Step defaultSize highwatSize) (Traced.new defaultSize garbage) t x) :
    x.buffer.unread = x.appended.drop x.consumed ∧ x.consumed ≤ x.appended.length ∧
      x.buffer.unread.length = x.buffer.readDataSize ∧
      x.buffer.readBuf.length = x.buffer.readBufSize ∧
      x.buffer.readCurr + x.buffer.readDataSize ≤ x.buffer.readBufSize ∧
      ∀ a y, Traced.Step defaultSize highwatSize x (.handleProcessed a) y → a.more = true →
        0 < y.buffer.getReadBufSize := by
  have hqueue : x.Queue defaultSize :=
    h.invariant (fun _ _ _ hx hstep => queue_step hdefault hx hstep) (queue_new garbage hword)
  refine ⟨hqueue.unread, hqueue.within, length_unread hqueue.fits, hqueue.fits.block,
    hqueue.fits.inside, fun a y hstep hmore => ?_⟩
  cases hstep with
  | handleProcessed _ hsize => exact (handleProcessed_spec _ a hdefault hqueue.fits hsize).2.2 hmore

/-- Three bytes come and one is taken out: the other two are moved to the front, and the block is
doubled. -/
theorem queue_small :
    let a : Allocator := ⟨true, true, fun _ => 0⟩
    let b₁ := (ReceiveBuffer.new 4 fun _ => 0).append [1, 2, 3]
    let b := b₁.consume 1
    (b.handleProcessed 4 8 a).readBufSize = 8 ∧ (b.handleProcessed 4 8 a).unread = [2, 3] ∧
      0 < ((b.handleProcessed 4 8 a).handleProcessed 4 8 a).getReadBufSize := by
  intro a b₁ b
  have hroom : ([1, 2, 3] : Bytes).length ≤ (ReceiveBuffer.new 4 fun _ => 0).getReadBufSize := by
    decide +kernel
  have hless : 1 ≤ b₁.readDataSize := by decide +kernel
  have hsize : b.readBufSize < 2 ^ 30 := by decide +kernel
  have hdoubled : (b.handleProcessed 4 8 a).readBufSize = 8 := by decide +kernel
  have hstep₁ : Traced.Step 4 8 (.new 4 fun _ => 0) (.append [1, 2, 3]) ⟨b₁, [1, 2, 3], 0⟩ :=
    .append _ hroom
  have hstep₂ : Traced.Step 4 8 ⟨b₁, [1, 2, 3], 0⟩ (.consume 1) ⟨b, [1, 2, 3], 1⟩ := .consume 1 hless
  have hstep₃ : Traced.Step 4 8 ⟨b, [1, 2, 3], 1⟩ (.handleProcessed a)
      ⟨b.handleProcessed 4 8 a, [1, 2, 3], 1⟩ := .handleProcessed a hsize
  have hrun := ((Run.single hstep₁).snoc hstep₂).snoc hstep₃
  generalize b.handleProcessed 4 8 a = b' at *
  obtain ⟨hunread, -, -, -, -, hfree⟩ := queue_of_run (by decide) (by decide) hrun
  have hsize' : b'.readBufSize < 2 ^ 30 := by omega
  have hstep : Traced.Step 4 8 ⟨b', [1, 2, 3], 1⟩ (.handleProcessed a)
      ⟨b'.handleProcessed 4 8 a, [1, 2, 3], 1⟩ := .handleProcessed a hsize'
  have hpos := hfree a _ hstep rfl
  dsimp only at hunread hpos
  exact ⟨hdoubled, hunread, hpos⟩

/-! ## The buffer of the peers -/

/-- The buffer as the peers' model has it. -/
def ReceiveBuffer.view (b : ReceiveBuffer) : PeerCache.ReceiveBuffer :=
  ⟨b.readCurr, b.unread, b.readBufSize⟩

theorem append_view (h : b.Fits 2048) {bytes : Bytes} (hroom : bytes.length ≤ b.getReadBufSize) :
    (b.append bytes).view = { b.view with data := b.view.data ++ bytes } := by
  have hqueue : Traced.Queue 2048 ⟨b, b.unread, 0⟩ := ⟨h, Nat.zero_le _, rfl⟩
  have hunread : (b.append bytes).unread = b.unread ++ bytes := (queue_append hqueue hroom).unread
  rw [ReceiveBuffer.view, hunread]
  rfl

theorem consume_view (h : b.Fits 2048) {n : Nat} (hn : n ≤ b.readDataSize) :
    (b.consume n).view = b.view.advance n := by
  have hqueue : Traced.Queue 2048 ⟨b, b.unread, 0⟩ := ⟨h, Nat.zero_le _, rfl⟩
  have hunread : (b.consume n).unread = b.unread.drop (0 + n) := (queue_consume hqueue hn).unread
  rw [ReceiveBuffer.view, hunread, Nat.zero_add]
  rfl

/-- If `realloc` succeeds, `handle_processed` is that of the peers' model. -/
theorem handleProcessed_view (h : b.Fits 2048) (hsize : b.readBufSize < 2 ^ 30)
    (hmore : a.more = true) (hless : a.less = true) :
    (b.handleProcessed 2048 8192 a).view = b.view.handleProcessed := by
  have hkept := (handleProcessed_spec 8192 a (by decide) h hsize).2.1
  obtain ⟨hcurr, hbuf⟩ := handleProcessed_fields 8192 h hsize hmore hless rfl
  have hview (size : Nat) (hgrown : size =
      if b.view.size - b.view.data.length < 2048 then b.view.size * 2 else b.view.size) :
      b.view.handleProcessed =
        ⟨0, b.view.data, if 8192 < size ∧ b.view.data.length < 2048 then 2048 else size⟩ := by
    subst hgrown
    generalize b.view = v
    unfold PeerCache.ReceiveBuffer.handleProcessed PeerCache.ReceiveBuffer.getReadBufSize
    by_cases hroom : v.size - v.data.length < 2048
    · simp only [Nat.sub_zero, hroom, if_true]
      split_ifs <;> rfl
    · simp only [Nat.sub_zero, hroom, if_false]
      split_ifs <;> rfl
  rw [hview _ rfl]
  rw [ReceiveBuffer.view, hkept, hcurr, hbuf, ← length_unread h]
  rfl

end Xixi.Receive
