import Mathlib.Data.BitVec
import Xixi.Item
import Xixi.Lib.Wire

/-!
# How the client stores objects (`ObjectTransCoder.java`)

A value is sent as bytes with flags that tell its type. From a certain size on it is compressed, if
that makes it shorter, and the flags tell this too.

1. `ObjectTransCoder.encode`, `ObjectTransCoder.decode`.
2. `ObjectTransCoder.compresses`: the bytes of a text are sent compressed.
3. `encode_string`, `decode_plain`, `decode_compressed`: what is sent for a text, and what is made of
   bytes with the flags of a text.
4. `decode_encode`: every object is read back.
-/

namespace Xixi.Coder

open Lib

/-- What the Java library does with strings of the type `T`, with streams and with serialised
objects of the type `S`; without a result where it throws an `IOException`. -/
structure Jdk (T S : Type) where
  getBytes : T → Bytes
  newString : Bytes → T
  gzip : Bytes → Bytes
  gunzip : Bytes → Option Bytes
  writeObject : S → Bytes
  readObject : Bytes → Option S

/-- The objects that are told apart. Floating point numbers are given by their bits. -/
inductive Obj (T S : Type)
  | string (s : T)
  | boolean (b : Bool)
  | byte (b : UInt8)
  | short (n : UInt16)
  | character (c : UInt16)
  | integer (n : UInt32)
  | float (bits : UInt32)
  | long (n : UInt64)
  | double (bits : UInt64)
  | date (time : UInt64)
  | stringBuffer (s : T)
  | stringBuilder (s : T)
  | byteArr (b : Bytes)
  | serialized (o : S)
deriving DecidableEq

structure ObjectTransCoder where
  compressionThreshold : Int
  option1 : BitVec 32
  option2 : BitVec 32

namespace ObjectTransCoder

/-- The coder that a client has if it does not set another one. -/
def default : ObjectTransCoder := ⟨32 * 1024, 0, 0⟩

def flagsCompressed : BitVec 32 := 0x80

def flagsTypeMask : BitVec 32 := 0xF

variable {T S : Type}

/-- The type in the flags, and the bytes before compression. -/
def plain (jdk : Jdk T S) : Obj T S → BitVec 32 × Bytes
  | .string s => (10, jdk.getBytes s)
  | .boolean b => (1, [if b then 1 else 0])
  | .byte b => (2, [b])
  | .short n => (3, putU16 n)
  | .character c => (4, putU16 c)
  | .integer n => (5, putU32 n)
  | .float bits => (6, putU32 bits)
  | .long n => (7, putU64 n)
  | .double bits => (8, putU64 bits)
  | .date time => (9, putU64 time)
  | .stringBuffer s => (11, jdk.getBytes s)
  | .stringBuilder s => (12, jdk.getBytes s)
  | .byteArr b => (13, b)
  | .serialized o => (14, jdk.writeObject o)

/-- The bytes are compressed before they are sent. -/
def compresses (t : ObjectTransCoder) (jdk : Jdk T S) (b : Bytes) : Bool :=
  t.compressionThreshold ≤ b.length && 0 < t.compressionThreshold &&
    (jdk.gzip b).length < b.length

/-- `encode`: the bytes, `outflags[0]` and `objectSize[0]`. -/
def encode (t : ObjectTransCoder) (jdk : Jdk T S) (obj : Obj T S) : Bytes × BitVec 32 × Nat :=
  let (flags, b) := plain jdk obj
  if t.compresses jdk b then
    (jdk.gzip b, (flags ||| flagsCompressed) + t.option1 + t.option2, b.length)
  else (b, flags + t.option1 + t.option2, b.length)

/-- `decode`, without `objectSize`. -/
def decode (jdk : Jdk T S) (b : Bytes) (flags : BitVec 32) : Option (Obj T S) := do
  let b ← if flags &&& flagsCompressed = flagsCompressed then jdk.gunzip b else some b
  match (flags &&& flagsTypeMask).toNat with
  | 1 => if 1 ≤ b.length then some (.boolean (b.headD 0 == 1)) else none
  | 2 => if 1 ≤ b.length then some (.byte (b.headD 0)) else none
  | 3 => if 2 ≤ b.length then some (.short (getU16 b)) else none
  | 4 => if 2 ≤ b.length then some (.character (getU16 b)) else none
  | 5 => if 4 ≤ b.length then some (.integer (getU32 b)) else none
  | 6 => if 4 ≤ b.length then some (.float (getU32 b)) else none
  | 7 => if 8 ≤ b.length then some (.long (getU64 b)) else none
  | 8 => if 8 ≤ b.length then some (.double (getU64 b)) else none
  | 9 => if 8 ≤ b.length then some (.date (getU64 b)) else none
  | 10 => some (.string (jdk.newString b))
  | 11 => some (.stringBuffer (jdk.newString b))
  | 12 => some (.stringBuilder (jdk.newString b))
  | 13 => some (.byteArr b)
  | 14 => (jdk.readObject b).map .serialized
  | _ => none

/-- What is sent for a text. -/
def textBytes (jdk : Jdk T S) (s : T) : Bytes := (default.encode jdk (.string s)).1

def textFlags (jdk : Jdk T S) (s : T) : BitVec 32 := (default.encode jdk (.string s)).2.1

variable {jdk : Jdk T S} {s : T}

theorem encode_string (jdk : Jdk T S) (s : T) :
    textBytes jdk s = (if default.compresses jdk (jdk.getBytes s) then jdk.gzip (jdk.getBytes s)
      else jdk.getBytes s) ∧
    textFlags jdk s = if default.compresses jdk (jdk.getBytes s) then 138 else 10 := by
  unfold textBytes textFlags encode
  dsimp only [plain]
  split
  · exact ⟨rfl, rfl⟩
  · exact ⟨rfl, rfl⟩

/-- An empty text is not compressed. -/
theorem compresses_nil (jdk : Jdk T S) : default.compresses jdk [] = false := rfl

theorem decode_plain (jdk : Jdk T S) (b : Bytes) :
    decode jdk b 10 = some (.string (jdk.newString b)) := rfl

theorem decode_compressed (jdk : Jdk T S) (b : Bytes) :
    decode jdk b 138 = (jdk.gunzip b).map fun b => .string (jdk.newString b) := by
  unfold decode
  rw [if_pos (by decide)]
  cases jdk.gunzip b with
  | none => rfl
  | some b => rfl

theorem getU16_put (n : UInt16) : getU16 (putU16 n) = n := by
  have h := getU16_putU16 n []
  rwa [List.append_nil] at h

theorem getU32_put (n : UInt32) : getU32 (putU32 n) = n := by
  have h := getU32_putU32 n []
  rwa [List.append_nil] at h

theorem getU64_put (n : UInt64) : getU64 (putU64 n) = n := by
  have h := getU64_putU64 n []
  rwa [List.append_nil] at h

/-- The bytes before compression are read back. -/
theorem decode_plain_obj (hstring : ∀ s, jdk.newString (jdk.getBytes s) = s)
    (hobject : ∀ o, jdk.readObject (jdk.writeObject o) = some o) (obj : Obj T S) :
    decode jdk (plain jdk obj).2 (plain jdk obj).1 = some obj := by
  cases obj with
  | string | stringBuffer | stringBuilder => simp [decode, plain, flagsCompressed, flagsTypeMask, hstring]
  | serialized => simp [decode, plain, flagsCompressed, flagsTypeMask, hobject]
  | boolean b => cases b <;> simp [decode, plain, flagsCompressed, flagsTypeMask]
  | byte | byteArr => simp [decode, plain, flagsCompressed, flagsTypeMask]
  | short | character => simp [decode, plain, flagsCompressed, flagsTypeMask, getU16_put]
  | integer | float => simp [decode, plain, flagsCompressed, flagsTypeMask, getU32_put]
  | long | double | date => simp [decode, plain, flagsCompressed, flagsTypeMask, getU64_put]

/-- The compressed bytes are read as what they were before. -/
theorem decode_compressed_obj (obj : Obj T S) (b : Bytes) :
    decode jdk b ((plain jdk obj).1 ||| flagsCompressed) =
      (jdk.gunzip b).bind fun b => decode jdk b (plain jdk obj).1 := by
  have hcompressed : ((plain jdk obj).1 ||| flagsCompressed) &&& flagsCompressed = flagsCompressed := by
    cases obj <;> simp [plain, flagsCompressed]
  have hplain : (plain jdk obj).1 &&& flagsCompressed ≠ flagsCompressed := by
    cases obj <;> simp [plain, flagsCompressed]
  have htype : ((plain jdk obj).1 ||| flagsCompressed) &&& flagsTypeMask =
      (plain jdk obj).1 &&& flagsTypeMask := by
    cases obj <;> simp [plain, flagsCompressed, flagsTypeMask]
  unfold decode
  rw [if_pos hcompressed, htype]
  cases jdk.gunzip b with
  | none => rfl
  | some b' =>
    rw [Option.bind_some, if_neg hplain]

/-- A client reads back what it has sent, compressed or not. -/
theorem decode_encode (hstring : ∀ s, jdk.newString (jdk.getBytes s) = s)
    (hgzip : ∀ b, jdk.gunzip (jdk.gzip b) = some b)
    (hobject : ∀ o, jdk.readObject (jdk.writeObject o) = some o) (obj : Obj T S) :
    decode jdk (default.encode jdk obj).1 (default.encode jdk obj).2.1 = some obj := by
  unfold encode
  dsimp only
  have hoptions : ∀ f : BitVec 32, f + default.option1 + default.option2 = f := fun f =>
    (BitVec.add_zero _).trans (BitVec.add_zero _)
  split
  · rw [hoptions, decode_compressed_obj, hgzip]
    exact decode_plain_obj hstring hobject obj
  · rw [hoptions]
    exact decode_plain_obj hstring hobject obj

end ObjectTransCoder

/-- What a client relies on: the charset can be inverted and keeps concatenations, and a stream of
compressed parts is read as the concatenation of what was compressed. -/
structure Jdk.Faithful {T S : Type} [Append T] (jdk : Jdk T S) : Prop where
  newString : ∀ s, jdk.newString (jdk.getBytes s) = s
  getBytes : ∀ s s', jdk.getBytes (s ++ s') = jdk.getBytes s ++ jdk.getBytes s'
  gunzip : ∀ l : List Bytes, l ≠ [] → jdk.gunzip (l.map jdk.gzip).flatten = some l.flatten

end Xixi.Coder
