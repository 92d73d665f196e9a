import Xixi.Client.Numbers
import Xixi.Client.TransCoder

/-!
# What an object is after it has been stored (`ObjectTransCoder.java`)

`Xixi.Client.TransCoder` has the fields of the numbers as they stand in the bytes. Here they are
assembled as the code does it, with the signs of Java's types, and the flags carry two options
beside the type.

1. `encodeShort`, `encodeInt`, `encodeLong`: the code; they write the big-endian field.
2. `Value.encode`, `Value.decode`: the same as `ObjectTransCoder.encode` and `decode`, on Java's types
   (`encode_toObj`, `decode_toObj`).
3. `flags_fields`: the parts of the flags do not overlap, whatever the signs of the options are.
4. `round_trip`: every object is read back, with any threshold and any options.
-/

namespace Xixi.Coder

open Lib Client

/-! ## Integers -/

def encodeShort (value : Int16) : Bytes :=
  [((value.toInt32 >>> 8) &&& 0xFF).toInt8.toUInt8, (value.toInt32 &&& 0xFF).toInt8.toUInt8]

def encodeInt (value : Int32) : Bytes :=
  [((value >>> 24) &&& 0xFF).toInt8.toUInt8, ((value >>> 16) &&& 0xFF).toInt8.toUInt8,
    ((value >>> 8) &&& 0xFF).toInt8.toUInt8, (value &&& 0xFF).toInt8.toUInt8]

def encodeLong (value : Int64) : Bytes :=
  [((value >>> 56) &&& 0xFF).toInt8.toUInt8, ((value >>> 48) &&& 0xFF).toInt8.toUInt8,
    ((value >>> 40) &&& 0xFF).toInt8.toUInt8, ((value >>> 32) &&& 0xFF).toInt8.toUInt8,
    ((value >>> 24) &&& 0xFF).toInt8.toUInt8, ((value >>> 16) &&& 0xFF).toInt8.toUInt8,
    ((value >>> 8) &&& 0xFF).toInt8.toUInt8, (value &&& 0xFF).toInt8.toUInt8]

/-! ## Objects -/

/-- The objects with the types that Java has for them. Floating point numbers are given by what
`floatToIntBits` and `doubleToLongBits` make of them. -/
inductive Value (T S : Type)
  | string (s : T)
  | boolean (b : Bool)
  | byte (b : Int8)
  | short (n : Int16)
  | character (c : UInt16)
  | integer (n : Int32)
  | float (bits : Int32)
  | long (n : Int64)
  | double (bits : Int64)
  | date (time : Int64)
  | stringBuffer (s : T)
  | stringBuilder (s : T)
  | byteArr (b : Bytes)
  | serialized (o : S)
deriving DecidableEq

variable {T S : Type}

namespace ObjectTransCoder

/-- `setOption1`: the `short` is extended with its sign before it is shifted. -/
def setOption1 (t : ObjectTransCoder) (option1 : BitVec 16) : ObjectTransCoder :=
  { t with option1 := option1.signExtend 32 <<< 16 }

/-- `setOption2`: the sign of the `byte` is masked. -/
def setOption2 (t : ObjectTransCoder) (option2 : BitVec 8) : ObjectTransCoder :=
  { t with option2 := (option2.signExtend 32 <<< 8) &&& 0xFF00 }

def getOption1 (t : ObjectTransCoder) : BitVec 16 :=
  ((t.option1.sshiftRight 16) &&& 0xFFFF).setWidth 16

def getOption2 (t : ObjectTransCoder) : BitVec 8 :=
  ((t.option2.sshiftRight 8) &&& 0xFF).setWidth 8

end ObjectTransCoder

open ObjectTransCoder

namespace Value

/-- The type in the flags, and the bytes before compression. -/
def plain (jdk : Jdk T S) : Value T S → BitVec 32 × Bytes
  | .string s => (10, jdk.getBytes s)
  | .boolean b => (1, [if b then 1 else 0])
  | .byte b => (2, [b.toUInt8])
  | .short n => (3, encodeShort n)
  | .character c => (4, encodeShort c.toInt16)
  | .integer n => (5, encodeInt n)
  | .float bits => (6, encodeInt bits)
  | .long n => (7, encodeLong n)
  | .double bits => (8, encodeLong bits)
  | .date time => (9, encodeLong time)
  | .stringBuffer s => (11, jdk.getBytes s)
  | .stringBuilder s => (12, jdk.getBytes s)
  | .byteArr b => (13, b)
  | .serialized o => (14, jdk.writeObject o)

/-- `encode`: the bytes, `outflags[0]` and `objectSize[0]`. -/
def encode (t : ObjectTransCoder) (jdk : Jdk T S) (obj : Value T S) : Bytes × BitVec 32 × Nat :=
  let (flags, b) := plain jdk obj
  if t.compressionThreshold ≤ b.length ∧ 0 < t.compressionThreshold then
    let c := jdk.gzip b
    if c.length < b.length then
      (c, (flags ||| flagsCompressed) + t.option1 + t.option2, b.length)
    else (b, flags + t.option1 + t.option2, b.length)
  else (b, flags + t.option1 + t.option2, b.length)

/-- The `switch` of `decode`. -/
def decodeType (jdk : Jdk T S) (b : Bytes) (type : Nat) : Option (Value T S) :=
  match type with
  | 1 => if 1 ≤ b.length then some (.boolean (b.headD 0 == 1)) else none
  | 2 => if 1 ≤ b.length then some (.byte (b.headD 0).toInt8) else none
  | 3 => if 2 ≤ b.length then some (.short (decodeShort b)) else none
  | 4 => if 2 ≤ b.length then some (.character (decodeShort b).toUInt16) else none
  | 5 => if 4 ≤ b.length then some (.integer (decodeInt b)) else none
  | 6 => if 4 ≤ b.length then some (.float (decodeInt b)) else none
  | 7 => if 8 ≤ b.length then some (.long (decodeLong b)) else none
  | 8 => if 8 ≤ b.length then some (.double (decodeLong b)) else none
  | 9 => if 8 ≤ b.length then some (.date (decodeLong b)) else none
  | 10 => some (.string (jdk.newString b))
  | 11 => some (.stringBuffer (jdk.newString b))
  | 12 => some (.stringBuilder (jdk.newString b))
  | 13 => some (.byteArr b)
  | 14 => (jdk.readObject b).map .serialized
  | _ => none

/-- `decode`: the object and `objectSize[0]`; without a result where it throws an exception. -/
def decode (jdk : Jdk T S) (b : Bytes) (flags : BitVec 32) : Option (Value T S × Nat) := do
  let b ← if flags &&& flagsCompressed = flagsCompressed then jdk.gunzip b else some b
  let obj ← decodeType jdk b (flags &&& flagsTypeMask).toNat
  return (obj, b.length)

/-- The object with its numbers as fields of bytes. -/
def toObj : Value T S → Obj T S
  | .string s => .string s
  | .boolean b => .boolean b
  | .byte b => .byte b.toUInt8
  | .short n => .short n.toUInt16
  | .character c => .character c
  | .integer n => .integer n.toUInt32
  | .float bits => .float bits.toUInt32
  | .long n => .long n.toUInt64
  | .double bits => .double bits.toUInt64
  | .date time => .date time.toUInt64
  | .stringBuffer s => .stringBuffer s
  | .stringBuilder s => .stringBuilder s
  | .byteArr b => .byteArr b
  | .serialized o => .serialized o

/-- What the library has to do with the object: its text can be encoded, or it can be serialised. -/
def Restored (jdk : Jdk T S) : Value T S → Prop
  | .string s | .stringBuffer s | .stringBuilder s => jdk.newString (jdk.getBytes s) = s
  | .serialized o => jdk.readObject (jdk.writeObject o) = some o
  | _ => True

end Value

namespace ObjectCodingLemmas

/-! ## The bytes of an integer -/

/-- A field that is shifted down and masked: the sign does not get into it. -/
theorem field_sshiftRight {w : Nat} (x : BitVec w) {n k : Nat} (hn : n + k ≤ w) :
    (x.sshiftRight n &&& BitVec.ofNat w (2 ^ k - 1)).setWidth k = BitVec.ofNat k (x.toNat / 2 ^ n) := by
  apply BitVec.eq_of_getLsbD_eq
  intro i hi
  have hmask : (BitVec.ofNat w (2 ^ k - 1)).getLsbD i = true := by
    rw [BitVec.getLsbD_ofNat, Nat.testBit_two_pow_sub_one]
    simp only [hi, decide_true, Bool.and_true, decide_eq_true_eq]
    omega
  have hlow : ¬ w ≤ i := by omega
  have hbit : n + i < w := by omega
  rw [BitVec.getLsbD_setWidth, BitVec.getLsbD_and, hmask, BitVec.getLsbD_sshiftRight,
    BitVec.getLsbD_ofNat, Nat.testBit_div_two_pow]
  simp only [hi, hlow, hbit, decide_true, decide_false, Bool.not_false, Bool.true_and, Bool.and_true,
    if_true, BitVec.getLsbD, Nat.add_comm]

/-- `(byte)((value >> n) & 0xFF)` of an `int`. -/
theorem byte_int (x k : Int32) (n : Nat) (hk : (k.toBitVec.smod 32).toNat = n) (hn : n ≤ 24) :
    ((x >>> k) &&& 0xFF).toInt8.toUInt8 = UInt8.ofNat (x.toUInt32.toNat / 2 ^ n) := by
  apply UInt8.toBitVec_inj.mp
  show (x.toBitVec.sshiftRight' (k.toBitVec.smod 32) &&& 255#32).signExtend 8 =
    BitVec.ofNat 8 (x.toBitVec.toNat / 2 ^ n)
  rw [BitVec.signExtend_eq_setWidth_of_le _ (by decide), BitVec.sshiftRight', hk]
  exact field_sshiftRight _ (by omega)

/-- `(byte)((value >> n) & 0xFF)` of a `long`. -/
theorem byte_long (x k : Int64) (n : Nat) (hk : (k.toBitVec.smod 64).toNat = n) (hn : n ≤ 56) :
    ((x >>> k) &&& 0xFF).toInt8.toUInt8 = UInt8.ofNat (x.toUInt64.toNat / 2 ^ n) := by
  apply UInt8.toBitVec_inj.mp
  show (x.toBitVec.sshiftRight' (k.toBitVec.smod 64) &&& 255#64).signExtend 8 =
    BitVec.ofNat 8 (x.toBitVec.toNat / 2 ^ n)
  rw [BitVec.signExtend_eq_setWidth_of_le _ (by decide), BitVec.sshiftRight', hk]
  exact field_sshiftRight _ (by omega)

theorem low_int (x : Int32) : (x &&& 0xFF).toInt8.toUInt8 = UInt8.ofNat x.toUInt32.toNat := by
  have h := byte_int x 0 0 rfl (by decide)
  rw [pow_zero, Nat.div_one] at h
  rw [← h]
  congr 3
  apply Int32.toBitVec_inj.mp
  show x.toBitVec = x.toBitVec.sshiftRight' ((0 : Int32).toBitVec.smod 32)
  simp

theorem low_long (x : Int64) : (x &&& 0xFF).toInt8.toUInt8 = UInt8.ofNat x.toUInt64.toNat := by
  have h := byte_long x 0 0 rfl (by decide)
  rw [pow_zero, Nat.div_one] at h
  rw [← h]
  congr 3
  apply Int64.toBitVec_inj.mp
  show x.toBitVec = x.toBitVec.sshiftRight' ((0 : Int64).toBitVec.smod 64)
  simp

theorem encodeInt_eq (value : Int32) : encodeInt value = putInt value := by
  rw [encodeInt, byte_int _ 24 24 rfl (by decide), byte_int _ 16 16 rfl (by decide),
    byte_int _ 8 8 rfl (by decide), low_int]
  simp only [putInt, putU32, encodeBE, Nat.div_div_eq_div_mul, Nat.reduceMul, Nat.reducePow,
    List.nil_append, List.cons_append]

theorem encodeLong_eq (value : Int64) : encodeLong value = putLong value := by
  rw [encodeLong, byte_long _ 56 56 rfl (by decide), byte_long _ 48 48 rfl (by decide),
    byte_long _ 40 40 rfl (by decide), byte_long _ 32 32 rfl (by decide),
    byte_long _ 24 24 rfl (by decide), byte_long _ 16 16 rfl (by decide),
    byte_long _ 8 8 rfl (by decide), low_long]
  simp only [putLong, putU64, encodeBE, Nat.div_div_eq_div_mul, Nat.reduceMul, Nat.reducePow,
    List.nil_append, List.cons_append]

/-- A `short` is an `int` with its sign, of which the two low bytes are written. -/
theorem encodeShort_eq (value : Int16) : encodeShort value = putShort value := by
  have hlow : value.toInt32.toUInt32.toNat % 2 ^ 16 = value.toUInt16.toNat := by
    have hsame : (value.toBitVec.signExtend 32).setWidth 16 = value.toBitVec := by
      apply BitVec.eq_of_getLsbD_eq
      intro i hi
      have hlt : i < 32 := by omega
      rw [BitVec.getLsbD_setWidth, BitVec.getLsbD_signExtend, if_pos hi]
      simp only [hi, hlt, decide_true, Bool.true_and]
    exact (BitVec.toNat_setWidth ..).symm.trans (congrArg BitVec.toNat hsame)
  rw [encodeShort, byte_int _ 8 8 rfl (by decide), low_int]
  simp only [putShort, putU16, encodeBE, List.nil_append, List.cons_append, ← hlow]
  refine congrArg₂ List.cons ?_ (congrArg (fun b => [b]) ?_)
  · apply UInt8.toNat_inj.mp
    rw [UInt8.toNat_ofNat', UInt8.toNat_ofNat']
    omega
  · apply UInt8.toNat_inj.mp
    rw [UInt8.toNat_ofNat', UInt8.toNat_ofNat']
    omega

/-! ## The bytes that are read -/

/-- Only the bytes of the field are looked at. -/
theorem decodeShort_take {b : Bytes} (h : 2 ≤ b.length) :
    (decodeShort b).toUInt16 = getU16 b := by
  match b, h with
  | b0 :: b1 :: rest, _ =>
    have hfield : decodeShort (b0 :: b1 :: rest) = (getU16 [b0, b1]).toInt16 :=
      decodeShort_eq (b := [b0, b1]) rfl
    rw [hfield]
    rfl

theorem decodeInt_take {b : Bytes} (h : 4 ≤ b.length) : (decodeInt b).toUInt32 = getU32 b := by
  match b, h with
  | b0 :: b1 :: b2 :: b3 :: rest, _ =>
    have hfield : decodeInt (b0 :: b1 :: b2 :: b3 :: rest) = (getU32 [b0, b1, b2, b3]).toInt32 :=
      decodeInt_eq (b := [b0, b1, b2, b3]) rfl
    rw [hfield]
    rfl

theorem decodeLong_take {b : Bytes} (h : 8 ≤ b.length) : (decodeLong b).toUInt64 = getU64 b := by
  match b, h with
  | b0 :: b1 :: b2 :: b3 :: b4 :: b5 :: b6 :: b7 :: rest, _ =>
    have hfield : decodeLong (b0 :: b1 :: b2 :: b3 :: b4 :: b5 :: b6 :: b7 :: rest) =
        (getU64 [b0, b1, b2, b3, b4, b5, b6, b7]).toInt64 :=
      decodeLong_eq (b := [b0, b1, b2, b3, b4, b5, b6, b7]) rfl
    rw [hfield]
    rfl

/-! ## Both models -/

theorem plain_toObj (jdk : Jdk T S) (obj : Value T S) :
    Value.plain jdk obj = ObjectTransCoder.plain jdk obj.toObj := by
  cases obj with
  | short n => exact congrArg (Prod.mk 3) (encodeShort_eq n)
  | character c => exact congrArg (Prod.mk 4) (encodeShort_eq c.toInt16)
  | integer n => exact congrArg (Prod.mk 5) (encodeInt_eq n)
  | float bits => exact congrArg (Prod.mk 6) (encodeInt_eq bits)
  | long n => exact congrArg (Prod.mk 7) (encodeLong_eq n)
  | double bits => exact congrArg (Prod.mk 8) (encodeLong_eq bits)
  | date time => exact congrArg (Prod.mk 9) (encodeLong_eq time)
  | byte b => exact congrArg (fun b => (2, [b])) rfl
  | string | boolean | stringBuffer | stringBuilder | byteArr | serialized => rfl

end ObjectCodingLemmas

open ObjectCodingLemmas

/-- What is written is the big-endian field, as the other model has it. -/
theorem encode_toObj (t : ObjectTransCoder) (jdk : Jdk T S) (obj : Value T S) :
    obj.encode t jdk = t.encode jdk obj.toObj := by
  unfold Value.encode ObjectTransCoder.encode
  rw [plain_toObj]
  generalize ObjectTransCoder.plain jdk obj.toObj = r
  obtain ⟨flags, b⟩ := r
  dsimp only
  unfold compresses
  by_cases hsize : t.compressionThreshold ≤ b.length ∧ 0 < t.compressionThreshold
  · rw [if_pos hsize]
    by_cases hless : (jdk.gzip b).length < b.length
    · rw [if_pos hless, if_pos (by simp [hsize, hless])]
    · rw [if_neg hless, if_neg (by simp [hless])]
  · rw [if_neg hsize, if_neg (by
      simp only [Bool.and_eq_true, decide_eq_true_eq]
      exact fun h => hsize h.1)]

theorem decodeType_toObj (jdk : Jdk T S) (b : Bytes) (flags : BitVec 32)
    (h : flags &&& flagsCompressed ≠ flagsCompressed) :
    (Value.decodeType jdk b (flags &&& flagsTypeMask).toNat).map Value.toObj =
      ObjectTransCoder.decode jdk b flags := by
  unfold ObjectTransCoder.decode
  rw [if_neg h, Option.bind_eq_bind, Option.bind_some]
  unfold Value.decodeType
  dsimp only
  generalize (flags &&& flagsTypeMask).toNat = type
  split
  · split <;> rfl
  · split <;> rfl
  · split
    · next hlen => exact congrArg (fun n => some (Obj.short n)) (decodeShort_take hlen)
    · rfl
  · split
    · next hlen => exact congrArg (fun n => some (Obj.character n)) (decodeShort_take hlen)
    · rfl
  · split
    · next hlen => exact congrArg (fun n => some (Obj.integer n)) (decodeInt_take hlen)
    · rfl
  · split
    · next hlen => exact congrArg (fun n => some (Obj.float n)) (decodeInt_take hlen)
    · rfl
  · split
    · next hlen => exact congrArg (fun n => some (Obj.long n)) (decodeLong_take hlen)
    · rfl
  · split
    · next hlen => exact congrArg (fun n => some (Obj.double n)) (decodeLong_take hlen)
    · rfl
  · split
    · next hlen => exact congrArg (fun n => some (Obj.date n)) (decodeLong_take hlen)
    · rfl
  · rfl
  · rfl
  · rfl
  · rfl
  · cases jdk.readObject b <;> rfl
  · -- no type at all, for neither of them
    grind

/-- The flags of what has been decompressed. -/
theorem clear_compressed (flags : BitVec 32) :
    (flags &&& ~~~flagsCompressed) &&& flagsCompressed ≠ flagsCompressed ∧
      (flags &&& ~~~flagsCompressed) &&& flagsTypeMask = flags &&& flagsTypeMask := by
  have hzero : ~~~flagsCompressed &&& flagsCompressed = 0#32 := rfl
  have hkept : ~~~flagsCompressed &&& flagsTypeMask = flagsTypeMask := rfl
  rw [BitVec.and_assoc, BitVec.and_assoc, hzero, hkept, BitVec.and_zero]
  exact ⟨by decide, rfl⟩

theorem decode_of_compressed (jdk : Jdk T S) (b : Bytes) {flags : BitVec 32}
    (h : flags &&& flagsCompressed = flagsCompressed) : ObjectTransCoder.decode jdk b flags =
      (jdk.gunzip b).bind fun b => ObjectTransCoder.decode jdk b (flags &&& ~~~flagsCompressed) := by
  obtain ⟨hclear, hmask⟩ := clear_compressed flags
  unfold ObjectTransCoder.decode
  rw [if_pos h]
  cases jdk.gunzip b with
  | none => rfl
  | some b => rw [Option.bind_some, if_neg hclear, hmask]

/-- The same bytes are accepted, and the same object is read. -/
theorem decode_toObj (jdk : Jdk T S) (b : Bytes) (flags : BitVec 32) :
    (Value.decode jdk b flags).map (fun r => r.1.toObj) = ObjectTransCoder.decode jdk b flags := by
  have hobject (o : Option (Value T S)) (n : Nat) :
      (o.bind fun obj => some (obj, n)).map (fun r => r.1.toObj) = o.map Value.toObj := by
    cases o <;> rfl
  unfold Value.decode
  by_cases h : flags &&& flagsCompressed = flagsCompressed
  · rw [if_pos h, decode_of_compressed jdk b h]
    cases jdk.gunzip b with
    | none => rfl
    | some b =>
      obtain ⟨hclear, hmask⟩ := clear_compressed flags
      have hplain := decodeType_toObj jdk b _ hclear
      rw [hmask] at hplain
      exact (hobject _ _).trans hplain
  · rw [if_neg h, ← decodeType_toObj jdk b flags h]
    exact hobject _ _

/-! ## The flags -/

namespace CacheBaseItem

/-- `getOption1` of an item with these flags. -/
def getOption1 (flags : BitVec 32) : BitVec 16 := ((flags.sshiftRight 16) &&& 0xFFFF).setWidth 16

def getOption2 (flags : BitVec 32) : BitVec 8 := ((flags.sshiftRight 8) &&& 0xFF).setWidth 8

end CacheBaseItem

namespace ObjectCodingLemmas

/-- The sign of the `short` is shifted out. -/
theorem toNat_option1 (x : BitVec 16) : (x.signExtend 32 <<< 16).toNat = x.toNat * 2 ^ 16 := by
  have hsame : x.signExtend 32 <<< 16 = x.setWidth 32 <<< 16 := by
    apply BitVec.eq_of_getLsbD_eq
    intro i hi
    simp only [BitVec.getLsbD_shiftLeft, BitVec.getLsbD_signExtend, BitVec.getLsbD_setWidth]
    grind
  rw [hsame, BitVec.toNat_shiftLeft, BitVec.toNat_setWidth, Nat.shiftLeft_eq]
  have := x.isLt
  omega

/-- The sign of the `byte` is masked. -/
theorem toNat_option2 (x : BitVec 8) :
    ((x.signExtend 32 <<< 8) &&& 0xFF00).toNat = x.toNat * 2 ^ 8 := by
  have hsame : ∀ x : BitVec 8,
      (x.signExtend 32 <<< 8) &&& (0xFF00 : BitVec 32) = x.setWidth 32 <<< 8 := by
    decide +kernel
  rw [hsame, BitVec.toNat_shiftLeft, BitVec.toNat_setWidth, Nat.shiftLeft_eq]
  have := x.isLt
  omega

variable {f : BitVec 32} (t : ObjectTransCoder) (option1 : BitVec 16) (option2 : BitVec 8)

/-- Nothing is carried from one part of the flags into another. -/
theorem toNat_flags (hf : f.toNat < 2 ^ 8) :
    let t' := (t.setOption1 option1).setOption2 option2
    (f + t'.option1 + t'.option2).toNat =
      option1.toNat * 2 ^ 16 + option2.toNat * 2 ^ 8 + f.toNat := by
  intro t'
  have h1 : t'.option1.toNat = option1.toNat * 2 ^ 16 := toNat_option1 option1
  have h2 : t'.option2.toNat = option2.toNat * 2 ^ 8 := toNat_option2 option2
  have := option1.isLt
  have := option2.isLt
  rw [BitVec.toNat_add, BitVec.toNat_add, h1, h2]
  omega

theorem and_low {flags m : BitVec 32} (hm : m.toNat < 2 ^ 8)
    (h : flags.toNat % 2 ^ 8 = f.toNat % 2 ^ 8) : flags &&& m = f &&& m := by
  apply BitVec.eq_of_toNat_eq
  rw [BitVec.toNat_and, BitVec.toNat_and]
  apply Nat.eq_of_testBit_eq
  intro i
  rw [Nat.testBit_and, Nat.testBit_and]
  rcases Nat.lt_or_ge i 8 with hi | hi
  · have hbit := congrArg (Nat.testBit · i) h
    simp only [Nat.testBit_mod_two_pow, hi, decide_true, Bool.true_and] at hbit
    rw [hbit]
  · have hzero : m.toNat.testBit i = false :=
      Nat.testBit_lt_two_pow (lt_of_lt_of_le hm (Nat.pow_le_pow_right (by decide) hi))
    rw [hzero, Bool.and_false, Bool.and_false]

/-- The parts of the flags are found again. -/
theorem flags_fields (hf : f.toNat < 2 ^ 8) :
    let t' := (t.setOption1 option1).setOption2 option2
    let flags := f + t'.option1 + t'.option2
    CacheBaseItem.getOption1 flags = option1 ∧ CacheBaseItem.getOption2 flags = option2 ∧
      flags &&& flagsCompressed = f &&& flagsCompressed ∧
      flags &&& flagsTypeMask = f &&& flagsTypeMask := by
  intro t' flags
  have hflags : flags.toNat = option1.toNat * 2 ^ 16 + option2.toNat * 2 ^ 8 + f.toNat :=
    toNat_flags t option1 option2 hf
  have h1 := option1.isLt
  have h2 := option2.isLt
  refine ⟨?_, ?_, and_low (by decide) (by omega), and_low (by decide) (by omega)⟩
  · refine (field_sshiftRight flags (n := 16) (k := 16) (by decide)).trans ?_
    apply BitVec.eq_of_toNat_eq
    rw [BitVec.toNat_ofNat, hflags]
    omega
  · refine (field_sshiftRight flags (n := 8) (k := 8) (by decide)).trans ?_
    apply BitVec.eq_of_toNat_eq
    rw [BitVec.toNat_ofNat, hflags]
    omega

/-- The options are read as they were set. -/
theorem getOption_set :
    ((t.setOption1 option1).setOption2 option2).getOption1 = option1 ∧
      ((t.setOption1 option1).setOption2 option2).getOption2 = option2 := by
  have h1 := option1.isLt
  have h2 := option2.isLt
  constructor
  · refine (field_sshiftRight _ (n := 16) (k := 16) (by decide)).trans ?_
    apply BitVec.eq_of_toNat_eq
    rw [BitVec.toNat_ofNat]
    show (option1.signExtend 32 <<< 16).toNat / 2 ^ 16 % 2 ^ 16 = _
    rw [toNat_option1]
    omega
  · refine (field_sshiftRight _ (n := 8) (k := 8) (by decide)).trans ?_
    apply BitVec.eq_of_toNat_eq
    rw [BitVec.toNat_ofNat]
    show ((option2.signExtend 32 <<< 8) &&& 0xFF00).toNat / 2 ^ 8 % 2 ^ 8 = _
    rw [toNat_option2]
    omega

theorem type_lt (jdk : Jdk T S) (obj : Value T S) : (Value.plain jdk obj).1.toNat < 2 ^ 4 := by
  cases obj <;> simp [Value.plain]

theorem encode_eq (t : ObjectTransCoder) (jdk : Jdk T S) (obj : Value T S) :
    obj.encode t jdk = if t.compresses jdk (Value.plain jdk obj).2 then
        (jdk.gzip (Value.plain jdk obj).2,
          ((Value.plain jdk obj).1 ||| flagsCompressed) + t.option1 + t.option2,
          (Value.plain jdk obj).2.length)
      else ((Value.plain jdk obj).2, (Value.plain jdk obj).1 + t.option1 + t.option2,
        (Value.plain jdk obj).2.length) := by
  rw [encode_toObj, plain_toObj]
  rfl

/-- The bytes before compression are read back. -/
theorem decodeType_plain (jdk : Jdk T S) (obj : Value T S) (h : obj.Restored jdk) :
    Value.decodeType jdk (Value.plain jdk obj).2 (Value.plain jdk obj).1.toNat = some obj := by
  cases obj with
  | string s | stringBuffer s | stringBuilder s =>
    have hs : jdk.newString (jdk.getBytes s) = s := h
    simp [Value.decodeType, Value.plain, hs]
  | serialized o =>
    have ho : jdk.readObject (jdk.writeObject o) = some o := h
    simp [Value.decodeType, Value.plain, ho]
  | boolean b => cases b <;> rfl
  | byte b => rfl
  | byteArr b => rfl
  | short n =>
    have hn : decodeShort (putU16 n.toUInt16) = n := by
      rw [decodeShort_eq (length_putU16 _), getU16_put]
      exact Int16.toInt16_toUInt16 n
    simp [Value.decodeType, Value.plain, encodeShort_eq, hn, putShort]
  | character c =>
    have hc : decodeShort (putU16 c) = c.toInt16 := by
      rw [decodeShort_eq (length_putU16 _), getU16_put]
    simp [Value.decodeType, Value.plain, encodeShort_eq, hc, putShort]
  | integer n | float n =>
    have hn : decodeInt (putU32 n.toUInt32) = n := by
      rw [decodeInt_eq (length_putU32 _), getU32_put]
      exact Int32.toInt32_toUInt32 n
    simp [Value.decodeType, Value.plain, encodeInt_eq, hn, putInt]
  | long n | double n | date n =>
    have hn : decodeLong (putU64 n.toUInt64) = n := by
      rw [decodeLong_eq (length_putU64 _), getU64_put]
      exact Int64.toInt64_toUInt64 n
    simp [Value.decodeType, Value.plain, encodeLong_eq, hn, putLong]

end ObjectCodingLemmas

/-- What holds of the bytes and the flags that `encode` makes. -/
structure RoundTrip (jdk : Jdk T S) (obj : Value T S) (option1 : BitVec 16) (option2 : BitVec 8)
    (b : Bytes) (flags : BitVec 32) (objectSize : Nat) : Prop where
  decoded : Value.decode jdk b flags = some (obj, objectSize)
  bytes : b = if flags &&& flagsCompressed = flagsCompressed then jdk.gzip (Value.plain jdk obj).2
    else (Value.plain jdk obj).2
  compressed : flags &&& flagsCompressed = flagsCompressed ↔ b ≠ (Value.plain jdk obj).2
  type : flags &&& flagsTypeMask = (Value.plain jdk obj).1
  option1 : CacheBaseItem.getOption1 flags = option1
  option2 : CacheBaseItem.getOption2 flags = option2

namespace ObjectCodingLemmas

variable {jdk : Jdk T S} {obj : Value T S}

theorem roundTrip_compressed (t : ObjectTransCoder) (option1 : BitVec 16) (option2 : BitVec 8)
    (hgzip : ∀ b, jdk.gunzip (jdk.gzip b) = some b) (hobj : obj.Restored jdk)
    (hless : (jdk.gzip (Value.plain jdk obj).2).length < (Value.plain jdk obj).2.length) :
    let t' := (t.setOption1 option1).setOption2 option2
    RoundTrip jdk obj option1 option2 (jdk.gzip (Value.plain jdk obj).2)
      (((Value.plain jdk obj).1 ||| flagsCompressed) + t'.option1 + t'.option2)
      (Value.plain jdk obj).2.length := by
  intro t'
  have hlt : ((Value.plain jdk obj).1 ||| flagsCompressed).toNat < 2 ^ 8 := by
    rw [BitVec.toNat_or]
    exact Nat.or_lt_two_pow ((type_lt jdk obj).trans (by decide)) (by decide)
  have hbit : ((Value.plain jdk obj).1 ||| flagsCompressed) &&& flagsCompressed =
      flagsCompressed := by
    cases obj <;> simp [Value.plain, flagsCompressed]
  have htype : ((Value.plain jdk obj).1 ||| flagsCompressed) &&& flagsTypeMask =
      (Value.plain jdk obj).1 := by
    cases obj <;> simp [Value.plain, flagsCompressed, flagsTypeMask]
  obtain ⟨h1, h2, hcompressed, hmask⟩ := flags_fields t option1 option2 hlt
  have hcompressed := hcompressed.trans hbit
  have hmask := hmask.trans htype
  have hne : jdk.gzip (Value.plain jdk obj).2 ≠ (Value.plain jdk obj).2 := by
    intro heq
    rw [heq] at hless
    exact Nat.lt_irrefl _ hless
  refine ⟨?_, (if_pos hcompressed).symm, iff_of_true hcompressed hne, hmask, h1, h2⟩
  unfold Value.decode
  rw [if_pos hcompressed, hgzip, hmask, Option.bind_eq_bind, Option.bind_some]
  exact Option.bind_eq_some_iff.mpr ⟨obj, decodeType_plain jdk obj hobj, rfl⟩

theorem roundTrip_plain (t : ObjectTransCoder) (option1 : BitVec 16) (option2 : BitVec 8)
    (hobj : obj.Restored jdk) :
    let t' := (t.setOption1 option1).setOption2 option2
    RoundTrip jdk obj option1 option2 (Value.plain jdk obj).2
      ((Value.plain jdk obj).1 + t'.option1 + t'.option2) (Value.plain jdk obj).2.length := by
  intro t'
  have hbit : (Value.plain jdk obj).1 &&& flagsCompressed ≠ flagsCompressed := by
    cases obj <;> simp [Value.plain, flagsCompressed]
  have htype : (Value.plain jdk obj).1 &&& flagsTypeMask = (Value.plain jdk obj).1 := by
    cases obj <;> simp [Value.plain, flagsTypeMask]
  obtain ⟨h1, h2, hcompressed, hmask⟩ :=
    flags_fields t option1 option2 ((type_lt jdk obj).trans (by decide))
  have hcompressed := fun h => hbit (hcompressed.symm.trans h)
  have hmask := hmask.trans htype
  refine ⟨?_, (if_neg hcompressed).symm, iff_of_false hcompressed (not_not_intro rfl), hmask, h1, h2⟩
  unfold Value.decode
  rw [if_neg hcompressed, hmask, Option.bind_eq_bind, Option.bind_some]
  exact Option.bind_eq_some_iff.mpr ⟨obj, decodeType_plain jdk obj hobj, rfl⟩

end ObjectCodingLemmas

/-- Every object is read back, with any threshold and any options, and all that was put into the
flags is found there. -/
theorem round_trip (jdk : Jdk T S) (t : ObjectTransCoder) (option1 : BitVec 16)
    (option2 : BitVec 8) (obj : Value T S) (hgzip : ∀ b, jdk.gunzip (jdk.gzip b) = some b)
    (hobj : obj.Restored jdk) :
    let t' := (t.setOption1 option1).setOption2 option2
    let r := obj.encode t' jdk
    t'.getOption1 = option1 ∧ t'.getOption2 = option2 ∧
      RoundTrip jdk obj option1 option2 r.1 r.2.1 r.2.2 := by
  intro t' r
  refine ⟨(getOption_set t option1 option2).1, (getOption_set t option1 option2).2, ?_⟩
  have hr : r = obj.encode t' jdk := rfl
  rw [hr, encode_eq]
  split
  · next hc =>
    have hless : (jdk.gzip (Value.plain jdk obj).2).length < (Value.plain jdk obj).2.length := by
      unfold compresses at hc
      simp only [Bool.and_eq_true, decide_eq_true_eq] at hc
      exact hc.2
    exact roundTrip_compressed t option1 option2 hgzip hobj hless
  · exact roundTrip_plain t option1 option2 hobj

/-- Strings of ASCII characters; what is compressed is only marked, and there are no objects to
serialise. -/
def asciiJdk : Jdk (List (Fin 128)) Empty where
  getBytes s := s.map fun c => UInt8.ofNat c.val
  newString b := b.map fun x => Fin.ofNat 128 x.toNat
  gzip b := 31 :: 139 :: b
  gunzip b := some (b.drop 2)
  writeObject o := nomatch o
  readObject _ := none

/-- A text is read back, without compression and with negative options. -/
theorem round_trip_text :
    let t' := ((⟨0, 0, 0⟩ : ObjectTransCoder).setOption1 (-3)).setOption2 (-5)
    let r := (Value.stringBuffer [120, 105] : Value (List (Fin 128)) Empty).encode t' asciiJdk
    t'.getOption1 = -3 ∧ t'.getOption2 = -5 ∧
      RoundTrip asciiJdk (.stringBuffer [120, 105]) (-3) (-5) r.1 r.2.1 r.2.2 :=
  round_trip asciiJdk ⟨0, 0, 0⟩ (-3) (-5) (.stringBuffer [120, 105]) (fun _ => rfl)
    (show asciiJdk.newString (asciiJdk.getBytes [120, 105]) = [120, 105] by decide)

end Xixi.Coder
