import Xixi.Lib.Wire

/-!
# Integers of the Java client (`ObjectTransCoder.java`, `java.nio.ByteBuffer`)

`putInt` and its siblings write an integer the most significant byte first. `decodeInt` and its
siblings put the bytes together again; Java's `byte` is signed, so that each is masked first.

1. `putByte`, `putShort`, `putInt`, `putLong`, `decodeShort`, `decodeInt`, `decodeLong`: the code.
2. `decodeShort_eq`, `decodeInt_eq`, `decodeLong_eq`: what is decoded is the big-endian field.
-/

namespace Xixi.Client
open Lib

def putByte (x : Int8) : List UInt8 := putU8 x.toUInt8

def putShort (x : Int16) : List UInt8 := putU16 x.toUInt16

def putInt (x : Int32) : List UInt8 := putU32 x.toUInt32

def putLong (x : Int64) : List UInt8 := putU64 x.toUInt64

/-- `((int) b[i]) & 0xFF`. -/
def intAt (b : List UInt8) (i : Nat) : Int32 := (b.getD i 0).toInt8.toInt32 &&& 0xFF

/-- `((long) b[i]) & 0xFF`. -/
def longAt (b : List UInt8) (i : Nat) : Int64 := (b.getD i 0).toInt8.toInt64 &&& 0xFF

def decodeShort (b : List UInt8) : Int16 := (intAt b 1 + (intAt b 0 <<< 8)).toInt16

def decodeInt (b : List UInt8) : Int32 :=
  intAt b 3 + (intAt b 2 <<< 8) + (intAt b 1 <<< 16) + (intAt b 0 <<< 24)

def decodeLong (b : List UInt8) : Int64 :=
  longAt b 7 + (longAt b 6 <<< 8) + (longAt b 5 <<< 16) + (longAt b 4 <<< 24) +
    (longAt b 3 <<< 32) + (longAt b 2 <<< 40) + (longAt b 1 <<< 48) + (longAt b 0 <<< 56)

namespace NumbersLemmas

/-- The mask undoes the sign. -/
theorem signExtend_and_32 : ∀ x : BitVec 8, x.signExtend 32 &&& 255#32 = x.setWidth 32 := by
  decide +kernel

theorem signExtend_and_64 : ∀ x : BitVec 8, x.signExtend 64 &&& 255#64 = x.setWidth 64 := by
  decide +kernel

theorem toUInt32_intAt (b : List UInt8) (i : Nat) : (intAt b i).toUInt32 = (b.getD i 0).toUInt32 := by
  apply UInt32.toBitVec_inj.mp
  exact signExtend_and_32 (b.getD i 0).toBitVec

theorem toUInt64_longAt (b : List UInt8) (i : Nat) :
    (longAt b i).toUInt64 = (b.getD i 0).toUInt64 := by
  apply UInt64.toBitVec_inj.mp
  exact signExtend_and_64 (b.getD i 0).toBitVec

theorem toUInt32_shiftLeft (b : List UInt8) (i : Nat) (k : Int32) (n : UInt32)
    (hk : k.toBitVec.smod 32 = n.toBitVec % 32) :
    (intAt b i <<< k).toUInt32 = (b.getD i 0).toUInt32 <<< n := by
  apply UInt32.toBitVec_inj.mp
  show (intAt b i).toUInt32.toBitVec <<< (k.toBitVec.smod 32) = _
  rw [toUInt32_intAt, hk]
  rfl

theorem toUInt64_shiftLeft (b : List UInt8) (i : Nat) (k : Int64) (n : UInt64)
    (hk : k.toBitVec.smod 64 = n.toBitVec % 64) :
    (longAt b i <<< k).toUInt64 = (b.getD i 0).toUInt64 <<< n := by
  apply UInt64.toBitVec_inj.mp
  show (longAt b i).toUInt64.toBitVec <<< (k.toBitVec.smod 64) = _
  rw [toUInt64_longAt, hk]
  rfl

theorem toNat_decodeShort (b0 b1 : UInt8) :
    (decodeShort [b0, b1]).toUInt16.toNat = b0.toNat * 256 + b1.toNat := by
  have h0 : b0.toNat < 256 := b0.toNat_lt
  have h1 : b1.toNat < 256 := b1.toNat_lt
  have hsum : (decodeShort [b0, b1]).toUInt16 =
      (intAt [b0, b1] 1 + (intAt [b0, b1] 0 <<< 8)).toUInt32.toUInt16 := by
    apply UInt16.toBitVec_inj.mp
    exact BitVec.signExtend_eq_setWidth_of_le _ (by decide)
  rw [hsum, Int32.toUInt32_add, toUInt32_intAt, toUInt32_shiftLeft _ 0 8 8 rfl]
  simp only [UInt32.toNat_toUInt16, UInt32.toNat_add, UInt32.toNat_shiftLeft, UInt8.toNat_toUInt32,
    Nat.shiftLeft_eq]
  show (b1.toNat + b0.toNat * 2 ^ 8 % 2 ^ 32) % 2 ^ 32 % 2 ^ 16 = _
  omega

theorem toNat_decodeInt (b0 b1 b2 b3 : UInt8) : (decodeInt [b0, b1, b2, b3]).toUInt32.toNat =
    ((b0.toNat * 256 + b1.toNat) * 256 + b2.toNat) * 256 + b3.toNat := by
  have h0 : b0.toNat < 256 := b0.toNat_lt
  have h1 : b1.toNat < 256 := b1.toNat_lt
  have h2 : b2.toNat < 256 := b2.toNat_lt
  have h3 : b3.toNat < 256 := b3.toNat_lt
  rw [decodeInt, Int32.toUInt32_add, Int32.toUInt32_add, Int32.toUInt32_add, toUInt32_intAt,
    toUInt32_shiftLeft _ 2 8 8 rfl, toUInt32_shiftLeft _ 1 16 16 rfl,
    toUInt32_shiftLeft _ 0 24 24 rfl]
  simp only [UInt32.toNat_add, UInt32.toNat_shiftLeft, UInt8.toNat_toUInt32, Nat.shiftLeft_eq]
  show (((b3.toNat + b2.toNat * 2 ^ 8 % 2 ^ 32) % 2 ^ 32 + b1.toNat * 2 ^ 16 % 2 ^ 32) % 2 ^ 32 +
    b0.toNat * 2 ^ 24 % 2 ^ 32) % 2 ^ 32 = _
  omega

theorem toNat_decodeLong (b0 b1 b2 b3 b4 b5 b6 b7 : UInt8) :
    (decodeLong [b0, b1, b2, b3, b4, b5, b6, b7]).toUInt64.toNat =
      ((((((b0.toNat * 256 + b1.toNat) * 256 + b2.toNat) * 256 + b3.toNat) * 256 + b4.toNat) * 256 +
        b5.toNat) * 256 + b6.toNat) * 256 + b7.toNat := by
  have h0 : b0.toNat < 256 := b0.toNat_lt
  have h1 : b1.toNat < 256 := b1.toNat_lt
  have h2 : b2.toNat < 256 := b2.toNat_lt
  have h3 : b3.toNat < 256 := b3.toNat_lt
  have h4 : b4.toNat < 256 := b4.toNat_lt
  have h5 : b5.toNat < 256 := b5.toNat_lt
  have h6 : b6.toNat < 256 := b6.toNat_lt
  have h7 : b7.toNat < 256 := b7.toNat_lt
  simp only [decodeLong, Int64.toUInt64_add, toUInt64_longAt, toUInt64_shiftLeft _ 6 8 8 rfl,
    toUInt64_shiftLeft _ 5 16 16 rfl, toUInt64_shiftLeft _ 4 24 24 rfl,
    toUInt64_shiftLeft _ 3 32 32 rfl, toUInt64_shiftLeft _ 2 40 40 rfl,
    toUInt64_shiftLeft _ 1 48 48 rfl, toUInt64_shiftLeft _ 0 56 56 rfl]
  simp only [UInt64.toNat_add, UInt64.toNat_shiftLeft, UInt8.toNat_toUInt64, Nat.shiftLeft_eq]
  show (((((((b7.toNat + b6.toNat * 2 ^ 8 % 2 ^ 64) % 2 ^ 64 + b5.toNat * 2 ^ 16 % 2 ^ 64) % 2 ^ 64 +
    b4.toNat * 2 ^ 24 % 2 ^ 64) % 2 ^ 64 + b3.toNat * 2 ^ 32 % 2 ^ 64) % 2 ^ 64 +
    b2.toNat * 2 ^ 40 % 2 ^ 64) % 2 ^ 64 + b1.toNat * 2 ^ 48 % 2 ^ 64) % 2 ^ 64 +
    b0.toNat * 2 ^ 56 % 2 ^ 64) % 2 ^ 64 = _
  omega

end NumbersLemmas

open NumbersLemmas

theorem decodeShort_eq {b : List UInt8} (h : b.length = 2) : decodeShort b = (getU16 b).toInt16 := by
  match b, h with
  | [b0, b1], _ =>
    have hnat : (decodeShort [b0, b1]).toUInt16 = getU16 [b0, b1] := by
      apply UInt16.toNat_inj.mp
      have hget : getBE 2 [b0, b1] = b0.toNat * 256 + b1.toNat := by
        show (0 * 256 + b0.toNat) * 256 + b1.toNat = _
        rw [Nat.zero_mul, Nat.zero_add]
      have hbe : getBE 2 [b0, b1] < 2 ^ 16 := @getBE_lt 2 [b0, b1] (Nat.le_refl 2)
      rw [toNat_decodeShort, getU16, UInt16.toNat_ofNat', Nat.mod_eq_of_lt hbe, hget]
    rw [← hnat]
    rfl

theorem decodeInt_eq {b : List UInt8} (h : b.length = 4) : decodeInt b = (getU32 b).toInt32 := by
  match b, h with
  | [b0, b1, b2, b3], _ =>
    have hnat : (decodeInt [b0, b1, b2, b3]).toUInt32 = getU32 [b0, b1, b2, b3] := by
      apply UInt32.toNat_inj.mp
      have hget : getBE 4 [b0, b1, b2, b3] =
          ((b0.toNat * 256 + b1.toNat) * 256 + b2.toNat) * 256 + b3.toNat := by
        show (((0 * 256 + b0.toNat) * 256 + b1.toNat) * 256 + b2.toNat) * 256 + b3.toNat = _
        rw [Nat.zero_mul, Nat.zero_add]
      have hbe : getBE 4 [b0, b1, b2, b3] < 2 ^ 32 := @getBE_lt 4 [b0, b1, b2, b3] (Nat.le_refl 4)
      rw [toNat_decodeInt, getU32, UInt32.toNat_ofNat', Nat.mod_eq_of_lt hbe, hget]
    rw [← hnat]
    rfl

theorem decodeLong_eq {b : List UInt8} (h : b.length = 8) : decodeLong b = (getU64 b).toInt64 := by
  match b, h with
  | [b0, b1, b2, b3, b4, b5, b6, b7], _ =>
    have hnat : (decodeLong [b0, b1, b2, b3, b4, b5, b6, b7]).toUInt64 =
        getU64 [b0, b1, b2, b3, b4, b5, b6, b7] := by
      apply UInt64.toNat_inj.mp
      have hget : getBE 8 [b0, b1, b2, b3, b4, b5, b6, b7] =
          ((((((b0.toNat * 256 + b1.toNat) * 256 + b2.toNat) * 256 + b3.toNat) * 256 + b4.toNat) *
            256 + b5.toNat) * 256 + b6.toNat) * 256 + b7.toNat := by
        show (((((((0 * 256 + b0.toNat) * 256 + b1.toNat) * 256 + b2.toNat) * 256 + b3.toNat) * 256 +
          b4.toNat) * 256 + b5.toNat) * 256 + b6.toNat) * 256 + b7.toNat = _
        rw [Nat.zero_mul, Nat.zero_add]
      have hbe : getBE 8 [b0, b1, b2, b3, b4, b5, b6, b7] < 2 ^ 64 :=
        @getBE_lt 8 [b0, b1, b2, b3, b4, b5, b6, b7] (Nat.le_refl 8)
      rw [toNat_decodeLong, getU64, UInt64.toNat_ofNat', Nat.mod_eq_of_lt hbe, hget]
    rw [← hnat]
    rfl

end Xixi.Client
