import Mathlib.Tactic.Ring
import Mathlib.Tactic.NormNum
import Mathlib.Data.List.Induction

/-!
# Big-endian fields

1. `encodeBE w n`: the `w` bytes of `n`, the most significant first; `decodeBE`
   reads a number back.
2. `decodeBE_encodeBE`: reading back gives `n` modulo `256 ^ w`.
3. `getU8` to `getU64` read the field at the front of a buffer; each gives back
   what the `put` of its width has written, whatever stands behind it, and `put`
   gives back the bytes that were read.
-/

namespace Xixi.Lib

def encodeBE : Nat → Nat → List UInt8
  | 0, _ => []
  | w + 1, n => encodeBE w (n / 256) ++ [UInt8.ofNat n]

def decodeBE (l : List UInt8) : Nat := l.foldl (fun n b => n * 256 + b.toNat) 0

@[simp] theorem length_encodeBE (w n : Nat) : (encodeBE w n).length = w := by
  induction w generalizing n with
  | zero => rfl
  | succ w ih => rw [encodeBE, List.length_append, ih, List.length_singleton]

/-- The high bytes and the low bytes. -/
theorem encodeBE_add (v w n : Nat) :
    encodeBE (v + w) n = encodeBE v (n / 256 ^ w) ++ encodeBE w n := by
  induction w generalizing n with
  | zero => rw [pow_zero, Nat.div_one, encodeBE, List.append_nil, Nat.add_zero]
  | succ w ih =>
    have hdiv : n / 256 / 256 ^ w = n / 256 ^ (w + 1) := by
      rw [Nat.div_div_eq_div_mul, pow_succ']
    show encodeBE (v + w) (n / 256) ++ [UInt8.ofNat n] = _
    rw [ih, hdiv, encodeBE, List.append_assoc]

/-- The bytes of the remainder. -/
theorem encodeBE_mod (w n : Nat) : encodeBE w (n % 256 ^ w) = encodeBE w n := by
  induction w generalizing n with
  | zero => rfl
  | succ w ih =>
    have hhigh : n % 256 ^ (w + 1) / 256 = n / 256 % 256 ^ w := by
      rw [pow_succ', Nat.mod_mul_right_div_self]
    have hlow : UInt8.ofNat (n % 256 ^ (w + 1)) = UInt8.ofNat n := by
      apply UInt8.toNat_inj.mp
      rw [UInt8.toNat_ofNat', UInt8.toNat_ofNat', pow_succ']
      exact Nat.mod_mul_right_mod n 256 (256 ^ w)
    rw [encodeBE, encodeBE, hhigh, hlow, ih]

theorem decodeBE_concat (l : List UInt8) (b : UInt8) :
    decodeBE (l ++ [b]) = decodeBE l * 256 + b.toNat := by
  rw [decodeBE, List.foldl_append]
  rfl

theorem decodeBE_encodeBE (w n : Nat) : decodeBE (encodeBE w n) = n % 256 ^ w := by
  induction w generalizing n with
  | zero => simp [encodeBE, decodeBE, Nat.mod_one]
  | succ w ih =>
    have hlow : (UInt8.ofNat n).toNat = n % 256 := by simp
    rw [encodeBE, decodeBE_concat, ih, hlow, pow_succ', Nat.mod_mul]
    ring

theorem decodeBE_lt (l : List UInt8) : decodeBE l < 256 ^ l.length := by
  induction l using List.reverseRecOn with
  | nil => simp [decodeBE]
  | append_singleton l b ih =>
    have hb : b.toNat < 256 := b.toNat_lt
    rw [decodeBE_concat, List.length_append, List.length_singleton, pow_succ]
    omega

theorem encodeBE_decodeBE (l : List UInt8) : encodeBE l.length (decodeBE l) = l := by
  induction l using List.reverseRecOn with
  | nil => rfl
  | append_singleton l b ih =>
    have hb : b.toNat < 256 := b.toNat_lt
    have hdiv : (decodeBE l * 256 + b.toNat) / 256 = decodeBE l := by omega
    have hlow : UInt8.ofNat (decodeBE l * 256 + b.toNat) = b := by
      apply UInt8.toNat_inj.mp
      rw [UInt8.toNat_ofNat']
      omega
    rw [decodeBE_concat, List.length_append, List.length_singleton, encodeBE, hdiv, hlow, ih]

/-! ## Fields at the front of a buffer -/

/-- The first `w` bytes as a number. -/
def getBE (w : Nat) (buf : List UInt8) : Nat := decodeBE (buf.take w)

def getU8 (buf : List UInt8) : UInt8 := UInt8.ofNat (getBE 1 buf)

def getU16 (buf : List UInt8) : UInt16 := UInt16.ofNat (getBE 2 buf)

def getU32 (buf : List UInt8) : UInt32 := UInt32.ofNat (getBE 4 buf)

def getU64 (buf : List UInt8) : UInt64 := UInt64.ofNat (getBE 8 buf)

def putU8 (x : UInt8) : List UInt8 := encodeBE 1 x.toNat

def putU16 (x : UInt16) : List UInt8 := encodeBE 2 x.toNat

def putU32 (x : UInt32) : List UInt8 := encodeBE 4 x.toNat

def putU64 (x : UInt64) : List UInt8 := encodeBE 8 x.toNat

@[simp] theorem length_putU8 (x : UInt8) : (putU8 x).length = 1 := length_encodeBE _ _

@[simp] theorem length_putU16 (x : UInt16) : (putU16 x).length = 2 := length_encodeBE _ _

@[simp] theorem length_putU32 (x : UInt32) : (putU32 x).length = 4 := length_encodeBE _ _

@[simp] theorem length_putU64 (x : UInt64) : (putU64 x).length = 8 := length_encodeBE _ _

theorem getBE_encodeBE_append {w n : Nat} (h : n < 256 ^ w) (rest : List UInt8) :
    getBE w (encodeBE w n ++ rest) = n := by
  have htake : (encodeBE w n ++ rest).take w = encodeBE w n := List.take_left' (length_encodeBE w n)
  rw [getBE, htake, decodeBE_encodeBE, Nat.mod_eq_of_lt h]

theorem encodeBE_getBE {w : Nat} {buf : List UInt8} (h : w ≤ buf.length) :
    encodeBE w (getBE w buf) = buf.take w := by
  have hlen : (buf.take w).length = w := List.length_take_of_le h
  calc encodeBE w (getBE w buf) = encodeBE (buf.take w).length (decodeBE (buf.take w)) := by
        rw [hlen, getBE]
    _ = buf.take w := encodeBE_decodeBE _

theorem getBE_lt {w : Nat} {buf : List UInt8} (h : w ≤ buf.length) : getBE w buf < 256 ^ w := by
  have hlt := decodeBE_lt (buf.take w)
  rwa [List.length_take_of_le h] at hlt

@[simp] theorem getU8_putU8 (x : UInt8) (rest : List UInt8) : getU8 (putU8 x ++ rest) = x := by
  have h : x.toNat < 256 ^ 1 := x.toNat_lt
  rw [getU8, putU8, getBE_encodeBE_append h, UInt8.ofNat_toNat]

@[simp] theorem getU16_putU16 (x : UInt16) (rest : List UInt8) : getU16 (putU16 x ++ rest) = x := by
  have h : x.toNat < 256 ^ 2 := x.toNat_lt
  rw [getU16, putU16, getBE_encodeBE_append h, UInt16.ofNat_toNat]

@[simp] theorem getU32_putU32 (x : UInt32) (rest : List UInt8) : getU32 (putU32 x ++ rest) = x := by
  have h : x.toNat < 256 ^ 4 := x.toNat_lt
  rw [getU32, putU32, getBE_encodeBE_append h, UInt32.ofNat_toNat]

@[simp] theorem getU64_putU64 (x : UInt64) (rest : List UInt8) : getU64 (putU64 x ++ rest) = x := by
  have h : x.toNat < 256 ^ 8 := x.toNat_lt
  rw [getU64, putU64, getBE_encodeBE_append h, UInt64.ofNat_toNat]

@[simp] theorem drop_putU8 (x : UInt8) (rest : List UInt8) : (putU8 x ++ rest).drop 1 = rest :=
  List.drop_left' (length_putU8 x)

@[simp] theorem drop_putU16 (x : UInt16) (rest : List UInt8) : (putU16 x ++ rest).drop 2 = rest :=
  List.drop_left' (length_putU16 x)

@[simp] theorem drop_putU32 (x : UInt32) (rest : List UInt8) : (putU32 x ++ rest).drop 4 = rest :=
  List.drop_left' (length_putU32 x)

@[simp] theorem drop_putU64 (x : UInt64) (rest : List UInt8) : (putU64 x ++ rest).drop 8 = rest :=
  List.drop_left' (length_putU64 x)

theorem putU8_getU8 {buf : List UInt8} (h : 1 ≤ buf.length) : putU8 (getU8 buf) = buf.take 1 := by
  have hlt : getBE 1 buf < 2 ^ 8 := getBE_lt h
  rw [putU8, getU8, UInt8.toNat_ofNat', Nat.mod_eq_of_lt hlt, encodeBE_getBE h]

theorem putU16_getU16 {buf : List UInt8} (h : 2 ≤ buf.length) :
    putU16 (getU16 buf) = buf.take 2 := by
  have hlt : getBE 2 buf < 2 ^ 16 := getBE_lt h
  rw [putU16, getU16, UInt16.toNat_ofNat', Nat.mod_eq_of_lt hlt, encodeBE_getBE h]

theorem putU32_getU32 {buf : List UInt8} (h : 4 ≤ buf.length) :
    putU32 (getU32 buf) = buf.take 4 := by
  have hlt : getBE 4 buf < 2 ^ 32 := getBE_lt h
  rw [putU32, getU32, UInt32.toNat_ofNat', Nat.mod_eq_of_lt hlt, encodeBE_getBE h]

theorem putU64_getU64 {buf : List UInt8} (h : 8 ≤ buf.length) :
    putU64 (getU64 buf) = buf.take 8 := by
  have hlt : getBE 8 buf < 2 ^ 64 := getBE_lt h
  rw [putU64, getU64, UInt64.toNat_ofNat', Nat.mod_eq_of_lt hlt, encodeBE_getBE h]

end Xixi.Lib
