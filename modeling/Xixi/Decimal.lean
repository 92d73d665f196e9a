import Mathlib.Data.List.Basic
import Xixi.Item

/-!
# Decimal numbers in item data (`util.cpp`, `snprintf`)

`safe_toi64` reads the memory from `data` on. It looks at the byte behind the
last one when all bytes are white space, and if that byte is a sign it goes on
reading with a length that has wrapped around.

1. `safeToi64_congr`: outside that case the result depends on the bytes only.
-/

namespace Xixi

/-- Two's complement with 64 bits. -/
def wrap64 (x : Int) : Int := Int.bmod x (2 ^ 64)

def isSpace (c : UInt8) : Bool := c == 32 || (9 ≤ c && c ≤ 13)

def isDigit (c : UInt8) : Bool := 48 ≤ c && c ≤ 57

/-- The white space loop: the remaining length and the position. -/
def skipSpace (mem : Nat → UInt8) : Nat → Nat → Nat × Nat
  | 0, pos => (0, pos)
  | n + 1, pos => if isSpace (mem pos) then skipSpace mem n (pos + 1) else (n + 1, pos)

/-- The digit loop; `none` stands for `return false`. -/
def digitLoop (mem : Nat → UInt8) : Nat → Nat → Int → Option Int
  | 0, _, ret => some ret
  | n + 1, pos, ret =>
    if isDigit (mem pos) then
      let temp := wrap64 (ret * 10 + ((mem pos).toNat - 48 : Int))
      if temp < ret then none else digitLoop mem n (pos + 1) temp
    else some ret

/-- `safe_toi64(data, n, out)`: the value stored in `out`, or `none` for false. -/
def safeToi64 (mem : Nat → UInt8) (n : Nat) : Option Int :=
  if n = 0 then none
  else
    let (n, pos) := skipSpace mem n 0
    if mem pos = 45 then
      (digitLoop mem ((n + (2 ^ 32 - 1)) % 2 ^ 32) (pos + 1) 0).map fun ret => wrap64 (-ret)
    else if mem pos = 43 then digitLoop mem ((n + (2 ^ 32 - 1)) % 2 ^ 32) (pos + 1) 0
    else digitLoop mem n pos 0

/-- The decimal digits of `n`, at most `fuel` of them. -/
def natDigits : Nat → Nat → Bytes
  | 0, _ => []
  | fuel + 1, n =>
    if n < 10 then [UInt8.ofNat (48 + n)]
    else natDigits fuel (n / 10) ++ [UInt8.ofNat (48 + n % 10)]

/-- `snprintf(buf, 25, "%" PRId64, value)` for a 64-bit value. -/
def formatInt64 (value : Int) : Bytes :=
  if value < 0 then 45 :: natDigits 19 (-value).toNat else natDigits 19 value.toNat

example : safeToi64 (fun i => [32, 45, 52, 50].getD i 0) 4 = some (-42) := by decide
example : formatInt64 (-42) = [45, 52, 50] := by decide

/-! ## The value a run of bytes stands for -/

/-- The memory that holds `bytes` and zeros behind them. -/
def memOf (bytes : Bytes) : Nat → UInt8 := fun i => bytes.getD i 0

/-- The number in `bytes`: 0 when they do not start with one. -/
def bytesValue (bytes : Bytes) : Int := (safeToi64 (memOf bytes) bytes.length).getD 0

/-- The bytes are white space only, there is at least one, and a sign follows. -/
def SignBehindBlank (mem : Nat → UInt8) (n : Nat) : Prop :=
  0 < n ∧ (∀ i < n, isSpace (mem i) = true) ∧ (mem n = 45 ∨ mem n = 43)

namespace DecimalLemmas

theorem skipSpace_add (mem : Nat → UInt8) (n pos : Nat) :
    (skipSpace mem n pos).2 + (skipSpace mem n pos).1 = pos + n := by
  induction n generalizing pos with
  | zero => rfl
  | succ n ih =>
    simp only [skipSpace]
    split
    · rw [ih]; omega
    · rfl

/-- The white space that was skipped. -/
theorem skipSpace_space {mem : Nat → UInt8} {n pos i : Nat} (h1 : pos ≤ i)
    (h2 : i < (skipSpace mem n pos).2) : isSpace (mem i) = true := by
  induction n generalizing pos with
  | zero => simp only [skipSpace] at h2; omega
  | succ n ih =>
    simp only [skipSpace] at h2
    split at h2
    · next hs =>
      by_cases he : i = pos
      · exact he ▸ hs
      · exact ih (by omega) h2
    · simp only at h2; omega

theorem skipSpace_congr {mem mem' : Nat → UInt8} {n pos : Nat}
    (h : ∀ i, pos ≤ i → i < pos + n → mem i = mem' i) :
    skipSpace mem n pos = skipSpace mem' n pos := by
  induction n generalizing pos with
  | zero => rfl
  | succ n ih =>
    simp only [skipSpace, h pos (Nat.le_refl pos) (by omega)]
    rw [ih fun i h1 h2 => h i (by omega) (by omega)]

theorem digitLoop_congr {mem mem' : Nat → UInt8} {n pos : Nat} {ret : Int}
    (h : ∀ i, pos ≤ i → i < pos + n → mem i = mem' i) :
    digitLoop mem n pos ret = digitLoop mem' n pos ret := by
  induction n generalizing pos ret with
  | zero => rfl
  | succ n ih =>
    simp only [digitLoop, h pos (Nat.le_refl pos) (by omega)]
    rw [ih fun i h1 h2 => h i (by omega) (by omega)]

/-! ## Printed digits -/

theorem length_natDigits_le (fuel n : Nat) : (natDigits fuel n).length ≤ fuel := by
  induction fuel generalizing n with
  | zero => exact Nat.le_refl _
  | succ fuel ih =>
    rw [natDigits]
    split
    · exact Nat.le_add_left 1 fuel
    · rw [List.length_append]
      exact Nat.add_le_add_right (ih _) 1

theorem natDigits_ne_nil (fuel n : Nat) : natDigits (fuel + 1) n ≠ [] := by
  rw [natDigits]
  split
  · exact List.cons_ne_nil _ _
  · exact List.append_ne_nil_of_right_ne_nil _ (List.cons_ne_nil _ _)

theorem isDigit_ofNat {n : Nat} (h : n < 10) : isDigit (UInt8.ofNat (48 + n)) = true := by
  have hall : ∀ n < 10, isDigit (UInt8.ofNat (48 + n)) = true := by decide
  exact hall n h

theorem isDigit_natDigits {fuel n : Nat} : ∀ d ∈ natDigits fuel n, isDigit d = true := by
  induction fuel generalizing n with
  | zero => exact nofun
  | succ fuel ih =>
    rw [natDigits]
    split
    · next h =>
      intro d hd
      rw [List.mem_singleton.mp hd]
      exact isDigit_ofNat h
    · intro d hd
      rcases List.mem_append.mp hd with hd | hd
      · exact ih d hd
      · rw [List.mem_singleton.mp hd]
        exact isDigit_ofNat (Nat.mod_lt n (by decide))

theorem toNat_digit {n : Nat} (h : n < 10) : (UInt8.ofNat (48 + n)).toNat - 48 = n := by
  have hall : ∀ n < 10, (UInt8.ofNat (48 + n)).toNat - 48 = n := by decide
  exact hall n h

/-- The digits stand for the number they were made of. -/
theorem foldl_natDigits {fuel n : Nat} (h : n < 10 ^ fuel) :
    (natDigits fuel n).foldl (fun n d => n * 10 + (d.toNat - 48)) 0 = n := by
  induction fuel generalizing n with
  | zero => exact (Nat.lt_one_iff.mp h).symm
  | succ fuel ih =>
    rw [natDigits]
    split
    · next hn =>
      show 0 * 10 + _ = n
      rw [toNat_digit hn, Nat.zero_mul, Nat.zero_add]
    · have hdiv : n / 10 < 10 ^ fuel := by
        rw [Nat.div_lt_iff_lt_mul (by decide), ← Nat.pow_succ]
        exact h
      rw [List.foldl_append, ih hdiv, List.foldl_cons, List.foldl_nil,
        toNat_digit (Nat.mod_lt n (by decide))]
      omega

theorem length_formatInt64_le (v : Int) : (formatInt64 v).length ≤ 20 := by
  rw [formatInt64]
  split
  · exact Nat.add_le_add_right (length_natDigits_le 19 _) 1
  · exact Nat.le_trans (length_natDigits_le 19 _) (by decide)

end DecimalLemmas

open DecimalLemmas

/-- `safe_toi64` only depends on the `n` bytes, unless they are white space with a
sign behind them. -/
theorem safeToi64_congr {mem mem' : Nat → UInt8} {n : Nat} (hn : n < 2 ^ 32)
    (h : ∀ i < n, mem i = mem' i) (hs : ¬ SignBehindBlank mem n) (hs' : ¬ SignBehindBlank mem' n) :
    safeToi64 mem n = safeToi64 mem' n := by
  unfold safeToi64
  split
  · rfl
  · next hn0 =>
    have hskip : skipSpace mem n 0 = skipSpace mem' n 0 :=
      skipSpace_congr fun i _ hi => h i (by omega)
    have hadd := skipSpace_add mem n 0
    have hsp : ∀ i < (skipSpace mem n 0).2, isSpace (mem i) = true :=
      fun i hi => skipSpace_space (Nat.zero_le i) hi
    have hsp' : ∀ i < (skipSpace mem n 0).2, isSpace (mem' i) = true :=
      fun i hi => skipSpace_space (Nat.zero_le i) (hskip ▸ hi)
    rw [← hskip]
    generalize skipSpace mem n 0 = r at hadd hsp hsp'
    obtain ⟨m, pos⟩ := r
    simp only at hadd hsp hsp' ⊢
    rcases Nat.eq_zero_or_pos m with rfl | hm
    · -- nothing but white space: the byte behind decides
      have hpos : pos = n := by omega
      subst hpos
      have e1 : mem pos ≠ 45 := fun e => hs ⟨by omega, hsp, .inl e⟩
      have e2 : mem pos ≠ 43 := fun e => hs ⟨by omega, hsp, .inr e⟩
      have e3 : mem' pos ≠ 45 := fun e => hs' ⟨by omega, hsp', .inl e⟩
      have e4 : mem' pos ≠ 43 := fun e => hs' ⟨by omega, hsp', .inr e⟩
      simp [e1, e2, e3, e4, digitLoop]
    · have hlen : (m + (2 ^ 32 - 1)) % 2 ^ 32 = m - 1 := by omega
      have hd1 : ∀ ret, digitLoop mem (m - 1) (pos + 1) ret = digitLoop mem' (m - 1) (pos + 1) ret :=
        fun ret => digitLoop_congr fun i _ _ => h i (by omega)
      have hd2 : ∀ ret, digitLoop mem m pos ret = digitLoop mem' m pos ret :=
        fun ret => digitLoop_congr fun i _ _ => h i (by omega)
      rw [hlen, h pos (by omega), hd1, hd2]

theorem not_signBehindBlank_memOf (bytes : Bytes) : ¬ SignBehindBlank (memOf bytes) bytes.length := by
  rintro ⟨-, -, h⟩
  simp [memOf] at h

end Xixi
