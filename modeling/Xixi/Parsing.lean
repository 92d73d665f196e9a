import Mathlib.Data.List.TakeWhile
import Xixi.Lib.Probe
import Xixi.Http.Text

/-!
# Safe integer parsing (`util.cpp`)

The four functions `safe_toui64`, `safe_toi64`, `safe_toui32` and `safe_toi32` are one loop over
integers of one width, with a sign or without. An overflow is noticed only if the new value is
smaller than the old one after the multiplication by ten modulo 2^w, and the byte behind the white
space is looked at whatever the length is.

1. `IntType.parse`: the functions, as computations that look at one byte after the other.
2. `numeral`: the optional sign and the maximal run of digits behind the white space, as a number.
3. `IntType.Safe`: no byte beyond the first `n` is looked at, what is returned is the numeral, and
   nothing is returned when the numeral is outside the type.
4. `safe_iff`: this holds exactly when the bytes are not white space only and an overflow is
   noticed.
5. `parse_of_lt`: a numeral whose digits are within the type is returned.
-/

namespace Xixi

open Lib DecimalLemmas

/-- The target types. -/
inductive IntType
  | ui64
  | i64
  | ui32
  | i32
deriving DecidableEq, Repr

namespace IntType

def bits : IntType → Nat
  | ui64 | i64 => 64
  | ui32 | i32 => 32

def signed : IntType → Bool
  | i64 | i32 => true
  | ui64 | ui32 => false

/-- The value modulo 2^w, in two's complement if there is a sign. -/
def wrap (w : IntType) (x : Int) : Int :=
  if w.signed then x.bmod (2 ^ w.bits) else x % (2 ^ w.bits : Nat)

/-- The digits of a number of the type stand for less than this. -/
def limit (w : IntType) : Nat := if w.signed then 2 ^ (w.bits - 1) else 2 ^ w.bits

/-- The value is one of the type. -/
def Contains (w : IntType) (x : Int) : Prop := (if w.signed then -(w.limit : Int) else 0) ≤ x ∧ x < w.limit

/-- `while (data_len > 0 && isspace(*data))`: the remaining length and the position. -/
def skip : Nat → Nat → Probe Nat UInt8 (Nat × Nat)
  | 0, pos => pure (0, pos)
  | n + 1, pos => do
    if isSpace (← Probe.peek pos) then skip n (pos + 1) else pure (n + 1, pos)

/-- The loop over the digits; `none` stands for `return false`. -/
def digits (w : IntType) : Nat → Nat → Int → Probe Nat UInt8 (Option Int)
  | 0, _, ret => pure (some ret)
  | n + 1, pos, ret => do
    let c ← Probe.peek pos
    if isDigit c then
      let temp := w.wrap (ret * 10 + (c.toNat - 48 : Int))
      if temp < ret then pure none else digits w n (pos + 1) temp
    else pure (some ret)

/-- The value stored in `out`, or `none` for false. `data_len--` is done in 32 bits. -/
def parse (w : IntType) (n : Nat) : Probe Nat UInt8 (Option Int) :=
  if n = 0 then pure none
  else do
    let r ← skip n 0
    let c ← Probe.peek r.2
    if c = 45 then
      if w.signed then do
        let ret ← w.digits ((r.1 + (2 ^ 32 - 1)) % 2 ^ 32) (r.2 + 1) 0
        pure (ret.map fun x => w.wrap (-x))
      else pure none
    else if c = 43 then w.digits ((r.1 + (2 ^ 32 - 1)) % 2 ^ 32) (r.2 + 1) 0
    else w.digits r.1 r.2 0

end IntType

/-! ## Numerals -/

/-- The number that decimal digits stand for. -/
def decimalValue (ds : Bytes) : Nat := ds.foldl (fun n d => n * 10 + (d.toNat - 48)) 0

/-- What stands behind the white space. -/
def unblank (bs : Bytes) : Bytes := bs.dropWhile isSpace

/-- There is a sign, and it is a minus. -/
def negative (bs : Bytes) : Bool := (unblank bs).head? == some 45

/-- The maximal run of digits behind the white space and the sign. -/
def digitRun (bs : Bytes) : Bytes :=
  match unblank bs with
  | [] => []
  | c :: rest => if c = 45 ∨ c = 43 then rest.takeWhile isDigit else (c :: rest).takeWhile isDigit

def numeral (bs : Bytes) : Int :=
  if negative bs then -(decimalValue (digitRun bs) : Int) else decimalValue (digitRun bs)

example : numeral [32, 45, 52, 50, 120] = -42 := by decide
example : (IntType.i64.parse 5).result (memOf [32, 45, 52, 50, 120]) = some (-42) := by decide

namespace IntType

/-- Parsing the first `n` bytes of the memory is safe. -/
structure Safe (w : IntType) (mem : Nat → UInt8) (n : Nat) : Prop where
  inside : ∀ i ∈ (w.parse n).looks mem, i < n
  value : ∀ v, (w.parse n).result mem = some v → v = numeral (slice mem 0 n)
  range : ¬ w.Contains (numeral (slice mem 0 n)) → (w.parse n).result mem = none

/-- Some digits have a smaller value modulo 2^w than the digits before the last of them. -/
def Shrinks (w : IntType) (ds : Bytes) : Prop :=
  ∃ k < ds.length, w.wrap (decimalValue (ds.take (k + 1))) < w.wrap (decimalValue (ds.take k))

end IntType

namespace ParsingLemmas

open IntType

variable {w : IntType} {mem : Nat → UInt8} {n pos : Nat} {ret : Int} {l ds : Bytes}

/-! ## The value of digits -/

theorem decimalValue_concat (ds : Bytes) (d : UInt8) :
    decimalValue (ds ++ [d]) = decimalValue ds * 10 + (d.toNat - 48) := by
  rw [decimalValue, List.foldl_append]
  rfl

theorem decimalValue_le_append (ds ds' : Bytes) : decimalValue ds ≤ decimalValue (ds ++ ds') := by
  induction ds' using List.reverseRecOn with
  | nil => rw [List.append_nil]
  | append_singleton ds' d ih =>
    rw [← List.append_assoc, decimalValue_concat]
    omega

theorem decimalValue_take_le (ds : Bytes) (k : Nat) : decimalValue (ds.take k) ≤ decimalValue ds := by
  have h := decimalValue_le_append (ds.take k) (ds.drop k)
  rwa [List.take_append_drop] at h

theorem decimalValue_take_mono (ds : Bytes) (k : Nat) :
    decimalValue (ds.take k) ≤ decimalValue (ds.take (k + 1)) := by
  have h := decimalValue_take_le (ds.take (k + 1)) k
  rwa [List.take_take, Nat.min_eq_left (Nat.le_succ k)] at h

/-! ## Values of a type -/

theorem wrap_step (w : IntType) (x d : Int) : w.wrap (w.wrap x * 10 + d) = w.wrap (x * 10 + d) := by
  unfold wrap
  split
  · rw [← Int.bmod_add_bmod, Int.bmod_mul_bmod, Int.bmod_add_bmod]
  · rw [Int.add_emod, Int.mul_emod, Int.emod_emod, ← Int.mul_emod, ← Int.add_emod]

theorem wrap_of_lt {v : Nat} (h : v < w.limit) : w.wrap v = v := by
  cases w with
  | ui64 | ui32 => exact Int.emod_eq_of_lt (Int.natCast_nonneg v) (Int.ofNat_lt.mpr h)
  | i64 =>
    have hv : v < 2 ^ 63 := h
    simp only [wrap, signed, bits, if_true]
    exact Int.bmod_eq_of_le (by omega) (by omega)
  | i32 =>
    have hv : v < 2 ^ 31 := h
    simp only [wrap, signed, bits, if_true]
    exact Int.bmod_eq_of_le (by omega) (by omega)

/-- The least value beyond the type is negative modulo 2^w if there is a sign. -/
theorem wrap_limit (h : w.signed = true) : w.wrap w.limit < 0 := by
  cases w with
  | i64 | i32 => decide
  | ui64 | ui32 => exact nomatch h

theorem limit_pos (w : IntType) : 0 < w.limit := by cases w <;> decide

theorem contains_iff {v : Nat} : w.Contains v ↔ v < w.limit := by
  have hpos := limit_pos w
  unfold Contains
  constructor
  · exact fun h => Int.ofNat_lt.mp h.2
  · intro h
    refine ⟨?_, Int.ofNat_lt.mpr h⟩
    split <;> omega

/-! ## The bytes -/

theorem slice_succ (mem : Nat → UInt8) (pos n : Nat) :
    slice mem pos (n + 1) = mem pos :: slice mem (pos + 1) n := by
  rw [Nat.add_comm n 1, slice_add]
  rfl

/-- What stands at the start of the memory. -/
theorem slice_memOf (l r : Bytes) : slice (memOf (l ++ r)) 0 l.length = l := by
  refine List.ext_getElem (length_slice _ _ _) fun i h1 h2 => ?_
  simp only [slice, List.getElem_map, List.getElem_range, Nat.zero_add, memOf]
  rw [List.getD_eq_getElem?_getD, List.getElem?_append_left h2, List.getElem?_eq_getElem h2]
  rfl

theorem result_skip (mem : Nat → UInt8) (n pos : Nat) :
    (skip n pos).result mem = skipSpace mem n pos := by
  induction n generalizing pos with
  | zero => rfl
  | succ n ih =>
    rw [skip, Probe.result_bind, Probe.result_peek, Probe.result_ite, ih]
    rfl

/-- The bytes that are left behind the white space. -/
theorem unblank_slice (mem : Nat → UInt8) (n pos : Nat) :
    unblank (slice mem pos n) =
      slice mem (skipSpace mem n pos).2 (skipSpace mem n pos).1 := by
  induction n generalizing pos with
  | zero => rfl
  | succ n ih =>
    rw [slice_succ, unblank, skipSpace]
    cases h : isSpace (mem pos) with
    | true =>
      rw [List.dropWhile_cons_of_pos h, if_pos rfl]
      exact ih (pos + 1)
    | false =>
      rw [List.dropWhile_cons_of_neg (by rw [h]; decide), if_neg (by decide), slice_succ]

theorem looks_skip (mem : Nat → UInt8) (n pos : Nat) :
    ∀ i ∈ (skip n pos).looks mem, i < pos + n := by
  induction n generalizing pos with
  | zero => exact fun i hi => nomatch hi
  | succ n ih =>
    intro i hi
    rw [skip, Probe.looks_bind, Probe.looks_peek, Probe.looks_ite] at hi
    rcases List.mem_append.mp hi with hi | hi
    · rw [List.mem_singleton.mp hi]
      omega
    · split at hi
      · have h := ih (pos + 1) i hi
        omega
      · exact nomatch hi

theorem looks_digits (w : IntType) (mem : Nat → UInt8) (n pos : Nat) (ret : Int) :
    ∀ i ∈ (w.digits n pos ret).looks mem, i < pos + n := by
  induction n generalizing pos ret with
  | zero => exact fun i hi => nomatch hi
  | succ n ih =>
    intro i hi
    rw [digits, Probe.looks_bind, Probe.looks_peek] at hi
    rcases List.mem_append.mp hi with hi | hi
    · rw [List.mem_singleton.mp hi]
      omega
    · rw [Probe.looks_ite] at hi
      split at hi
      · rw [Probe.looks_ite] at hi
        split at hi
        · exact nomatch hi
        · have h := ih (pos + 1) _ i hi
          omega
      · exact nomatch hi

/-! ## The loop over the digits -/

/-- The loop over the bytes themselves. -/
def scan (w : IntType) : Bytes → Int → Option Int
  | [], ret => some ret
  | c :: l, ret =>
    if isDigit c then
      if w.wrap (ret * 10 + (c.toNat - 48 : Int)) < ret then none
      else scan w l (w.wrap (ret * 10 + (c.toNat - 48 : Int)))
    else some ret

theorem result_digits (w : IntType) (mem : Nat → UInt8) (n pos : Nat) (ret : Int) :
    (w.digits n pos ret).result mem = scan w (slice mem pos n) ret := by
  induction n generalizing pos ret with
  | zero => rfl
  | succ n ih =>
    rw [digits, slice_succ, scan, Probe.result_bind, Probe.result_peek, Probe.result_ite,
      Probe.result_ite, ih]
    rfl

theorem toNat_of_digit {c : UInt8} (h : isDigit c = true) : 48 ≤ c.toNat := by
  have h' : 48 ≤ c ∧ c ≤ 57 := by simpa [isDigit] using h
  exact UInt8.le_iff_toNat_le.mp h'.1

theorem not_sign_of_digit {c : UInt8} (h : isDigit c = true) : ¬ (c = 45 ∨ c = 43) := by
  rintro (rfl | rfl) <;> exact nomatch h

theorem not_space_of_digit {c : UInt8} (h : isDigit c = true) : isSpace c = false := by
  have hc := toNat_of_digit h
  simp only [isSpace, Bool.or_eq_false_iff, beq_eq_false_iff_ne, Bool.and_eq_false_iff,
    decide_eq_false_iff_not, UInt8.le_iff_toNat_le]
  refine ⟨fun he => ?_, .inr fun hle => ?_⟩
  · rw [he] at hc
    exact absurd hc (by decide)
  · exact absurd (hc.trans hle) (by decide)

/-- One digit more. -/
theorem wrap_concat {c : UInt8} (h : isDigit c = true) (ds : Bytes) :
    w.wrap (w.wrap (decimalValue ds) * 10 + (c.toNat - 48 : Int)) =
      w.wrap (decimalValue (ds ++ [c])) := by
  have hc := toNat_of_digit h
  rw [wrap_step, decimalValue_concat]
  congr 1
  omega

/-- The loop, after the digits `ds` have been read: it fails exactly if the value shrinks at one
of the digits that follow. -/
theorem scan_eq_none_iff (w : IntType) (l ds : Bytes) :
    scan w l (w.wrap (decimalValue ds)) = none ↔
      ∃ k, ds.length ≤ k ∧ k < (ds ++ l.takeWhile isDigit).length ∧
        w.wrap (decimalValue ((ds ++ l.takeWhile isDigit).take (k + 1))) <
          w.wrap (decimalValue ((ds ++ l.takeWhile isDigit).take k)) := by
  induction l generalizing ds with
  | nil =>
    refine iff_of_false (fun h => nomatch h) ?_
    rintro ⟨k, hle, hlt, -⟩
    rw [List.takeWhile_nil, List.append_nil] at hlt
    omega
  | cons c l ih =>
    rw [scan]
    cases hc : isDigit c with
    | false =>
      rw [if_neg (by decide), List.takeWhile_cons_of_neg (by rw [hc]; decide), List.append_nil]
      refine iff_of_false (fun h => nomatch h) ?_
      rintro ⟨k, hle, hlt, -⟩
      omega
    | true =>
      have hsplit : ds ++ c :: l.takeWhile isDigit = ds ++ [c] ++ l.takeWhile isDigit := by
        rw [List.append_assoc]
        rfl
      have hfront : (ds ++ c :: l.takeWhile isDigit).take ds.length = ds := List.take_left
      have hnext : (ds ++ c :: l.takeWhile isDigit).take (ds.length + 1) = ds ++ [c] := by
        rw [hsplit]
        exact List.take_left' List.length_append
      rw [if_pos rfl, List.takeWhile_cons_of_pos hc, wrap_concat hc]
      split
      · next hlt =>
        refine iff_of_true rfl ⟨ds.length, Nat.le_refl _, ?_, ?_⟩
        · rw [List.length_append, List.length_cons]
          omega
        · rwa [hnext, hfront]
      · next hge =>
        rw [ih (ds ++ [c]), ← hsplit, @List.length_append _ ds [c]]
        constructor
        · rintro ⟨k, hle, hk⟩
          exact ⟨k, Nat.le_of_succ_le hle, hk⟩
        · rintro ⟨k, hle, hlt, hshrink⟩
          refine ⟨k, Nat.lt_of_le_of_ne hle fun he => ?_, hlt, hshrink⟩
          rw [← he, hnext, hfront] at hshrink
          exact hge hshrink

/-- What the loop returns if it does not fail. -/
theorem scan_eq_some (w : IntType) {l ds : Bytes} {v : Int}
    (h : scan w l (w.wrap (decimalValue ds)) = some v) :
    v = w.wrap (decimalValue (ds ++ l.takeWhile isDigit)) := by
  induction l generalizing ds with
  | nil =>
    rw [List.takeWhile_nil, List.append_nil]
    exact (Option.some.inj h).symm
  | cons c l ih =>
    rw [scan] at h
    cases hc : isDigit c with
    | false =>
      rw [hc, if_neg (by decide)] at h
      rw [List.takeWhile_cons_of_neg (by rw [hc]; decide), List.append_nil]
      exact (Option.some.inj h).symm
    | true =>
      rw [hc, if_pos rfl, wrap_concat hc] at h
      split at h
      · exact nomatch h
      · rw [List.takeWhile_cons_of_pos hc, ih h, List.append_assoc]
        rfl

theorem scan_zero (w : IntType) (l : Bytes) :
    (scan w l 0 = none ↔ w.Shrinks (l.takeWhile isDigit)) ∧
      ∀ v, scan w l 0 = some v → v = w.wrap (decimalValue (l.takeWhile isDigit)) := by
  have hzero : w.wrap (decimalValue []) = 0 := wrap_of_lt (limit_pos w)
  have hnone := scan_eq_none_iff w l []
  rw [hzero, List.nil_append] at hnone
  constructor
  · exact hnone.trans (exists_congr fun k => and_iff_right (Nat.zero_le k))
  · intro v hv
    rw [← hzero] at hv
    exact scan_eq_some w hv

/-! ## Overflow -/

theorem not_shrinks_of_lt (h : decimalValue ds < w.limit) : ¬ w.Shrinks ds := by
  rintro ⟨k, -, hlt⟩
  have hle (j : Nat) : decimalValue (ds.take j) < w.limit := (decimalValue_take_le ds j).trans_lt h
  rw [wrap_of_lt (hle _), wrap_of_lt (hle _)] at hlt
  exact absurd (Int.ofNat_lt.mp hlt) (Nat.not_lt.mpr (decimalValue_take_mono ds k))

/-- The value that is one too large for a type with a sign is noticed at its last digit. -/
theorem shrinks_of_limit (hs : w.signed = true) (h : decimalValue ds = w.limit) : w.Shrinks ds := by
  cases ds using List.reverseRecOn with
  | nil =>
    have hpos := limit_pos w
    rw [← h] at hpos
    exact absurd hpos (Nat.lt_irrefl 0)
  | append_singleton ds d =>
    have hpos := limit_pos w
    have hlt : decimalValue ds < w.limit := by
      rw [decimalValue_concat] at h
      omega
    refine ⟨ds.length, by rw [List.length_append]; exact Nat.lt_succ_self _, ?_⟩
    have hall : (ds ++ [d]).take (ds.length + 1) = ds ++ [d] := List.take_of_length_le (by simp)
    rw [hall, List.take_left, h, wrap_of_lt hlt]
    exact Int.lt_of_lt_of_le (wrap_limit hs) (Int.natCast_nonneg _)

theorem wrap_neg_of_lt {v : Nat} (hs : w.signed = true) (h : v < w.limit) : w.wrap (-v) = -v := by
  cases w with
  | i64 =>
    have hv : v < 2 ^ 63 := h
    simp only [wrap, signed, bits, if_true]
    exact Int.bmod_eq_of_le (by omega) (by omega)
  | i32 =>
    have hv : v < 2 ^ 31 := h
    simp only [wrap, signed, bits, if_true]
    exact Int.bmod_eq_of_le (by omega) (by omega)
  | ui64 | ui32 => exact nomatch hs

theorem le_of_contains_neg {v : Nat} (h : w.Contains (-v)) : v ≤ w.limit := by
  have hpos := limit_pos w
  have hle := h.1
  split at hle <;> omega

/-! ## The whole function -/

/-- What the function makes of the bytes behind the white space. -/
def parsed (w : IntType) (c : UInt8) (rest : Bytes) : Option Int :=
  if c = 45 then if w.signed then (scan w rest 0).map fun x => w.wrap (-x) else none
  else if c = 43 then scan w rest 0
  else scan w (c :: rest) 0

section Bytes

variable {c : UInt8} {rest : Bytes}

/-- The position of the first byte that is not white space. -/
theorem skipped (hb : unblank (slice mem 0 n) = c :: rest) :
    mem (skipSpace mem n 0).2 = c ∧ (skipSpace mem n 0).1 = rest.length + 1 ∧
      slice mem ((skipSpace mem n 0).2 + 1) rest.length = rest ∧
      (skipSpace mem n 0).2 + rest.length + 1 = n := by
  have hadd := skipSpace_add mem n 0
  rw [unblank_slice] at hb
  generalize skipSpace mem n 0 = r at hadd hb
  obtain ⟨m, pos⟩ := r
  have hlen : m = rest.length + 1 := by
    have h := congrArg List.length hb
    rwa [length_slice] at h
  subst hlen
  rw [slice_succ] at hb
  obtain ⟨rfl, hrest⟩ := List.cons.inj hb
  exact ⟨rfl, rfl, hrest, by simp only at hadd; omega⟩

theorem length_less (hb : unblank (slice mem 0 n) = c :: rest) (hn : n < 2 ^ 32) :
    ((skipSpace mem n 0).1 + (2 ^ 32 - 1)) % 2 ^ 32 = rest.length := by
  obtain ⟨-, hlen, -, hadd⟩ := skipped hb
  rw [hlen]
  omega

theorem result_parse (hb : unblank (slice mem 0 n) = c :: rest) (hn : n < 2 ^ 32) :
    (w.parse n).result mem = parsed w c rest := by
  obtain ⟨hc, hlen, hrest, hadd⟩ := skipped hb
  have hless := length_less hb hn
  have hall : slice mem (skipSpace mem n 0).2 (skipSpace mem n 0).1 = c :: rest :=
    (unblank_slice mem n 0).symm.trans hb
  unfold parse parsed
  rw [if_neg (by omega : ¬ n = 0), Probe.result_bind, result_skip, Probe.result_bind,
    Probe.result_peek, hc, Probe.result_ite, Probe.result_ite, Probe.result_ite, Probe.result_bind,
    result_digits, result_digits, hless, hrest, hall]
  rfl

theorem looks_parse (hb : unblank (slice mem 0 n) = c :: rest) (hn : n < 2 ^ 32) :
    ∀ i ∈ (w.parse n).looks mem, i < n := by
  obtain ⟨hc, hlen, hrest, hadd⟩ := skipped hb
  have hless := length_less hb hn
  intro i hi
  unfold parse at hi
  rw [if_neg (by omega : ¬ n = 0), Probe.looks_bind, result_skip, Probe.looks_bind,
    Probe.looks_peek, Probe.result_peek, hless] at hi
  have hrun {m pos : Nat} (hm : pos + m ≤ n) (h : i ∈ (w.digits m pos 0).looks mem) : i < n :=
    (looks_digits w mem m pos 0 i h).trans_le hm
  rcases List.mem_append.mp hi with hi | hi
  · have h := looks_skip mem n 0 i hi
    omega
  · rcases List.mem_append.mp hi with hi | hi
    · rw [List.mem_singleton.mp hi]
      omega
    · rw [Probe.looks_ite, Probe.looks_ite, Probe.looks_ite, Probe.looks_bind, Probe.looks_pure,
        List.append_nil] at hi
      split at hi
      · split at hi
        · exact hrun (by omega) hi
        · exact nomatch hi
      · split at hi
        · exact hrun (by omega) hi
        · exact hrun (by omega) hi

/-- Nothing but white space: the byte behind is looked at. -/
theorem looks_blank (hb : unblank (slice mem 0 n) = []) (hn : n ≠ 0) :
    n ∈ (w.parse n).looks mem := by
  have hadd := skipSpace_add mem n 0
  rw [unblank_slice] at hb
  have hlen : (skipSpace mem n 0).1 = 0 := by
    have h := congrArg List.length hb
    rwa [length_slice] at h
  have hpos : (skipSpace mem n 0).2 = n := by omega
  unfold parse
  rw [if_neg hn, Probe.looks_bind, result_skip, Probe.looks_bind, Probe.looks_peek, hpos]
  exact List.mem_append_right _ (List.mem_append_left _ (List.mem_singleton_self n))

theorem unblank_eq_nil_iff : unblank (slice mem 0 n) = [] ↔ ∀ i < n, isSpace (mem i) = true := by
  rw [unblank, List.dropWhile_eq_nil_iff]
  constructor
  · intro h i hi
    refine h (mem i) (List.mem_map.mpr ⟨i, List.mem_range.mpr hi, ?_⟩)
    rw [Nat.zero_add]
  · intro h b hb
    obtain ⟨i, hi, rfl⟩ := List.mem_map.mp hb
    rw [Nat.zero_add]
    exact h i (List.mem_range.mp hi)

section Parsed

variable {bs : Bytes}

theorem negative_cons (hb : unblank bs = c :: rest) : negative bs = true ↔ c = 45 := by
  rw [negative, hb, List.head?_cons, beq_iff_eq, Option.some.injEq]

theorem digitRun_cons (hb : unblank bs = c :: rest) : digitRun bs =
    if c = 45 ∨ c = 43 then rest.takeWhile isDigit else (c :: rest).takeWhile isDigit := by
  rw [digitRun, hb]

/-- Unless a type without a sign meets a minus, the function fails exactly if the value of the
digits shrinks, and else it returns that value modulo 2^w. -/
theorem parsed_spec (hb : unblank bs = c :: rest) (hsign : w.signed = true ∨ negative bs = false) :
    (parsed w c rest = none ↔ w.Shrinks (digitRun bs)) ∧
      ∀ v, parsed w c rest = some v → v = if negative bs then
        w.wrap (-w.wrap (decimalValue (digitRun bs))) else w.wrap (decimalValue (digitRun bs)) := by
  have hneg := negative_cons hb
  rw [digitRun_cons hb]
  unfold parsed
  by_cases hminus : c = 45
  · have hnegative := hneg.mpr hminus
    have hs : w.signed = true := hsign.resolve_right (by rw [hnegative]; decide)
    obtain ⟨hnone, hsome⟩ := scan_zero w rest
    rw [if_pos hminus, if_pos (Or.inl hminus), if_pos hs, hnegative, if_pos rfl,
      Option.map_eq_none_iff]
    refine ⟨hnone, fun v hv => ?_⟩
    obtain ⟨x, hx, rfl⟩ := Option.map_eq_some_iff.mp hv
    rw [hsome x hx]
  · have hpositive : negative bs = false := Bool.eq_false_iff.mpr fun h => hminus (hneg.mp h)
    rw [if_neg hminus, hpositive]
    by_cases hplus : c = 43
    · rw [if_pos hplus, if_pos (Or.inr hplus)]
      exact scan_zero w rest
    · rw [if_neg hplus, if_neg fun h => h.elim hminus hplus]
      exact scan_zero w (c :: rest)

/-- Within the type nothing is lost. -/
theorem numeral_of_lt (hsign : w.signed = true ∨ negative bs = false)
    (h : decimalValue (digitRun bs) < w.limit) :
    (if negative bs then w.wrap (-w.wrap (decimalValue (digitRun bs)))
      else w.wrap (decimalValue (digitRun bs))) = numeral bs := by
  rw [numeral, wrap_of_lt h]
  cases hn : negative bs with
  | false => rfl
  | true =>
    rw [if_pos rfl, if_pos rfl, wrap_neg_of_lt (hsign.resolve_right (by rw [hn]; decide)) h]

theorem contains_of_lt (hsign : w.signed = true ∨ negative bs = false)
    (h : decimalValue (digitRun bs) < w.limit) : w.Contains (numeral bs) := by
  rw [numeral]
  cases hn : negative bs with
  | false => exact contains_iff.mpr h
  | true =>
    rw [if_pos rfl, Contains, if_pos (hsign.resolve_right (by rw [hn]; decide))]
    omega

/-- A numeral of the type has digits within the type, or its digits shrink. -/
theorem lt_of_contains (hsign : w.signed = true ∨ negative bs = false)
    (h : w.Contains (numeral bs)) :
    decimalValue (digitRun bs) < w.limit ∨ w.Shrinks (digitRun bs) := by
  rw [numeral] at h
  cases hn : negative bs with
  | false =>
    rw [hn, if_neg (by decide)] at h
    exact .inl (contains_iff.mp h)
  | true =>
    rw [hn, if_pos rfl] at h
    have hs := hsign.resolve_right (by rw [hn]; decide)
    rcases Nat.lt_or_eq_of_le (le_of_contains_neg h) with hlt | heq
    · exact .inl hlt
    · exact .inr (shrinks_of_limit hs heq)

end Parsed
end Bytes
end ParsingLemmas

open ParsingLemmas IntType

/-- Parsing is safe exactly when the bytes are not white space only, and their digits are within
the type or an overflow is noticed. A type without a sign refuses a minus at once. -/
theorem safe_iff (w : IntType) (mem : Nat → UInt8) (n : UInt32) :
    let bs := slice mem 0 n.toNat
    w.Safe mem n.toNat ↔ (n = 0 ∨ ∃ i < n.toNat, isSpace (mem i) = false) ∧
      ((w.signed = false ∧ negative bs = true) ∨ decimalValue (digitRun bs) < w.limit ∨
        w.Shrinks (digitRun bs)) := by
  intro bs
  have hn : n.toNat < 2 ^ 32 := n.toNat_lt
  cases hb : unblank bs with
  | nil =>
    have hblank := unblank_eq_nil_iff.mp hb
    have hnonblank : ¬ ∃ i < n.toNat, isSpace (mem i) = false := by
      rintro ⟨i, hi, hfalse⟩
      rw [hblank i hi] at hfalse
      exact nomatch hfalse
    by_cases h0 : n = 0
    · have hdigits : decimalValue (digitRun bs) < w.limit := by
        rw [digitRun, hb]
        exact limit_pos w
      refine iff_of_true ?_ ⟨.inl h0, .inr (.inl hdigits)⟩
      subst h0
      exact ⟨(fun i hi => nomatch hi), (fun v hv => nomatch hv), fun _ => rfl⟩
    · refine iff_of_false (fun h => ?_) fun h => h.1.elim h0 hnonblank
      have h0' : n.toNat ≠ 0 := fun h => h0 (UInt32.toNat_inj.mp h)
      exact Nat.lt_irrefl _ (h.inside _ (looks_blank hb h0'))
  | cons c rest =>
    have hnonblank : ∃ i < n.toNat, isSpace (mem i) = false := by
      by_contra h
      refine List.cons_ne_nil c rest (hb.symm.trans (unblank_eq_nil_iff.mpr fun i hi => ?_))
      exact Bool.of_not_eq_false fun hs => h ⟨i, hi, hs⟩
    have hresult : (w.parse n.toNat).result mem = parsed w c rest := result_parse hb hn
    rw [and_iff_right (Or.inr hnonblank)]
    by_cases hrefused : w.signed = false ∧ negative bs = true
    · have hnone : parsed w c rest = none := by
        rw [parsed, if_pos ((negative_cons hb).mp hrefused.2), if_neg (by rw [hrefused.1]; decide)]
      refine iff_of_true ⟨looks_parse hb hn, fun v hv => ?_, fun _ => hresult.trans hnone⟩
        (.inl hrefused)
      rw [hresult, hnone] at hv
      exact nomatch hv
    · have hsign : w.signed = true ∨ negative bs = false := by
        cases hs : w.signed with
        | true => exact .inl rfl
        | false => exact .inr (Bool.eq_false_iff.mpr fun hneg => hrefused ⟨hs, hneg⟩)
      obtain ⟨hnone, hsome⟩ := parsed_spec hb hsign
      rw [or_iff_right hrefused]
      constructor
      · intro h
        by_cases hin : w.Contains (numeral bs)
        · exact lt_of_contains hsign hin
        · exact .inr (hnone.mp (hresult ▸ h.range hin))
      · intro h
        refine ⟨looks_parse hb hn, fun v hv => ?_, fun hout => ?_⟩
        · rw [hresult] at hv
          rcases h with hlt | hshrinks
          · rw [hsome v hv, numeral_of_lt hsign hlt]
          · rw [hnone.mpr hshrinks] at hv
            exact nomatch hv
        · rcases h with hlt | hshrinks
          · exact absurd (contains_of_lt hsign hlt) hout
          · exact hresult.trans (hnone.mpr hshrinks)

/-- A number that is given back wrong: 5000000000 in 32 bits. -/
theorem not_safe_overflow : ¬ IntType.ui32.Safe (memOf (Http.ascii "5000000000")) 10 := by
  intro h
  have hvalue := h.value 705032704 (by decide +kernel)
  exact absurd hvalue (by decide +kernel)

/-! ## The functions of the model -/

/-- A numeral whose digits are within the type is returned. -/
theorem parse_of_lt {w : IntType} {mem : Nat → UInt8} {n : Nat} (hn : n < 2 ^ 32)
    (hb : unblank (slice mem 0 n) ≠ [])
    (hsign : w.signed = true ∨ negative (slice mem 0 n) = false)
    (h : decimalValue (digitRun (slice mem 0 n)) < w.limit) :
    (w.parse n).result mem = some (numeral (slice mem 0 n)) := by
  obtain ⟨c, rest, hb⟩ := List.exists_cons_of_ne_nil hb
  obtain ⟨hnone, hsome⟩ := parsed_spec hb hsign
  rw [result_parse hb hn]
  cases hp : parsed w c rest with
  | none => exact absurd (hnone.mp hp) (not_shrinks_of_lt h)
  | some v => rw [hsome v hp, numeral_of_lt hsign h]

theorem safeToi64_eq (mem : Nat → UInt8) (n : Nat) : safeToi64 mem n = (i64.parse n).result mem := by
  have hsigned : i64.signed = true := rfl
  have hloop (m pos : Nat) (ret : Int) :
      (i64.digits m pos ret).result mem = digitLoop mem m pos ret := by
    induction m generalizing pos ret with
    | zero => rfl
    | succ m ih =>
      rw [digits, digitLoop, Probe.result_bind, Probe.result_peek, Probe.result_ite,
        Probe.result_ite, ih]
      rfl
  unfold safeToi64 parse
  split
  · rfl
  · rw [Probe.result_bind, result_skip, Probe.result_bind, Probe.result_peek, Probe.result_ite,
      Probe.result_ite, Probe.result_bind, Probe.result_pure,
      hloop, hloop]
    obtain ⟨m, pos⟩ := skipSpace mem n 0
    rfl

theorem digits_unsigned {w : IntType} (hs : w.signed = false) (mem : Nat → UInt8) (m pos ret : Nat) :
    (w.digits m pos (Int.ofNat ret)).result mem =
      (Http.digitLoopU w.bits mem m pos ret).map Int.ofNat := by
  have hstep {c : UInt8} (hc : isDigit c = true) (ret : Nat) :
      w.wrap (Int.ofNat ret * 10 + (c.toNat - 48 : Int)) =
        Int.ofNat ((ret * 10 + (c.toNat - 48)) % 2 ^ w.bits) := by
    have h48 := toNat_of_digit hc
    have hsum : Int.ofNat ret * 10 + (c.toNat - 48 : Int) =
        Int.ofNat (ret * 10 + (c.toNat - 48)) := by
      simp only [Int.ofNat_eq_natCast]
      omega
    rw [hsum, wrap, if_neg (by rw [hs]; decide)]
    rfl
  induction m generalizing pos ret with
  | zero => rfl
  | succ m ih =>
    rw [digits, Http.digitLoopU, Probe.result_bind, Probe.result_peek, Probe.result_ite]
    by_cases hc : isDigit (mem pos) = true
    · rw [if_pos hc, if_pos hc, hstep hc, Probe.result_ite, ih]
      simp only [Int.ofNat_eq_natCast, Int.ofNat_lt]
      split
      · rfl
      · rfl
    · rw [if_neg hc, if_neg hc]
      rfl

theorem safeToui_eq {w : IntType} (hs : w.signed = false) (t : Http.Text) :
    (w.parse t.length).result (memOf t.mem) = (Http.safeToui w.bits t).map Int.ofNat := by
  have hunsigned : ¬ w.signed = true := by
    rw [hs]
    decide
  have hzero : (0 : Int) = Int.ofNat 0 := rfl
  unfold Http.safeToui parse
  split
  · rfl
  · rw [Probe.result_bind, result_skip, Probe.result_bind, Probe.result_peek, Probe.result_ite,
      Probe.result_ite, Probe.result_pure, hzero, digits_unsigned hs,
      digits_unsigned hs]
    dsimp only
    rw [apply_ite (Option.map Int.ofNat), apply_ite (Option.map Int.ofNat), Option.map_none]

/-- Without a sign the length does not matter. -/
theorem result_parse_digit {w : IntType} {mem : Nat → UInt8} {n : Nat} {c : UInt8} {rest : Bytes}
    (hb : unblank (slice mem 0 n) = c :: rest) (hc : isDigit c = true) :
    (w.parse n).result mem = scan w (c :: rest) 0 := by
  obtain ⟨hfirst, -, -, hadd⟩ := skipped hb
  have hall : slice mem (skipSpace mem n 0).2 (skipSpace mem n 0).1 = c :: rest :=
    (unblank_slice mem n 0).symm.trans hb
  obtain ⟨hminus, hplus⟩ := not_or.mp (not_sign_of_digit hc)
  unfold parse
  rw [if_neg (by omega : ¬ n = 0), Probe.result_bind, result_skip, Probe.result_bind,
    Probe.result_peek, hfirst, Probe.result_ite, Probe.result_ite, if_neg hminus, if_neg hplus,
    result_digits, hall]

/-- Nothing but white space, and no sign behind it. -/
theorem result_parse_blank {w : IntType} {mem : Nat → UInt8} {n : Nat}
    (hb : unblank (slice mem 0 n) = []) (hn : n ≠ 0) (hsign : ¬ (mem n = 45 ∨ mem n = 43)) :
    (w.parse n).result mem = some 0 := by
  have hadd := skipSpace_add mem n 0
  rw [unblank_slice] at hb
  have hlen : (skipSpace mem n 0).1 = 0 := by
    have h := congrArg List.length hb
    rwa [length_slice] at h
  have hpos : (skipSpace mem n 0).2 = n := by omega
  obtain ⟨hminus, hplus⟩ := not_or.mp hsign
  unfold parse
  rw [if_neg hn, Probe.result_bind, result_skip, Probe.result_bind, Probe.result_peek, hpos,
    Probe.result_ite, Probe.result_ite, if_neg hminus, if_neg hplus, hlen]
  rfl

/-- What stands behind the bytes does not matter, unless it is a sign. -/
theorem result_parse_append {w : IntType} {bs r r' : Bytes} {c c' : UInt8} (hlen : bs.length < 2 ^ 32)
    (hc : ¬ (c = 45 ∨ c = 43)) (hc' : ¬ (c' = 45 ∨ c' = 43)) :
    (w.parse bs.length).result (memOf (bs ++ c :: r)) =
      (w.parse bs.length).result (memOf (bs ++ c' :: r')) := by
  have hbehind (c : UInt8) (r : Bytes) : memOf (bs ++ c :: r) bs.length = c := by
    rw [memOf, List.getD_eq_getElem?_getD, List.getElem?_append_right (Nat.le_refl _), Nat.sub_self]
    rfl
  have hslice (r : Bytes) := slice_memOf bs r
  cases hb : unblank bs with
  | nil =>
    cases bs with
    | nil => rfl
    | cons d bs =>
      have hne : (d :: bs).length ≠ 0 := Nat.succ_ne_zero _
      rw [result_parse_blank ((congrArg unblank (hslice _)).trans hb) hne (by rwa [hbehind]),
        result_parse_blank ((congrArg unblank (hslice _)).trans hb) hne (by rwa [hbehind])]
  | cons d rest =>
    rw [result_parse ((congrArg unblank (hslice _)).trans hb) hlen,
      result_parse ((congrArg unblank (hslice _)).trans hb) hlen]

/-- A number with white space around it. -/
theorem safeToui_copy {w : IntType} (hs : w.signed = false) {a ds b : Bytes}
    (ha : ∀ c ∈ a, isSpace c = true) (hne : ds ≠ []) (hds : ∀ d ∈ ds, isDigit d = true)
    (hb : ∀ c ∈ b, isSpace c = true) (h : decimalValue ds < w.limit) :
    Http.safeToui w.bits (.copy (a ++ (ds ++ b))) = some (decimalValue ds) := by
  obtain ⟨d, ds', rfl⟩ := List.exists_cons_of_ne_nil hne
  have hd : isDigit d = true := hds d List.mem_cons_self
  have hrun : ((d :: ds') ++ b).takeWhile isDigit = d :: ds' := by
    rw [List.takeWhile_append_of_pos hds]
    cases b with
    | nil => rw [List.takeWhile_nil, List.append_nil]
    | cons c b =>
      have hc : ¬ isDigit c = true := fun hc =>
        absurd (hb c List.mem_cons_self) (by rw [not_space_of_digit hc]; decide)
      rw [List.takeWhile_cons_of_neg hc, List.append_nil]
  have hslice : slice (memOf ((a ++ ((d :: ds') ++ b)) ++ [0])) 0 (a ++ ((d :: ds') ++ b)).length =
      a ++ ((d :: ds') ++ b) := slice_memOf _ _
  have hunblank : unblank (a ++ ((d :: ds') ++ b)) = d :: (ds' ++ b) := by
    rw [unblank, List.dropWhile_append_of_pos ha, List.cons_append,
      List.dropWhile_cons_of_neg (by rw [not_space_of_digit hd]; decide)]
  have hparse := result_parse_digit (w := w) (by rw [hslice, hunblank]) hd
  obtain ⟨hnone, hsome⟩ := scan_zero w (d :: (ds' ++ b))
  rw [← List.cons_append, hrun] at hnone hsome
  have heq := safeToui_eq hs (.copy (a ++ ((d :: ds') ++ b)))
  rw [Http.Text.copy] at heq
  rw [hparse] at heq
  cases hscan : scan w ((d :: ds') ++ b) 0 with
  | none => exact absurd (hnone.mp hscan) (not_shrinks_of_lt h)
  | some v =>
    rw [List.cons_append] at hscan
    rw [hscan, hsome v hscan, wrap_of_lt h] at heq
    obtain ⟨n, hn, hv⟩ := Option.map_eq_some_iff.mp heq.symm
    rw [Http.Text.copy, hn, Int.ofNat.inj hv]

end Xixi
