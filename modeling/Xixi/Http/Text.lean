import Mathlib.Data.List.TakeWhile
import Xixi.Decimal
import Xixi.Lib.Lines

/-!
# Texts in memory (`util.cpp`, `string.h`)

The parser of `Peer_Http` works on pointers. A pointer is modelled by what stands in memory from
there to the end of the buffer, the terminator included.

1. `memfind`, `memchr`, `strstr`, `strrchr`, `strcasecmp`: the searches and comparisons.
   `strstr_eq_found`: what is found.
2. `safeToui`: `safe_toui32` and `safe_toui64`.
3. `decodeUri`, `getSuffix`.
-/

namespace Xixi.Http
open Lib

def ascii (s : String) : Bytes := s.toUTF8.data.toList

/-- `memfind`: what stands before the first occurrence of `sub`, and behind it. -/
def memfind (data sub : Bytes) : Option (Bytes × Bytes) := cut sub data

/-- `memchr`: what stands before the first `c`, and behind it. -/
def memchr (data : Bytes) (c : UInt8) : Option (Bytes × Bytes) := cut [c] data

/-- The bytes up to the terminator. -/
def cString (mem : Bytes) : Bytes := mem.takeWhile (· ≠ 0)

/-- `strstr(mem, sub)`, as the memory from the occurrence on. A pointer that has left the buffer
must not be followed: then there is no result at all. -/
def strstr (mem sub : Bytes) : Option (Option Bytes) :=
  if mem = [] then none
  else some ((cut sub (cString mem)).map fun r => mem.drop r.1.length)

/-- `strrchr(s, c)`: what stands before the last `c`, and behind it. -/
def strrchr (s : Bytes) (c : UInt8) : Option (Bytes × Bytes) :=
  (cut [c] s.reverse).map fun r => (r.2.reverse, r.1.reverse)

def toUpper (c : UInt8) : UInt8 := if 97 ≤ c && c ≤ 122 then c - 32 else c

/-- `strcasecmp(a, b, length) == 0` for texts of this length. -/
def strcasecmp (a b : Bytes) : Bool := a.map toUpper == b.map toUpper

/-- A pointer, and the length that goes with it. -/
structure Text where
  mem : Bytes
  length : Nat
deriving DecidableEq, Repr

namespace Text

def null : Text := ⟨[], 0⟩

/-- A copy with a terminator. -/
def copy (b : Bytes) : Text := ⟨b ++ [0], b.length⟩

def bytes (t : Text) : Bytes := t.mem.take t.length

/-- The length does not lead out of the buffer. -/
def Inside (t : Text) : Prop := t.length ≤ t.mem.length

instance (t : Text) : Decidable t.Inside := inferInstanceAs (Decidable (_ ≤ _))

end Text

namespace TextLemmas

variable {x mem sub a z r : Bytes}

theorem cString_eq (h : 0 ∉ x) : cString x = x := by
  refine List.takeWhile_eq_self_iff.mpr fun c hc => ?_
  rw [decide_eq_true_iff]
  rintro rfl
  exact h hc

/-- The terminator is not part of it. -/
theorem zero_notMem_cString (x : Bytes) : 0 ∉ cString x := fun h => by
  have h0 := List.mem_takeWhile_imp h
  exact absurd h0 (by decide)

theorem cString_append_of_notMem (h : 0 ∉ a) (z : Bytes) : cString (a ++ z) = a ++ cString z := by
  refine List.takeWhile_append_of_pos fun c hc => ?_
  rw [decide_eq_true_iff]
  rintro rfl
  exact h hc

theorem cString_append_of_mem (h : 0 ∈ a) (z : Bytes) : cString (a ++ z) = cString a := by
  obtain ⟨s, t, rfl, hs⟩ := List.eq_append_cons_of_mem h
  rw [List.append_assoc, cString_append_of_notMem hs, cString_append_of_notMem hs]
  rfl

/-- The terminator ends no other text. -/
theorem cString_concat (x : Bytes) : cString (x ++ [0]) = cString x := by
  cases h : decide (0 ∈ x) with
  | true => exact cString_append_of_mem (of_decide_eq_true h) [0]
  | false =>
    have hx : 0 ∉ x := of_decide_eq_false h
    rw [cString_append_of_notMem hx, cString_eq hx]
    exact List.append_nil x

/-- Behind the text stands nothing, or the terminator. -/
theorem cString_rest (mem : Bytes) :
    ∃ rest, mem = cString mem ++ rest ∧ (rest = [] ∨ rest.head? = some 0) := by
  induction mem with
  | nil => exact ⟨[], rfl, .inl rfl⟩
  | cons c mem ih =>
    cases hc : decide (c ≠ 0) with
    | false =>
      obtain rfl : c = 0 := of_not_not (of_decide_eq_false hc)
      exact ⟨0 :: mem, rfl, .inr rfl⟩
    | true =>
      obtain ⟨rest, hmem, hrest⟩ := ih
      refine ⟨rest, ?_, hrest⟩
      rw [cString, List.takeWhile_cons, if_pos hc, ← cString, List.cons_append, ← hmem]

theorem strstr_eq_none : strstr mem sub = none ↔ mem = [] := by
  unfold strstr
  split
  · next h => exact iff_of_true rfl h
  · next h => exact iff_of_false nofun h

theorem strstr_eq_not_found : strstr mem sub = some none ↔ mem ≠ [] ∧ ¬ sub <:+: cString mem := by
  unfold strstr
  split
  · next h => exact iff_of_false nofun fun h' => h'.1 h
  · next h =>
    rw [and_iff_right h, Option.some.injEq, Option.map_eq_none_iff, cut_eq_none_iff]

theorem strstr_eq_found (h0 : 0 ∉ sub) (hne : sub ≠ []) : strstr mem sub = some (some r) ↔
    ∃ a z, mem = a ++ (sub ++ z) ∧ r = sub ++ z ∧ 0 ∉ a ∧ First sub a := by
  unfold strstr
  constructor
  · intro h
    split at h
    · cases h
    · obtain ⟨⟨a, b⟩, hcut, rfl⟩ := Option.map_eq_some_iff.mp (Option.some.inj h)
      obtain ⟨htext, hfirst⟩ := cut_eq_some_iff.mp hcut
      obtain ⟨rest, hmem, -⟩ := cString_rest mem
      rw [htext, List.append_assoc, List.append_assoc] at hmem
      refine ⟨a, b ++ rest, hmem, ?_, fun ha => ?_, hfirst⟩
      · rw [hmem, List.drop_left]
      · refine zero_notMem_cString mem ?_
        rw [htext]
        exact List.mem_append_left _ ha
  · rintro ⟨a, z, rfl, rfl, ha, hfirst⟩
    have hmem : a ++ (sub ++ z) ≠ [] := by
      intro h
      exact hne (List.append_eq_nil_iff.mp (List.append_eq_nil_iff.mp h).2).1
    rw [if_neg hmem, cString_append_of_notMem ha, cString_append_of_notMem h0, cut_of_first hfirst,
      Option.map_some, List.drop_left]

end TextLemmas

/-! ## Numbers -/

/-- The digit loop for unsigned numbers of `width` bits; `none` stands for `return false`. -/
def digitLoopU (width : Nat) (mem : Nat → UInt8) : Nat → Nat → Nat → Option Nat
  | 0, _, ret => some ret
  | n + 1, pos, ret =>
    if isDigit (mem pos) then
      let temp := (ret * 10 + ((mem pos).toNat - 48)) % 2 ^ width
      if temp < ret then none else digitLoopU width mem n (pos + 1) temp
    else some ret

/-- `safe_toui32` and `safe_toui64`: the value stored in `out`, or `none` for false. The byte
behind white space is looked at whatever the length, as in `safe_toi64`. -/
def safeToui (width : Nat) (t : Text) : Option Nat :=
  let mem := memOf t.mem
  if t.length = 0 then none
  else
    let (n, pos) := skipSpace mem t.length 0
    if mem pos = 45 then none
    else if mem pos = 43 then digitLoopU width mem ((n + (2 ^ 32 - 1)) % 2 ^ 32) (pos + 1) 0
    else digitLoopU width mem n pos 0

/-! ## Uris and file names -/

/-- The digit of `decode_uri`: what is not one of `0`..`9` and `a`..`f` counts from `A`. -/
def hexDigit (c : UInt8) : UInt8 :=
  if 48 ≤ c && c ≤ 57 then c - 48
  else if 97 ≤ c && c ≤ 102 then c - 97 + 10
  else c - 65 + 10

def decodeUri : Bytes → Bytes
  | [] => []
  | 0 :: _ => []
  | 43 :: u => 32 :: decodeUri u
  | 37 :: c1 :: c2 :: u => ((hexDigit c1 <<< 4) + (hexDigit c2 &&& 15)) :: decodeUri u
  | c :: u => c :: decodeUri u

/-- `get_suffix`: the last ten bytes are looked at. -/
def getSuffix (key : Bytes) : Option Bytes :=
  (cut [46] (key.reverse.take 10)).map fun r => r.1.reverse

example : decodeUri (ascii "a+b%2fc%4") = ascii "a b/c%4" := by decide +kernel
example : getSuffix (ascii "/index.html") = some (ascii "html") := by decide +kernel
example : safeToui 32 (.copy (ascii " +12x")) = some 12 := by decide +kernel

end Xixi.Http
