import Mathlib.Data.List.Infix
import Xixi.Http.Arguments
import Xixi.Http.Machine

/-!
# Forms (`Peer_Http::process_post`)

A form is a list of parts with a boundary in front of each. A part has a name between quotes, perhaps
a content type, and a value behind an empty line. The parser looks for a name, a content type and an
empty line up to the next zero byte, whatever part they are in, and for a boundary up to the end of
the body.

1. `Part`, `body`: the well-formed bodies.
2. `findPart`: an iteration of the parser. `processParts_succ`: the parser is made of these.
3. `Decoded`: the fields hold what the parts say.
4. `InStep`, `TypesFound`: every part is found, and the content type is the one of the value.
-/

namespace Xixi.Http
open Lib

def nameIs : Bytes := ascii " name=\""

def typeIs : Bytes := ascii "\r\nContent-Type:"

def dashes : Bytes := ascii "--"

/-- Text within a line of a header. -/
def Plain (x : Bytes) : Prop := 0 ∉ x ∧ 13 ∉ x

instance (x : Bytes) : Decidable (Plain x) := inferInstanceAs (Decidable (_ ∧ _))

/-- The boundary of a form; none of its characters ends a line. -/
structure Boundary where
  bytes : Bytes
  nonempty : bytes ≠ []
  plain : Plain bytes
  oneLine : 10 ∉ bytes

/-- A part of a form. `parameters` stands behind the name, as `; filename="a.txt"` does. -/
structure Part (b : Boundary) where
  name : Bytes
  parameters : Bytes
  contentType : Option Bytes
  value : Bytes
  name_plain : Plain name ∧ 34 ∉ name
  parameters_plain : Plain parameters
  contentType_plain : ∀ t ∈ contentType, Plain t ∧ t.head? ≠ some 32
  value_free : ¬ b.bytes <:+: value

variable {b : Boundary}

namespace Part

def typeLine (q : Part b) : Bytes := q.contentType.elim [] fun t => typeIs ++ 32 :: t

/-- What stands behind the name. -/
def rest (q : Part b) (next : Bytes) : Bytes :=
  q.parameters ++ (q.typeLine ++ (crlf ++ (crlf ++ (q.value ++ (crlf ++ next)))))

end Part

/-- What stands behind the first boundary. -/
def behind (ending : Bytes) : List (Part b) → Bytes
  | [] => dashes ++ ending
  | q :: qs =>
    crlf ++ (ascii "Content-Disposition: form-data;" ++ (nameIs ++ (q.name ++
      34 :: q.rest (dashes ++ (b.bytes ++ behind ending qs)))))

/-- A body: the parts with a boundary in front of each, and a last boundary. -/
def body (ending : Bytes) (parts : List (Part b)) : Bytes :=
  dashes ++ (b.bytes ++ behind ending parts)

/-! ## An iteration -/

/-- An iteration of the loop of `process_post` up to the search for the next boundary: the memory
from the name on, the length of the name, and the memory from the value on. Without a name the loop
ends. -/
def findPart (boundary buf : Bytes) : Option (Option (Bytes × Nat × Bytes)) := do
  match ← strstr (buf.drop (boundary.length + 2)) nameIs with
  | none => some none
  | some part =>
    let name := part.drop 7
    let nameLength := ((← strstr name (ascii "\"")).map fun r => name.length - r.length).getD 0
    match ← strstr (name.drop 2) (crlf ++ crlf) with
    | none => none
    | some value => some (some (name, nameLength, value.drop 4))

/-- The length of the name that the memory starts with. -/
def nameLength (name : Bytes) : Nat := ((cut [34] (cString name)).map fun r => r.1.length).getD 0

/-- The text between the spaces behind the first `Content-Type:` and the end of its line, before the
next zero byte. -/
def typeBehind (mem : Bytes) : Option Bytes :=
  (cut typeIs (cString mem)).bind fun r => (cut crlf (r.2.dropWhile (· = 32))).map Prod.fst

/-- The same if it is short enough. -/
def takenType (mem : Bytes) : Option Bytes := (typeBehind mem).filter (·.length < 128)

/-- The text of a value: `(uint32_t)(buf - value) - 4` for the next boundary at `v`. -/
def valueText (value v : Bytes) : Text := ⟨value, (v.length + (2 ^ 32 - 4)) % 2 ^ 32⟩

namespace Params

/-- With the content type that is found in the memory. -/
def withType (p : Params) (mem : Bytes) : Params :=
  { p with valueContentType := (takenType mem).getD p.valueContentType }

/-- The content type behind the name `v`. -/
def typed (p : Params) (name : Bytes) (nameLength : Nat) : Params :=
  if nameLength = 1 ∧ name.head? = some 'v'.toUInt8 then p.withType (name.drop 2) else p

/-- The value of a part, if the name has one letter. -/
def stored (p : Params) (name : Bytes) (nameLength : Nat) (text : Text) : Bool × Params :=
  if nameLength = 1 then p.store (name.headD 0) text id else (true, p)

end Params

/-! ## What a form says -/

namespace Text

/-- The pointer and the length stand for these bytes. -/
def Is (t : Text) (x : Bytes) : Prop := t.bytes = x ∧ t.length = x.length

end Text

namespace Params

/-- The field of a number. -/
def numberOf (p : Params) : NumberField → Nat
  | .groupId => p.groupId
  | .watchId => p.watchId
  | .flags => p.flags
  | .cacheId => p.cacheId
  | .expiration => p.expiration
  | .ackSequence => p.ackSequence
  | .interval => p.interval
  | .timeout => p.timeout
  | .subOp => p.subOp

/-- The value of a part goes to the field that its name stands for. -/
def fill (p : Params) (q : Part b) (text : Text) : Bool × Params :=
  match q.name with
  | [letter] => p.store letter text id
  | _ => (true, p)

end Params

/-- The last part of this name. -/
def named (letter : UInt8) (parts : List (Part b)) : Option (Part b) :=
  (parts.filter (·.name = [letter])).getLast?

/-- `safe_toi64` of all the bytes. -/
def bytesToi64 (x : Bytes) : Option Int := safeToi64 (memOf (x ++ [0])) x.length

/-- The fields that a part may have the name of. -/
inductive Slot
  | key
  | value
  | delta
  | number (f : NumberField)
deriving DecidableEq, Repr

namespace Slot

def letter : Slot → UInt8
  | key => 'k'.toUInt8
  | value => 'v'.toUInt8
  | delta => 'd'.toUInt8
  | number f => f.letter

def Same (p p' : Params) : Slot → Prop
  | key => p'.key = p.key
  | value => p'.value = p.value
  | delta => p'.delta = p.delta
  | number f => p'.numberOf f = p.numberOf f

/-- The field holds the bytes, or the number that is parsed of them. -/
def Holds (p : Params) (x : Bytes) : Slot → Prop
  | key => p.key.Is x
  | value => p.value.Is x
  | delta => bytesToi64 x = some p.delta
  | number f => safeToui f.type.bits (.copy x) = some (p.numberOf f)

/-- The bytes are a number if the field is one. -/
def Parses (x : Bytes) : Slot → Prop
  | key | value => True
  | delta => (bytesToi64 x).isSome
  | number f => (safeToui f.type.bits (.copy x)).isSome

end Slot

/-- The fields hold the values of the parts, and what they held before where no part has their
name. -/
structure Filled (p p' : Params) (parts : List (Part b)) : Prop where
  slot : ∀ s : Slot, (named s.letter parts).elim (s.Same p p') fun q => s.Holds p' q.value
  touchFlag : p'.touchFlag = (p.touchFlag || (named (Slot.number .expiration).letter parts).isSome)
  http : p'.http = p.http

/-- The content type too is the one of the value. -/
structure Decoded (p p' : Params) (parts : List (Part b)) : Prop extends Filled p p' parts where
  valueContentType : p'.valueContentType =
    ((named 'v'.toUInt8 parts).bind Part.contentType).getD []

namespace Part

/-- The value is a number if the field is one. -/
def Parses (q : Part b) : Prop := ∀ s : Slot, q.name = [s.letter] → s.Parses q.value

/-- The parser finds the empty line behind the name: it starts two bytes behind the first quote. -/
def InStep (q : Part b) : Prop := q.name ≠ [] ∨ q.parameters ≠ [] ∨ q.contentType ≠ none

/-- The content type is shorter than 128 bytes, or there is none, and what is taken for one in what
follows is empty or not shorter. -/
def TypeFound (q : Part b) (next : Bytes) : Prop :=
  match q.contentType with
  | some t => t.length < 128
  | none => ∀ t, typeBehind (q.rest next) = some t → t = [] ∨ 128 ≤ t.length

end Part

/-- The part called `v` has the content type that is found. -/
def TypesFound (ending : Bytes) : List (Part b) → Prop
  | [] => True
  | q :: qs => (q.name = ['v'.toUInt8] → q.TypeFound (body ending qs)) ∧ TypesFound ending qs

/-! ## Bodies of any form -/

/-- From the boundary that the memory starts with on, the parser follows no pointer out of the body,
and the texts of the fields end within it. -/
inductive StaysInside (boundary : Bytes) : Bytes → Prop
  | stop {mem : Bytes} (h : findPart boundary mem = some none) : StaysInside boundary mem
  | part {mem name value : Bytes} {n : Nat} (h : findPart boundary mem = some (some (name, n, value)))
    (inside : ∀ v x, memfind value.dropLast boundary = some (v, x) → ∀ s : Slot,
      n = 1 → name.head? = some s.letter → (valueText value v).Inside)
    (next : ∀ v x, memfind value.dropLast boundary = some (v, x) →
      (Params.new.stored name n (valueText value v)).1 = true →
        StaysInside boundary (value.drop v.length)) :
    StaysInside boundary mem

/-- The text behind a boundary: two bytes, and either no name up to the next zero byte, or a name
with an empty line at least two bytes behind its first quote and no zero byte before. Behind that, a
value of a field has four bytes at least in front of the next boundary, and the text goes on like
this if the field takes the value. -/
inductive Tidy (boundary : Bytes) : Bytes → Prop
  | noName {c₁ c₂ : UInt8} {x : Bytes} (h : ¬ nameIs <:+: cString x) : Tidy boundary (c₁ :: c₂ :: x)
  | part {c₁ c₂ c₃ c₄ : UInt8} {a h w : Bytes} (name : 0 ∉ a ∧ First nameIs a)
    (emptyLine : 0 ∉ h ∧ First (crlf ++ crlf) h)
    (long : ∀ v x, cut boundary w = some (v, x) → ∀ s : Slot, [c₃, c₄] = [s.letter, 34] →
      4 ≤ v.length)
    (next : ∀ v x, cut boundary w = some (v, x) →
      (c₄ = 34 → (Params.new.store c₃ ⟨w ++ [0], v.length - 4⟩ id).1 = true) → Tidy boundary x) :
    Tidy boundary
      (c₁ :: c₂ :: (a ++ (nameIs ++ (c₃ :: c₄ :: (h ++ (crlf ++ (crlf ++ w)))))))

/-- The memory ends with a terminator. -/
def Terminated (mem : Bytes) : Prop := ∃ m, mem = m ++ [0]

namespace MultipartLemmas

open TextLemmas ArgumentLemmas

variable {mem x y z sub a name value v r : Bytes} {p : Params} {q : Part b} {qs parts : List (Part b)}
  {ending : Bytes} {fuel n : Nat}

/-! ## Terminated memory -/

theorem terminated_of_suffix (h : Terminated mem) (hx : x <:+ mem) (hne : x ≠ []) : Terminated x := by
  obtain ⟨m, rfl⟩ := h
  rcases List.suffix_concat_iff.mp hx with hnil | ⟨t, ht, -⟩
  · exact absurd hnil hne
  · exact ⟨t, ht⟩

theorem ne_nil_of_terminated (h : Terminated mem) : mem ≠ [] := by
  obtain ⟨m, rfl⟩ := h
  exact List.append_ne_nil_of_right_ne_nil m (List.cons_ne_nil 0 [])

/-- The terminator stands behind what has been found. -/
theorem terminated_behind (h : Terminated (a ++ (sub ++ z))) (h0 : 0 ∉ sub) (hne : sub ≠ []) :
    Terminated z := by
  have hz : z ≠ [] := by
    rintro rfl
    obtain ⟨m, hm⟩ := h
    rw [List.append_nil] at hm
    have hlast : (a ++ sub).getLast? = some 0 := by rw [hm, List.getLast?_concat]
    rw [List.getLast?_append_of_ne_nil a hne] at hlast
    exact h0 (List.mem_of_getLast? hlast)
  exact terminated_of_suffix h ((List.suffix_append sub z).trans (List.suffix_append a _)) hz

theorem cString_dropWhile (z : Bytes) :
    cString (z.dropWhile (· = 32)) = (cString z).dropWhile (· = 32) := by
  induction z with
  | nil => rfl
  | cons c z ih =>
    by_cases hc : c = 32
    · subst hc
      exact ih
    · rw [List.dropWhile_cons_of_neg (by rwa [decide_eq_true_iff])]
      by_cases h0 : c = 0
      · subst h0
        rfl
      · rw [cString, List.takeWhile_cons, if_pos (decide_eq_true h0),
          List.dropWhile_cons_of_neg (by rwa [decide_eq_true_iff])]

theorem terminated_dropWhile (h : Terminated z) : Terminated (z.dropWhile (· = 32)) := by
  refine terminated_of_suffix h (List.dropWhile_suffix _) fun hnil => ?_
  obtain ⟨m, rfl⟩ := h
  have h32 := List.dropWhile_eq_nil_iff.mp hnil 0 (List.mem_append_right m List.mem_cons_self)
  exact absurd h32 (by decide)

theorem partContentType_eq (h : Terminated mem) : p.partContentType mem = some (p.withType mem) := by
  unfold Params.partContentType Params.withType takenType typeBehind
  cases hfind : strstr mem typeIs with
  | none => exact absurd (strstr_eq_none.mp hfind) (ne_nil_of_terminated h)
  | some found =>
    have hfind' : strstr mem (ascii "\r\nContent-Type:") = some found := hfind
    rw [hfind', Option.bind_eq_bind, Option.bind_some]
    cases found with
    | none =>
      rw [cut_eq_none_iff.mpr (strstr_eq_not_found.mp hfind).2]
      rfl
    | some r =>
      obtain ⟨a, z, rfl, rfl, ha, hfirst⟩ := (strstr_eq_found (by decide) (by decide)).mp hfind
      have hdrop : (typeIs ++ z).drop 15 = z := List.drop_left' (by decide)
      have hz : Terminated z := terminated_behind h (by decide) (by decide)
      have htext : cString (a ++ (typeIs ++ z)) = a ++ (typeIs ++ cString z) := by
        rw [cString_append_of_notMem ha, cString_append_of_notMem (by decide : 0 ∉ typeIs)]
      dsimp only
      rw [hdrop, htext, cut_of_first hfirst, Option.bind_some, ← cString_dropWhile]
      have hy := terminated_dropWhile hz
      generalize z.dropWhile (· = 32) = y at hy
      cases hend : strstr y crlf with
      | none => exact absurd (strstr_eq_none.mp hend) (ne_nil_of_terminated hy)
      | some found =>
        rw [Option.bind_some]
        cases found with
        | none =>
          rw [cut_eq_none_iff.mpr (strstr_eq_not_found.mp hend).2]
          rfl
        | some r =>
          obtain ⟨t, w, rfl, rfl, ht, hfirst⟩ := (strstr_eq_found (by decide) (by decide)).mp hend
          have hlength : (t ++ (crlf ++ w)).length - (crlf ++ w).length = t.length := by
            rw [List.length_append, Nat.add_sub_cancel]
          have hcut : cut crlf (cString (t ++ (crlf ++ w))) = some (t, cString w) := by
            rw [cString_append_of_notMem ht, cString_append_of_notMem (by decide : 0 ∉ crlf),
              cut_of_first hfirst]
          dsimp only
          rw [hlength, List.take_left, hcut, Option.map_some, Option.filter_some]
          split
          · next hlt =>
            rw [if_pos (decide_eq_true hlt)]
            rfl
          · next hle =>
            rw [if_neg (by rwa [decide_eq_true_iff])]
            rfl

/-! ## The loop -/

theorem processParts_succ {boundary : Bytes} (h : Terminated mem) :
    p.processParts boundary (fuel + 1) mem =
      match findPart boundary mem with
      | none => none
      | some none => some (true, p)
      | some (some (name, n, value)) =>
        match memfind value.dropLast boundary with
        | none => some (true, p.typed name n)
        | some (v, _) =>
          match (p.typed name n).stored name n (valueText value v) with
          | (true, p) => p.processParts boundary fuel (value.drop v.length)
          | (false, p) => some (false, p) := by
  rw [Params.processParts, findPart]
  cases hpart : strstr (mem.drop (boundary.length + 2)) nameIs with
  | none =>
    have hpart' : strstr (mem.drop (boundary.length + 2)) (ascii " name=\"") = none := hpart
    rw [hpart']
    rfl
  | some found =>
    have hpart' : strstr (mem.drop (boundary.length + 2)) (ascii " name=\"") = some found := hpart
    simp only [hpart', Option.bind_eq_bind, Option.bind_some]
    cases found with
    | none => rfl
    | some part =>
      obtain ⟨a, name, hmem, rfl, -, -⟩ := (strstr_eq_found (by decide) (by decide)).mp hpart
      have hdrop : (nameIs ++ name).drop 7 = name := List.drop_left' (by decide)
      have hname : Terminated name := by
        have hne : mem.drop (boundary.length + 2) ≠ [] := by
          rw [hmem]
          exact List.append_ne_nil_of_right_ne_nil a (List.cons_ne_nil _ _)
        have hbuf := terminated_of_suffix h (List.drop_suffix _ mem) hne
        rw [hmem] at hbuf
        exact terminated_behind hbuf (by decide) (by decide)
      simp only [hdrop]
      cases hquote : strstr name (ascii "\"") with
      | none => exact absurd (strstr_eq_none.mp hquote) (ne_nil_of_terminated hname)
      | some quote =>
        simp only [Option.bind_some]
        generalize (quote.map fun r => name.length - r.length).getD 0 = n
        cases hvalue : strstr (name.drop 2) (crlf ++ crlf) with
        | none =>
          simp only [Option.bind_none]
          split
          · exact Option.bind_fun_none _
          · rfl
        | some value =>
          have hbehind : Terminated (name.drop 2) := by
            refine terminated_of_suffix hname (List.drop_suffix 2 name) fun hnil => ?_
            rw [strstr_eq_none.mpr hnil] at hvalue
            cases hvalue
          simp only [partContentType_eq hbehind, Option.bind_some]
          split
          · next hv =>
            have htyped : p.typed name n = p.withType (name.drop 2) := if_pos hv
            cases value with
            | none => rfl
            | some value =>
              dsimp only
              rw [htyped]
              rfl
          · next hv =>
            have htyped : p.typed name n = p := if_neg hv
            cases value with
            | none => rfl
            | some value =>
              dsimp only
              rw [htyped]
              rfl

theorem nameLength_eq {found : Option Bytes} (h : strstr name (ascii "\"") = some found) :
    (found.map fun r => name.length - r.length).getD 0 = nameLength name := by
  have h' : strstr name [34] = some found := h
  unfold nameLength
  cases found with
  | none =>
    rw [cut_eq_none_iff.mpr (strstr_eq_not_found.mp h').2]
    rfl
  | some r =>
    obtain ⟨a, z, rfl, rfl, ha, hfirst⟩ := (strstr_eq_found (by decide) (by decide)).mp h'
    rw [cString_append_of_notMem ha, cString_append_of_notMem (by decide : (0 : UInt8) ∉ [34]),
      cut_of_first hfirst, Option.map_some, Option.map_some, Option.getD_some, Option.getD_some,
      List.length_append, Nat.add_sub_cancel]

theorem findPart_eq_stop {boundary : Bytes} : findPart boundary mem = some none ↔
    mem.drop (boundary.length + 2) ≠ [] ∧
      ¬ nameIs <:+: cString (mem.drop (boundary.length + 2)) := by
  rw [← strstr_eq_not_found, findPart]
  cases strstr (mem.drop (boundary.length + 2)) nameIs with
  | none => exact iff_of_false nofun nofun
  | some found =>
    cases found with
    | none => exact iff_of_true rfl rfl
    | some part =>
      refine iff_of_false ?_ nofun
      simp only [Option.bind_eq_bind, Option.bind_some]
      cases strstr (part.drop 7) (ascii "\"") with
      | none => exact nofun
      | some quote =>
        simp only [Option.bind_some]
        cases strstr ((part.drop 7).drop 2) (crlf ++ crlf) with
        | none => exact nofun
        | some value =>
          cases value with
          | none => exact nofun
          | some value => exact nofun

theorem findPart_eq_found {boundary : Bytes} :
    findPart boundary mem = some (some (name, n, value)) ↔
      ∃ a h, mem.drop (boundary.length + 2) = a ++ (nameIs ++ name) ∧ 0 ∉ a ∧ First nameIs a ∧
        name.drop 2 = h ++ (crlf ++ (crlf ++ value)) ∧ 0 ∉ h ∧ First (crlf ++ crlf) h ∧
        n = nameLength name := by
  constructor
  · intro hfind
    rw [findPart] at hfind
    cases hpart : strstr (mem.drop (boundary.length + 2)) nameIs with
    | none =>
      rw [hpart] at hfind
      cases hfind
    | some found =>
      simp only [hpart, Option.bind_eq_bind, Option.bind_some] at hfind
      cases found with
      | none => cases hfind
      | some part =>
        obtain ⟨a, name', hmem, rfl, ha, hfirst⟩ :=
          (strstr_eq_found (by decide) (by decide)).mp hpart
        have hdrop : (nameIs ++ name').drop 7 = name' := List.drop_left' (by decide)
        simp only [hdrop] at hfind
        cases hquote : strstr name' (ascii "\"") with
        | none =>
          rw [hquote] at hfind
          cases hfind
        | some quote =>
          simp only [hquote, Option.bind_some, nameLength_eq hquote] at hfind
          cases hvalue : strstr (name'.drop 2) (crlf ++ crlf) with
          | none =>
            rw [hvalue] at hfind
            cases hfind
          | some found =>
            simp only [hvalue, Option.bind_some] at hfind
            cases found with
            | none => cases hfind
            | some r =>
              obtain ⟨h, z, hname, rfl, hh, hempty⟩ :=
                (strstr_eq_found (by decide) (by decide)).mp hvalue
              have hdrop : (crlf ++ crlf ++ z).drop 4 = z := List.drop_left' (by decide)
              simp only [hdrop] at hfind
              cases hfind
              rw [List.append_assoc] at hname
              exact ⟨a, h, hmem, ha, hfirst, hname, hh, hempty, rfl⟩
  · rintro ⟨a, h, hmem, ha, hfirst, hname, hh, hempty, rfl⟩
    have hpart : strstr (mem.drop (boundary.length + 2)) nameIs = some (some (nameIs ++ name)) :=
      (strstr_eq_found (by decide) (by decide)).mpr ⟨a, name, hmem, rfl, ha, hfirst⟩
    have hvalue : strstr (name.drop 2) (crlf ++ crlf) = some (some (crlf ++ crlf ++ value)) := by
      refine (strstr_eq_found (by decide) (by decide)).mpr ⟨h, value, ?_, rfl, hh, hempty⟩
      rw [hname, List.append_assoc]
    have hdrop : (nameIs ++ name).drop 7 = name := List.drop_left' (by decide)
    have hdrop' : (crlf ++ crlf ++ value).drop 4 = value := List.drop_left' (by decide)
    rw [findPart, hpart]
    simp only [Option.bind_eq_bind, Option.bind_some, hdrop]
    cases hquote : strstr name (ascii "\"") with
    | none =>
      rw [strstr_eq_none.mp hquote] at hname
      cases h with
      | nil => cases hname
      | cons c h => cases hname
    | some quote =>
      simp only [Option.bind_some, nameLength_eq hquote, hvalue, hdrop']

/-! ## A part of a form -/

theorem notMem_append {c : UInt8} {x y : Bytes} (hx : c ∉ x) (hy : c ∉ y) : c ∉ x ++ y :=
  fun h => (List.mem_append.mp h).elim hx hy

/-- The empty line is the first one behind the name. -/
theorem first_emptyLine (hq : q.InStep) (w : Bytes) : ∃ h,
    (q.name ++ 34 :: (q.parameters ++ (q.typeLine ++ w))).drop 2 = h ++ w ∧ 0 ∉ h ∧
      First (crlf ++ crlf) h := by
  obtain ⟨⟨hname0, hname13⟩, -⟩ := q.name_plain
  obtain ⟨hparam0, hparam13⟩ := q.parameters_plain
  have htype0 : 0 ∉ q.typeLine := by
    unfold Part.typeLine
    cases ht : q.contentType with
    | none => exact List.not_mem_nil
    | some t =>
      obtain ⟨⟨h0, -⟩, -⟩ := q.contentType_plain t ht
      exact notMem_append (by decide) (List.not_mem_cons_of_ne_of_not_mem (by decide) h0)
  -- the rest of the first line, and the line of the content type
  have hfirst {l : Bytes} (h13 : 13 ∉ l) : First (crlf ++ crlf) (l ++ q.typeLine) := by
    unfold Part.typeLine
    cases ht : q.contentType with
    | none =>
      rw [Option.elim_none, List.append_nil]
      exact first_of_notMem h13 (10 :: crlf)
    | some t =>
      obtain ⟨⟨-, ht13⟩, -⟩ := q.contentType_plain t ht
      have hline : Line (ascii "Content-Type:" ++ 32 :: t) := by
        refine line_of_notMem ?_ (List.cons_ne_nil _ _)
        exact notMem_append (by decide) (List.not_mem_cons_of_ne_of_not_mem (by decide) ht13)
      have hcut := cut_joined_end (not_crlf_of_notMem h13)
        (List.forall_mem_singleton.mpr hline) []
      rw [joined, List.flatMap_singleton, List.append_nil] at hcut
      exact hcut
  rcases Nat.lt_or_ge (q.name ++ 34 :: q.parameters).length 2 with hshort | hlong
  · -- nothing but the second quote: the line of the content type is cut
    rw [List.length_append, List.length_cons] at hshort
    have hname : q.name = [] := List.length_eq_zero_iff.mp (by omega)
    have hparam : q.parameters = [] := List.length_eq_zero_iff.mp (by omega)
    obtain ⟨t, ht⟩ : ∃ t, q.contentType = some t :=
      Option.ne_none_iff_exists'.mp ((hq.resolve_left (not_not_intro hname)).resolve_left
        (not_not_intro hparam))
    obtain ⟨⟨ht0, ht13⟩, -⟩ := q.contentType_plain t ht
    refine ⟨10 :: (ascii "Content-Type:" ++ 32 :: t), ?_, ?_, ?_⟩
    · rw [hname, hparam, Part.typeLine, ht]
      rfl
    · exact notMem_append (x := 10 :: ascii "Content-Type:") (by decide)
        (List.not_mem_cons_of_ne_of_not_mem (by decide) ht0)
    · have h13 : 13 ∉ 10 :: (ascii "Content-Type:" ++ 32 :: t) :=
        notMem_append (x := 10 :: ascii "Content-Type:") (by decide)
          (List.not_mem_cons_of_ne_of_not_mem (by decide) ht13)
      exact first_of_notMem h13 (10 :: crlf)
  · have hassoc : q.name ++ 34 :: (q.parameters ++ (q.typeLine ++ w)) =
        (q.name ++ 34 :: q.parameters) ++ (q.typeLine ++ w) := by
      rw [List.append_assoc, List.cons_append]
    have h0 : 0 ∉ q.name ++ 34 :: q.parameters :=
      notMem_append hname0 (List.not_mem_cons_of_ne_of_not_mem (by decide) hparam0)
    have h13 : 13 ∉ q.name ++ 34 :: q.parameters :=
      notMem_append hname13 (List.not_mem_cons_of_ne_of_not_mem (by decide) hparam13)
    have hsub := (List.drop_sublist 2 (q.name ++ 34 :: q.parameters)).subset
    refine ⟨(q.name ++ 34 :: q.parameters).drop 2 ++ q.typeLine, ?_, ?_, ?_⟩
    · rw [hassoc, List.drop_append_of_le_length hlong, List.append_assoc]
    · exact notMem_append (fun h => h0 (hsub h)) htype0
    · exact hfirst fun h => h13 (hsub h)

theorem nameLength_name (q : Part b) (w : Bytes) : nameLength (q.name ++ 34 :: w) = q.name.length := by
  obtain ⟨⟨h0, -⟩, h34⟩ := q.name_plain
  have hcut : cut [34] (cString (q.name ++ ([34] ++ w))) = some (q.name, cString w) := by
    rw [cString_append_of_notMem h0, cString_append_of_notMem (by decide : (0 : UInt8) ∉ [34])]
    exact cut_of_first (first_of_notMem h34 []) (cString w)
  rw [nameLength, show q.name ++ 34 :: w = q.name ++ ([34] ++ w) from rfl, hcut]
  rfl

/-- What stands in memory behind the empty line of a part. -/
theorem findPart_part (hq : q.InStep) (next : Bytes) :
    findPart b.bytes (b.bytes ++ (crlf ++ (ascii "Content-Disposition: form-data;" ++ (nameIs ++
        (q.name ++ 34 :: (q.rest next ++ [0])))))) =
      some (some (q.name ++ 34 :: (q.rest next ++ [0]), q.name.length,
        q.value ++ (crlf ++ (next ++ [0])))) := by
  obtain ⟨h, hdrop, h0, hfirst⟩ := first_emptyLine hq (crlf ++ (crlf ++ (q.value ++ (crlf ++ (next ++ [0])))))
  refine findPart_eq_found.mpr
    ⟨ascii "Content-Disposition: form-data;", h, ?_, by decide, by decide +kernel, ?_, h0, hfirst,
      (nameLength_name q _).symm⟩
  · rw [← List.drop_drop, List.drop_left]
    rfl
  · rw [← hdrop, Part.rest]
    simp only [List.append_assoc]

/-- The next boundary is the one behind the value. -/
theorem memfind_value (hb : ∃ c ∈ b.bytes, c ≠ 45) (q : Part b) (x : Bytes) :
    memfind (q.value ++ (crlf ++ (dashes ++ (b.bytes ++ x)))) b.bytes =
      some (q.value ++ (crlf ++ dashes), x) := by
  obtain ⟨-, h13⟩ := b.plain
  have hdashes : cut b.bytes (dashes ++ (b.bytes ++ x)) = some (dashes, x) :=
    cut_of_first (first_replicate hb 2) x
  have hnil : ¬ b.bytes <:+: [] := fun h => b.nonempty (List.infix_nil.mp h)
  have h10 := cut_append_cons hnil b.oneLine (dashes ++ (b.bytes ++ x))
  rw [hdashes, List.nil_append] at h10
  have h := cut_append_cons q.value_free h13 (10 :: (dashes ++ (b.bytes ++ x)))
  rw [h10] at h
  exact h

theorem takenType_terminated (x : Bytes) : takenType (x ++ [0]) = takenType x := by
  rw [takenType, takenType, typeBehind, typeBehind, cString_concat]

theorem typed_part (p : Params) (q : Part b) (next : Bytes) :
    p.typed (q.name ++ 34 :: (q.rest next ++ [0])) q.name.length =
      if q.name = ['v'.toUInt8] then p.withType (q.rest next) else p := by
  have hiff : (q.name.length = 1 ∧
      (q.name ++ 34 :: (q.rest next ++ [0])).head? = some 'v'.toUInt8) ↔ q.name = ['v'.toUInt8] := by
    cases q.name with
    | nil => exact iff_of_false (fun h => nomatch h.1) nofun
    | cons c l =>
      cases l with
      | nil => simp
      | cons c' l => exact iff_of_false (fun h => nomatch h.1) nofun
  unfold Params.typed
  split
  · next hv =>
    have hname := hiff.mp hv
    rw [if_pos hname, hname, Params.withType, Params.withType]
    exact congrArg (fun t => { p with valueContentType := Option.getD t p.valueContentType })
      (takenType_terminated (q.rest next))
  · next hv => rw [if_neg fun hname => hv (hiff.mpr hname)]

theorem stored_part (p : Params) (q : Part b) (w : Bytes) (t : Text) :
    p.stored (q.name ++ 34 :: w) q.name.length t = p.fill q t := by
  unfold Params.stored Params.fill
  cases q.name with
  | nil => rfl
  | cons c l =>
    cases l with
    | nil => rfl
    | cons c' l => exact if_neg (by simp)

/-- The memory that an iteration starts with. -/
theorem behind_cons (ending : Bytes) (q : Part b) (qs : List (Part b)) :
    b.bytes ++ (behind ending (q :: qs) ++ [0]) =
      b.bytes ++ (crlf ++ (ascii "Content-Disposition: form-data;" ++ (nameIs ++
        (q.name ++ 34 :: (q.rest (body ending qs) ++ [0]))))) := by
  rw [behind, body]
  simp only [List.append_assoc, List.cons_append]

/-- The search behind a value, and the memory that the next iteration starts with. -/
theorem memfind_next (hb : ∃ c ∈ b.bytes, c ≠ 45) (ending : Bytes) (q : Part b) (qs : List (Part b)) :
    memfind (q.value ++ (crlf ++ (body ending qs ++ [0]))).dropLast b.bytes =
        some (q.value ++ (crlf ++ dashes), behind ending qs) ∧
      (q.value ++ (crlf ++ (body ending qs ++ [0]))).drop (q.value ++ (crlf ++ dashes)).length =
        b.bytes ++ (behind ending qs ++ [0]) := by
  constructor
  · have hlast : (q.value ++ (crlf ++ (body ending qs ++ [0]))).dropLast =
        q.value ++ (crlf ++ (dashes ++ (b.bytes ++ behind ending qs))) := by
      rw [← List.append_assoc crlf, ← List.append_assoc, List.dropLast_concat]
      rfl
    rw [hlast, memfind_value hb]
  · have hassoc : q.value ++ (crlf ++ (body ending qs ++ [0])) =
        (q.value ++ (crlf ++ dashes)) ++ (b.bytes ++ (behind ending qs ++ [0])) := by
      rw [body]
      simp only [List.append_assoc]
    rw [hassoc, List.drop_left]

theorem valueText_part (hlen : q.value.length < 2 ^ 32) (value : Bytes) :
    valueText value (q.value ++ (crlf ++ dashes)) = ⟨value, q.value.length⟩ := by
  have hlength : (q.value ++ (crlf ++ dashes)).length = q.value.length + 4 := List.length_append
  have hmod : (q.value.length + 4 + (2 ^ 32 - 4)) % 2 ^ 32 = q.value.length := by omega
  rw [valueText, hlength, hmod]

/-- An iteration goes over one part. -/
theorem processParts_part (hb : ∃ c ∈ b.bytes, c ≠ 45) (hq : q.InStep)
    (hlen : q.value.length < 2 ^ 32) (p : Params) (ending : Bytes) (qs : List (Part b)) (fuel : Nat) :
    p.processParts b.bytes (fuel + 1) (b.bytes ++ (behind ending (q :: qs) ++ [0])) =
      match Params.fill
          (if q.name = ['v'.toUInt8] then p.withType (q.rest (body ending qs)) else p) q
          ⟨q.value ++ (crlf ++ (body ending qs ++ [0])), q.value.length⟩ with
      | (true, p) => p.processParts b.bytes fuel (b.bytes ++ (behind ending qs ++ [0]))
      | (false, p) => some (false, p) := by
  have hterm : Terminated (b.bytes ++ (behind ending (q :: qs) ++ [0])) :=
    ⟨b.bytes ++ behind ending (q :: qs), (List.append_assoc _ _ _).symm⟩
  obtain ⟨hfind, hnext⟩ := memfind_next hb ending q qs
  rw [processParts_succ hterm, behind_cons, findPart_part hq]
  dsimp only
  rw [hfind]
  dsimp only
  rw [hnext, valueText_part hlen, typed_part, stored_part]

/-! ## The fields -/

/-- The number is the one of the value alone: a line end stands behind it. -/
theorem safeToui_value (f : NumberField) (x w : Bytes) (hlen : x.length < 2 ^ 32) :
    safeToui f.type.bits ⟨x ++ (crlf ++ w), x.length⟩ = safeToui f.type.bits (.copy x) := by
  have hs : f.type.signed = false := by cases f <;> rfl
  have h : (f.type.parse x.length).result (memOf (x ++ 13 :: 10 :: w)) =
      (f.type.parse x.length).result (memOf (x ++ [0])) :=
    result_parse_append hlen (by decide) (by decide)
  have heq := safeToui_eq hs ⟨x ++ (crlf ++ w), x.length⟩
  have heq' := safeToui_eq hs (.copy x)
  exact Option.map_injective (fun _ _ => Int.ofNat.inj) (heq.symm.trans (h.trans heq'))

theorem safeToi64_value (x w : Bytes) (hlen : x.length < 2 ^ 32) :
    safeToi64 (memOf (x ++ (crlf ++ w))) x.length = bytesToi64 x := by
  rw [bytesToi64, safeToi64_eq, safeToi64_eq]
  exact result_parse_append hlen (by decide) (by decide)

theorem letter_injective : Function.Injective Slot.letter := by
  have hf (f : NumberField) : f.letter ≠ 'k'.toUInt8 ∧ f.letter ≠ 'v'.toUInt8 ∧
      f.letter ≠ 'd'.toUInt8 := by cases f <;> decide
  have hff {f f' : NumberField} (h : f.letter = f'.letter) : f = f' := by
    cases f <;> cases f' <;> first | rfl | exact absurd h (by decide)
  intro s s' h
  cases s with
  | number f =>
    obtain ⟨hk, hv, hd⟩ := hf f
    cases s' with
    | number f' => exact congrArg Slot.number (hff h)
    | key => exact absurd h hk
    | value => exact absurd h hv
    | delta => exact absurd h hd
  | key | value | delta =>
    cases s' with
    | number f =>
      obtain ⟨hk, hv, hd⟩ := hf f
      first | exact absurd h.symm hk | exact absurd h.symm hv | exact absurd h.symm hd
    | key | value | delta => first | rfl | exact absurd h (by decide)

/-- The field has been read from the text. -/
def Reads (p : Params) (t : Text) : Slot → Prop
  | .key => p.key = t
  | .value => p.value = t
  | .delta => safeToi64 (memOf t.mem) t.length = some p.delta
  | .number f => safeToui f.type.bits t = some (p.numberOf f)

/-- The text is not a number, and the field is one. -/
def Refuses (t : Text) : Slot → Prop
  | .key | .value => False
  | .delta => safeToi64 (memOf t.mem) t.length = none
  | .number f => safeToui f.type.bits t = none

/-- What `store` does with a letter: its field is set, or refuses the text, or there is none. -/
inductive Stores (p : Params) (t : Text) : UInt8 → Bool × Params → Prop
  | set {s : Slot} {p' : Params} (h : Reads p' t s) (same : ∀ s', s' ≠ s → s'.Same p p')
    (touchFlag : p'.touchFlag = (p.touchFlag || decide (s = .number .expiration)))
    (frame : p'.http = p.http ∧ p'.valueContentType = p.valueContentType) :
    Stores p t s.letter (true, p')
  | refused {s : Slot} {p' : Params} (h : Refuses t s) : Stores p t s.letter (false, p')
  | other {c : UInt8} (h : ∀ s : Slot, s.letter ≠ c) : Stores p t c (true, p)

theorem same_setNumber {f : NumberField} {s : Slot} (h : s ≠ .number f) (p : Params) (n : Nat) :
    s.Same p (p.setNumber f n) := by
  cases s with
  | key | value | delta => cases f <;> rfl
  | number f' => cases f <;> cases f' <;> first | rfl | exact absurd rfl h

theorem stores_number (p : Params) (t : Text) (f : NumberField) :
    Stores p t f.letter (p.store f.letter t id) := by
  cases h : safeToui f.type.bits t with
  | some n =>
    rw [store_number h]
    have hread : Reads (p.setNumber f n) t (.number f) := by
      rw [Reads, h]
      cases f <;> rfl
    have hflag : (p.setNumber f n).touchFlag =
        (p.touchFlag || decide (Slot.number f = .number .expiration)) := by
      cases f <;> simp [Params.setNumber]
    have hframe : (p.setNumber f n).http = p.http ∧
        (p.setNumber f n).valueContentType = p.valueContentType := by
      cases f <;> exact ⟨rfl, rfl⟩
    exact .set (s := .number f) hread (fun s' hs' => same_setNumber hs' p n) hflag hframe
  | none =>
    have hfail : ∃ p', p.store f.letter t id = (false, p') := by
      cases f with
      | groupId => exact ⟨_, congrArg (p.number · (p.setNumber .groupId)) h⟩
      | watchId => exact ⟨_, congrArg (p.number · (p.setNumber .watchId)) h⟩
      | flags => exact ⟨_, congrArg (p.number · (p.setNumber .flags)) h⟩
      | cacheId => exact ⟨_, congrArg (p.number · (p.setNumber .cacheId)) h⟩
      | expiration =>
        exact ⟨_, congrArg (Params.number { p with touchFlag := true } · (p.setNumber .expiration)) h⟩
      | ackSequence => exact ⟨_, congrArg (p.number · (p.setNumber .ackSequence)) h⟩
      | interval => exact ⟨_, congrArg (p.number · (p.setNumber .interval)) h⟩
      | timeout => exact ⟨_, congrArg (p.number · (p.setNumber .timeout)) h⟩
      | subOp => exact ⟨_, congrArg (p.number · (p.setNumber .subOp)) h⟩
    obtain ⟨p', hp'⟩ := hfail
    rw [hp']
    exact .refused (s := .number f) h

theorem stores (p : Params) (t : Text) (c : UInt8) : Stores p t c (p.store c t id) := by
  by_cases hs : ∃ s : Slot, s.letter = c
  · obtain ⟨s, rfl⟩ := hs
    have hflag {s : Slot} (h : s ≠ .number .expiration) :
        p.touchFlag = (p.touchFlag || decide (s = .number .expiration)) := by
      rw [decide_eq_false h, Bool.or_false]
    have hsame {s : Slot} {p' : Params} (hk : s ≠ .key → p'.key = p.key)
        (hv : s ≠ .value → p'.value = p.value) (hd : s ≠ .delta → p'.delta = p.delta)
        (hn : ∀ f, p'.numberOf f = p.numberOf f) (s' : Slot) (h : s' ≠ s) : s'.Same p p' := by
      cases s' with
      | key => exact hk h.symm
      | value => exact hv h.symm
      | delta => exact hd h.symm
      | number f => exact hn f
    cases s with
    | number f => exact stores_number p t f
    | key =>
      have hset : Stores p t (Slot.letter .key) (true, { p with key := t }) :=
        .set rfl (hsame (fun h => absurd rfl h) (fun _ => rfl) (fun _ => rfl)
          fun f => by cases f <;> rfl) (hflag nofun) ⟨rfl, rfl⟩
      exact hset
    | value =>
      have hset : Stores p t (Slot.letter .value) (true, { p with value := t }) :=
        .set rfl (hsame (fun _ => rfl) (fun h => absurd rfl h) (fun _ => rfl)
          fun f => by cases f <;> rfl) (hflag nofun) ⟨rfl, rfl⟩
      exact hset
    | delta =>
      cases h : safeToi64 (memOf t.mem) t.length with
      | some d =>
        have hstore : p.store (Slot.letter .delta) t id = (true, { p with delta := d }) :=
          congrArg (p.number · fun n => { p with delta := n }) h
        rw [hstore]
        exact .set h (hsame (fun _ => rfl) (fun _ => rfl) (fun h => absurd rfl h)
          fun f => by cases f <;> rfl) (hflag nofun) ⟨rfl, rfl⟩
      | none =>
        have hstore : p.store (Slot.letter .delta) t id = (false, p) :=
          congrArg (p.number · fun n => { p with delta := n }) h
        rw [hstore]
        exact .refused h
  · have hne (s : Slot) : c ≠ s.letter := fun h => hs ⟨s, h.symm⟩
    have hg : c ≠ 'g'.toUInt8 := hne (.number .groupId)
    have hw : c ≠ 'w'.toUInt8 := hne (.number .watchId)
    have hk : c ≠ 'k'.toUInt8 := hne .key
    have hv : c ≠ 'v'.toUInt8 := hne .value
    have hf : c ≠ 'f'.toUInt8 := hne (.number .flags)
    have hc : c ≠ 'c'.toUInt8 := hne (.number .cacheId)
    have hd : c ≠ 'd'.toUInt8 := hne .delta
    have he : c ≠ 'e'.toUInt8 := hne (.number .expiration)
    have ha : c ≠ 'a'.toUInt8 := hne (.number .ackSequence)
    have hi : c ≠ 'i'.toUInt8 := hne (.number .interval)
    have ht : c ≠ 't'.toUInt8 := hne (.number .timeout)
    have hs : c ≠ 's'.toUInt8 := hne (.number .subOp)
    have hstore : p.store c t id = (true, p) := by
      rw [Params.store, if_neg hg, if_neg hw, if_neg hk, if_neg hv, if_neg hf, if_neg hc, if_neg hd,
        if_neg he, if_neg ha, if_neg hi, if_neg ht, if_neg hs]
    rw [hstore]
    exact .other fun s h => hne s h.symm

/-! ## The parts one after the other -/

theorem named_concat_self {c : UInt8} (h : q.name = [c]) (parts : List (Part b)) :
    named c (parts ++ [q]) = some q := by
  simp [named, h]

theorem named_concat_ne {c : UInt8} (h : q.name ≠ [c]) (parts : List (Part b)) :
    named c (parts ++ [q]) = named c parts := by
  simp [named, h]

/-- The text is read as the value of the part. -/
structure TextOf (q : Part b) (t : Text) : Prop where
  is : t.Is q.value
  toui : ∀ f : NumberField, safeToui f.type.bits t = safeToui f.type.bits (.copy q.value)
  toi64 : safeToi64 (memOf t.mem) t.length = bytesToi64 q.value

theorem textOf_value (hlen : q.value.length < 2 ^ 32) (w : Bytes) :
    TextOf q ⟨q.value ++ (crlf ++ w), q.value.length⟩ where
  is := ⟨List.take_left, rfl⟩
  toui f := safeToui_value f q.value w hlen
  toi64 := safeToi64_value q.value w hlen

variable {p₁ p₂ : Params} {t : Text} {s : Slot}

theorem holds_of_reads (ht : TextOf q t) (h : Reads p t s) : s.Holds p q.value := by
  cases s with
  | key => exact (congrArg (Text.Is · q.value) h).mpr ht.is
  | value => exact (congrArg (Text.Is · q.value) h).mpr ht.is
  | delta => exact ht.toi64.symm.trans h
  | number f => exact (ht.toui f).symm.trans h

/-- A field that stays keeps what it holds. -/
theorem holds_of_same (h : s.Same p₁ p₂) {x : Bytes} (hx : s.Holds p₁ x) : s.Holds p₂ x := by
  cases s with
  | key => exact (congrArg (Text.Is · x) h).mpr hx
  | value => exact (congrArg (Text.Is · x) h).mpr hx
  | delta => exact hx.trans (congrArg some h.symm)
  | number f => exact hx.trans (congrArg some h.symm)

theorem same_trans (h : s.Same p p₁) (h' : s.Same p₁ p₂) : s.Same p p₂ := by
  cases s <;> exact h'.trans h

/-- A part that no field has the name of. -/
theorem filled_other (h : Filled p p₁ parts) (hname : ∀ s : Slot, q.name ≠ [s.letter]) :
    Filled p p₁ (parts ++ [q]) where
  slot s := by
    rw [named_concat_ne (hname s)]
    exact h.slot s
  touchFlag := by
    rw [named_concat_ne (hname (.number .expiration))]
    exact h.touchFlag
  http := h.http

/-- A part is stored: its field changes, the others stay. -/
theorem filled_step (h : Filled p p₁ parts) (ht : TextOf q t) (hfill : p₁.fill q t = (true, p₂)) :
    Filled p p₂ (parts ++ [q]) ∧ p₂.valueContentType = p₁.valueContentType := by
  unfold Params.fill at hfill
  split at hfill
  · next c hname =>
    have hs := stores p₁ t c
    rw [hfill] at hs
    cases hs with
    | @set s _ hread hsame hflag hframe =>
      have hself := named_concat_self hname parts
      have hother {s' : Slot} (hne : s' ≠ s) : named s'.letter (parts ++ [q]) = named s'.letter parts :=
        named_concat_ne (fun hq =>
          hne (letter_injective (List.singleton_inj.mp (hname.symm.trans hq)).symm)) parts
      refine ⟨⟨fun s' => ?_, ?_, hframe.1.trans h.http⟩, hframe.2⟩
      · by_cases hs : s' = s
        · subst hs
          rw [hself]
          exact holds_of_reads ht hread
        · rw [hother hs]
          have hslot := h.slot s'
          cases hnamed : named s'.letter parts with
          | none =>
            rw [hnamed] at hslot
            exact same_trans hslot (hsame s' hs)
          | some q' =>
            rw [hnamed] at hslot
            exact holds_of_same (hsame s' hs) hslot
      · rw [hflag, h.touchFlag]
        by_cases hs : s = .number .expiration
        · subst hs
          rw [hself, Option.isSome_some, Bool.or_true]
          exact Bool.or_true _
        · rw [hother (Ne.symm hs), decide_eq_false hs, Bool.or_false]
    | other hne =>
      refine ⟨filled_other h fun s hs => ?_, rfl⟩
      exact hne s (List.singleton_inj.mp (hname.symm.trans hs)).symm
  · next hname =>
    obtain rfl : p₁ = p₂ := congrArg Prod.snd hfill
    exact ⟨filled_other h fun s hs => hname _ hs, rfl⟩

theorem filled_withType (h : Filled p p₁ parts) (x : Bytes) : Filled p (p₁.withType x) parts := by
  have hsame (s : Slot) : s.Same p₁ (p₁.withType x) := by
    cases s with
    | key | value | delta => rfl
    | number f => cases f <;> rfl
  refine ⟨fun s => ?_, h.touchFlag, h.http⟩
  have hslot := h.slot s
  cases hnamed : named s.letter parts with
  | none =>
    rw [hnamed] at hslot
    exact same_trans hslot (hsame s)
  | some q =>
    rw [hnamed] at hslot
    exact holds_of_same (hsame s) hslot

/-- A part is refused if it is not a number and its field is one. -/
theorem fill_fst (ht : TextOf q t) (p : Params) : (p.fill q t).1 = true ↔ q.Parses := by
  unfold Params.fill
  split
  · next c hname =>
    have hslot {s s' : Slot} (hs : q.name = [s.letter]) (hs' : q.name = [s'.letter]) : s' = s :=
      letter_injective (List.singleton_inj.mp (hs'.symm.trans hs))
    have hs := stores p t c
    generalize p.store c t id = r at hs
    cases hs with
    | @set s _ hread _ _ _ =>
      refine iff_of_true rfl fun s' hs' => ?_
      obtain rfl := hslot hname hs'
      have hholds := holds_of_reads ht hread
      cases s' with
      | key | value => trivial
      | delta => exact Option.isSome_of_eq_some hholds
      | number f => exact Option.isSome_of_eq_some hholds
    | @refused s _ hrefuse =>
      refine iff_of_false nofun fun hparses => ?_
      have hs := hparses s hname
      cases s with
      | key | value => exact hrefuse
      | delta =>
        have hnone : bytesToi64 q.value = none := ht.toi64.symm.trans hrefuse
        rw [Slot.Parses, hnone] at hs
        cases hs
      | number f =>
        have hnone : safeToui f.type.bits (.copy q.value) = none := (ht.toui f).symm.trans hrefuse
        rw [Slot.Parses, hnone] at hs
        cases hs
    | other hne =>
      refine iff_of_true rfl fun s hs => ?_
      exact absurd (List.singleton_inj.mp (hname.symm.trans hs)).symm (hne s)
  · next hname => exact iff_of_true rfl fun s hs => absurd hs (hname _)

/-- The content type that the fields hold in the end, after `t`. -/
def lastType (ending : Bytes) : Bytes → List (Part b) → Bytes
  | t, [] => t
  | t, q :: qs =>
    lastType ending
      (if q.name = ['v'.toUInt8] then (takenType (q.rest (body ending qs))).getD t else t) qs

/-- No name stands behind the last boundary. -/
theorem findPart_close (hend : ending = [] ∨ ending = crlf) :
    findPart b.bytes (b.bytes ++ (behind (b := b) ending [] ++ [0])) = some none := by
  have hdrop : (b.bytes ++ (behind (b := b) ending [] ++ [0])).drop (b.bytes.length + 2) =
      ending ++ [0] := by
    rw [← List.drop_drop, List.drop_left]
    rfl
  rw [findPart_eq_stop, hdrop]
  rcases hend with rfl | rfl
  · exact ⟨nofun, by decide⟩
  · exact ⟨nofun, by decide⟩

/-- The run over the parts from the first boundary on. -/
theorem processParts_run (hb : ∃ c ∈ b.bytes, c ≠ 45) (hend : ending = [] ∨ ending = crlf)
    (parts done : List (Part b)) (hstep : ∀ q ∈ parts, q.InStep)
    (hlen : ∀ q ∈ parts, q.value.length < 2 ^ 32) (hfuel : parts.length < fuel)
    (h : Filled p p₁ done) :
    ((∀ q ∈ parts, q.Parses) → ∃ p₂,
      p₁.processParts b.bytes fuel (b.bytes ++ (behind ending parts ++ [0])) = some (true, p₂) ∧
        Filled p p₂ (done ++ parts) ∧
        p₂.valueContentType = lastType ending p₁.valueContentType parts) ∧
    ((∃ q ∈ parts, ¬ q.Parses) → ∃ p₂,
      p₁.processParts b.bytes fuel (b.bytes ++ (behind ending parts ++ [0])) = some (false, p₂)) := by
  induction parts generalizing p₁ done fuel with
  | nil =>
    refine ⟨fun _ => ⟨p₁, ?_, ?_, rfl⟩, fun ⟨q, hq, _⟩ => absurd hq List.not_mem_nil⟩
    · cases fuel with
      | zero => exact absurd hfuel (Nat.not_lt_zero _)
      | succ fuel =>
        have hterm : Terminated (b.bytes ++ (behind (b := b) ending [] ++ [0])) :=
          ⟨b.bytes ++ behind (b := b) ending [], (List.append_assoc _ _ _).symm⟩
        rw [processParts_succ hterm, findPart_close hend]
    · rwa [List.append_nil]
  | cons q parts ih =>
    cases fuel with
    | zero => exact absurd hfuel (Nat.not_lt_zero _)
    | succ fuel =>
      have hq := hlen q List.mem_cons_self
      have ht : TextOf q ⟨q.value ++ (crlf ++ (body ending parts ++ [0])), q.value.length⟩ :=
        textOf_value hq _
      generalize hp : (if q.name = ['v'.toUInt8] then
        p₁.withType (q.rest (body ending parts)) else p₁) = p₁'
      have hfilled : Filled p p₁' done := by
        rw [← hp]
        split
        · exact filled_withType h _
        · exact h
      have htype : p₁'.valueContentType = if q.name = ['v'.toUInt8] then
          (takenType (q.rest (body ending parts))).getD p₁.valueContentType
          else p₁.valueContentType := by
        rw [← hp]
        split
        · rfl
        · rfl
      rw [processParts_part hb (hstep q List.mem_cons_self) hq, hp]
      have hfst := fill_fst ht p₁'
      cases hfill : p₁'.fill q ⟨q.value ++ (crlf ++ (body ending parts ++ [0])), q.value.length⟩ with
      | mk ok p₂ =>
        rw [hfill] at hfst
        cases ok with
        | false =>
          have hrefused : ¬ q.Parses := fun hparses => nomatch hfst.mpr hparses
          refine ⟨fun hall => absurd (hall q List.mem_cons_self) hrefused, fun _ => ⟨p₂, rfl⟩⟩
        | true =>
          have hparses := hfst.mp rfl
          obtain ⟨hnext, hkeep⟩ := filled_step hfilled ht hfill
          obtain ⟨hok, hfail⟩ := ih (done ++ [q]) (fun q' hq' => hstep q' (List.mem_cons_of_mem q hq'))
            (fun q' hq' => hlen q' (List.mem_cons_of_mem q hq')) (Nat.lt_of_succ_lt_succ hfuel) hnext
          constructor
          · intro hall
            obtain ⟨p₃, hrun, hfilled', htype'⟩ := hok fun q' hq' => hall q' (List.mem_cons_of_mem q hq')
            refine ⟨p₃, hrun, ?_, ?_⟩
            · rwa [List.append_assoc, List.singleton_append] at hfilled'
            · rw [htype', hkeep, htype]
              rfl
          · rintro ⟨q', hq', hno⟩
            rcases List.mem_cons.mp hq' with rfl | hq'
            · exact absurd hparses hno
            · exact hfail ⟨q', hq', hno⟩

/-! ## The content type -/

/-- The content type of a part is the first one behind its name. -/
theorem typeBehind_rest {u : Bytes} (hu : q.contentType = some u) (next : Bytes) :
    typeBehind (q.rest next) = some u := by
  obtain ⟨h0, h13⟩ := q.parameters_plain
  obtain ⟨⟨hu0, hu13⟩, hhead⟩ := q.contentType_plain u hu
  have hrest : q.rest next = q.parameters ++ (typeIs ++ (32 :: u ++ (crlf ++
      (crlf ++ (q.value ++ (crlf ++ next)))))) := by
    rw [Part.rest, Part.typeLine, hu, Option.elim_some, List.append_assoc]
  have hu32 : 0 ∉ 32 :: u := List.not_mem_cons_of_ne_of_not_mem (by decide) hu0
  have htext : cString (q.rest next) = q.parameters ++ (typeIs ++ (32 :: u ++ (crlf ++
      cString (crlf ++ (q.value ++ (crlf ++ next)))))) := by
    rw [hrest, cString_append_of_notMem h0, cString_append_of_notMem (by decide : 0 ∉ typeIs),
      cString_append_of_notMem hu32, cString_append_of_notMem (by decide : 0 ∉ crlf)]
  have hblank (w : Bytes) : (32 :: u ++ (crlf ++ w)).dropWhile (· = 32) = u ++ (crlf ++ w) := by
    rw [List.cons_append, List.dropWhile_cons_of_pos (by decide)]
    cases u with
    | nil => rfl
    | cons c u =>
      rw [List.cons_append, List.dropWhile_cons_of_neg]
      rw [decide_eq_true_iff]
      rintro rfl
      exact hhead rfl
  have hend (w : Bytes) : cut crlf (u ++ (crlf ++ w)) = some (u, w) :=
    cut_of_first (first_of_notMem hu13 [10]) w
  have hfirst : First typeIs q.parameters := first_of_notMem h13 (10 :: ascii "Content-Type:")
  rw [typeBehind, htext, cut_of_first hfirst, Option.bind_some, hblank, hend]
  rfl

theorem takenType_iff (q : Part b) (next : Bytes) :
    (takenType (q.rest next)).getD [] = q.contentType.getD [] ↔ q.TypeFound next := by
  unfold Part.TypeFound takenType
  cases ht : q.contentType with
  | some u =>
    rw [typeBehind_rest ht, Option.filter_some, Option.getD_some]
    split
    · next hlt => exact iff_of_true rfl (of_decide_eq_true hlt)
    · next hle =>
      have hle : ¬ u.length < 128 := fun h => hle (decide_eq_true h)
      refine iff_of_false (fun h => ?_) hle
      rw [← h] at hle
      exact hle (by decide)
  | none =>
    rw [Option.getD_none]
    cases htype : typeBehind (q.rest next) with
    | none => exact iff_of_true rfl nofun
    | some u =>
      rw [Option.filter_some]
      split
      · next hlt =>
        have hlt := of_decide_eq_true hlt
        rw [Option.getD_some]
        constructor
        · rintro rfl t ht
          exact .inl (Option.some.inj ht).symm
        · intro h
          exact (h u rfl).resolve_right (Nat.not_le_of_lt hlt)
      · next hle =>
        refine iff_of_true rfl fun t ht => .inr ?_
        obtain rfl := Option.some.inj ht
        exact Nat.le_of_not_lt fun h => hle (decide_eq_true h)

theorem lastType_of_none (ending : Bytes) (h : ∀ q ∈ parts, q.name ≠ ['v'.toUInt8]) (u : Bytes) :
    lastType ending u parts = u ∧ TypesFound ending parts := by
  induction parts generalizing u with
  | nil => exact ⟨rfl, trivial⟩
  | cons q parts ih =>
    have hq := h q List.mem_cons_self
    obtain ⟨hlast, hfound⟩ := ih (fun q' hq' => h q' (List.mem_cons_of_mem q hq')) u
    refine ⟨?_, fun hv => absurd hv hq, hfound⟩
    rw [lastType, if_neg hq, hlast]

/-- With one part called `v` at most. -/
theorem lastType_iff (h : (parts.filter (·.name = ['v'.toUInt8])).length ≤ 1) :
    lastType ending [] parts = ((named 'v'.toUInt8 parts).bind Part.contentType).getD [] ↔
      TypesFound ending parts := by
  induction parts with
  | nil => exact iff_of_true rfl trivial
  | cons q parts ih =>
    rw [lastType, TypesFound, named]
    by_cases hq : q.name = ['v'.toUInt8]
    · have hcons : (q :: parts).filter (·.name = ['v'.toUInt8]) =
          q :: parts.filter (·.name = ['v'.toUInt8]) := List.filter_cons_of_pos (decide_eq_true hq)
      rw [hcons] at h ⊢
      have hnil : parts.filter (·.name = ['v'.toUInt8]) = [] := by
        rw [List.length_cons] at h
        exact List.length_eq_zero_iff.mp (by omega)
      have hnone : ∀ q' ∈ parts, q'.name ≠ ['v'.toUInt8] := fun q' hq' hv =>
        List.filter_eq_nil_iff.mp hnil q' hq' (decide_eq_true hv)
      obtain ⟨hlast, hfound⟩ := lastType_of_none ending hnone
        ((takenType (q.rest (body ending parts))).getD [])
      rw [if_pos hq, hlast, hnil, List.getLast?_singleton, Option.bind_some, takenType_iff]
      exact ⟨fun h => ⟨fun _ => h, hfound⟩, fun h => h.1 hq⟩
    · have hcons : (q :: parts).filter (·.name = ['v'.toUInt8]) =
          parts.filter (·.name = ['v'.toUInt8]) :=
        List.filter_cons_of_neg (by rwa [decide_eq_true_iff])
      rw [hcons] at h ⊢
      rw [if_neg hq, ← named, ih h]
      exact ⟨fun h => ⟨fun hv => absurd hv hq, h⟩, fun h => h.2⟩

/-! ## The whole body -/

/-- The boundary that the header field names is taken as it stands. -/
theorem setContentType_multipart (h : HttpRequest) (b : Boundary) :
    h.setContentType (ascii "multipart/form-data; boundary=" ++ b.bytes) =
      { h with contentType := ascii "multipart/form-data", boundary := b.bytes } := by
  have hne : 0 < b.bytes.length := List.length_pos_iff.mpr b.nonempty
  have hlength : (ascii "multipart/form-data; boundary=" ++ b.bytes).length = 30 + b.bytes.length :=
    List.length_append
  have hurl : strcasecmp ((ascii "multipart/form-data; boundary=" ++ b.bytes).take 33)
      (ascii "application/x-www-form-urlencoded") = false := by
    rw [List.take_append, strcasecmp, List.map_append]
    rfl
  have htake : (ascii "multipart/form-data; boundary=" ++ b.bytes).take 19 =
      ascii "multipart/form-data" := by
    rw [List.take_append_of_le_length (by decide)]
    decide
  have hdrop : (ascii "multipart/form-data; boundary=" ++ b.bytes).drop 19 =
      ascii "; " ++ (ascii "boundary=" ++ b.bytes) := by
    rw [List.drop_append_of_le_length (by decide)]
    rfl
  have hcut : cut (ascii "boundary=") (cString (ascii "; " ++ (ascii "boundary=" ++ b.bytes))) =
      some (ascii "; ", b.bytes) := by
    rw [cString_append_of_notMem (by decide), cString_append_of_notMem (by decide),
      cString_eq b.plain.1]
    exact cut_of_first (by decide) b.bytes
  have hboundary : (ascii "multipart/form-data; boundary=" ++ b.bytes).drop
      (19 + (ascii "; ").length + 9) = b.bytes := List.drop_left' (by decide)
  rw [HttpRequest.setContentType, if_neg (by rw [hurl]; exact fun h => nomatch h.2), htake,
    if_pos ⟨by omega, by decide⟩, hdrop, hcut]
  dsimp only
  rw [hboundary]

theorem length_body (ending : Bytes) (parts : List (Part b)) :
    parts.length < (body ending parts).length ∧
      ∀ q ∈ parts, q.value.length ≤ (body ending parts).length := by
  induction parts with
  | nil => exact ⟨Nat.zero_lt_succ _, nofun⟩
  | cons q parts ih =>
    obtain ⟨hparts, hvalues⟩ := ih
    have hbody : (body ending (q :: parts)).length = 2 + (b.bytes.length + (2 + (31 + (7 +
        (q.name.length + (q.parameters.length + (q.typeLine.length + (2 + (2 + (q.value.length +
          (2 + (body ending parts).length))))) + 1)))))) := by
      have h2 : dashes.length = 2 := by decide
      have h31 : (ascii "Content-Disposition: form-data;").length = 31 := by decide
      have h7 : nameIs.length = 7 := by decide
      have hcrlf : crlf.length = 2 := rfl
      simp only [body, behind, Part.rest, List.length_append, List.length_cons, h2, h31, h7, hcrlf]
    refine ⟨?_, fun q' hq' => ?_⟩
    · rw [List.length_cons]
      omega
    · rcases List.mem_cons.mp hq' with rfl | hq'
      · omega
      · have h := hvalues q' hq'
        omega

/-! ## The command -/

theorem valueContentType_store (p : Params) (c : UInt8) (t : Text) (decode : Text → Text) :
    (p.store c t decode).2.valueContentType = p.valueContentType := by
  have hnumber {ν : Type} (r : Option ν) (p' : Params) (set : ν → Params)
      (hp : p'.valueContentType = p.valueContentType)
      (hset : ∀ n, (set n).valueContentType = p.valueContentType) :
      (p'.number r set).2.valueContentType = p.valueContentType := by
    cases r with
    | none => exact hp
    | some n => exact hset n
  simp only [Params.store, apply_ite Prod.snd, apply_ite Params.valueContentType, hnumber,
    implies_true, ite_self]

theorem valueContentType_processArgs (p : Params) (args : List Bytes) :
    (p.processArgs args).2.valueContentType = p.valueContentType := by
  have hone (p : Params) (arg : Bytes) :
      (p.processArg arg).2.valueContentType = p.valueContentType := by
    unfold Params.processArg
    split
    · exact valueContentType_store p _ _ _
    · rfl
  induction args generalizing p with
  | nil => rfl
  | cons arg args ih =>
    have harg := hone p arg
    rw [Params.processArgs]
    split
    · next h =>
      rw [h] at harg
      exact (ih _).trans harg
    · next h =>
      rw [h] at harg
      exact harg

/-- The content type is not an argument. -/
theorem valueContentType_processCommand (s : Settings) (p : Params) :
    (processCommand s p).2.valueContentType = p.valueContentType := by
  unfold processCommand
  dsimp only
  split
  · split
    · next args _ =>
      have hargs := valueContentType_processArgs p (args.splitOn 38)
      rw [Params.processRequestArg]
      split
      · next h =>
        rw [h] at hargs
        exact hargs
      · next h =>
        rw [h] at hargs
        exact hargs
    · rfl
  · rfl

section Request

variable {s : Settings} {h : HttpRequest}

/-- The body of a multipart request is parsed from the first boundary on. -/
theorem processPost_multipart
    (hhttp : p.http = h.setContentType (ascii "multipart/form-data; boundary=" ++ b.bytes))
    (m : Bytes) : processPost s p m =
      match memfind m b.bytes with
      | none => some (processCommand s p)
      | some (before, _) =>
        match p.processParts b.bytes m.length ((m ++ [0]).drop before.length) with
        | some (true, p) => some (processCommand s p)
        | some (false, p) => some (.error .invalidParameter, p)
        | none => none := by
  rw [setContentType_multipart] at hhttp
  have htype : p.http.contentType = ascii "multipart/form-data" := by rw [hhttp]
  have hboundary : p.http.boundary = b.bytes := by rw [hhttp]
  have hurl : ¬ strcasecmp (ascii "multipart/form-data")
      (ascii "application/x-www-form-urlencoded") = true := by decide
  have hform : strcasecmp (ascii "multipart/form-data") (ascii "multipart/form-data") = true := by
    decide
  rw [processPost, htype, if_neg hurl, hboundary]
  exact if_pos ⟨hform, b.nonempty⟩

/-- The parts that are parsed, or the first one that is not a number. -/
theorem form_parsed
    (hhttp : p.http = h.setContentType (ascii "multipart/form-data; boundary=" ++ b.bytes))
    (hb : ∃ c ∈ b.bytes, c ≠ 45) (hstep : ∀ q ∈ parts, q.InStep)
    (hend : ending = [] ∨ ending = crlf) (hlen : (body ending parts).length < 2 ^ 32) :
    ((∀ q ∈ parts, q.Parses) → ∃ p', processPost s p (body ending parts) = some (processCommand s p') ∧
      Filled p p' parts ∧ p'.valueContentType = lastType ending p.valueContentType parts) ∧
    ((∃ q ∈ parts, ¬ q.Parses) →
      ∃ p', processPost s p (body ending parts) = some (.error .invalidParameter, p')) := by
  have hfind : memfind (body ending parts) b.bytes = some (dashes, behind ending parts) :=
    cut_of_first (first_replicate hb 2) _
  have hdrop : (body ending parts ++ [0]).drop dashes.length =
      b.bytes ++ (behind ending parts ++ [0]) := by
    rw [body, List.append_assoc, List.drop_left, List.append_assoc]
  have hpost := processPost_multipart (s := s) hhttp (body ending parts)
  rw [hfind] at hpost
  dsimp only at hpost
  rw [hdrop] at hpost
  have hnone : Filled p p ([] : List (Part b)) := by
    refine ⟨fun s => ?_, (Bool.or_false _).symm, rfl⟩
    cases s <;> rfl
  obtain ⟨hparts, hvalues⟩ := length_body ending parts
  obtain ⟨hok, hfail⟩ := processParts_run hb hend parts [] hstep
    (fun q hq => (hvalues q hq).trans_lt hlen) hparts hnone
  constructor
  · intro hparses
    obtain ⟨p', hrun, hfilled, htype⟩ := hok hparses
    rw [hrun] at hpost
    exact ⟨p', hpost, hfilled, htype⟩
  · intro hparses
    obtain ⟨p', hrun⟩ := hfail hparses
    rw [hrun] at hpost
    exact ⟨p', hpost⟩

/-- The fields are decoded exactly when the content type is found. -/
theorem decoded_iff
    (hhttp : p.http = h.setContentType (ascii "multipart/form-data; boundary=" ++ b.bytes))
    (hnew : p.valueContentType = []) (hend : ending = [] ∨ ending = crlf)
    (hone : (parts.filter (·.name = ['v'.toUInt8])).length ≤ 1)
    (hlen : (body ending parts).length < 2 ^ 32) (hb : ∃ c ∈ b.bytes, c ≠ 45)
    (hstep : ∀ q ∈ parts, q.InStep) (hparses : ∀ q ∈ parts, q.Parses) :
    (∃ p', processPost s p (body ending parts) = some (processCommand s p') ∧ Decoded p p' parts) ↔
      TypesFound ending parts := by
  obtain ⟨p₁, hpost, hfilled, htype⟩ := (form_parsed (s := s) hhttp hb hstep hend hlen).1 hparses
  rw [hnew] at htype
  rw [← lastType_iff hone, ← htype]
  constructor
  · rintro ⟨p', hpost', hdecoded⟩
    -- the command leaves the content type alone, so that it can be told which one there was
    have hcommand := congrArg (fun r => r.2.valueContentType)
      (Option.some.inj (hpost.symm.trans hpost'))
    rw [valueContentType_processCommand, valueContentType_processCommand] at hcommand
    exact hcommand.trans hdecoded.valueContentType
  · intro h
    exact ⟨p₁, hpost, hfilled, h⟩

end Request

/-! ## Bodies of any form -/

section Body

variable {boundary m w : Bytes} {fuel' : Nat}

/-- Whether a value is taken depends on the value alone. -/
theorem store_fst (p p' : Params) (c : UInt8) (t : Text) :
    (p.store c t id).1 = (p'.store c t id).1 := by
  have hnumber {ν : Type} (r : Option ν) (p : Params) (set : ν → Params) :
      (p.number r set).1 = r.isSome := by
    cases r <;> rfl
  simp only [Params.store, apply_ite Prod.fst, hnumber]

theorem stored_fst (p p' : Params) (name : Bytes) (n : Nat) (t : Text) :
    (p.stored name n t).1 = (p'.stored name n t).1 := by
  unfold Params.stored
  split
  · exact store_fst p p' _ t
  · rfl

/-- The memory of a value. -/
theorem terminated_value (h : Terminated mem)
    (hfind : findPart boundary mem = some (some (name, n, value))) :
    Terminated value ∧ value.length + boundary.length + 15 ≤ mem.length := by
  obtain ⟨a, h', hmem, -, -, hname, -, -, -⟩ := findPart_eq_found.mp hfind
  have hne : mem.drop (boundary.length + 2) ≠ [] := by
    rw [hmem]
    exact List.append_ne_nil_of_right_ne_nil a (List.cons_ne_nil _ _)
  have hne' : name.drop 2 ≠ [] := by
    rw [hname]
    exact List.append_ne_nil_of_right_ne_nil h' (List.cons_ne_nil _ _)
  constructor
  · have hbuf := terminated_of_suffix h (List.drop_suffix _ mem) hne
    rw [hmem] at hbuf
    have hbehind := terminated_behind hbuf (by decide) (by decide)
    have hrest := terminated_of_suffix hbehind (List.drop_suffix 2 name) hne'
    rw [hname, ← List.append_assoc crlf] at hrest
    exact terminated_behind hrest (by decide) (by decide)
  · have hlen := congrArg List.length hmem
    have hlen' := congrArg List.length hname
    have h7 : nameIs.length = 7 := by decide
    have hcrlf : crlf.length = 2 := rfl
    simp only [List.length_drop, List.length_append, h7, hcrlf] at hlen hlen'
    omega

/-- The next iteration starts at the boundary behind the value. -/
theorem drop_value {v x : Bytes} (h : Terminated value)
    (hcut : memfind value.dropLast boundary = some (v, x)) :
    value.drop v.length = boundary ++ (x ++ [0]) ∧
      value.length = v.length + boundary.length + x.length + 1 := by
  obtain ⟨y, rfl⟩ := h
  rw [List.dropLast_concat] at hcut
  obtain rfl : y = v ++ (boundary ++ x) := eq_of_cut hcut
  constructor
  · rw [List.append_assoc, List.drop_left, List.append_assoc]
  · simp only [List.length_append, List.length_singleton]
    omega

/-- With fuel for every byte the loop comes to its end by itself. -/
theorem processParts_enough (hne : boundary ≠ []) (hmem : Terminated mem) (hlong : 2 ≤ mem.length)
    (hfuel : mem.length ≤ fuel + 1) (hfuel' : mem.length ≤ fuel' + 1) (p : Params) :
    p.processParts boundary fuel mem = p.processParts boundary fuel' mem := by
  induction fuel generalizing fuel' mem p with
  | zero => omega
  | succ fuel ih =>
    cases fuel' with
    | zero => omega
    | succ fuel' =>
      rw [processParts_succ hmem, processParts_succ hmem]
      cases hfind : findPart boundary mem with
      | none => rfl
      | some found =>
        cases found with
        | none => rfl
        | some found =>
          obtain ⟨name, n, value⟩ := found
          obtain ⟨hterm, hshort⟩ := terminated_value hmem hfind
          dsimp only
          cases hcut : memfind value.dropLast boundary with
          | none => rfl
          | some r =>
            obtain ⟨v, x⟩ := r
            obtain ⟨hdrop, hlength⟩ := drop_value hterm hcut
            have hbound : 0 < boundary.length := List.length_pos_iff.mpr hne
            have hnext : (boundary ++ (x ++ [0])).length = boundary.length + x.length + 1 := by
              simp only [List.length_append, List.length_singleton]
              omega
            have hterm' : Terminated (boundary ++ (x ++ [0])) :=
              ⟨boundary ++ x, (List.append_assoc _ _ _).symm⟩
            dsimp only
            cases (p.typed name n).stored name n (valueText value v) with
            | mk ok p' =>
              cases ok with
              | false => rfl
              | true =>
                rw [hdrop]
                exact ih hterm' (by omega) (by omega) (by omega) p'

/-- The loop comes to its end inside the body. -/
theorem processParts_of_staysInside (h : StaysInside boundary mem) (hmem : Terminated mem)
    (p : Params) (fuel : Nat) : ∃ r, p.processParts boundary fuel mem = some r := by
  induction h generalizing p fuel with
  | stop hstop =>
    cases fuel with
    | zero => exact ⟨_, rfl⟩
    | succ fuel =>
      rw [processParts_succ hmem, hstop]
      exact ⟨_, rfl⟩
  | @part mem name value n hfind _ _ ih =>
    cases fuel with
    | zero => exact ⟨_, rfl⟩
    | succ fuel =>
      obtain ⟨hterm, -⟩ := terminated_value hmem hfind
      rw [processParts_succ hmem, hfind]
      dsimp only
      cases hcut : memfind value.dropLast boundary with
      | none => exact ⟨_, rfl⟩
      | some r =>
        obtain ⟨v, x⟩ := r
        obtain ⟨hdrop, -⟩ := drop_value hterm hcut
        have hfst := stored_fst (p.typed name n) Params.new name n (valueText value v)
        dsimp only
        cases hstored : (p.typed name n).stored name n (valueText value v) with
        | mk ok p' =>
          cases ok with
          | false => exact ⟨_, rfl⟩
          | true =>
            rw [hstored] at hfst
            refine ih v x hcut hfst.symm ?_ p' fuel
            rw [hdrop]
            exact ⟨boundary ++ x, (List.append_assoc _ _ _).symm⟩

theorem nameLength_eq_one : nameLength name = 1 ↔ ∃ c w, name = c :: 34 :: w ∧ c ≠ 0 ∧ c ≠ 34 := by
  constructor
  · intro hone
    unfold nameLength at hone
    cases hcut : cut [34] (cString name) with
    | none =>
      rw [hcut] at hone
      cases hone
    | some r =>
      obtain ⟨l, z⟩ := r
      rw [hcut] at hone
      obtain ⟨c, rfl⟩ := List.length_eq_one_iff.mp hone
      obtain ⟨htext, h34⟩ := of_cut_singleton hcut
      obtain ⟨rest, hname, -⟩ := cString_rest name
      refine ⟨c, z ++ rest, ?_, ?_, fun h => h34 (h ▸ List.mem_cons_self)⟩
      · rw [hname, htext]
        rfl
      · rintro rfl
        exact zero_notMem_cString name (htext ▸ List.mem_cons_self)
  · rintro ⟨c, w, rfl, h0, h34⟩
    have hc0 : 0 ∉ [c] := fun h => h0 (List.mem_singleton.mp h).symm
    have hc34 : 34 ∉ [c] := fun h => h34 (List.mem_singleton.mp h).symm
    have htext : cString ([c] ++ ([34] ++ w)) = [c] ++ ([34] ++ cString w) := by
      rw [cString_append_of_notMem hc0, cString_append_of_notMem (by decide : (0 : UInt8) ∉ [34])]
    rw [nameLength, show c :: 34 :: w = [c] ++ ([34] ++ w) from rfl, htext,
      cut_of_first (first_of_notMem hc34 [])]
    rfl

theorem letter_ne (s : Slot) : s.letter ≠ 0 ∧ s.letter ≠ 34 := by
  cases s with
  | number f => cases f <;> decide
  | key | value | delta => decide

/-- The name has the letter of a field. -/
theorem named_iff {c₃ c₄ : UInt8} (s : Slot) (w : Bytes) :
    (nameLength (c₃ :: c₄ :: w) = 1 ∧ (c₃ :: c₄ :: w).head? = some s.letter) ↔
      [c₃, c₄] = [s.letter, 34] := by
  rw [nameLength_eq_one]
  constructor
  · rintro ⟨⟨c, w', hname, -, -⟩, hhead⟩
    obtain ⟨-, htail⟩ := List.cons.inj hname
    obtain ⟨rfl, -⟩ := List.cons.inj htail
    obtain rfl := Option.some.inj hhead
    rfl
  · intro h
    obtain ⟨rfl, htail⟩ := List.cons.inj h
    obtain ⟨rfl, -⟩ := List.cons.inj htail
    obtain ⟨h0, h34⟩ := letter_ne s
    exact ⟨⟨s.letter, w, rfl, h0, h34⟩, rfl⟩

/-- The length of the text of a value wraps around if there are not four bytes. -/
theorem inside_valueText {v : Bytes} (hv : v.length ≤ w.length) (hlen : w.length + 8 < 2 ^ 32) :
    (valueText (w ++ [0]) v).Inside ↔ 4 ≤ v.length := by
  unfold Text.Inside valueText
  dsimp only
  rw [List.length_append, List.length_singleton]
  omega

theorem valueText_of_le {v : Bytes} (hv : 4 ≤ v.length) (hlen : v.length < 2 ^ 32) (value : Bytes) :
    valueText value v = ⟨value, v.length - 4⟩ := by
  have hmod : (v.length + (2 ^ 32 - 4)) % 2 ^ 32 = v.length - 4 := by omega
  rw [valueText, hmod]

/-- What is taken, in the words of `Tidy`. -/
theorem stored_iff {c₃ c₄ : UInt8} {v : Bytes} (hlen : v.length < 2 ^ 32)
    (hlong : ∀ s : Slot, [c₃, c₄] = [s.letter, 34] → 4 ≤ v.length) (y value : Bytes) :
    (p.stored (c₃ :: c₄ :: y) (nameLength (c₃ :: c₄ :: y)) (valueText value v)).1 = true ↔
      (c₄ = 34 → (p.store c₃ ⟨value, v.length - 4⟩ id).1 = true) := by
  have hother (h : ∀ s : Slot, s.letter ≠ c₃) (t : Text) : (p.store c₃ t id).1 = true := by
    have hs := stores p t c₃
    generalize p.store c₃ t id = r at hs
    cases hs with
    | set _ _ _ _ => rfl
    | @refused s _ _ => exact absurd rfl (h s)
    | other _ => rfl
  by_cases hs : ∃ s : Slot, s.letter = c₃
  · obtain ⟨s, rfl⟩ := hs
    by_cases h34 : c₄ = 34
    · subst h34
      have hone := ((named_iff s y).mpr rfl).1
      rw [Params.stored, if_pos hone, valueText_of_le (hlong s rfl) hlen]
      exact ⟨fun h _ => h, fun h => h rfl⟩
    · have hone : nameLength (s.letter :: c₄ :: y) ≠ 1 := by
        rw [Ne, nameLength_eq_one]
        rintro ⟨c, w, h, -, -⟩
        exact h34 (List.cons.inj (List.cons.inj h).2).1
      rw [Params.stored, if_neg hone]
      exact iff_of_true rfl fun h => absurd h h34
  · have hne (s : Slot) : s.letter ≠ c₃ := fun h => hs ⟨s, h⟩
    refine iff_of_true ?_ fun _ => hother hne _
    unfold Params.stored
    split
    · exact hother hne _
    · rfl

/-- A text of two bytes and more. -/
theorem drop_terminated {y : Bytes} (hy : y ≠ []) (h : (m ++ [0]).drop 2 = y) :
    ∃ c₁ c₂ x, m = c₁ :: c₂ :: x ∧ y = x ++ [0] := by
  cases m with
  | nil => exact absurd h.symm hy
  | cons c₁ m =>
    cases m with
    | nil => exact absurd h.symm hy
    | cons c₂ x => exact ⟨c₁, c₂, x, rfl, h.symm⟩

theorem drop_boundary (boundary m : Bytes) :
    (boundary ++ (m ++ [0])).drop (boundary.length + 2) = (m ++ [0]).drop 2 := by
  rw [← List.drop_drop, List.drop_left]

theorem tidy_of_staysInside (h : StaysInside boundary mem) (hmem : mem = boundary ++ (m ++ [0]))
    (hlen : m.length < 2 ^ 32) : Tidy boundary m := by
  induction h generalizing m with
  | stop hstop =>
    subst hmem
    obtain ⟨hne, hnot⟩ := findPart_eq_stop.mp hstop
    rw [drop_boundary] at hne hnot
    obtain ⟨c₁, c₂, x, rfl, hx⟩ := drop_terminated hne rfl
    rw [hx, cString_concat] at hnot
    exact .noName hnot
  | @part mem name value n hfind hinside _ ih =>
    subst hmem
    have hterm : Terminated (boundary ++ (m ++ [0])) := ⟨boundary ++ m, (List.append_assoc _ _ _).symm⟩
    obtain ⟨hvalue, hshort⟩ := terminated_value hterm hfind
    obtain ⟨a, h', hbuf, ha, hfirst, hname, hh, hempty, rfl⟩ := findPart_eq_found.mp hfind
    obtain ⟨w, rfl⟩ := hvalue
    -- the two bytes behind the first quote, and the text behind the boundary
    obtain ⟨c₃, c₄, rfl⟩ : ∃ c₃ c₄, name = c₃ :: c₄ :: (h' ++ (crlf ++ (crlf ++ (w ++ [0])))) := by
      cases name with
      | nil => exact absurd hname.symm (List.append_ne_nil_of_right_ne_nil h' (List.cons_ne_nil _ _))
      | cons c₃ name =>
        cases name with
        | nil => exact absurd hname.symm (List.append_ne_nil_of_right_ne_nil h' (List.cons_ne_nil _ _))
        | cons c₄ name =>
          obtain rfl : name = h' ++ (crlf ++ (crlf ++ (w ++ [0]))) := hname
          exact ⟨c₃, c₄, rfl⟩
    rw [drop_boundary] at hbuf
    have hne : a ++ (nameIs ++ (c₃ :: c₄ :: (h' ++ (crlf ++ (crlf ++ (w ++ [0])))))) ≠ [] :=
      List.append_ne_nil_of_right_ne_nil a (List.cons_ne_nil _ _)
    obtain ⟨c₁, c₂, x, rfl, hx⟩ := drop_terminated hne hbuf
    obtain rfl : x = a ++ (nameIs ++ (c₃ :: c₄ :: (h' ++ (crlf ++ (crlf ++ w))))) := by
      refine List.append_cancel_right (hx.symm.trans ?_)
      simp only [List.append_assoc, List.cons_append]
    rw [List.dropLast_concat] at hinside ih
    have hw : w.length + 15 ≤ (c₁ :: c₂ :: (a ++ (nameIs ++ (c₃ :: c₄ ::
        (h' ++ (crlf ++ (crlf ++ w))))))).length := by
      simp only [List.length_append, List.length_singleton] at hshort
      omega
    have hlong (v x : Bytes) (hcut : cut boundary w = some (v, x)) (s : Slot)
        (hs : [c₃, c₄] = [s.letter, 34]) : 4 ≤ v.length := by
      obtain ⟨hone, hhead⟩ := (named_iff s (h' ++ (crlf ++ (crlf ++ (w ++ [0]))))).mpr hs
      have hv := length_le_of_cut hcut
      exact (inside_valueText (by omega) (by omega)).mp (hinside v x hcut s hone hhead)
    refine .part ⟨ha, hfirst⟩ ⟨hh, hempty⟩ hlong fun v x hcut htaken => ?_
    have hv := length_le_of_cut hcut
    have hstored := (stored_iff (p := Params.new) (by omega) (hlong v x hcut)
      (h' ++ (crlf ++ (crlf ++ (w ++ [0])))) (w ++ [0])).mpr htaken
    obtain rfl := eq_of_cut hcut
    refine ih v x hcut hstored ?_ ?_
    · rw [List.append_assoc, List.drop_left, List.append_assoc]
    · rw [List.length_append, List.length_append] at hw
      omega

theorem staysInside_of_tidy (h : Tidy boundary m) (hlen : m.length < 2 ^ 32) :
    StaysInside boundary (boundary ++ (m ++ [0])) := by
  induction h with
  | @noName c₁ c₂ x hnot =>
    refine .stop (findPart_eq_stop.mpr ?_)
    rw [drop_boundary]
    refine ⟨List.append_ne_nil_of_right_ne_nil x (List.cons_ne_nil 0 []), ?_⟩
    rwa [← cString_concat] at hnot
  | @part c₁ c₂ c₃ c₄ a h' w hname hempty hlong _ ih =>
    have hfind : findPart boundary (boundary ++ ((c₁ :: c₂ :: (a ++ (nameIs ++ (c₃ :: c₄ ::
        (h' ++ (crlf ++ (crlf ++ w))))))) ++ [0])) =
        some (some (c₃ :: c₄ :: (h' ++ (crlf ++ (crlf ++ (w ++ [0])))),
          nameLength (c₃ :: c₄ :: (h' ++ (crlf ++ (crlf ++ (w ++ [0]))))), w ++ [0])) := by
      refine findPart_eq_found.mpr ⟨a, h', ?_, hname.1, hname.2, rfl, hempty.1, hempty.2, rfl⟩
      rw [drop_boundary]
      simp only [List.cons_append, List.drop_succ_cons, List.drop_zero, List.append_assoc]
    have hw : w.length + 15 ≤ (c₁ :: c₂ :: (a ++ (nameIs ++ (c₃ :: c₄ ::
        (h' ++ (crlf ++ (crlf ++ w))))))).length := by
      have h7 : nameIs.length = 7 := by decide
      have hcrlf : crlf.length = 2 := rfl
      simp only [List.length_append, List.length_cons, h7, hcrlf]
      omega
    refine .part hfind (fun v x hcut s hone hhead => ?_) fun v x hcut hstored => ?_
    · rw [List.dropLast_concat] at hcut
      have hv := length_le_of_cut hcut
      exact (inside_valueText (by omega) (by omega)).mpr
        (hlong v x hcut s ((named_iff s _).mp ⟨hone, hhead⟩))
    · rw [List.dropLast_concat] at hcut
      have hv := length_le_of_cut hcut
      have htaken := (stored_iff (by omega) (hlong v x hcut) _ _).mp hstored
      have hnext := ih v x hcut htaken
      obtain rfl := eq_of_cut hcut
      rw [List.append_assoc, List.drop_left, List.append_assoc]
      refine hnext ?_
      rw [List.length_append, List.length_append] at hw
      omega

theorem staysInside_iff (hlen : m.length < 2 ^ 32) :
    StaysInside boundary (boundary ++ (m ++ [0])) ↔ Tidy boundary m :=
  ⟨fun h => tidy_of_staysInside h rfl hlen, fun h => staysInside_of_tidy h hlen⟩

/-- The pointers into a form stay in it. -/
theorem staysInside_form (hb : ∃ c ∈ b.bytes, c ≠ 45) (hend : ending = [] ∨ ending = crlf)
    (hstep : ∀ q ∈ parts, q.InStep) (hlen : ∀ q ∈ parts, q.value.length < 2 ^ 32) :
    StaysInside b.bytes (b.bytes ++ (behind ending parts ++ [0])) := by
  induction parts with
  | nil => exact .stop (findPart_close hend)
  | cons q parts ih =>
    obtain ⟨hfind, hnext⟩ := memfind_next hb ending q parts
    have hq := hlen q List.mem_cons_self
    rw [behind_cons]
    refine .part (findPart_part (hstep q List.mem_cons_self) (body ending parts))
      (fun v x hcut _ _ _ => ?_) fun v x hcut _ => ?_
    · rw [hfind] at hcut
      cases hcut
      rw [valueText_part hq, Text.Inside, List.length_append]
      exact Nat.le_add_right _ _
    · rw [hfind] at hcut
      cases hcut
      rw [hnext]
      exact ih (fun q' hq' => hstep q' (List.mem_cons_of_mem q hq'))
        fun q' hq' => hlen q' (List.mem_cons_of_mem q hq')

end Body

theorem parses_of_slot {s : Slot} (hname : q.name = [s.letter]) (h : s.Parses q.value) : q.Parses :=
  fun _ hs' => letter_injective (List.singleton_inj.mp (hname.symm.trans hs')) ▸ h

end MultipartLemmas

open MultipartLemmas

/-- A form is decoded exactly, if it is in step, when the content type of `v` is found; and for any
body, the pointers stay inside exactly when it is tidy, and the loop ends. -/
theorem form_decoded {b : Boundary} {s : Settings} {p : Params} {h : HttpRequest} {ending m : Bytes}
    {parts : List (Part b)}
    (hhttp : p.http = h.setContentType (ascii "multipart/form-data; boundary=" ++ b.bytes))
    (hnew : p.valueContentType = []) (hend : ending = [] ∨ ending = crlf)
    (hone : (parts.filter (·.name = ['v'.toUInt8])).length ≤ 1)
    (hlen : (body ending parts).length < 2 ^ 32) (hm : m.length < 2 ^ 32) :
    ((∃ c ∈ b.bytes, c ≠ 45) → (∀ q ∈ parts, q.InStep) →
      StaysInside b.bytes ((body ending parts ++ [0]).drop 2) ∧
      ((∀ q ∈ parts, q.Parses) →
        ((∃ p', processPost s p (body ending parts) = some (processCommand s p') ∧
          Decoded p p' parts) ↔ TypesFound ending parts)) ∧
      ((∃ q ∈ parts, ¬ q.Parses) →
        ∃ p', processPost s p (body ending parts) = some (.error .invalidParameter, p'))) ∧
    ∀ before x, memfind m b.bytes = some (before, x) →
      (StaysInside b.bytes ((m ++ [0]).drop before.length) ↔ Tidy b.bytes x) ∧
      (Tidy b.bytes x → (processPost s p m).isSome) ∧
      ∀ fuel, m.length ≤ fuel →
        p.processParts b.bytes fuel ((m ++ [0]).drop before.length) =
          p.processParts b.bytes m.length ((m ++ [0]).drop before.length) := by
  refine ⟨fun hb hstep => ?_, fun before x hfind => ?_⟩
  · obtain ⟨-, hvalues⟩ := length_body ending parts
    have hdrop : (body ending parts ++ [0]).drop 2 = b.bytes ++ (behind ending parts ++ [0]) := by
      rw [body, List.append_assoc, List.append_assoc]
      rfl
    refine ⟨?_, decoded_iff hhttp hnew hend hone hlen hb hstep,
      (form_parsed hhttp hb hstep hend hlen).2⟩
    rw [hdrop]
    exact staysInside_form hb hend hstep fun q hq => (hvalues q hq).trans_lt hlen
  · have hm' : m = before ++ (b.bytes ++ x) := eq_of_cut hfind
    have hdrop : (m ++ [0]).drop before.length = b.bytes ++ (x ++ [0]) := by
      rw [hm', List.append_assoc, List.drop_left, List.append_assoc]
    have hterm : Terminated (b.bytes ++ (x ++ [0])) :=
      ⟨b.bytes ++ x, (List.append_assoc _ _ _).symm⟩
    have hbound : 0 < b.bytes.length := List.length_pos_iff.mpr b.nonempty
    have hlength := congrArg List.length hm'
    simp only [List.length_append] at hlength
    have hiff : StaysInside b.bytes (b.bytes ++ (x ++ [0])) ↔ Tidy b.bytes x :=
      staysInside_iff (by omega)
    rw [hdrop]
    refine ⟨hiff, fun htidy => ?_, fun fuel hfuel => ?_⟩
    · obtain ⟨r, hr⟩ := processParts_of_staysInside (hiff.mpr htidy) hterm p m.length
      rw [processPost_multipart hhttp, hfind]
      dsimp only
      rw [hdrop, hr]
      obtain ⟨ok, p'⟩ := r
      cases ok with
      | true => rfl
      | false => rfl
    · have hmem : (b.bytes ++ (x ++ [0])).length = b.bytes.length + (x.length + 1) := by
        simp only [List.length_append, List.length_singleton]
      exact processParts_enough b.nonempty hterm (by omega) (by omega) (by omega) p

/-- The boundary `-x`. -/
def Boundary.small : Boundary where
  bytes := ascii "-x"
  nonempty := by decide
  plain := by decide
  oneLine := by decide

/-- A part `k`, a part `v`, and a part `e`. -/
def smallForm : List (Part .small) :=
  [{ name := ascii "k", parameters := [], contentType := none, value := ascii "a\r\n-"
     name_plain := by decide, parameters_plain := by decide, contentType_plain := nofun
     value_free := by decide },
    { name := ascii "v", parameters := ascii "; filename=\"a\"", contentType := some (ascii "text/css")
      value := [0, 1], name_plain := by decide, parameters_plain := by decide +kernel
      contentType_plain := fun t ht => Option.mem_some_iff.mp ht ▸ by decide +kernel
      value_free := by decide },
    { name := ascii "e", parameters := [], contentType := none, value := ascii "60"
      name_plain := by decide, parameters_plain := by decide, contentType_plain := nofun
      value_free := by decide }]

/-- What is parsed of the header of a form with the boundary `-x`. -/
def Params.form : Params :=
  { http := ({} : HttpRequest).setContentType
      (ascii "multipart/form-data; boundary=" ++ Boundary.small.bytes) }

theorem form_decoded_small :
    (∃ p', processPost .small .form (body crlf smallForm) = some (processCommand .small p') ∧
      Decoded .form p' smallForm) ∧
    (processPost .small .form (ascii "-x--")).isSome := by
  obtain ⟨hform, hbody⟩ := @form_decoded .small .small .form {} crlf (ascii "-x--") smallForm rfl rfl
    (.inr rfl) (by decide +kernel) (by decide +kernel) (by decide)
  have hparses : ∀ q ∈ smallForm, q.Parses := by
    refine List.forall_mem_cons.mpr ⟨?_, List.forall_mem_cons.mpr ⟨?_, List.forall_mem_singleton.mpr ?_⟩⟩
    · exact MultipartLemmas.parses_of_slot (s := .key) rfl trivial
    · exact MultipartLemmas.parses_of_slot (s := .value) rfl trivial
    · exact MultipartLemmas.parses_of_slot (s := .number .expiration) rfl
        (by decide +kernel : (safeToui 32 (.copy (ascii "60"))).isSome = true)
  have hstep : ∀ q ∈ smallForm, q.InStep :=
    List.forall_mem_cons.mpr ⟨.inl (by decide), List.forall_mem_cons.mpr ⟨.inl (by decide),
      List.forall_mem_singleton.mpr (.inl (by decide))⟩⟩
  have htypes : TypesFound crlf smallForm :=
    ⟨fun h => absurd h (by decide), fun _ => (by decide +kernel : (ascii "text/css").length < 128),
      fun h => absurd h (by decide), trivial⟩
  obtain ⟨-, hiff, -⟩ := hform ⟨120, by decide, by decide⟩ hstep
  obtain ⟨-, hend, -⟩ := hbody [] (ascii "--") (by decide +kernel)
  exact ⟨(hiff hparses).mpr htypes, hend (.noName (by decide))⟩

/-- A part `v` without a content type, in front of a part that has one. -/
def borrowedForm : List (Part .small) :=
  [{ name := ascii "v", parameters := [], contentType := none, value := ascii "1"
     name_plain := by decide, parameters_plain := by decide, contentType_plain := nofun
     value_free := by decide },
    { name := ascii "f", parameters := [], contentType := some (ascii "text/css")
      value := ascii "2", name_plain := by decide, parameters_plain := by decide
      contentType_plain := fun t ht => Option.mem_some_iff.mp ht ▸ by decide +kernel
      value_free := by decide }]

/-- The value gets the content type of the other part, and a body that ends behind a name is
left. -/
theorem not_form_decoded :
    (¬ ∃ p', processPost .small .form (body crlf borrowedForm) = some (processCommand .small p') ∧
      Decoded .form p' borrowedForm) ∧
    processPost .small .form
      (ascii "---x\r\nContent-Disposition: form-data; name=\"k\"\r\n---x--\r\n") = none := by
  have hparses : ∀ q ∈ borrowedForm, q.Parses := by
    refine List.forall_mem_cons.mpr ⟨?_, List.forall_mem_singleton.mpr ?_⟩
    · exact MultipartLemmas.parses_of_slot (s := .value) rfl trivial
    · exact MultipartLemmas.parses_of_slot (s := .number .flags) rfl
        (by decide +kernel : (safeToui 32 (.copy (ascii "2"))).isSome = true)
  have hstep : ∀ q ∈ borrowedForm, q.InStep :=
    List.forall_mem_cons.mpr ⟨.inl (by decide), List.forall_mem_singleton.mpr (.inl (by decide))⟩
  refine ⟨fun hdecoded => ?_, by decide +kernel⟩
  have htypes := (decoded_iff (s := .small) (h := {}) rfl rfl (.inr rfl) (by decide +kernel)
    (by decide +kernel) ⟨120, by decide, by decide⟩ hstep hparses).mp hdecoded
  have hborrowed := htypes.1 rfl (ascii "text/css") (by decide +kernel)
  exact absurd hborrowed (by decide +kernel)

end Xixi.Http
