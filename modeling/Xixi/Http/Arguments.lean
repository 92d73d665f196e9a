import Mathlib.Data.Bool.AllAny
import Mathlib.Data.List.ReduceOption
import Xixi.Parsing
import Xixi.Http.Request

/-!
# Arguments (`Peer_Http::process_request_arg`)

A query is a list of arguments in any order, each a letter, an equals sign and a text: a percent
encoding or a decimal.

1. `Assignment`: what the arguments assign, and the fields it leaves.
2. `PercentEncoded`, `Decimal`, `Argument.Writes`: the texts that stand for a value.
3. `decodeUriProbe`: `decode_uri`, as a computation that looks at one byte after the other.
4. `query_round_trip`: a query is parsed to what it assigns.
-/

namespace Xixi.Http
open Lib

/-- The arguments that are unsigned numbers. -/
inductive NumberField
  | groupId
  | watchId
  | flags
  | cacheId
  | expiration
  | ackSequence
  | interval
  | timeout
  | subOp
deriving DecidableEq, Repr

namespace NumberField

def letter : NumberField → UInt8
  | groupId => 'g'.toUInt8
  | watchId => 'w'.toUInt8
  | flags => 'f'.toUInt8
  | cacheId => 'c'.toUInt8
  | expiration => 'e'.toUInt8
  | ackSequence => 'a'.toUInt8
  | interval => 'i'.toUInt8
  | timeout => 't'.toUInt8
  | subOp => 's'.toUInt8

def type : NumberField → IntType
  | cacheId => .ui64
  | _ => .ui32

end NumberField

/-- An argument with its value. -/
inductive Argument
  | key (v : Bytes)
  | value (v : Bytes)
  | number (f : NumberField) (n : Nat)
  | delta (d : Int)
deriving DecidableEq, Repr

/-- What a query assigns. -/
structure Assignment where
  key : Option Bytes := none
  value : Option Bytes := none
  number : NumberField → Option Nat := fun _ => none
  delta : Option Int := none

/-- Every argument that is assigned. -/
def Assignment.args (a : Assignment) : List Argument :=
  [a.key.map .key, a.value.map .value, a.delta.map .delta,
    (a.number .groupId).map (.number .groupId), (a.number .watchId).map (.number .watchId),
    (a.number .flags).map (.number .flags), (a.number .cacheId).map (.number .cacheId),
    (a.number .expiration).map (.number .expiration),
    (a.number .ackSequence).map (.number .ackSequence),
    (a.number .interval).map (.number .interval), (a.number .timeout).map (.number .timeout),
    (a.number .subOp).map (.number .subOp)].reduceOption

/-- The fields after `reset_for_new_cmd` and the assignment. -/
def Assignment.params (a : Assignment) : Params :=
  { Params.new with
    key := a.key.elim Params.new.key .copy
    value := a.value.elim Params.new.value .copy
    groupId := (a.number .groupId).getD Params.new.groupId
    watchId := (a.number .watchId).getD Params.new.watchId
    flags := (a.number .flags).getD Params.new.flags
    cacheId := (a.number .cacheId).getD Params.new.cacheId
    delta := a.delta.getD Params.new.delta
    touchFlag := (a.number .expiration).isSome
    expiration := (a.number .expiration).getD Params.new.expiration
    ackSequence := (a.number .ackSequence).getD Params.new.ackSequence
    interval := (a.number .interval).getD Params.new.interval
    timeout := (a.number .timeout).getD Params.new.timeout
    subOp := (a.number .subOp).getD Params.new.subOp }

/-! ## The texts -/

/-- The unreserved characters stand for themselves. -/
def isUnreserved (c : UInt8) : Bool :=
  isDigit c || (65 ≤ c && c ≤ 90) || (97 ≤ c && c ≤ 122) || c == 45 || c == 46 || c == 95 || c == 126

/-- A digit in base 16, of either case. -/
def IsHex (c n : UInt8) : Prop :=
  (n < 10 ∧ c = 48 + n) ∨ (10 ≤ n ∧ n < 16 ∧ (c = 97 + (n - 10) ∨ c = 65 + (n - 10)))

/-- The second text is a percent encoding of the first. -/
inductive PercentEncoded : Bytes → Bytes → Prop
  | nil : PercentEncoded [] []
  | unreserved {c : UInt8} {v u : Bytes} (h : isUnreserved c = true) (next : PercentEncoded v u) :
    PercentEncoded (c :: v) (c :: u)
  | blank {v u : Bytes} (next : PercentEncoded v u) : PercentEncoded (32 :: v) (43 :: u)
  | escape {c c1 c2 : UInt8} {v u : Bytes} (high : IsHex c1 (c / 16)) (low : IsHex c2 (c % 16))
    (next : PercentEncoded v u) : PercentEncoded (c :: v) (37 :: c1 :: c2 :: u)

/-- The text is a decimal for the number, with any zeros in front. -/
structure Decimal (n : Nat) (text : Bytes) : Prop where
  nonempty : text ≠ []
  digits : ∀ d ∈ text, isDigit d = true
  value : decimalValue text = n

namespace Argument

def letter : Argument → UInt8
  | key _ => 'k'.toUInt8
  | value _ => 'v'.toUInt8
  | number f _ => f.letter
  | delta _ => 'd'.toUInt8

/-- The value is one of the field. -/
def Valid : Argument → Prop
  | key _ | value _ => True
  | number f n => n < f.type.limit
  | delta d => d.natAbs < 2 ^ 63

instance : (x : Argument) → Decidable x.Valid
  | key _ | value _ => isTrue trivial
  | number f n => inferInstanceAs (Decidable (n < f.type.limit))
  | delta d => inferInstanceAs (Decidable (d.natAbs < 2 ^ 63))

/-- The text stands for the value. -/
def Writes : Argument → Bytes → Prop
  | key v, text => PercentEncoded v text
  | value v, text => PercentEncoded v text
  | number _ n, text => Decimal n text
  | delta d, text => (0 ≤ d ∧ Decimal d.natAbs text) ∨
      (d ≤ 0 ∧ ∃ digits, text = 45 :: digits ∧ Decimal d.natAbs digits)

/-- The argument as it stands in the query. -/
def Written (x : Argument) (arg : Bytes) : Prop := ∃ text, arg = x.letter :: 61 :: text ∧ x.Writes text

end Argument

namespace Params

/-- The field of a number is set; an expiration sets `touch_flag_` too. -/
def setNumber (p : Params) : NumberField → Nat → Params
  | .groupId, n => { p with groupId := n }
  | .watchId, n => { p with watchId := n }
  | .flags, n => { p with flags := n }
  | .cacheId, n => { p with cacheId := n }
  | .expiration, n => { p with touchFlag := true, expiration := n }
  | .ackSequence, n => { p with ackSequence := n }
  | .interval, n => { p with interval := n }
  | .timeout, n => { p with timeout := n }
  | .subOp, n => { p with subOp := n }

def assign (p : Params) : Argument → Params
  | .key v => { p with key := .copy v }
  | .value v => { p with value := .copy v }
  | .number f n => p.setNumber f n
  | .delta d => { p with delta := d }

end Params

/-! ## `decode_uri` -/

/-- The loop of `decode_uri`, at the counter `i` and the pointer `uri`: the bytes it writes one
after the other. -/
def decodeUriLoop (length : Nat) : Nat → Nat → Nat → Probe Nat UInt8 Bytes
  | 0, _, _ => pure []
  | fuel + 1, i, uri =>
    if i < length then do
      let c ← Probe.peek uri
      if c = 0 then pure []
      else if c = 43 then do
        let out ← decodeUriLoop length fuel ((i + 1) % 2 ^ 32) (uri + 1)
        pure (32 :: out)
      else if c = 37 ∧ (i + 2) % 2 ^ 32 < length then do
        let c1 ← Probe.peek (uri + 1)
        let c2 ← Probe.peek (uri + 2)
        let out ← decodeUriLoop length fuel ((i + 3) % 2 ^ 32) (uri + 3)
        pure (((hexDigit c1 <<< 4) + (hexDigit c2 &&& 15)) :: out)
      else do
        let out ← decodeUriLoop length fuel ((i + 1) % 2 ^ 32) (uri + 1)
        pure (c :: out)
    else pure []

/-- `decode_uri`, for the memory from the uri on: what is written into the new buffer, the
terminator last. -/
def decodeUriProbe (length : Nat) : Probe Nat UInt8 Bytes := do
  let out ← decodeUriLoop length (length + 1) 0 0
  pure (out ++ [0])

namespace ArgumentLemmas

open ParsingLemmas

variable {a : Assignment} {p : Params} {x y : Argument} {text v u : Bytes} {c n : UInt8}
  {mem : Nat → UInt8}

/-! ## The order of the arguments -/

theorem params_foldl (a : Assignment) : a.args.foldl Params.assign Params.new = a.params := by
  have hfold (l : List (Option Argument)) (p : Params) :
      l.reduceOption.foldl Params.assign p = l.foldl (fun p o => o.elim p p.assign) p := by
    induction l generalizing p with
    | nil => rfl
    | cons o l ih =>
      cases o with
      | none => exact ih p
      | some x => exact ih (p.assign x)
  have hkey (p : Params) (o : Option Bytes) :
      (o.map Argument.key).elim p p.assign = { p with key := o.elim p.key .copy } := by
    cases o <;> rfl
  have hvalue (p : Params) (o : Option Bytes) :
      (o.map Argument.value).elim p p.assign = { p with value := o.elim p.value .copy } := by
    cases o <;> rfl
  have hdelta (p : Params) (o : Option Int) :
      (o.map Argument.delta).elim p p.assign = { p with delta := o.getD p.delta } := by
    cases o <;> rfl
  have hnumber (p : Params) (f : NumberField) (o : Option Nat) :
      (o.map (Argument.number f)).elim p p.assign = o.elim p (p.setNumber f) := by
    cases o <;> rfl
  have hset (p : Params) (o : Option Nat) :
      o.elim p (p.setNumber .groupId) = { p with groupId := o.getD p.groupId } ∧
      o.elim p (p.setNumber .watchId) = { p with watchId := o.getD p.watchId } ∧
      o.elim p (p.setNumber .flags) = { p with flags := o.getD p.flags } ∧
      o.elim p (p.setNumber .cacheId) = { p with cacheId := o.getD p.cacheId } ∧
      o.elim p (p.setNumber .expiration) =
        { p with touchFlag := p.touchFlag || o.isSome, expiration := o.getD p.expiration } ∧
      o.elim p (p.setNumber .ackSequence) = { p with ackSequence := o.getD p.ackSequence } ∧
      o.elim p (p.setNumber .interval) = { p with interval := o.getD p.interval } ∧
      o.elim p (p.setNumber .timeout) = { p with timeout := o.getD p.timeout } ∧
      o.elim p (p.setNumber .subOp) = { p with subOp := o.getD p.subOp } := by
    cases o with
    | none => simp
    | some n => simp [Params.setNumber]
  rw [Assignment.args, hfold]
  simp only [List.foldl_cons, List.foldl_nil, hkey, hvalue, hdelta, hnumber, hset]
  rfl

theorem mem_args (x : Argument) : x ∈ a.args ↔ match x with
    | .key v => a.key = some v
    | .value v => a.value = some v
    | .number f n => a.number f = some n
    | .delta d => a.delta = some d := by
  rw [Assignment.args, List.reduceOption_mem_iff]
  cases x with
  | key v => simp [eq_comm]
  | value v => simp [eq_comm]
  | delta d => simp [eq_comm]
  | number f n => cases f <;> simp [eq_comm]

/-- Different arguments set different fields. -/
theorem assign_comm (hx : x ∈ a.args) (hy : y ∈ a.args) (p : Params) :
    (p.assign x).assign y = (p.assign y).assign x := by
  have hnumber {f f' : NumberField} (h : f ≠ f') (n n' : Nat) :
      (p.setNumber f n).setNumber f' n' = (p.setNumber f' n').setNumber f n := by
    cases f <;> cases f' <;> first | rfl | exact absurd rfl h
  rw [mem_args] at hx hy
  cases x with
  | key v =>
    cases y with
    | key w =>
      obtain rfl : v = w := Option.some.inj (hx.symm.trans hy)
      rfl
    | value w | delta d => rfl
    | number f n => cases f <;> rfl
  | value v =>
    cases y with
    | value w =>
      obtain rfl : v = w := Option.some.inj (hx.symm.trans hy)
      rfl
    | key w | delta d => rfl
    | number f n => cases f <;> rfl
  | delta d =>
    cases y with
    | delta e =>
      obtain rfl : d = e := Option.some.inj (hx.symm.trans hy)
      rfl
    | key w | value w => rfl
    | number f n => cases f <;> rfl
  | number f n =>
    cases y with
    | key w | value w | delta d => cases f <;> rfl
    | number f' n' =>
      by_cases h : f = f'
      · subst h
        obtain rfl : n = n' := Option.some.inj (hx.symm.trans hy)
        rfl
      · exact hnumber h n n'

/-! ## One argument -/

theorem decodeUri_cons (h0 : c ≠ 0) (h43 : c ≠ 43) (h37 : c ≠ 37) (u : Bytes) :
    decodeUri (c :: u) = c :: decodeUri u := by
  rw [decodeUri]
  · exact h0
  · exact h43
  · rintro c1 c2 u' h -
    exact h37 h

theorem hexDigit_of_isHex (h : IsHex c n) : hexDigit c = n := by
  have hdec : ∀ k : Fin 10, hexDigit (48 + UInt8.ofNat k) = UInt8.ofNat k := by decide
  have hletter : ∀ k : Fin 16, 10 ≤ k.val →
      hexDigit (97 + (UInt8.ofNat k - 10)) = UInt8.ofNat k ∧
        hexDigit (65 + (UInt8.ofNat k - 10)) = UInt8.ofNat k := by decide
  have hn : UInt8.ofNat n.toNat = n := UInt8.ofNat_toNat
  rcases h with ⟨hlt, rfl⟩ | ⟨hle, hlt, hc⟩
  · have h := hdec ⟨n.toNat, UInt8.lt_iff_toNat_lt.mp hlt⟩
    rwa [hn] at h
  · have h := hletter ⟨n.toNat, UInt8.lt_iff_toNat_lt.mp hlt⟩ (UInt8.le_iff_toNat_le.mp hle)
    rw [hn] at h
    rcases hc with rfl | rfl
    · exact h.1
    · exact h.2

/-- A byte is put together of its two digits. -/
theorem digits_eq (c : UInt8) : (c / 16) <<< 4 + (c % 16 &&& 15) = c := by
  have h : ∀ k : Fin 256, (UInt8.ofNat k / 16) <<< 4 + (UInt8.ofNat k % 16 &&& 15) = UInt8.ofNat k := by
    decide +kernel
  have hc := h ⟨c.toNat, c.toNat_lt⟩
  rwa [UInt8.ofNat_toNat] at hc

theorem ne_of_unreserved (h : isUnreserved c = true) : c ≠ 0 ∧ c ≠ 43 ∧ c ≠ 37 ∧ c ≠ 38 := by
  refine ⟨?_, ?_, ?_, ?_⟩
  all_goals
    rintro rfl
    exact absurd h (by decide)

theorem decodeUri_of_encoded (h : PercentEncoded v u) : decodeUri u = v := by
  induction h with
  | nil => rfl
  | unreserved hc _ ih =>
    obtain ⟨h0, h43, h37, -⟩ := ne_of_unreserved hc
    rw [decodeUri_cons h0 h43 h37, ih]
  | blank _ ih => rw [decodeUri, ih]
  | escape high low _ ih =>
    rw [decodeUri, ih, hexDigit_of_isHex high, hexDigit_of_isHex low, digits_eq]

theorem ne_of_isHex (h : IsHex c n) : c ≠ 38 := by
  rintro rfl
  rcases h with ⟨hlt, heq⟩ | ⟨hle, hlt, heq⟩
  · have hn : n = 246 := by grind
    rw [hn] at hlt
    exact absurd hlt (by decide)
  · rcases heq with heq | heq
    · have hn : n = 207 := by grind
      rw [hn] at hlt
      exact absurd hlt (by decide)
    · have hn : n = 239 := by grind
      rw [hn] at hlt
      exact absurd hlt (by decide)

theorem separator_notMem_encoded (h : PercentEncoded v u) : 38 ∉ u := by
  induction h with
  | nil => exact List.not_mem_nil
  | unreserved hc _ ih => exact List.not_mem_cons_of_ne_of_not_mem (ne_of_unreserved hc).2.2.2.symm ih
  | blank _ ih => exact List.not_mem_cons_of_ne_of_not_mem (by decide) ih
  | escape high low _ ih =>
    refine List.not_mem_cons_of_ne_of_not_mem (by decide) ?_
    refine List.not_mem_cons_of_ne_of_not_mem (ne_of_isHex high).symm ?_
    exact List.not_mem_cons_of_ne_of_not_mem (ne_of_isHex low).symm ih

theorem separator_notMem_digits (h : ∀ d ∈ u, isDigit d = true) : 38 ∉ u :=
  fun h38 => absurd (h 38 h38) (by decide)

/-- What is written has no separator. -/
theorem separator_notMem (h : x.Written text) : 38 ∉ text := by
  obtain ⟨u, rfl, hu⟩ := h
  have hfield (f : NumberField) : f.letter ≠ 38 := by cases f <;> decide
  have hletter : x.letter ≠ 38 := by
    cases x with
    | key v => exact (by decide : 'k'.toUInt8 ≠ 38)
    | value v => exact (by decide : 'v'.toUInt8 ≠ 38)
    | number f n => exact hfield f
    | delta d => exact (by decide : 'd'.toUInt8 ≠ 38)
  have hu38 : 38 ∉ u := by
    cases x with
    | key v => exact separator_notMem_encoded hu
    | value v => exact separator_notMem_encoded hu
    | number f n => exact separator_notMem_digits hu.digits
    | delta d =>
      rcases hu with ⟨-, hd⟩ | ⟨-, ds, rfl, hd⟩
      · exact separator_notMem_digits hd.digits
      · exact List.not_mem_cons_of_ne_of_not_mem (by decide) (separator_notMem_digits hd.digits)
  refine List.not_mem_cons_of_ne_of_not_mem hletter.symm ?_
  exact List.not_mem_cons_of_ne_of_not_mem (by decide) hu38

/-! ## One argument -/

theorem store_number {f : NumberField} {t : Text} {n : Nat} (h : safeToui f.type.bits t = some n)
    (p : Params) (decode : Text → Text) : p.store f.letter t decode = (true, p.setNumber f n) := by
  cases f with
  | groupId => exact congrArg (p.number · (p.setNumber .groupId)) h
  | watchId => exact congrArg (p.number · (p.setNumber .watchId)) h
  | flags => exact congrArg (p.number · (p.setNumber .flags)) h
  | cacheId => exact congrArg (p.number · (p.setNumber .cacheId)) h
  | expiration =>
    exact congrArg (Params.number { p with touchFlag := true } · (p.setNumber .expiration)) h
  | ackSequence => exact congrArg (p.number · (p.setNumber .ackSequence)) h
  | interval => exact congrArg (p.number · (p.setNumber .interval)) h
  | timeout => exact congrArg (p.number · (p.setNumber .timeout)) h
  | subOp => exact congrArg (p.number · (p.setNumber .subOp)) h

theorem bytes_copy (u : Bytes) : (Text.copy u).bytes = u := List.take_left

theorem safeToui_decimal {f : NumberField} {n : Nat} (h : Decimal n text) (hn : n < f.type.limit) :
    safeToui f.type.bits (.copy text) = some n := by
  have hs : f.type.signed = false := by cases f <;> rfl
  have hcopy := safeToui_copy hs (a := []) (b := []) nofun h.nonempty h.digits nofun
    (by rwa [h.value])
  rwa [List.nil_append, List.append_nil, h.value] at hcopy

/-- What `safe_toi64` makes of digits, with a minus in front or not. -/
theorem safeToi64_of_digits {ds : Bytes} (minus : Bool) (hne : ds ≠ [])
    (hds : ∀ d ∈ ds, isDigit d = true) (hlt : decimalValue ds < 2 ^ 63)
    (hlen : (bif minus then 45 :: ds else ds).length < 2 ^ 32) :
    safeToi64 (memOf (Text.copy (bif minus then 45 :: ds else ds)).mem)
        (bif minus then 45 :: ds else ds).length =
      some (bif minus then -(decimalValue ds : Int) else decimalValue ds) := by
  obtain ⟨d, ds', rfl⟩ := List.exists_cons_of_ne_nil hne
  have hd : isDigit d = true := hds d List.mem_cons_self
  have hall : (d :: ds').takeWhile isDigit = d :: ds' := List.takeWhile_eq_self_iff.mpr hds
  have hrun : digitRun (bif minus then 45 :: d :: ds' else d :: ds') = d :: ds' := by
    cases minus with
    | true => exact hall
    | false =>
      have hunblank : unblank (d :: ds') = d :: ds' :=
        List.dropWhile_cons_of_neg (by rw [not_space_of_digit hd]; decide)
      exact (digitRun_cons hunblank).trans ((if_neg (not_sign_of_digit hd)).trans hall)
  have hnegative : negative (bif minus then 45 :: d :: ds' else d :: ds') = minus := by
    cases minus with
    | true => rfl
    | false =>
      have hunblank : unblank (d :: ds') = d :: ds' :=
        List.dropWhile_cons_of_neg (by rw [not_space_of_digit hd]; decide)
      rw [Bool.eq_false_iff]
      exact fun h => not_sign_of_digit hd (.inl ((negative_cons hunblank).mp h))
  have hslice := slice_memOf (bif minus then 45 :: d :: ds' else d :: ds') [0]
  have hne' : unblank (bif minus then 45 :: d :: ds' else d :: ds') ≠ [] := by
    intro hnil
    rw [digitRun, hnil] at hrun
    cases hrun
  rw [← hslice] at hne'
  have hparse := parse_of_lt (w := .i64) hlen hne' (.inl rfl) (by rw [hslice, hrun]; exact hlt)
  rw [safeToi64_eq, Text.copy, hparse, hslice, numeral, hnegative, hrun]
  cases minus <;> rfl

theorem processArg_written (h : x.Written text) (hx : x.Valid) (hlen : text.length < 2 ^ 32) :
    p.processArg text = (true, p.assign x) := by
  obtain ⟨u, rfl, hu⟩ := h
  cases x with
  | key v =>
    have hdecode : Text.copy (decodeUri (Text.copy u).bytes) = .copy v := by
      rw [bytes_copy, decodeUri_of_encoded hu]
    exact congrArg (fun t => (true, { p with key := t })) hdecode
  | value v =>
    have hdecode : Text.copy (decodeUri (Text.copy u).bytes) = .copy v := by
      rw [bytes_copy, decodeUri_of_encoded hu]
    exact congrArg (fun t => (true, { p with value := t })) hdecode
  | number f n =>
    exact store_number (safeToui_decimal hu hx) p fun t => .copy (decodeUri t.bytes)
  | delta d =>
    have hvalid : d.natAbs < 2 ^ 63 := hx
    have hlen' : u.length < 2 ^ 32 := Nat.lt_of_succ_lt (Nat.lt_of_succ_lt hlen)
    have hparse : safeToi64 (memOf (Text.copy u).mem) u.length = some d := by
      rcases hu with ⟨hd, hdec⟩ | ⟨hd, ds, rfl, hdec⟩
      · have hparse := safeToi64_of_digits false hdec.nonempty hdec.digits
          (by rwa [hdec.value]) hlen'
        rw [hdec.value] at hparse
        exact hparse.trans (congrArg some (Int.natAbs_of_nonneg hd))
      · have hparse := safeToi64_of_digits true hdec.nonempty hdec.digits
          (by rwa [hdec.value]) hlen'
        rw [hdec.value] at hparse
        refine hparse.trans (congrArg some ?_)
        rw [cond_true]
        omega
    exact congrArg (p.number · fun n => { p with delta := n }) hparse

theorem processArgs_written {args : List Argument} {texts : List Bytes}
    (h : List.Forall₂ Argument.Written args texts) (hvalid : ∀ x ∈ args, x.Valid)
    (hlen : ∀ t ∈ texts, t.length < 2 ^ 32) (p : Params) :
    p.processArgs texts = (true, args.foldl Params.assign p) := by
  induction h generalizing p with
  | nil => rfl
  | @cons x text args texts hx _ ih =>
    have hone := processArg_written (p := p) hx (hvalid x List.mem_cons_self)
      (hlen text List.mem_cons_self)
    rw [Params.processArgs, hone]
    exact ih (fun y hy => hvalid y (List.mem_cons_of_mem x hy))
      (fun t ht => hlen t (List.mem_cons_of_mem text ht)) _

theorem forall_separator_notMem {args : List Argument} {texts : List Bytes}
    (h : List.Forall₂ Argument.Written args texts) : ∀ t ∈ texts, 38 ∉ t := by
  induction h with
  | nil => exact nofun
  | cons hx _ ih => exact List.forall_mem_cons.mpr ⟨separator_notMem hx, ih⟩

/-! ## The memory of `decode_uri` -/

/-- A percent sign without two bytes behind it stands for itself. -/
theorem decodeUri_percent (h : u.length < 2) : decodeUri (37 :: u) = 37 :: decodeUri u := by
  cases u with
  | nil => rfl
  | cons c u =>
    cases u with
    | nil => rfl
    | cons c' u =>
      rw [List.length_cons, List.length_cons] at h
      omega

/-- The loop reads what is left of the text, and writes what the text stands for. -/
theorem decodeUriLoop_spec {length : Nat} (hlength : length + 2 < 2 ^ 32) (mem : Nat → UInt8)
    (fuel i : Nat) (hfuel : length < i + fuel) :
    (decodeUriLoop length fuel i i).result mem = decodeUri (slice mem i (length - i)) ∧
      (∀ j ∈ (decodeUriLoop length fuel i i).looks mem, j < length) ∧
      ((decodeUriLoop length fuel i i).result mem).length ≤ length - i := by
  induction fuel generalizing i with
  | zero =>
    have hsub : length - i = 0 := by omega
    rw [hsub]
    exact ⟨rfl, nofun, Nat.le_refl 0⟩
  | succ fuel ih =>
    rw [decodeUriLoop]
    by_cases hi : i < length
    · have hmod (k : Nat) (hk : k ≤ 3) : (i + k) % 2 ^ 32 = i + k := Nat.mod_eq_of_lt (by omega)
      have hone : length - i = length - (i + 1) + 1 := by omega
      obtain ⟨hout, hlooks, hlen⟩ := ih (i + 1) (by omega)
      rw [if_pos hi, hmod 1 (by decide), hmod 2 (by decide), hmod 3 (by decide)]
      rw [Probe.result_bind, Probe.looks_bind, Probe.result_peek, Probe.looks_peek]
      by_cases h0 : mem i = 0
      · rw [if_pos h0, hone, slice_succ, h0]
        refine ⟨rfl, ?_, Nat.zero_le _⟩
        intro j hj
        rwa [List.mem_singleton.mp hj]
      · rw [if_neg h0]
        by_cases h43 : mem i = 43
        · rw [if_pos h43, hone, slice_succ, h43, Probe.result_bind, Probe.result_pure,
            Probe.looks_bind, Probe.looks_pure, List.append_nil]
          refine ⟨congrArg (32 :: ·) hout, ?_, Nat.succ_le_succ hlen⟩
          intro j hj
          rcases List.mem_cons.mp hj with rfl | hj
          · exact hi
          · exact hlooks j hj
        · rw [if_neg h43]
          by_cases h37 : mem i = 37 ∧ i + 2 < length
          · obtain ⟨hout, hlooks, hlen⟩ := ih (i + 3) (by omega)
            have hthree : length - i = length - (i + 3) + 1 + 1 + 1 := by omega
            rw [if_pos h37, hthree, slice_succ, slice_succ, slice_succ, h37.1, decodeUri,
              Probe.result_bind, Probe.result_bind, Probe.result_bind, Probe.result_pure,
              Probe.looks_bind, Probe.looks_bind, Probe.looks_bind, Probe.looks_pure,
              List.append_nil, hout]
            rw [hout] at hlen
            refine ⟨rfl, ?_, Nat.succ_le_succ (hlen.trans (Nat.le_add_right _ 2))⟩
            intro j hj
            rcases List.mem_cons.mp hj with rfl | hj
            · exact hi
            · rcases List.mem_cons.mp hj with rfl | hj
              · omega
              · rcases List.mem_cons.mp hj with rfl | hj
                · exact h37.2
                · exact hlooks j hj
          · have hplain : decodeUri (mem i :: slice mem (i + 1) (length - (i + 1))) =
                mem i :: decodeUri (slice mem (i + 1) (length - (i + 1))) := by
              by_cases hp : mem i = 37
              · have hshort : (slice mem (i + 1) (length - (i + 1))).length < 2 := by
                  rw [length_slice]
                  have hlast : ¬ i + 2 < length := fun hlt => h37 ⟨hp, hlt⟩
                  omega
                rw [hp, decodeUri_percent hshort]
              · exact decodeUri_cons h0 h43 hp _
            rw [if_neg h37, hone, slice_succ, hplain, Probe.result_bind, Probe.result_pure,
              Probe.looks_bind, Probe.looks_pure, List.append_nil]
            refine ⟨congrArg (mem i :: ·) hout, ?_, Nat.succ_le_succ hlen⟩
            intro j hj
            rcases List.mem_cons.mp hj with rfl | hj
            · exact hi
            · exact hlooks j hj
    · have hsub : length - i = 0 := by omega
      rw [if_neg hi, hsub]
      exact ⟨rfl, nofun, Nat.le_refl 0⟩

theorem decodeUriProbe_spec {length : Nat} (hlength : length + 2 < 2 ^ 32) (mem : Nat → UInt8) :
    (decodeUriProbe length).result mem = decodeUri (slice mem 0 length) ++ [0] ∧
      (∀ j ∈ (decodeUriProbe length).looks mem, j < length) ∧
      ((decodeUriProbe length).result mem).length ≤ length + 1 := by
  obtain ⟨hout, hlooks, hlen⟩ := decodeUriLoop_spec hlength mem (length + 1) 0 (by omega)
  rw [decodeUriProbe, Probe.result_bind, Probe.result_pure, Probe.looks_bind, Probe.looks_pure,
    List.append_nil, hout]
  rw [hout] at hlen
  refine ⟨rfl, hlooks, ?_⟩
  rw [List.length_append]
  exact Nat.succ_le_succ hlen

end ArgumentLemmas

open ArgumentLemmas

/-- A query is parsed to what it assigns, and `decode_uri` stays in its text and its buffer whatever
the text is. -/
theorem query_round_trip {a : Assignment} {args : List Argument} {texts : List Bytes}
    (hargs : args.Perm a.args) (hvalid : ∀ x ∈ args, x.Valid)
    (htexts : List.Forall₂ Argument.Written args texts)
    (hlen : ∀ t ∈ texts, t.length < 2 ^ 32) :
    Params.new.processRequestArg ([38].intercalate texts) = (true, a.params) ∧
      ∀ (mem : Nat → UInt8) (length : Nat), length + 2 < 2 ^ 32 →
        (decodeUriProbe length).result mem = decodeUri (slice mem 0 length) ++ [0] ∧
          (∀ j ∈ (decodeUriProbe length).looks mem, j < length) ∧
          ((decodeUriProbe length).result mem).length ≤ length + 1 := by
  refine ⟨?_, fun mem length hlength => decodeUriProbe_spec hlength mem⟩
  have hassign : args.foldl Params.assign Params.new = a.params := by
    rw [← params_foldl]
    exact hargs.foldl_eq' (fun x hx y hy p =>
      assign_comm (hargs.mem_iff.mp hx) (hargs.mem_iff.mp hy) p) _
  have hsep := forall_separator_notMem htexts
  rw [Params.processRequestArg]
  cases texts with
  | nil =>
    cases htexts
    exact congrArg (Prod.mk true) hassign
  | cons t texts =>
    rw [List.splitOn_intercalate 38 hsep (List.cons_ne_nil t texts),
      processArgs_written htexts hvalid hlen, hassign]

/-- The arguments `k=a%2f`, `d=-7` and `e=010` in another order. -/
theorem query_round_trip_small :
    Params.new.processRequestArg
        ([38].intercalate [ascii "e=010", ascii "k=a%2f", ascii "d=-7"]) =
      (true, ({ key := some (ascii "a/"), delta := some (-7),
                number := fun f => if f = .expiration then some 10 else none } : Assignment).params) ∧
      ∀ (mem : Nat → UInt8) (length : Nat), length + 2 < 2 ^ 32 →
        (decodeUriProbe length).result mem = decodeUri (slice mem 0 length) ++ [0] ∧
          (∀ j ∈ (decodeUriProbe length).looks mem, j < length) ∧
          ((decodeUriProbe length).result mem).length ≤ length + 1 :=
  @query_round_trip _ [.number .expiration 10, .key (ascii "a/"), .delta (-7)] _
    (by decide) (by decide)
    (.cons ⟨ascii "010", by decide, ⟨by decide, List.all_iff_forall_prop.mp (by decide), by decide⟩⟩
      (.cons ⟨ascii "a%2f", by decide, .unreserved (by decide) (.escape (.inl (by decide))
          (.inr (by decide)) .nil)⟩
        (.cons ⟨ascii "-7", by decide, .inr ⟨by decide, ascii "7", by decide,
          ⟨by decide, List.all_iff_forall_prop.mp (by decide), by decide⟩⟩⟩ .nil)))
    (by decide)

end Xixi.Http
