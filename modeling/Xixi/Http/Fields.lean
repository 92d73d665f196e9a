import Mathlib.Data.Bool.AllAny
import Xixi.Lib.Buffer
import Xixi.Http.Request

/-!
# Header fields (`Peer_Http::process_request_header_fields`)

The loop over the header fields works in the block itself: it writes a terminator over the colon
behind a name and over the end of a line, and computes lengths from pointers. The buffer is the
block with its terminator; a computation that leaves it has no result.

1. `processFields`: the loop, with any `handle_request_header_field`.
2. `splitFields`: the names and values of a block, and `handleFields`: the calls for them.
3. `processFields_eq`: on every block the loop makes these calls and stays in the block.
4. `HeaderField`, `block`: the fields as they stand in a header, and `split_exactly`.
-/

namespace Xixi.Http
open Lib

variable {σ : Type}

/-- `handle_request_header_field`, which reads a name and a value. -/
def callHandle (handle : σ → Bytes → Bytes → Bool × σ) (s : σ) (name nameLength value valueLength : Nat) :
    Buffer UInt8 (Bool × σ) := do
  let n ← Buffer.copy nameLength name
  let v ← Buffer.copy valueLength value
  pure (handle s n v)

/-- The loop of `process_request_header_fields`; pointers are counted from the start of the block. An
iteration begins with the `memchr` that the source does at the end of the one before. -/
def processFields (handle : σ → Bytes → Bytes → Bool × σ) (length : Nat) :
    Nat → Nat → σ → Buffer UInt8 (Bool × σ)
  | 0, _, _ => Buffer.out
  | fuel + 1, name, s => do
    match ← Buffer.find 58 ((length + (2 ^ 32 - name)) % 2 ^ 32) name with
    | none => pure (true, s)
    | some p =>
      Buffer.poke p 0
      let nameLength := (p - name) % 2 ^ 32
      let value ← Buffer.skip 32 (length + 1) (p + 1)
      let valueLength := (length + (2 ^ 32 - value)) % 2 ^ 32
      match ← Buffer.find 10 valueLength value with
      | some p2 =>
        let c ← Buffer.peek (p2 - 1)
        Buffer.poke (if c = 13 then p2 - 1 else p2) 0
        let valueLength := (p2 - value) % 2 ^ 32
        let valueLength := if c = 13 then (valueLength + (2 ^ 32 - 1)) % 2 ^ 32 else valueLength
        match ← callHandle handle s name nameLength value valueLength with
        | (true, s) => processFields handle length fuel (p2 + 1) s
        | (false, s) => pure (false, s)
      | none => callHandle handle s name nameLength value valueLength

/-! ## The calls -/

/-- The value, without the carriage return at its end. -/
def stripped (v : Bytes) : Bytes := if v.getLast? = some 13 then v.dropLast else v

/-- The names and values of a block. -/
def splitFields : Nat → Bytes → List (Bytes × Bytes)
  | 0, _ => []
  | fuel + 1, data =>
    match memchr data 58 with
    | none => []
    | some (name, rest) =>
      let value := rest.dropWhile (· = 32)
      match memchr value 10 with
      | some (v, rest) => (name, stripped v) :: splitFields fuel rest
      | none => [(name, value)]

/-- One call after the other, up to the first that returns false. -/
def handleFields (handle : σ → Bytes → Bytes → Bool × σ) (s : σ) : List (Bytes × Bytes) → Bool × σ
  | [] => (true, s)
  | (name, value) :: fields =>
    match handle s name value with
    | (true, s) => handleFields handle s fields
    | (false, s) => (false, s)

/-- A field of a header, with the blanks behind the colon and the end of its line. -/
structure HeaderField where
  name : Bytes
  blanks : Nat
  value : Bytes
  crlf : Bool
deriving DecidableEq, Repr

namespace HeaderField

variable (f : HeaderField)

structure WellFormed : Prop where
  nonempty : f.name ≠ []
  name : ∀ c ∈ f.name, c ≠ 58 ∧ c ≠ 13 ∧ c ≠ 10
  value : ∀ c ∈ f.value, c ≠ 13 ∧ c ≠ 10 ∧ c ≠ 0
  start : f.value.head? ≠ some 32

def line : Bytes := f.name ++ 58 :: (List.replicate f.blanks 32 ++ f.value)

def ending : Bytes := if f.crlf then [13, 10] else [10]

end HeaderField

/-- The fields as `try_read_command` cuts them: the last line has no end. -/
def block : List HeaderField → Bytes
  | [] => []
  | [f] => f.line
  | f :: fs => f.line ++ (f.ending ++ block fs)

namespace FieldLemmas

variable {handle : σ → Bytes → Bytes → Bool × σ} {s : σ} {data name rest value v : Bytes}

/-- The model of the whole parser makes the same calls. -/
theorem processRequestHeaderFields_eq (p : Params) (fuel : Nat) (data : Bytes) :
    p.processRequestHeaderFields fuel data =
      handleFields Params.handleRequestHeaderField p (splitFields fuel data) := by
  induction fuel generalizing p data with
  | zero => rfl
  | succ fuel ih =>
    rw [Params.processRequestHeaderFields, splitFields]
    cases memchr data 58 with
    | none => rfl
    | some r =>
      obtain ⟨name, rest⟩ := r
      dsimp only
      cases memchr (rest.dropWhile (· = 32)) 10 with
      | none =>
        dsimp only
        rw [handleFields]
        split
        · next s h => rw [h]; rfl
        · next s h => exact h
      | some r =>
        obtain ⟨v, rest⟩ := r
        dsimp only
        rw [handleFields, stripped]
        split
        · next p' h => rw [h]; exact ih p' rest
        · next p' h => rw [h]

/-- The length that is left, from a pointer. -/
theorem remaining {length i n : Nat} (h : i + n = length) (hlen : length < 2 ^ 32) :
    (length + (2 ^ 32 - i)) % 2 ^ 32 = n := by
  omega

/-- The handler is given the name and the value as they stand in the buffer. -/
theorem callHandle_apply {m a b a' b' : Bytes} {i j n k : Nat}
    (hname : m = a ++ (name ++ b)) (hi : i = a.length) (hn : n = name.length)
    (hvalue : m = a' ++ (value ++ b')) (hj : j = a'.length) (hk : k = value.length) :
    callHandle handle s i n j k m = some (handle s name value, m) := by
  rw [callHandle, Buffer.bind_apply (Buffer.copy_apply hname hi hn),
    Buffer.bind_apply (Buffer.copy_apply hvalue hj hk)]
  rfl

/-- The end of a line is written over. The byte in front of it is looked at: behind an empty value
that is the blank or the terminator in front of the value. -/
theorem lineEnd_apply {a : Bytes} {c : UInt8} (v rest : Bytes) (ha : a.getLast? = some c)
    (hc : c ≠ 13) :
    ∃ b a' t, Buffer.peek (a.length + v.length - 1) (a ++ (v ++ 10 :: rest)) =
        some (b, a ++ (v ++ 10 :: rest)) ∧
      Buffer.poke (if b = 13 then a.length + v.length - 1 else a.length + v.length) 0
        (a ++ (v ++ 10 :: rest)) = some ((), a' ++ rest) ∧
      a' = a ++ (stripped v ++ t) ∧ a'.length = a.length + v.length + 1 ∧
      (stripped v).length + (if b = 13 then 1 else 0) = v.length := by
  cases v using List.reverseRecOn with
  | nil =>
    obtain ⟨a, rfl⟩ := List.getLast?_eq_some_iff.mp ha
    refine ⟨c, a ++ [c] ++ [0], [0], ?_, ?_, rfl, ?_, ?_⟩
    · exact Buffer.peek_apply (List.append_assoc a [c] _) (by simp)
    · rw [if_neg hc]
      exact (Buffer.poke_apply rfl (by simp) 0).trans (by simp)
    · simp
    · rw [if_neg hc]
      rfl
  | append_singleton v b =>
    have hpeek : Buffer.peek (a.length + (v ++ [b]).length - 1) (a ++ ((v ++ [b]) ++ 10 :: rest)) =
        some (b, a ++ ((v ++ [b]) ++ 10 :: rest)) :=
      Buffer.peek_apply (a := a ++ v) (b := 10 :: rest) (by simp) (by simp)
    rw [stripped, List.getLast?_concat, List.dropLast_concat]
    by_cases hb : b = 13
    · subst hb
      refine ⟨13, a ++ (v ++ [0, 10]), [0, 10], hpeek, ?_, by rw [if_pos rfl],
        by simp; omega, ?_⟩
      · rw [if_pos rfl]
        exact (Buffer.poke_apply (a := a ++ v) (c := 13) (b := 10 :: rest) (by simp)
          (by simp) 0).trans (by simp)
      · rw [if_pos rfl, if_pos rfl, List.length_append, List.length_singleton]
    · have hb' : ¬ some b = some 13 := fun h => hb (Option.some.inj h)
      refine ⟨b, a ++ (v ++ [b] ++ [0]), [0], hpeek, ?_, by rw [if_neg hb'], by simp; omega, ?_⟩
      · rw [if_neg hb]
        exact (Buffer.poke_apply (a := a ++ (v ++ [b])) (c := 10) (b := rest) (by simp) (by simp)
          0).trans (by simp)
      · rw [if_neg hb', if_neg hb, Nat.add_zero]

/-- The blanks in front of a value end at the terminator at the latest. -/
theorem exists_blanks (rest : Bytes) : ∃ blanks c tail, (∀ b ∈ blanks, b = (32 : UInt8)) ∧
    rest = blanks ++ rest.dropWhile (· = 32) ∧ rest.dropWhile (· = 32) ++ [0] = c :: tail ∧ c ≠ 32 := by
  induction rest with
  | nil => exact ⟨[], 0, [], nofun, rfl, rfl, by decide⟩
  | cons b rest ih =>
    by_cases hb : b = 32
    · obtain ⟨blanks, c, tail, hblanks, hrest, hvalue, hc⟩ := ih
      have hdrop : (b :: rest).dropWhile (· = 32) = rest.dropWhile (· = 32) :=
        List.dropWhile_cons_of_pos (decide_eq_true hb)
      rw [hdrop]
      exact ⟨b :: blanks, c, tail, List.forall_mem_cons.mpr ⟨hb, hblanks⟩,
        congrArg (b :: ·) hrest, hvalue, hc⟩
    · have hdrop : (b :: rest).dropWhile (· = 32) = b :: rest :=
        List.dropWhile_cons_of_neg (by rw [decide_eq_true_iff]; exact hb)
      rw [hdrop]
      exact ⟨[], b, rest ++ [0], nofun, rfl, rfl, hb⟩

/-- The name ends at the colon, which is written over, and the value starts behind the blanks. -/
theorem nameEnd_apply {front a blanks tail : Bytes} {c : UInt8} {length : Nat}
    (ha : a = front ++ (name ++ 0 :: blanks)) (hname : 58 ∉ name) (hblanks : ∀ b ∈ blanks, b = 32)
    (hvalue : value ++ [0] = c :: tail) (hc : c ≠ 32) (hlength : blanks.length ≤ length) :
    Buffer.find 58 (name ++ 58 :: (blanks ++ value)).length front.length
        (front ++ (name ++ 58 :: (blanks ++ value) ++ [0])) =
          some (some (front.length + name.length),
            front ++ (name ++ 58 :: (blanks ++ value) ++ [0])) ∧
      Buffer.poke (front.length + name.length) 0
        (front ++ (name ++ 58 :: (blanks ++ value) ++ [0])) = some ((), a ++ (value ++ [0])) ∧
      Buffer.skip 32 (length + 1) (front.length + name.length + 1) (a ++ (value ++ [0])) =
        some (a.length, a ++ (value ++ [0])) := by
  refine ⟨Buffer.find_apply (b := blanks ++ value ++ [0]) (by simp) rfl hname (by simp), ?_, ?_⟩
  · exact (Buffer.poke_apply (a := front ++ name) (c := 58) (b := blanks ++ value ++ [0]) (by simp)
      (by simp) 0).trans (by simp [ha])
  · have hpos : a.length = front.length + name.length + 1 + blanks.length := by
      rw [ha, List.length_append, List.length_append, List.length_cons]
      omega
    rw [hpos]
    exact Buffer.skip_apply (a := front ++ name ++ [0]) (b := tail) (by simp [ha, hvalue])
      (by simp; omega) hblanks hc (by omega)

/-- The byte in front of a value is the terminator of the name, or a blank. -/
theorem exists_before {front a blanks : Bytes} (ha : a = front ++ (name ++ 0 :: blanks))
    (hblanks : ∀ b ∈ blanks, b = 32) : ∃ d, a.getLast? = some d ∧ d ≠ 13 := by
  rw [ha, ← List.append_assoc]
  cases blanks using List.reverseRecOn with
  | nil => exact ⟨0, List.getLast?_concat, by decide⟩
  | append_singleton blanks d =>
    rw [← List.cons_append, ← List.append_assoc, List.getLast?_concat]
    have hd : d = 32 := hblanks d (List.mem_append_right blanks (List.mem_singleton_self d))
    exact ⟨d, rfl, by rw [hd]; decide⟩

/-- The length that is worked out for a value at `i`, up to the end of its line. -/
theorem valueLength_eq {i n k : Nat} {b : UInt8} (hn : n < 2 ^ 32)
    (hk : k + (if b = 13 then 1 else 0) = n) :
    (if b = 13 then ((i + n - i) % 2 ^ 32 + (2 ^ 32 - 1)) % 2 ^ 32 else (i + n - i) % 2 ^ 32) = k := by
  split
  · next hb =>
    rw [if_pos hb] at hk
    omega
  · next hb =>
    rw [if_neg hb] at hk
    omega

/-- On every block the loop makes the calls for its fields, and stays in the block and its terminator. -/
theorem processFields_eq (handle : σ → Bytes → Bytes → Bool × σ) {length fuel : Nat}
    {front data : Bytes} (hlength : front.length + data.length = length) (h32 : length < 2 ^ 32)
    (hfuel : data.length < fuel) (s : σ) :
    ∃ m, processFields handle length fuel front.length s (front ++ (data ++ [0])) =
      some (handleFields handle s (splitFields fuel data), m) := by
  induction fuel generalizing front data s with
  | zero => exact absurd hfuel (Nat.not_lt_zero _)
  | succ fuel ih =>
    rw [processFields, splitFields, memchr, remaining hlength h32]
    cases hcolon : cut [58] data with
    | none =>
      have hfind : Buffer.find 58 data.length front.length (front ++ (data ++ [0])) =
          some (none, _) := Buffer.find_none rfl rfl (cut_singleton_none.mp hcolon) rfl
      exact ⟨_, by rw [Buffer.bind_apply hfind]; rfl⟩
    | some r =>
      obtain ⟨name, rest⟩ := r
      obtain ⟨rfl, hname⟩ := of_cut_singleton hcolon
      obtain ⟨blanks, c, tail, hblanks, hrest, hvalue, hc⟩ := exists_blanks rest
      generalize hdrop : rest.dropWhile (· = 32) = value at hrest hvalue
      subst hrest
      rw [List.length_append, List.length_cons, List.length_append] at hlength hfuel
      obtain ⟨a, ha⟩ : ∃ a, a = front ++ (name ++ 0 :: blanks) := ⟨_, rfl⟩
      have hleft : a.length + value.length = length := by
        rw [ha, List.length_append, List.length_append, List.length_cons]
        omega
      obtain ⟨hfind, hpoke, hskip⟩ := nameEnd_apply ha hname hblanks hvalue hc
        (show blanks.length ≤ length by omega)
      have hnameLength : (front.length + name.length - front.length) % 2 ^ 32 = name.length := by
        omega
      rw [Buffer.bind_apply hfind]
      dsimp only
      rw [Buffer.bind_apply hpoke, Buffer.bind_apply hskip, hdrop, hnameLength,
        remaining hleft h32, memchr]
      cases hline : cut [10] value with
      | none =>
        have hfind : Buffer.find 10 value.length a.length (a ++ (value ++ [0])) = some (none, _) :=
          Buffer.find_none rfl rfl (cut_singleton_none.mp hline) rfl
        have hcall : callHandle handle s front.length name.length a.length value.length
            (a ++ (value ++ [0])) = some (handle s name value, _) :=
          callHandle_apply (b := 0 :: (blanks ++ (value ++ [0]))) (by simp [ha]) rfl rfl rfl rfl rfl
        rw [Buffer.bind_apply hfind]
        dsimp only
        rw [hcall]
        refine ⟨_, congrArg (fun r => some (r, _)) ?_⟩
        rw [handleFields]
        split
        · next s' h => exact h
        · next s' h => exact h
      | some r =>
        obtain ⟨v, rest⟩ := r
        obtain ⟨rfl, hv⟩ := of_cut_singleton hline
        rw [List.length_append, List.length_cons] at hlength hfuel hleft
        obtain ⟨d, hd, hd13⟩ := exists_before ha hblanks
        obtain ⟨b, a', t, hpeek, hpoke, ha', hlen, hstripped⟩ :=
          lineEnd_apply v (rest ++ [0]) hd hd13
        have hfind : Buffer.find 10 (v ++ 10 :: rest).length a.length
            (a ++ ((v ++ 10 :: rest) ++ [0])) = some (some (a.length + v.length), _) :=
          Buffer.find_apply (b := rest ++ [0]) (by simp) rfl hv (by simp)
        have happ : a ++ (stripped v ++ t) ++ (rest ++ [0]) =
            a ++ (stripped v ++ (t ++ (rest ++ [0]))) := by
          rw [List.append_assoc, List.append_assoc]
        have hcall : callHandle handle s front.length name.length a.length (stripped v).length
            (a' ++ (rest ++ [0])) = some (handle s name (stripped v), _) :=
          callHandle_apply (b := 0 :: (blanks ++ (stripped v ++ (t ++ (rest ++ [0])))))
            (by simp [ha', ha]) rfl rfl (ha' ▸ happ) rfl rfl
        rw [Buffer.bind_apply hfind]
        dsimp only
        rw [List.append_assoc, List.cons_append, Buffer.bind_apply hpeek, Buffer.bind_apply hpoke,
          valueLength_eq (by omega) hstripped, Buffer.bind_apply hcall, handleFields, ← hlen]
        cases hh : handle s name (stripped v) with
        | mk ok s' =>
          cases ok with
          | false => exact ⟨_, rfl⟩
          | true => exact ih (by omega) (by omega) s'

/-! ## The fields of a header -/

theorem dropBlanks {x : Bytes} (h : x.head? ≠ some 32) (k : Nat) :
    (List.replicate k 32 ++ x).dropWhile (· = 32) = x := by
  have hx : x.dropWhile (· = 32) = x := by
    cases x with
    | nil => rfl
    | cons c x =>
      refine List.dropWhile_cons_of_neg ?_
      rw [decide_eq_true_iff]
      exact fun hc => h (congrArg some hc)
  rw [List.dropWhile_append_of_pos, hx]
  intro c hc
  exact decide_eq_true (List.eq_of_mem_replicate hc)

theorem stripped_of_notMem (h : 13 ∉ v) : stripped v = v :=
  if_neg fun hlast => h (List.mem_of_getLast? hlast)

theorem splitFields_block {fs : List HeaderField} (h : ∀ f ∈ fs, f.WellFormed) {fuel : Nat}
    (hfuel : fs.length < fuel) :
    splitFields fuel (block fs) = fs.map fun f => (f.name, f.value) := by
  induction fs generalizing fuel with
  | nil =>
    obtain ⟨fuel, rfl⟩ := Nat.exists_eq_add_one_of_ne_zero (Nat.ne_of_gt hfuel)
    rfl
  | cons f fs ih =>
    obtain ⟨fuel, rfl⟩ := Nat.exists_eq_add_one_of_ne_zero (Nat.ne_of_gt (Nat.zero_lt_of_lt hfuel))
    obtain ⟨hf, hfs⟩ := List.forall_mem_cons.mp h
    have hname : 58 ∉ f.name := fun hc => (hf.name 58 hc).1 rfl
    have hcr : 13 ∉ f.value := fun hc => (hf.value 13 hc).1 rfl
    have hlf : 10 ∉ f.value := fun hc => (hf.value 10 hc).2.1 rfl
    cases fs with
    | nil =>
      rw [block, HeaderField.line, splitFields, memchr, cut_singleton hname]
      dsimp only
      rw [dropBlanks hf.start, memchr, cut_singleton_none.mpr hlf]
      rfl
    | cons g fs =>
      have hrest := ih hfs (Nat.lt_of_succ_lt_succ hfuel)
      -- the end of the line is a line feed, with a carriage return in front of it or not
      obtain ⟨x, hending, hx⟩ : ∃ x, f.ending = x ++ [10] ∧ (x = [13] ∨ x = []) := by
        cases hc : f.crlf with
        | true => exact ⟨[13], by rw [HeaderField.ending, hc]; rfl, .inl rfl⟩
        | false => exact ⟨[], by rw [HeaderField.ending, hc]; rfl, .inr rfl⟩
      have hblock : block (f :: g :: fs) = f.name ++
          58 :: (List.replicate f.blanks 32 ++ ((f.value ++ x) ++ 10 :: block (g :: fs))) := by
        simp [block, HeaderField.line, hending]
      have hhead : ((f.value ++ x) ++ 10 :: block (g :: fs)).head? ≠ some 32 := by
        cases hv : f.value with
        | nil =>
          rcases hx with rfl | rfl
          · exact (by decide : some (13 : UInt8) ≠ some 32)
          · exact (by decide : some (10 : UInt8) ≠ some 32)
        | cons c v =>
          have hstart := hf.start
          rw [hv] at hstart
          exact hstart
      have hlf' : 10 ∉ f.value ++ x := by
        rw [List.mem_append, not_or]
        rcases hx with rfl | rfl
        · exact ⟨hlf, by decide⟩
        · exact ⟨hlf, List.not_mem_nil⟩
      have hstripped : stripped (f.value ++ x) = f.value := by
        rcases hx with rfl | rfl
        · rw [stripped, if_pos List.getLast?_concat, List.dropLast_concat]
        · rw [List.append_nil, stripped_of_notMem hcr]
      rw [hblock, splitFields, memchr, cut_singleton hname]
      dsimp only
      rw [dropBlanks hhead, memchr, cut_singleton hlf']
      dsimp only
      rw [hstripped, hrest]
      rfl

theorem length_le_block (fs : List HeaderField) : fs.length ≤ (block fs).length := by
  have hline (f : HeaderField) : 1 ≤ f.line.length := by
    rw [HeaderField.line, List.length_append, List.length_cons]
    omega
  induction fs with
  | nil => exact Nat.le_refl 0
  | cons f fs ih =>
    cases fs with
    | nil => exact hline f
    | cons g fs =>
      have hf := hline f
      have hblock : block (f :: g :: fs) = f.line ++ (f.ending ++ block (g :: fs)) := rfl
      rw [hblock, List.length_append, List.length_append, List.length_cons]
      omega

end FieldLemmas

open FieldLemmas

/-- The handler is called with the fields of the header in their order, up to the first call that
returns false. -/
theorem split_exactly {fs : List HeaderField} (h : ∀ f ∈ fs, f.WellFormed)
    (hlength : (block fs).length < 2 ^ 32) (handle : σ → Bytes → Bytes → Bool × σ) (s : σ) :
    ∃ m, processFields handle (block fs).length ((block fs).length + 1) 0 s (block fs ++ [0]) =
      some (handleFields handle s (fs.map fun f => (f.name, f.value)), m) := by
  have hfuel : fs.length < (block fs).length + 1 := Nat.lt_succ_of_le (length_le_block fs)
  have hstart : ([] : Bytes).length + (block fs).length = (block fs).length := Nat.zero_add _
  obtain ⟨m, hm⟩ := processFields_eq handle hstart hlength (Nat.lt_succ_self _) s
  rw [splitFields_block h hfuel] at hm
  exact ⟨m, hm⟩

/-- A header of two fields, the first without a value and ended by a line feed only. -/
theorem split_exactly_two :
    let fs : List HeaderField := [⟨ascii "a", 2, [], false⟩, ⟨ascii "b", 0, ascii "c:d", true⟩]
    ∃ m, processFields Params.handleRequestHeaderField (block fs).length ((block fs).length + 1) 0
        Params.new (block fs ++ [0]) =
      some (handleFields Params.handleRequestHeaderField Params.new
        (fs.map fun f => (f.name, f.value)), m) :=
  split_exactly (List.forall_mem_cons.mpr
    ⟨⟨by decide, List.all_iff_forall_prop.mp (by decide), List.all_iff_forall_prop.mp (by decide),
      by decide⟩, List.forall_mem_singleton.mpr
        ⟨by decide, List.all_iff_forall_prop.mp (by decide), List.all_iff_forall_prop.mp (by decide),
          by decide⟩⟩) (by decide) Params.handleRequestHeaderField
        Params.new

end Xixi.Http
