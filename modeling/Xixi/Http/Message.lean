import Xixi.Http.Machine
import Xixi.Parsing

/-!
# Messages (`Peer_Http`)

The requests as a client writes them: a request line, header fields, and a body whose length a
field announces. What the parser makes of such a head depends on the message and on two fields
that the connection has from before: whether it is kept, and the content length.

1. `Message`: what a client writes; `Message.WellFormed`: when it is a message.
2. `Message.Passed`: the parser takes the body with the message, or the connection is closed.
3. `fields_spec`: the loop over the header fields goes from field to field.
4. `header_spec`: how `process_request_header` ends.
5. `Message.Passed.outcome`: a message that is passed is told from what stands behind it.
-/

namespace Xixi.Http
open Lib

/-- A header field; the value is what stands between the colon and the end of the line. -/
structure Field where
  name : Bytes
  value : Bytes
deriving DecidableEq, Repr

/-- A request as it is written. -/
structure Message where
  method : Bytes
  target : Bytes
  version : Bytes
  fields : List Field
  body : Bytes
deriving DecidableEq, Repr

/-- Visible characters. -/
def Word (x : Bytes) : Prop := x ≠ [] ∧ ∀ c ∈ x, 32 < c

instance (x : Bytes) : Decidable (Word x) := inferInstanceAs (Decidable (_ ∧ _))

namespace Field

variable (f : Field)

def line : Bytes := f.name ++ 58 :: f.value

structure WellFormed : Prop where
  name : Word f.name
  colon : 58 ∉ f.name
  cr : 13 ∉ f.value
  lf : 10 ∉ f.value

/-- The value without the blanks in front, as the parser takes it. -/
def text : Bytes := f.value.dropWhile (· = 32)

def IsLength : Prop := strcasecmp f.name (ascii "content-length") = true

/-- The value is the number `n`, with white space around it. -/
def Announces (n : Nat) : Prop :=
  ∃ a ds b, f.value = a ++ (ds ++ b) ∧ (∀ c ∈ a, c = 32 ∨ c = 9) ∧ (∀ c ∈ b, c = 32 ∨ c = 9) ∧
    ds ≠ [] ∧ (∀ d ∈ ds, isDigit d = true) ∧ decimalValue ds = n

/-- A content length that `safe_toui32` does not take. -/
def Rejected : Prop := f.IsLength ∧ safeToui 32 (.copy f.text) = none

/-- `Connection: Keep-Alive`. -/
def Persistent : Prop :=
  strcasecmp f.name (ascii "Connection") = true ∧ 10 ≤ f.text.length ∧
    strcasecmp (f.text.take 10) (ascii "Keep-Alive") = true

instance : Decidable f.IsLength := inferInstanceAs (Decidable (_ = _))
instance : Decidable f.Rejected := inferInstanceAs (Decidable (_ ∧ _))
instance : Decidable f.Persistent := inferInstanceAs (Decidable (_ ∧ _ ∧ _))

end Field

namespace Message

variable (m : Message)

def requestLine : Bytes := m.method ++ 32 :: (m.target ++ 32 :: m.version)

/-- The head without the empty line that ends it. -/
def header : Bytes := joined m.requestLine (m.fields.map Field.line)

def bytes : Bytes := m.header ++ (crlf ++ (crlf ++ m.body))

/-- A message of HTTP/1.x; the body is as long as the head says, and without a word about it there
is none. -/
structure WellFormed : Prop where
  method : Word m.method
  target : Word m.target
  version : ∃ d, isDigit d = true ∧ m.version = ascii "HTTP/1." ++ [d]
  fields : ∀ f ∈ m.fields, f.WellFormed
  length : ∀ f ∈ m.fields, f.IsLength → f.Announces m.body.length
  bare : (∀ f ∈ m.fields, ¬ f.IsLength) → m.body = []

/-- The method, as `IS_METHOD` sees it. -/
def isMethod : Option Method := (Method.ofLine m.requestLine).map Prod.fst

/-- The connection is to be kept after this message: it was before, or the message says so. -/
def KeepsAlive (p : Params) : Prop :=
  p.http.keepalive = true ∨ m.version = ascii "HTTP/1.1" ∨
    m.isMethod ≠ none ∧ ∃ f ∈ m.fields.takeWhile fun f => !decide f.Rejected, f.Persistent

/-- The body is taken with the message, or the connection is closed: a `POST` of a size that is
accepted. Without a body, a length that is left from an earlier request must not be taken for that
of this one. -/
def Passed (s : Settings) (p : Params) : Prop :=
  if m.body = [] then
    m.isMethod = some .post → (∃ f ∈ m.fields, f.IsLength) ∨ p.contentLength = 0 ∨
      s.itemSizeMax * 3 % 2 ^ 32 < p.contentLength
  else
    (m.isMethod = some .post ∧ m.body.length ≤ s.itemSizeMax * 3 % 2 ^ 32) ∨ ¬ m.KeepsAlive p

instance (p : Params) : Decidable (m.KeepsAlive p) := inferInstanceAs (Decidable (_ ∨ _ ∨ _))

instance (s : Settings) (p : Params) : Decidable (m.Passed s p) :=
  inferInstanceAs (Decidable (ite (m.body = []) (_ → _) (_ ∨ _)))

end Message

namespace MessageLemmas

variable {m : Message} {p p' : Params} {f : Field} {fs : List Field} {ok : Bool}

/-! ## The head as lines -/

theorem notMem_of_word {x : Bytes} (h : Word x) {c : UInt8} (hc : c ≤ 32) : c ∉ x :=
  fun hx => absurd (h.2 c hx) (UInt8.not_lt.mpr hc)

theorem cr_notMem_line (h : f.WellFormed) : (13 : UInt8) ∉ f.line := by
  rw [Field.line, List.mem_append, List.mem_cons, not_or, not_or]
  exact ⟨notMem_of_word h.name (by decide), by decide, h.cr⟩

theorem line_ne_nil (f : Field) : f.line ≠ [] :=
  List.append_ne_nil_of_right_ne_nil _ (List.cons_ne_nil _ _)

theorem line_line (h : f.WellFormed) : Line f.line := line_of_notMem (cr_notMem_line h) (line_ne_nil f)

theorem cr_notMem_requestLine (h : m.WellFormed) : (13 : UInt8) ∉ m.requestLine := by
  obtain ⟨d, hd, hversion⟩ := h.version
  rw [Message.requestLine, hversion]
  simp only [List.mem_append, List.mem_cons, not_or]
  refine ⟨notMem_of_word h.method (by decide), by decide, notMem_of_word h.target (by decide),
    by decide, by decide, ?_, List.not_mem_nil⟩
  rintro rfl
  exact nomatch hd

/-- The head ends at the empty line. -/
theorem cut_bytes (h : m.WellFormed) (rest : Bytes) :
    cut (crlf ++ crlf) (m.bytes ++ rest) = some (m.header, m.body ++ rest) := by
  have hlines : ∀ x ∈ m.fields.map Field.line, Line x := by
    intro x hx
    obtain ⟨f, hf, rfl⟩ := List.mem_map.mp hx
    exact line_line (h.fields f hf)
  have hcut := cut_joined_end (not_crlf_of_notMem (cr_notMem_requestLine h)) hlines (m.body ++ rest)
  rw [Message.bytes, List.append_assoc, List.append_assoc, List.append_assoc]
  exact hcut

/-- The text of the header fields. -/
def fieldsText : List Field → Bytes
  | [] => []
  | f :: fs => joined f.line (fs.map Field.line)

theorem memfind_header (h : m.WellFormed) :
    (memfind m.header crlf).getD (m.header, []) = (m.requestLine, fieldsText m.fields) := by
  have hline := not_crlf_of_notMem (cr_notMem_requestLine h)
  rw [memfind, Message.header]
  cases m.fields with
  | nil =>
    have hjoined : joined m.requestLine (([] : List Field).map Field.line) = m.requestLine :=
      List.append_nil _
    rw [hjoined, cut_eq_none_iff.mpr hline]
    rfl
  | cons f fs =>
    have hcut := cut_line hline [] (joined f.line (fs.map Field.line))
    rw [List.append_nil, cut_front, Option.map_some, List.append_nil] at hcut
    rw [List.map_cons, joined_cons, hcut]
    rfl

/-! ## The loop over the fields -/

/-- The fields, one after the other. -/
def readFields (p : Params) : List Field → Bool × Params
  | [] => (true, p)
  | f :: fs =>
    match p.handleRequestHeaderField f.name f.text with
    | (true, p) => readFields p fs
    | (false, p) => (false, p)

theorem text_append (f : Field) (z : Bytes) :
    (f.value ++ (crlf ++ z)).dropWhile (· = 32) = f.text ++ (crlf ++ z) := by
  rw [Field.text, List.dropWhile_append]
  split
  · next h =>
    rw [List.isEmpty_iff.mp h]
    rfl
  · rfl

theorem mem_text {c : UInt8} (h : c ∈ f.text) : c ∈ f.value :=
  (List.dropWhile_suffix _).subset h

/-- The loop goes from field to field. -/
theorem fields_spec (hfs : ∀ f ∈ fs, f.WellFormed) {fuel : Nat} (hfuel : fs.length < fuel) :
    p.processRequestHeaderFields fuel (fieldsText fs) = readFields p fs := by
  induction fs generalizing p fuel with
  | nil =>
    cases fuel with
    | zero => exact absurd hfuel (Nat.not_lt_zero _)
    | succ fuel => rfl
  | cons f fs ih =>
    obtain ⟨fuel, rfl⟩ := Nat.exists_eq_succ_of_ne_zero (Nat.ne_zero_of_lt hfuel)
    have hf := hfs f List.mem_cons_self
    have hfs' : ∀ f ∈ fs, f.WellFormed := fun f hf => hfs f (List.mem_cons_of_mem _ hf)
    have hlf : (10 : UInt8) ∉ f.text := fun h => hf.lf (mem_text h)
    cases fs with
    | nil =>
      have hname : memchr (fieldsText [f]) 58 = some (f.name, f.value) := by
        rw [memchr, fieldsText, joined, List.map_nil, List.flatMap_nil, List.append_nil]
        exact cut_singleton hf.colon f.value
      have hend : memchr f.text 10 = none := cut_singleton_none.mpr hlf
      have htext : f.value.dropWhile (· = 32) = f.text := rfl
      rw [Params.processRequestHeaderFields, hname]
      dsimp only
      rw [htext, hend, readFields]
      dsimp only
      rcases p.handleRequestHeaderField f.name f.text with ⟨ok, p'⟩
      cases ok with
      | true => rfl
      | false => rfl
    | cons f' fs =>
      have hname : memchr (fieldsText (f :: f' :: fs)) 58 =
          some (f.name, f.value ++ (crlf ++ fieldsText (f' :: fs))) := by
        rw [memchr, fieldsText, List.map_cons, joined_cons, Field.line, List.append_assoc]
        exact cut_singleton hf.colon _
      have hend : memchr (f.text ++ (crlf ++ fieldsText (f' :: fs))) 10 =
          some (f.text ++ [13], fieldsText (f' :: fs)) := by
        have hcr : (10 : UInt8) ∉ f.text ++ [13] := by
          rw [List.mem_append, not_or]
          exact ⟨hlf, by decide⟩
        rw [memchr, crlf, ← cut_singleton hcr (fieldsText (f' :: fs)), List.append_assoc]
        rfl
      rw [Params.processRequestHeaderFields, hname]
      dsimp only
      rw [text_append, hend]
      dsimp only
      rw [List.getLast?_concat, if_pos rfl, List.dropLast_concat, readFields]
      rcases p.handleRequestHeaderField f.name f.text with ⟨ok, p'⟩
      cases ok with
      | true => exact ih hfs' (Nat.lt_of_succ_lt_succ hfuel)
      | false => rfl

/-! ## What the fields say -/

theorem length_of_strcasecmp {a b : Bytes} (h : strcasecmp a b = true) : a.length = b.length := by
  have hmap := congrArg List.length (beq_iff_eq.mp h)
  rwa [List.length_map, List.length_map] at hmap

/-- A field has a content length, or one that is rejected, or it does not touch the content
length. -/
inductive Effect (f : Field) (p : Params) : Bool × Params → Prop
  | length {n : Nat} (field : f.IsLength) (value : safeToui 32 (.copy f.text) = some n) :
    Effect f p (true, { p with contentLength := n })
  | rejected (field : f.Rejected) : Effect f p (false, p)
  | other {p' : Params} (field : ¬ f.IsLength) (same : p'.contentLength = p.contentLength)
    (kept : p'.http.keepalive = true → p.http.keepalive = true ∨ f.Persistent) : Effect f p (true, p')

theorem keepalive_setContentType (h : HttpRequest) (value : Bytes) :
    (h.setContentType value).keepalive = h.keepalive := by
  unfold HttpRequest.setContentType
  split
  · rfl
  · split
    · split
      · rfl
      · rfl
    · rfl

theorem effect_field (f : Field) (p : Params) :
    Effect f p (p.handleRequestHeaderField f.name f.text) := by
  have hnot {n : Nat} (hlen : f.name.length = n) (hn : n ≠ 14) : ¬ f.IsLength :=
    fun h => hn (hlen.symm.trans (length_of_strcasecmp h))
  have hsame (h : ¬ f.IsLength) : Effect f p (true, p) := .other h rfl .inl
  unfold Params.handleRequestHeaderField
  split
  · next hlen =>
    split
    · next hka => exact .other (hnot hlen (by decide)) rfl fun _ => .inr hka
    · exact hsame (hnot hlen (by decide))
  · split
    · next hlen =>
      split
      · refine .other (hnot hlen (by decide)) rfl fun h => .inl ?_
        exact (keepalive_setContentType p.http f.text).symm.trans h
      · exact hsame (hnot hlen (by decide))
    · split
      · next hlen =>
        split
        · exact .other (hnot hlen (by decide)) rfl .inl
        · exact hsame (hnot hlen (by decide))
      · split
        · split
          · next hname =>
            split
            · next n hn => exact .length hname hn
            · next hn => exact .rejected ⟨hname, hn⟩
          · next hname => exact hsame hname
        · next hlen =>
          have hother : ¬ f.IsLength := fun h => hlen (length_of_strcasecmp h)
          split
          · split
            · exact .other hother rfl .inl
            · exact hsame hother
          · exact hsame hother

/-- What keeps the connection stands before a length that is rejected. -/
theorem keepalive_readFields (h : (readFields p fs).2.http.keepalive = true) :
    p.http.keepalive = true ∨ ∃ f ∈ fs.takeWhile fun f => !decide f.Rejected, f.Persistent := by
  induction fs generalizing p with
  | nil => exact .inl h
  | cons f fs ih =>
    have heffect := effect_field f p
    rw [readFields] at h
    generalize p.handleRequestHeaderField f.name f.text = r at h heffect
    have hnext (hok : ¬ f.Rejected) {x : Field}
        (hx : x ∈ fs.takeWhile fun f => !decide f.Rejected) :
        x ∈ (f :: fs).takeWhile fun f => !decide f.Rejected := by
      rw [List.takeWhile_cons_of_pos (by rw [decide_eq_false hok]; rfl)]
      exact List.mem_cons_of_mem _ hx
    cases heffect with
    | length hfield hvalue =>
      have hok : ¬ f.Rejected := fun hrej => nomatch hvalue.symm.trans hrej.2
      rcases ih h with hka | ⟨x, hx, hpers⟩
      · exact .inl hka
      · exact .inr ⟨x, hnext hok hx, hpers⟩
    | rejected => exact .inl h
    | other hfield hsame hkept =>
      have hok : ¬ f.Rejected := fun hrej => hfield hrej.1
      rcases ih h with hka | ⟨x, hx, hpers⟩
      · rcases hkept hka with hka | hpers
        · exact .inl hka
        · refine .inr ⟨f, ?_, hpers⟩
          rw [List.takeWhile_cons_of_pos (by rw [decide_eq_false hok]; rfl)]
          exact List.mem_cons_self
      · exact .inr ⟨x, hnext hok hx, hpers⟩

/-- A length of 32 bits is taken for what it is. -/
theorem safeToui_of_announces {n : Nat} (h : f.Announces n) (hn : n < 2 ^ 32) :
    safeToui 32 (.copy f.text) = some n := by
  obtain ⟨a, ds, b, hvalue, ha, hb, hne, hds, rfl⟩ := h
  have hblank {x : Bytes} (hx : ∀ c ∈ x, c = 32 ∨ c = 9) : ∀ c ∈ x, isSpace c = true := by
    intro c hc
    rcases hx c hc with rfl | rfl
    · rfl
    · rfl
  have htext : f.text = a.dropWhile (· = 32) ++ (ds ++ b) := by
    obtain ⟨d, ds', rfl⟩ := List.exists_cons_of_ne_nil hne
    have hd : d ≠ 32 := by
      rintro rfl
      exact nomatch hds 32 List.mem_cons_self
    have hdigits : (d :: (ds' ++ b)).dropWhile (· = 32) = d :: (ds' ++ b) :=
      List.dropWhile_cons_of_neg (by rwa [decide_eq_true_iff])
    rw [Field.text, hvalue, List.dropWhile_append, List.cons_append, hdigits]
    split
    · next hnil => rw [List.isEmpty_iff.mp hnil, List.nil_append]
    · rfl
  rw [htext]
  have hfront : ∀ c ∈ a.dropWhile (· = 32), isSpace c = true := fun c hc =>
    hblank ha c ((List.dropWhile_suffix _).subset hc)
  exact safeToui_copy (w := .ui32) rfl hfront hne hds (hblank hb) hn

/-- All lengths announce the same body: the content length is that one, or what it was. -/
theorem contentLength_readFields {n : Nat} (hn : n < 2 ^ 32)
    (hfs : ∀ f ∈ fs, f.IsLength → f.Announces n) :
    (readFields p fs).1 = true ∧ (readFields p fs).2.contentLength =
      if ∃ f ∈ fs, f.IsLength then n else p.contentLength := by
  induction fs generalizing p with
  | nil => exact ⟨rfl, (if_neg fun ⟨f, hf, _⟩ => nomatch hf).symm⟩
  | cons f fs ih =>
    have hfs' : ∀ f ∈ fs, f.IsLength → f.Announces n := fun f hf => hfs f (List.mem_cons_of_mem _ hf)
    have heffect := effect_field f p
    rw [readFields]
    generalize p.handleRequestHeaderField f.name f.text = r at heffect
    cases heffect with
    | length hfield hvalue =>
      have hvalue' := safeToui_of_announces (hfs f List.mem_cons_self hfield) hn
      obtain rfl := Option.some.inj (hvalue.symm.trans hvalue')
      obtain ⟨hok, hlen⟩ := ih (p := { p with contentLength := _ }) hfs'
      have hcons : ∃ x ∈ f :: fs, x.IsLength := ⟨f, List.mem_cons_self, hfield⟩
      refine ⟨hok, hlen.trans ?_⟩
      rw [if_pos hcons, ite_self]
    | rejected hrej =>
      have hvalue' := safeToui_of_announces (hfs f List.mem_cons_self hrej.1) hn
      exact absurd (hrej.2.symm.trans hvalue') nofun
    | other hfield hsame =>
      obtain ⟨hok, hlen⟩ := ih (p := _) hfs'
      refine ⟨hok, hlen.trans ?_⟩
      have hiff : (∃ x ∈ f :: fs, x.IsLength) ↔ ∃ x ∈ fs, x.IsLength := by
        rw [List.exists_mem_cons_iff, or_iff_right hfield]
      rw [hsame, if_congr hiff rfl rfl]

theorem length_le_lines (fs : List Field) :
    fs.length ≤ ((fs.map Field.line).flatMap (crlf ++ ·)).length := by
  induction fs with
  | nil => exact Nat.le_refl _
  | cons f fs ih =>
    rw [List.map_cons, List.flatMap_cons, List.length_append, List.length_append,
      show crlf.length = 2 from rfl, List.length_cons]
    omega

theorem length_fieldsText (fs : List Field) : fs.length ≤ (fieldsText fs).length := by
  cases fs with
  | nil => exact Nat.le_refl _
  | cons f fs =>
    rw [fieldsText, joined, List.length_append, Field.line, List.length_append, List.length_cons,
      List.length_cons, Nat.add_comm]
    exact Nat.add_le_add (by omega) (length_le_lines fs)

/-! ## The request line -/

/-- The last three bytes of the line are those of the version. -/
theorem version_of_line (h : m.WellFormed)
    (h11 : m.requestLine.drop (m.requestLine.length - 3) = ascii "1.1") :
    m.version = ascii "HTTP/1.1" := by
  obtain ⟨d, hd, hversion⟩ := h.version
  let front := m.method ++ 32 :: (m.target ++ 32 :: ascii "HTTP/")
  have hline : m.requestLine = front ++ [49, 46, d] := by
    rw [Message.requestLine, hversion]
    simp only [front, List.append_assoc, List.cons_append]
    rfl
  have hdrop : (front ++ [49, 46, d]).drop (front.length + 3 - 3) = [49, 46, d] := by
    rw [Nat.add_sub_cancel, List.drop_left]
  rw [hline, List.length_append] at h11
  have hlast := hdrop.symm.trans h11
  obtain rfl : d = 49 := by
    have hget := congrArg List.getLast? hlast
    exact Option.some.inj hget
  rw [hversion]
  rfl

theorem six_le_line (h : m.WellFormed) : 6 ≤ m.requestLine.length := by
  obtain ⟨d, hd, hversion⟩ := h.version
  rw [Message.requestLine, hversion, List.length_append, List.length_cons, List.length_append,
    List.length_cons, List.length_append, List.length_singleton,
    show (ascii "HTTP/1.").length = 7 from rfl]
  omega

/-- How the head of a message is taken. -/
theorem header_spec (h : m.WellFormed) (s : Settings) (p : Params) :
    ((processRequestHeader s p m.header).2.http.keepalive = true → m.KeepsAlive p) ∧
    ((processRequestHeader s p m.header).1 = .readBody → m.isMethod = some .post) ∧
    (m.isMethod = some .post → m.body.length < 2 ^ 32 → ∃ n,
      n = (if ∃ f ∈ m.fields, f.IsLength then m.body.length else p.contentLength) ∧
      (processRequestHeader s p m.header).2.contentLength = n ∧
      (processRequestHeader s p m.header).1 =
        if 0 < n then if s.itemSizeMax * 3 % 2 ^ 32 < n then .error (.cache .tooLarge) else .readBody
        else .command) := by
  unfold processRequestHeader
  rw [memfind_header h]
  dsimp only
  rw [if_pos (six_le_line h)]
  generalize hp₁ : ite (m.requestLine.drop (m.requestLine.length - 3) = ascii "1.1") _ p = p₁
  have hka : p₁.http.keepalive = true → p.http.keepalive = true ∨ m.version = ascii "HTTP/1.1" := by
    rw [← hp₁]
    split
    · next h11 => exact fun _ => .inr (version_of_line h h11)
    · exact .inl
  have hcl : p₁.contentLength = p.contentLength := by
    rw [← hp₁]
    split
    · rfl
    · rfl
  rw [Message.KeepsAlive, Message.isMethod]
  cases hline : Method.ofLine m.requestLine with
  | none =>
    refine ⟨fun hka' => ?_, nofun, nofun⟩
    exact (hka hka').imp_right .inl
  | some r =>
    obtain ⟨method, offset⟩ := r
    dsimp only
    generalize hp₂ : ({ p₁ with http := _ } : Params) = p₂
    have hka₂ : p₂.http.keepalive = p₁.http.keepalive := by rw [← hp₂]
    have hcl₂ : p₂.contentLength = p.contentLength := by rw [← hp₂, ← hcl]
    rw [fields_spec h.fields (Nat.lt_succ_of_le (length_fieldsText m.fields))]
    have hkept : (readFields p₂ m.fields).2.http.keepalive = true → _ := keepalive_readFields
    have hlength := fun hn => contentLength_readFields (p := p₂) (n := m.body.length) hn h.length
    generalize readFields p₂ m.fields = r at hkept hlength
    obtain ⟨ok, p₃⟩ := r
    have hka₃ : p₃.http.keepalive = true → p.http.keepalive = true ∨ m.version = ascii "HTTP/1.1" ∨
        (Option.map Prod.fst (some (method, offset)) ≠ none ∧
          ∃ f ∈ m.fields.takeWhile fun f => !decide f.Rejected, f.Persistent) := by
      intro hka'
      rcases hkept hka' with hka' | hpers
      · exact (hka (hka₂ ▸ hka')).imp_right .inl
      · exact .inr (.inr ⟨nofun, hpers⟩)
    cases ok with
    | false =>
      refine ⟨hka₃, nofun, fun _ hn => ?_⟩
      exact nomatch (hlength hn).1
    | true =>
      dsimp only
      refine ⟨?_, ?_, fun hpost hn => ?_⟩
      · split
        · split
          · exact hka₃
          · exact hka₃
        · exact hka₃
      · split
        · next hpost =>
          intro _
          rw [hpost.1]
          rfl
        · exact nofun
      · obtain rfl : method = .post := Option.some.inj hpost
        refine ⟨_, rfl, ?_⟩
        rw [← hcl₂, ← (hlength hn).2]
        by_cases hpos : 0 < p₃.contentLength
        · rw [if_pos ⟨rfl, hpos⟩, if_pos hpos]
          split
          · exact ⟨rfl, rfl⟩
          · exact ⟨rfl, rfl⟩
        · rw [if_neg fun hx => hpos hx.2, if_neg hpos]
          exact ⟨rfl, rfl⟩

end MessageLemmas

open MessageLemmas

/-- A message that is passed, whatever stands behind it: the parser takes its head, and then it waits
for exactly the body, or there is none and it does not wait for one, or the connection is not kept. -/
theorem Message.Passed.outcome {m : Message} {s : Settings} {p : Params} (h : m.Passed s p)
    (hm : m.WellFormed) (rest : Bytes) :
    memfind (m.bytes ++ rest) (crlf ++ crlf) = some (m.header, m.body ++ rest) ∧
      (((processRequestHeader s p m.header).1 = .readBody ∧
          (processRequestHeader s p m.header).2.contentLength = m.body.length) ∨
        ((processRequestHeader s p m.header).1 ≠ .readBody ∧ m.body = []) ∨
        (processRequestHeader s p m.header).2.http.keepalive = false) := by
  refine ⟨cut_bytes hm rest, ?_⟩
  obtain ⟨hkept, hread, hpost⟩ := header_spec hm s p
  unfold Message.Passed at h
  split at h
  · next hnil =>
    refine .inr (.inl ⟨fun hbody => ?_, hnil⟩)
    have hmethod := hread hbody
    obtain ⟨n, hn, -, hout⟩ := hpost hmethod (by rw [hnil]; decide)
    rw [hnil] at hn
    rw [hbody] at hout
    rcases h hmethod with hlen | hzero | hlarge
    · rw [if_pos hlen] at hn
      rw [hn] at hout
      exact nomatch hout
    · rw [hzero, List.length_nil, ite_self] at hn
      rw [hn] at hout
      exact nomatch hout
    · split at hn
      · rw [hn] at hout
        exact nomatch hout
      · rw [hn, if_pos (Nat.zero_lt_of_lt hlarge), if_pos hlarge] at hout
        exact nomatch hout
  · next hne =>
    rcases h with ⟨hmethod, hle⟩ | hclosed
    · have hlt : m.body.length < 2 ^ 32 := hle.trans_lt (Nat.mod_lt _ (by decide))
      obtain ⟨n, hn, hcl, hout⟩ := hpost hmethod hlt
      have hannounced : ∃ f ∈ m.fields, f.IsLength := by
        by_contra hno
        exact hne (hm.bare fun f hf hlen => hno ⟨f, hf, hlen⟩)
      rw [if_pos hannounced] at hn
      subst hn
      rw [if_pos (List.length_pos_iff.mpr hne), if_neg (Nat.not_lt.mpr hle)] at hout
      exact .inl ⟨hout, hcl⟩
    · refine .inr (.inr (Bool.eq_false_iff.mpr fun hka => ?_))
      exact hclosed (hkept hka)

/-- A `POST` with two header fields. -/
def Message.small : Message where
  method := ascii "POST"
  target := ascii "/cache/k"
  version := ascii "HTTP/1.1"
  fields := [⟨ascii "Host", ascii " localhost"⟩, ⟨ascii "Content-Length", ascii " 3"⟩]
  body := ascii "abc"

theorem Message.small_wellFormed : Message.small.WellFormed where
  method := by decide +kernel
  target := by decide +kernel
  version := ⟨49, rfl, rfl⟩
  fields f hf := by
    obtain rfl | rfl : f = ⟨ascii "Host", ascii " localhost"⟩ ∨
        f = ⟨ascii "Content-Length", ascii " 3"⟩ := by simpa [Message.small] using hf
    · exact ⟨by decide +kernel, by decide +kernel, by decide +kernel, by decide +kernel⟩
    · exact ⟨by decide +kernel, by decide +kernel, by decide +kernel, by decide +kernel⟩
  length f hf hlen := by
    obtain rfl | rfl : f = ⟨ascii "Host", ascii " localhost"⟩ ∨
        f = ⟨ascii "Content-Length", ascii " 3"⟩ := by simpa [Message.small] using hf
    · exact absurd hlen (by decide +kernel)
    · exact ⟨[32], [51], [], rfl, fun c hc => .inl (List.mem_singleton.mp hc), nofun,
        List.cons_ne_nil _ _, fun d hd => List.mem_singleton.mp hd ▸ rfl, rfl⟩
  bare h := absurd (h ⟨ascii "Content-Length", ascii " 3"⟩ (by decide +kernel))
    (not_not.mpr (by decide +kernel))

/-- The body of one `POST` is told from the head of the next. -/
theorem Message.small_outcome :
    let out := processRequestHeader .small .new Message.small.header
    memfind (Message.small.bytes ++ Message.small.bytes) (crlf ++ crlf) =
        some (Message.small.header, ascii "abc" ++ Message.small.bytes) ∧
      out.1 = .readBody ∧ out.2.contentLength = 3 := by
  intro out
  have hpassed : Message.small.Passed .small .new := by decide +kernel
  obtain ⟨hcut, hout⟩ := hpassed.outcome Message.small_wellFormed Message.small.bytes
  rcases hout with ⟨hbody, hlength⟩ | ⟨-, hnil⟩ | hclosed
  · exact ⟨hcut, hbody, hlength⟩
  · exact absurd hnil (by decide +kernel)
  · exact absurd hclosed (by decide +kernel)

end Xixi.Http
