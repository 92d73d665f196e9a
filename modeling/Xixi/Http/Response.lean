import Xixi.Http.Machine

/-!
# Responses are well framed

1. `Framed`: a response has a head that an empty line ends, its `Connection` field tells whether
   the server closes, and its `Content-Length` is the number of the bytes behind the head.
2. `Proper`: besides, no slice goes beyond its buffer.
3. `Reply.Fits`: the texts that `snprintf` writes fit the buffers, and lengths fit 32 bits.
4. `proper_iff`: the response of a handler is proper exactly when it fits.
-/

namespace Xixi.Http
open Lib DecimalLemmas

/-- The bytes of the slices. -/
def wire (l : List Piece) : Bytes := l.flatMap Piece.bytes

/-- The number that decimal digits stand for. -/
def digitsValue (ds : Bytes) : Nat := ds.foldl (fun n d => n * 10 + (d.toNat - 48)) 0

def connection (keepalive : Bool) : Bytes :=
  if keepalive then ascii "Keep-Alive" else ascii "close"

/-- Head and body of a response. Without a body, as for `HEAD` and `304`, the announced length is
not that of the body. -/
def Framed (closes bodyless : Bool) (bs : Bytes) : Prop :=
  ∃ head body, cut (crlf ++ crlf) bs = some (head, body) ∧
    field (ascii "Connection") head = some (connection !closes) ∧
    (bodyless = false → ∃ ds, field (ascii "Content-Length") head = some ds ∧ ds ≠ [] ∧
      (∀ d ∈ ds, isDigit d = true) ∧ digitsValue ds = body.length)

/-- The slices of a response. -/
structure Proper (closes bodyless : Bool) (l : List Piece) : Prop where
  inside : ∀ x ∈ l, x.Inside
  framed : Framed closes bodyless (wire l)

namespace Reply

/-- The responses that have no body by their nature. -/
def bodyless : Reply → Bool
  | .notModified .. => true
  | .content isHead .. => isHead
  | _ => false

/-- The digits of the numbers and the texts are few enough for the buffers, and the lengths of
bodies fit 32 bits. `write_error` has a wrong text for `XIXI_REASON_TOO_LARGE` when the connection
is closed. -/
def Fits (keepalive : Bool) : Reply → Prop
  | .error reason => reason = .cache .tooLarge → keepalive = true
  | .notModified mimeType cacheId flags expiration =>
    (cString mimeType).length + 2 * (formatU64 cacheId).length + (formatU32 flags).length +
      (formatU32 expiration).length + 48 < 200
  | .content isHead _ _ _ _ _ data gzip =>
    isHead = false → match gzip with
      | some (_, z) => z.length + 18 < 2 ^ 32
      | none => data.length < 2 ^ 32
  | .movedPermanently key =>
    ¬ crlf ++ crlf <:+: cString key.mem ∧
      (cString key.mem).length + 124 ≤ (150 + key.length) % 2 ^ 32 ∧
      (formatU32 ((cString key.mem).length + 124)).length + (cString key.mem).length + 17 <
        (35 + key.length) % 2 ^ 32
  | .getBase mimeType cacheId flags expiration dataSize =>
    (cString mimeType).length + (formatU64 cacheId).length + (formatU32 flags).length +
      (formatU32 expiration).length + (formatU32 dataSize).length + 58 ≤ 200
  | .flush flushCount flushSize =>
    (formatU32 flushCount).length + (formatU64 flushSize).length + 28 ≤ 50
  | .updateList updatedList =>
    (updatedList.map fun cacheId => (formatU64 cacheId).length + 1).sum ≤ 2 ^ 32
  | _ => True

/-- What the handlers see to. -/
def Valid : Reply → Prop
  | .notModified mimeType .. => mimeType.length ≤ 128
  | .content _ mimeType _ _ _ _ data gzip => mimeType.length ≤ 128 ∧ (gzip ≠ none → data ≠ [])
  | .getBase mimeType .. => mimeType.length ≤ 128
  | _ => True

/-- A mime type is a text of one line, and what `snprintf` prints can be counted in an `int`. -/
def Plain : Reply → Prop
  | .notModified mimeType .. => ¬ crlf <:+: cString mimeType
  | .content _ mimeType .. => ¬ crlf <:+: cString mimeType
  | .movedPermanently key => (cString key.mem).length + 150 < 2 ^ 31
  | _ => True

end Reply

/-! ## Decimal digits -/

namespace ResponseLemmas

theorem digitsValue_natDigits {fuel n : Nat} (h : n < 10 ^ fuel) :
    digitsValue (natDigits fuel n) = n := foldl_natDigits h

theorem digitsValue_formatU32 (n : Nat) : digitsValue (formatU32 n) = n % 2 ^ 32 :=
  digitsValue_natDigits ((Nat.mod_lt n (by decide)).trans (by decide))

/-- Digits are not CR. -/
theorem notMem_of_digits {ds : Bytes} (h : ∀ d ∈ ds, isDigit d = true) : (13 : UInt8) ∉ ds :=
  fun h13 => nomatch h 13 h13

theorem notMem_formatU32 (n : Nat) : (13 : UInt8) ∉ formatU32 n := notMem_of_digits isDigit_natDigits

theorem notMem_formatU64 (n : Nat) : (13 : UInt8) ∉ formatU64 n := notMem_of_digits isDigit_natDigits

theorem length_formatU32_le (n : Nat) : (formatU32 n).length ≤ 10 := length_natDigits_le _ _

theorem length_formatU64_le (n : Nat) : (formatU64 n).length ≤ 20 := length_natDigits_le _ _

/-! ## Heads -/

/-- What every head starts with, and its lines. -/
theorem resHead_append (status : String) (ka : Bool) (ct : Bytes) (ls : List Bytes) (z : Bytes) :
    resHead status ka ++ (ct ++ (ls.flatMap (crlf ++ ·) ++ z)) =
      joined (ascii "HTTP/1.1 " ++ ascii status)
        (ascii "Server: Xixibase/0.7" :: (ascii "Connection: " ++ connection ka) ::
          (ascii "Content-Type: " ++ ct) :: ls) ++ z := by
  simp only [resHead, joined, connection, List.flatMap_cons, List.append_assoc]

theorem notMem_connection (ka : Bool) : (13 : UInt8) ∉ connection ka := by
  cases ka <;> decide

section Lines

variable {status : String} {ka : Bool} {ct : Bytes} {ls : List Bytes}

theorem lines_of_head (hct : ¬ crlf <:+: ct) (hls : ∀ x ∈ ls, Line x) :
    ∀ x ∈ ascii "Server: Xixibase/0.7" :: (ascii "Connection: " ++ connection ka) ::
      (ascii "Content-Type: " ++ ct) :: ls, Line x := by
  intro x hx
  rcases List.mem_cons.mp hx with rfl | hx
  · exact line_of_notMem (by decide) (by decide)
  · rcases List.mem_cons.mp hx with rfl | hx
    · exact line_append (by decide) (by decide)
        (not_crlf_of_notMem (notMem_connection ka))
    · rcases List.mem_cons.mp hx with rfl | hx
      · exact line_append (by decide) (by decide) hct
      · exact hls x hx

theorem not_crlf_status (hst : (13 : UInt8) ∉ ascii status) :
    ¬ crlf <:+: ascii "HTTP/1.1 " ++ ascii status := by
  refine not_crlf_of_notMem fun h => ?_
  rcases List.mem_append.mp h with h | h
  · exact absurd h (by decide)
  · exact hst h

/-- The `Connection` field of a head, whatever follows it. -/
theorem field_connection (hst : (13 : UInt8) ∉ ascii status) (z : Bytes) :
    field (ascii "Connection") (ascii "HTTP/1.1 " ++ ascii status ++ (crlf ++
      (ascii "Server: Xixibase/0.7" ++ (crlf ++ (ascii "Connection: " ++ (connection ka ++
        (crlf ++ z))))))) = some (connection ka) := by
  have hskip : ¬ ascii "Connection" ++ [58, 32] <+: ascii "Server: Xixibase/0.7" ++ (crlf ++
      (ascii "Connection: " ++ (connection ka ++ (crlf ++ z)))) :=
    not_prefix_append (by decide) (by decide) _
  have hname : ascii "Connection: " = ascii "Connection" ++ [58, 32] := by decide
  rw [field_skip (not_crlf_status hst) hskip, hname, List.append_assoc (ascii "Connection")]
  exact field_of_line (not_crlf_of_notMem (by decide))
    (not_crlf_of_notMem (notMem_connection ka)) z

/-- The `Content-Length` field stands behind the `Content-Type`. -/
theorem field_contentLength (hst : (13 : UInt8) ∉ ascii status) (hct : ¬ crlf <:+: ct) :
    field (ascii "Content-Length") (joined (ascii "HTTP/1.1 " ++ ascii status)
        (ascii "Server: Xixibase/0.7" :: (ascii "Connection: " ++ connection ka) ::
          (ascii "Content-Type: " ++ ct) :: ls)) =
      field (ascii "Content-Length") (joined (ascii "Content-Type: " ++ ct) ls) := by
  have hserver : ¬ ascii "Content-Length" ++ [58, 32] <+: joined (ascii "Server: Xixibase/0.7")
      ((ascii "Connection: " ++ connection ka) :: (ascii "Content-Type: " ++ ct) :: ls) :=
    not_prefix_append (by decide) (by decide) _
  have hconn : ¬ ascii "Content-Length" ++ [58, 32] <+:
      joined (ascii "Connection: " ++ connection ka) ((ascii "Content-Type: " ++ ct) :: ls) := by
    rw [joined, List.append_assoc]
    exact not_prefix_append (by decide) (by decide) _
  have htype : ¬ ascii "Content-Length" ++ [58, 32] <+: joined (ascii "Content-Type: " ++ ct) ls := by
    rw [joined, List.append_assoc]
    exact not_prefix_append (by decide) (by decide) _
  have hline : ∀ x ∈ ascii "Server: Xixibase/0.7" :: (ascii "Connection: " ++ connection ka) ::
      [ascii "Content-Type: " ++ ct], Line x := lines_of_head hct fun _ hx => by cases hx
  rw [joined_cons, field_skip (not_crlf_status hst) hserver, joined_cons,
    field_skip (hline _ List.mem_cons_self).1 hconn, joined_cons,
    field_skip (hline _ (List.mem_cons_of_mem _ List.mem_cons_self)).1 htype]

/-- A head has been found. -/
theorem framed_of_cut {closes bodyless : Bool} {bs body : Bytes} (hst : (13 : UInt8) ∉ ascii status)
    (hct : ¬ crlf <:+: ct)
    (hcut : cut (crlf ++ crlf) bs = some (joined (ascii "HTTP/1.1 " ++ ascii status)
      (ascii "Server: Xixibase/0.7" :: (ascii "Connection: " ++ connection ka) ::
        (ascii "Content-Type: " ++ ct) :: ls), body)) :
    Framed closes bodyless bs ↔ closes = !ka ∧ (bodyless = false → ∃ ds,
      field (ascii "Content-Length") (joined (ascii "Content-Type: " ++ ct) ls) = some ds ∧
        ds ≠ [] ∧ (∀ d ∈ ds, isDigit d = true) ∧ digitsValue ds = body.length) := by
  have hconn : field (ascii "Connection") (joined (ascii "HTTP/1.1 " ++ ascii status)
      (ascii "Server: Xixibase/0.7" :: (ascii "Connection: " ++ connection ka) ::
        (ascii "Content-Type: " ++ ct) :: ls)) = some (connection ka) := by
    rw [joined_cons, joined_cons, joined_cons, List.append_assoc (ascii "Connection: ")]
    exact field_connection hst _
  have hinj : connection ka = connection !closes ↔ closes = !ka := by
    cases ka <;> cases closes <;> decide
  have hlength : field (ascii "Content-Length") (joined (ascii "HTTP/1.1 " ++ ascii status)
      (ascii "Server: Xixibase/0.7" :: (ascii "Connection: " ++ connection ka) ::
        (ascii "Content-Type: " ++ ct) :: ls)) =
      field (ascii "Content-Length") (joined (ascii "Content-Type: " ++ ct) ls) :=
    field_contentLength hst hct
  rw [Framed]
  constructor
  · rintro ⟨head, body', h, hc, hl⟩
    rw [hcut] at h
    obtain ⟨rfl, rfl⟩ := Prod.mk.injEq .. ▸ Option.some.inj h
    rw [hconn] at hc
    rw [hlength] at hl
    exact ⟨hinj.mp (Option.some.inj hc), hl⟩
  · rintro ⟨hc, hl⟩
    refine ⟨_, _, hcut, ?_, ?_⟩
    · rw [hconn, hinj.mpr hc]
    · rw [hlength]
      exact hl

/-- The announced length is that of the body. -/
theorem announced_iff {head body : Bytes} {n : Nat}
    (hlen : field (ascii "Content-Length") head = some (formatU32 n)) :
    (∃ ds, field (ascii "Content-Length") head = some ds ∧ ds ≠ [] ∧
      (∀ d ∈ ds, isDigit d = true) ∧ digitsValue ds = body.length) ↔ n % 2 ^ 32 = body.length := by
  rw [hlen]
  constructor
  · rintro ⟨ds, hds, -, -, h⟩
    rw [← h, ← Option.some.inj hds, digitsValue_formatU32]
  · intro h
    exact ⟨_, rfl, natDigits_ne_nil 9 _, isDigit_natDigits, (digitsValue_formatU32 n).trans h⟩

/-- A head made of lines, and a body. -/
theorem framed_lines_iff {closes bodyless : Bool} {body : Bytes}
    (hst : (13 : UInt8) ∉ ascii status) (hct : ¬ crlf <:+: ct) (hls : ∀ x ∈ ls, Line x) :
    Framed closes bodyless
        (resHead status ka ++ (ct ++ (ls.flatMap (crlf ++ ·) ++ (crlf ++ (crlf ++ body))))) ↔
      closes = !ka ∧ (bodyless = false → ∃ ds,
        field (ascii "Content-Length") (joined (ascii "Content-Type: " ++ ct) ls) = some ds ∧
          ds ≠ [] ∧ (∀ d ∈ ds, isDigit d = true) ∧ digitsValue ds = body.length) := by
  rw [resHead_append]
  exact framed_of_cut hst hct
    (cut_joined_end (not_crlf_status hst) (lines_of_head hct hls) body)

end Lines

/-! ## Slices -/

theorem inside_literal (t : Bytes) : (Piece.literal t).Inside := Nat.le_succ _

theorem bytes_literal (t : Bytes) : (Piece.literal t).bytes = t := List.take_left

section Printed

variable {room : Nat} {t : Bytes}

theorem inside_printed_iff (h : t.length < 2 ^ 32) :
    (Piece.printed room t).Inside ↔ t.length ≤ room := by
  rw [Piece.Inside, Piece.printed, Nat.mod_eq_of_lt h]

/-- There is room for the text and its terminator. -/
theorem bytes_printed (h : t.length < 2 ^ 32) (hroom : t.length < room) :
    (Piece.printed room t).bytes = t := by
  have hne : room ≠ 0 := (Nat.zero_lt_of_lt hroom).ne'
  rw [Piece.bytes, Piece.printed, Nat.mod_eq_of_lt h, if_neg hne,
    List.take_of_length_le (Nat.le_sub_one_of_lt hroom), List.take_left]

/-- There is no room for the last character of the text. -/
theorem bytes_printed_full (h : t.length < 2 ^ 32) (hne : t ≠ []) :
    (Piece.printed t.length t).bytes = t.dropLast ++ [0] := by
  have hpos : t.length ≠ 0 := fun h0 => hne (List.length_eq_zero_iff.mp h0)
  have hlen : (t.dropLast ++ [0]).length = t.length := by
    rw [List.length_append, List.length_dropLast, List.length_singleton]
    omega
  rw [Piece.bytes, Piece.printed, Nat.mod_eq_of_lt h, if_neg hpos, ← List.dropLast_eq_take]
  exact List.take_of_length_le hlen.le

theorem length_bytes_printed (h : t.length < 2 ^ 32) (hroom : t.length ≤ room) :
    (Piece.printed room t).bytes.length = t.length := by
  rcases Nat.lt_or_eq_of_le hroom with hlt | rfl
  · rw [bytes_printed h hlt]
  · cases t with
    | nil => rfl
    | cons b t =>
      rw [bytes_printed_full h (List.cons_ne_nil _ _), List.length_append, List.length_dropLast]
      rfl

end Printed

theorem wire_cons (x : Piece) (l : List Piece) : wire (x :: l) = x.bytes ++ wire l := rfl

theorem wire_append (l l' : List Piece) : wire (l ++ l') = wire l ++ wire l' := List.flatMap_append

/-- A buffer that holds what is sent. -/
theorem slice_spec {room : Nat} {t : Bytes} (h : t.length ≤ room) :
    (∀ x ∈ [(⟨room, t, t.length, none⟩ : Piece)], x.Inside) ∧
      wire [⟨room, t, t.length, none⟩] = t := by
  refine ⟨fun x hx => ?_, ?_⟩
  · rw [List.mem_singleton.mp hx]
    exact h
  · rw [wire_cons, wire, List.flatMap_nil, List.append_nil]
    exact List.take_length

theorem length_lengthHeader_le (n : Nat) : (Reply.lengthHeader n).length ≤ 14 := by
  rw [Reply.lengthHeader, List.length_append]
  exact Nat.add_le_add_right (length_formatU32_le n) 4

/-- A text in HTML, or what stands for one. -/
theorem framed_textHtml_iff {closes bodyless ka : Bool} {status : String} {n : Nat} {body : Bytes}
    (hst : (13 : UInt8) ∉ ascii status) :
    Framed closes bodyless
        (resHead status ka ++ (textHtml ++ (formatU32 n ++ (crlf ++ (crlf ++ body))))) ↔
      closes = !ka ∧ (bodyless = false → n % 2 ^ 32 = body.length) := by
  have hline : Line (ascii "Content-Length: " ++ formatU32 n) :=
    line_append (by decide) (by decide) (not_crlf_of_notMem (notMem_formatU32 n))
  have hname : ascii "Content-Length: " = ascii "Content-Length" ++ [58, 32] := by decide
  have hfield : field (ascii "Content-Length") (joined (ascii "Content-Type: " ++ ascii "text/html")
      [ascii "Content-Length: " ++ formatU32 n]) = some (formatU32 n) := by
    rw [joined_cons, hname, joined, List.flatMap_nil, List.append_nil,
      List.append_assoc (ascii "Content-Length")]
    exact field_of_last (not_crlf_of_notMem (by decide))
      (not_crlf_of_notMem (notMem_formatU32 n))
  have heq : textHtml ++ (formatU32 n ++ (crlf ++ (crlf ++ body))) = ascii "text/html" ++
      ([ascii "Content-Length: " ++ formatU32 n].flatMap (crlf ++ ·) ++ (crlf ++ (crlf ++ body))) := by
    simp only [textHtml, List.flatMap_cons, List.flatMap_nil, List.append_nil, List.append_assoc]
  have hls : ∀ x ∈ [ascii "Content-Length: " ++ formatU32 n], Line x := by
    intro x hx
    rw [List.mem_singleton.mp hx]
    exact hline
  rw [heq, framed_lines_iff hst (not_crlf_of_notMem (by decide)) hls, announced_iff hfield]

/-- The response that starts with `DEFAULT_RES_200_…` and the length of what follows. -/
theorem proper_default_iff {closes bodyless ka : Bool} {headerRoom n : Nat} {rest : List Piece}
    (hroom : 30 ≤ headerRoom) :
    Proper closes bodyless ([.literal (defaultRes200 ka),
        .printed headerRoom (Reply.lengthHeader n)] ++ rest) ↔
      (∀ x ∈ rest, x.Inside) ∧ closes = !ka ∧
        (bodyless = false → n % 2 ^ 32 = (wire rest).length) := by
  have hle := length_lengthHeader_le n
  have hlt : (Reply.lengthHeader n).length < 2 ^ 32 := hle.trans_lt (by decide)
  have hwire : wire ([.literal (defaultRes200 ka), .printed headerRoom (Reply.lengthHeader n)] ++ rest) =
      resHead "200 OK" ka ++ (textHtml ++ (formatU32 n ++ (crlf ++ (crlf ++ wire rest)))) := by
    rw [wire_append, wire_cons, wire_cons, bytes_literal,
      bytes_printed hlt (hle.trans_lt (Nat.lt_of_lt_of_le (by decide) hroom))]
    simp only [defaultRes200, Reply.lengthHeader, wire, List.flatMap_nil, List.append_nil,
      List.append_assoc]
  have hframed : Framed closes bodyless
      (resHead "200 OK" ka ++ (textHtml ++ (formatU32 n ++ (crlf ++ (crlf ++ wire rest))))) ↔
      closes = !ka ∧ (bodyless = false → n % 2 ^ 32 = (wire rest).length) :=
    framed_textHtml_iff (by decide)
  constructor
  · intro h
    refine ⟨fun x hx => h.inside x (List.mem_append_right _ hx), ?_⟩
    exact hframed.mp (hwire ▸ h.framed)
  · rintro ⟨hrest, h⟩
    refine ⟨fun x hx => ?_, hwire ▸ hframed.mpr h⟩
    rcases List.mem_append.mp hx with hx | hx
    · rcases List.mem_cons.mp hx with rfl | hx
      · exact inside_literal _
      · rw [List.mem_singleton.mp hx, inside_printed_iff hlt]
        exact hle.trans ((by decide : 14 ≤ 30).trans hroom)
    · exact hrest x hx

/-- A body that `snprintf` writes. -/
theorem proper_printedBody_iff {ka : Bool} {bodyRoom headerRoom : Nat} {body : Bytes}
    (hroom : 30 ≤ headerRoom) (hbody : body.length < 2 ^ 32) :
    Proper (!ka) false (Reply.printedBody ka bodyRoom headerRoom body) ↔ body.length ≤ bodyRoom := by
  rw [show Reply.printedBody ka bodyRoom headerRoom body = [.literal (defaultRes200 ka),
    .printed headerRoom (Reply.lengthHeader body.length)] ++ [.printed bodyRoom body] from rfl,
    proper_default_iff hroom]
  constructor
  · rintro ⟨h, -⟩
    exact (inside_printed_iff hbody).mp (h _ List.mem_cons_self)
  · intro h
    refine ⟨fun x hx => ?_, rfl, fun _ => ?_⟩
    · rw [List.mem_singleton.mp hx, inside_printed_iff hbody]
      exact h
    · rw [wire_cons, wire, List.flatMap_nil, List.append_nil, length_bytes_printed hbody h,
        Nat.mod_eq_of_lt hbody]

/-! ## Fixed texts -/

section Fixed

variable {ka : Bool}

/-- A constant text. -/
theorem proper_literal {t : Bytes} {closes bodyless : Bool} (h : Framed closes bodyless t) :
    Proper closes bodyless [.literal t] := by
  refine ⟨fun x hx => ?_, ?_⟩
  · rw [List.mem_singleton.mp hx]
    exact inside_literal t
  · rwa [wire_cons, bytes_literal, wire, List.flatMap_nil, List.append_nil]

/-- The texts of `write_error` announce the length of the last line. -/
theorem proper_errorRes {status length : String} {n : Nat} (hst : (13 : UInt8) ∉ ascii status)
    (hlen : ascii length = formatU32 n)
    (hn : n % 2 ^ 32 = (ascii "<H1>" ++ (ascii status ++ ascii "</H1>")).length) :
    Proper (!ka) false [.literal (errorRes status length ka)] := by
  refine proper_literal ?_
  rw [errorRes, hlen]
  exact (framed_textHtml_iff hst).mpr ⟨rfl, fun _ => hn⟩

/-- The text that is cut short. -/
theorem not_proper_tooLarge : ¬ Proper true false [writeErrorRes false (.cache .tooLarge)] := by
  intro h
  obtain ⟨head, body, hcut, hconn, -⟩ := h.framed
  have hdec : (cut (crlf ++ crlf) (wire [writeErrorRes false (.cache .tooLarge)])).map
      (fun r => field (ascii "Connection") r.1) ≠ some (some (connection false)) := by
    decide +kernel
  rw [hcut, Option.map_some, hconn] at hdec
  exact hdec rfl

theorem proper_error_iff {reason : Reason} :
    Proper (!ka) false [writeErrorRes ka reason] ↔ (reason = .cache .tooLarge → ka = true) := by
  have hbad : Proper (!ka) false [.literal (errorRes "400 Bad Request" "24" ka)] :=
    proper_errorRes (n := 24) (by decide) (by decide) (by decide)
  have hother {x : Piece} (h : Proper (!ka) false [x]) (hne : reason ≠ .cache .tooLarge) :
      Proper (!ka) false [x] ↔ (reason = .cache .tooLarge → ka = true) :=
    iff_of_true h fun hx => absurd hx hne
  cases reason with
  | cache r =>
    cases r with
    | tooLarge =>
      cases ka with
      | true =>
        exact iff_of_true (proper_errorRes (n := 37) (by decide) (by decide)
          (by decide)) fun _ => rfl
      | false => exact iff_of_false not_proper_tooLarge fun h => nomatch h rfl
    | notFound =>
      exact hother (proper_errorRes (n := 22) (by decide) (by decide)
        (by decide)) nofun
    | outOfMemory =>
      exact hother (proper_errorRes (n := 34) (by decide) (by decide)
        (by decide)) nofun
    | success | «exists» | mismatch | watchNotFound => exact hother hbad nofun
  | authError =>
    exact hother (proper_errorRes (n := 25) (by decide) (by decide)
      (by decide)) nofun
  | invalidParameter | unknownCommand | movedPermanently => exact hother hbad nofun

theorem proper_delete : Proper (!ka) false [.literal (deleteRes200 ka)] := by
  have hzero : ascii "0" ++ (crlf ++ crlf) = formatU32 0 ++ (crlf ++ (crlf ++ [])) := by
    decide
  refine proper_literal ?_
  rw [deleteRes200, hzero]
  exact (framed_textHtml_iff (by decide)).mpr ⟨rfl, fun _ => rfl⟩

end Fixed

/-! ## Bodies that `snprintf` writes -/

section Lengths

open Reply

theorem length_cacheIdBody (id : Nat) : (cacheIdBody id).length = (formatU64 id).length + 12 := by
  have h₁ : (ascii "\x7b\"cacheid\":").length = 11 := by decide
  have h₂ : (ascii "\x7d").length = 1 := by decide
  simp only [cacheIdBody, List.length_append, h₁, h₂]
  omega

theorem length_watchIdBody (id : Nat) : (watchIdBody id).length = (formatU32 id).length + 12 := by
  have h₁ : (ascii "\x7b\"watchid\":").length = 11 := by decide
  have h₂ : (ascii "\x7d").length = 1 := by decide
  simp only [watchIdBody, List.length_append, h₁, h₂]
  omega

theorem length_deltaBody (v : Int) (id : Nat) :
    (deltaBody v id).length = (formatInt64 v).length + (formatU64 id).length + 21 := by
  have h₁ : (ascii "\x7b\"value\":").length = 9 := by decide
  have h₂ : (ascii ",\"cacheid\":").length = 11 := by decide
  have h₃ : (ascii "\x7d").length = 1 := by decide
  simp only [deltaBody, List.length_append, h₁, h₂, h₃]
  omega

theorem length_flushBody (count size : Nat) :
    (flushBody count size).length = (formatU32 count).length + (formatU64 size).length + 28 := by
  have h₁ : (ascii "\x7b\"flushcount\":").length = 14 := by decide
  have h₂ : (ascii ",\"flushsize\":").length = 13 := by decide
  have h₃ : (ascii "\x7d").length = 1 := by decide
  simp only [flushBody, List.length_append, h₁, h₂, h₃]
  omega

theorem length_getBaseBody (mime : Bytes) (id fl x size : Nat) :
    (getBaseBody mime id fl x size).length = (cString mime).length + (formatU64 id).length +
      (formatU32 fl).length + (formatU32 x).length + (formatU32 size).length + 58 := by
  have h₁ : (ascii "\x7b\"cacheid\":").length = 11 := by decide
  have h₂ : (ascii ",\"flags\":").length = 9 := by decide
  have h₃ : (ascii ",\"expiration\":").length = 14 := by decide
  have h₄ : (ascii ",\"mime_type\":\"").length = 14 := by decide
  have h₅ : (ascii "\",\"size\":").length = 9 := by decide
  have h₆ : (ascii "\x7d").length = 1 := by decide
  simp only [getBaseBody, List.length_append, h₁, h₂, h₃, h₄, h₅, h₆]
  omega

theorem length_itemFields (id fl x : Nat) :
    (itemFields id fl x).length =
      2 * (formatU64 id).length + (formatU32 fl).length + (formatU32 x).length + 46 := by
  have h₁ : (ascii "CacheID: ").length = 9 := by decide
  have h₂ : (ascii "Flags: ").length = 7 := by decide
  have h₃ : (ascii "Expiration: ").length = 12 := by decide
  have h₄ : (ascii "ETag: ").length = 6 := by decide
  have h₅ : (ascii "\"").length = 1 := by decide
  have h₆ : crlf.length = 2 := rfl
  simp only [itemFields, etag, List.length_append, h₁, h₂, h₃, h₄, h₅, h₆]
  omega

theorem length_cString_le (mem : Bytes) : (cString mem).length ≤ mem.length :=
  (List.takeWhile_sublist _).length_le

end Lengths

/-! ## Lists of updates -/

section Updates

open Reply

theorem length_updateText_le (isBegin : Bool) (id : Nat) : (updateText isBegin id).length ≤ 21 := by
  have h := length_formatU64_le id
  rw [updateText, List.length_append]
  cases isBegin with
  | true => exact Nat.add_le_add (Nat.zero_le 1) h |>.trans' (by simp)
  | false => exact Nat.add_le_add (Nat.le_refl 1) h |>.trans' (by simp)

theorem notMem_updateText (isBegin : Bool) (id : Nat) : (13 : UInt8) ∉ updateText isBegin id := by
  intro h
  rcases List.mem_append.mp h with h | h
  · cases isBegin with
    | true => exact nomatch h
    | false => exact absurd (List.mem_singleton.mp h) (by decide)
  · exact notMem_formatU64 id h

/-- The texts of the list, one behind the other. -/
def updateTexts (isBegin : Bool) : List Nat → Bytes
  | [] => []
  | id :: rest => updateText isBegin id ++ updateTexts false rest

/-- A buffer is sent as soon as there may not be room for another element. -/
theorem updateSlices_spec (isBegin : Bool) (buf : Bytes) (l : List Nat) (h : buf.length ≤ 1970) :
    (∀ x ∈ updateSlices isBegin buf l, x.Inside) ∧
      wire (updateSlices isBegin buf l) = buf ++ updateTexts isBegin l := by
  induction l generalizing isBegin buf with
  | nil =>
    rw [updateSlices, updateTexts, List.append_nil]
    split
    · exact slice_spec (h.trans (by decide))
    · next hpos =>
      have hnil : buf = [] := List.length_eq_zero_iff.mp (Nat.eq_zero_of_not_pos hpos)
      exact ⟨nofun, hnil.symm⟩
  | cons id rest ih =>
    have hlen : (buf ++ updateText isBegin id).length ≤ 1991 := by
      rw [List.length_append]
      exact Nat.add_le_add h (length_updateText_le isBegin id)
    rw [updateSlices, updateTexts]
    split
    · obtain ⟨hin, hwire⟩ := ih false [] (Nat.zero_le _)
      refine ⟨fun x hx => ?_, ?_⟩
      · rcases List.mem_cons.mp hx with rfl | hx
        · exact hlen.trans (by decide : 1991 ≤ 2000)
        · exact hin x hx
      · rw [wire_cons, hwire, List.nil_append, ← List.append_assoc]
        exact congrArg (· ++ _) List.take_length
    · next hle =>
      obtain ⟨hin, hwire⟩ := ih false (buf ++ updateText isBegin id) (by omega)
      exact ⟨hin, hwire.trans (List.append_assoc _ _ _)⟩

theorem updateSize_eq (isBegin : Bool) (l : List Nat) :
    updateSize isBegin l = (updateTexts isBegin l).length % 2 ^ 32 := by
  induction l generalizing isBegin with
  | nil => rfl
  | cons id rest ih => rw [updateSize, updateTexts, List.length_append, ih, Nat.add_mod_mod]

theorem length_updateTexts_false (l : List Nat) :
    (updateTexts false l).length = (l.map fun id => (formatU64 id).length + 1).sum := by
  induction l with
  | nil => rfl
  | cons id rest ih =>
    rw [updateTexts, List.length_append, ih, List.map_cons, List.sum_cons, updateText,
      List.length_append, Nat.add_comm (List.length (if false = true then [] else [44]))]
    rfl

/-- The first element has no comma in front. -/
theorem length_updateTexts_lt_iff (l : List Nat) :
    (updateTexts true l).length < 2 ^ 32 ↔
      (l.map fun id => (formatU64 id).length + 1).sum ≤ 2 ^ 32 := by
  cases l with
  | nil => exact iff_of_true (by decide) (by decide)
  | cons id rest =>
    rw [updateTexts, List.length_append, length_updateTexts_false, List.map_cons, List.sum_cons]
    have hfirst : (updateText true id).length = (formatU64 id).length := rfl
    rw [hfirst]
    omega

theorem notMem_updateTexts (isBegin : Bool) (l : List Nat) : (13 : UInt8) ∉ updateTexts isBegin l := by
  induction l generalizing isBegin with
  | nil => exact nofun
  | cons id rest ih =>
    intro h
    rcases List.mem_append.mp h with h | h
    · exact notMem_updateText isBegin id h
    · exact ih false h

theorem proper_updateList_iff {ka : Bool} {l : List Nat} :
    Proper (!ka) false ((updateList l).pieces ka) ↔
      (l.map fun id => (formatU64 id).length + 1).sum ≤ 2 ^ 32 := by
  obtain ⟨hin, hwire⟩ := updateSlices_spec true [] l (Nat.zero_le _)
  rw [pieces, proper_default_iff (by decide), hwire, List.nil_append, updateSize_eq, Nat.mod_mod,
    ← length_updateTexts_lt_iff]
  constructor
  · rintro ⟨-, -, h⟩
    rw [← h rfl]
    exact Nat.mod_lt _ (by decide)
  · intro h
    exact ⟨hin, rfl, fun _ => Nat.mod_eq_of_lt h⟩

end Updates

/-! ## Contents -/

section Contents

open Reply

/-- The lines of an item, behind the length of its data. -/
def itemLines (id fl x : Nat) : List Bytes :=
  [ascii "CacheID: " ++ formatU64 id, ascii "Flags: " ++ formatU32 fl,
    ascii "Expiration: " ++ formatU32 x, ascii "ETag: " ++ etag id]

theorem notMem_etag (id : Nat) : (13 : UInt8) ∉ etag id := by
  intro h
  have hquote : (13 : UInt8) ∉ ascii "\"" := by decide
  rcases List.mem_append.mp h with h | h
  · exact hquote h
  · rcases List.mem_append.mp h with h | h
    · exact notMem_formatU64 id h
    · exact hquote h

theorem line_itemLines {id fl x : Nat} : ∀ l ∈ itemLines id fl x, Line l := by
  intro l hl
  rcases List.mem_cons.mp hl with rfl | hl
  · exact line_append (by decide) (by decide) (not_crlf_of_notMem (notMem_formatU64 id))
  · rcases List.mem_cons.mp hl with rfl | hl
    · exact line_append (by decide) (by decide)
        (not_crlf_of_notMem (notMem_formatU32 fl))
    · rcases List.mem_cons.mp hl with rfl | hl
      · exact line_append (by decide) (by decide)
          (not_crlf_of_notMem (notMem_formatU32 x))
      · rw [List.mem_singleton.mp hl]
        exact line_append (by decide) (by decide) (not_crlf_of_notMem (notMem_etag id))

theorem itemFields_eq (id fl x : Nat) :
    crlf ++ itemFields id fl x = (itemLines id fl x).flatMap (crlf ++ ·) ++ (crlf ++ crlf) := by
  simp only [itemFields, itemLines, List.flatMap_cons, List.flatMap_nil, List.append_nil,
    List.append_assoc]

/-- The lines behind the `Content-Type` of a response with content. -/
def contentLines (gzip : Bool) (size id fl x : Nat) : List Bytes :=
  (if gzip then [ascii "Content-Encoding: gzip"] else []) ++
    (ascii "Content-Length: " ++ formatU32 size) :: itemLines id fl x

theorem contentHeader_eq (mime : Bytes) (gzip : Bool) (size id fl x : Nat) :
    contentHeader mime gzip size id fl x =
      cString mime ++ ((contentLines gzip size id fl x).flatMap (crlf ++ ·) ++ (crlf ++ crlf)) := by
  cases gzip with
  | true =>
    simp only [contentHeader, contentLines, if_true, itemFields_eq, List.singleton_append,
      List.flatMap_cons, List.append_assoc]
  | false =>
    simp only [contentHeader, contentLines, itemFields_eq, List.nil_append, List.flatMap_cons,
      List.append_assoc, Bool.false_eq_true, if_false]

theorem line_contentLines {gzip : Bool} {size id fl x : Nat} :
    ∀ l ∈ contentLines gzip size id fl x, Line l := by
  intro l hl
  rcases List.mem_append.mp hl with hl | hl
  · cases gzip with
    | true =>
      rw [List.mem_singleton.mp hl]
      exact line_of_notMem (by decide) (by decide)
    | false => exact nomatch hl
  · rcases List.mem_cons.mp hl with rfl | hl
    · exact line_append (by decide) (by decide)
        (not_crlf_of_notMem (notMem_formatU32 size))
    · exact line_itemLines l hl

theorem field_contentLines {ct : Bytes} {gzip : Bool} {size id fl x : Nat} (hct : ¬ crlf <:+: ct) :
    field (ascii "Content-Length") (joined (ascii "Content-Type: " ++ ct)
      (contentLines gzip size id fl x)) = some (formatU32 size) := by
  have htype : ¬ crlf <:+: ascii "Content-Type: " ++ ct :=
    (line_append (by decide) (by decide) hct).1
  have hname : ascii "Content-Length: " = ascii "Content-Length" ++ [58, 32] := by decide
  have hfield {l : Bytes} (hl : ¬ crlf <:+: l) :
      field (ascii "Content-Length") (joined l
        ((ascii "Content-Length: " ++ formatU32 size) :: itemLines id fl x)) =
        some (formatU32 size) := by
    rw [joined_cons, hname, joined, itemLines, List.flatMap_cons, List.append_assoc,
      List.append_assoc (ascii "Content-Length"), List.append_assoc crlf]
    exact field_of_line hl (not_crlf_of_notMem (notMem_formatU32 size)) _
  cases gzip with
  | false => exact hfield htype
  | true =>
    have hskip : ¬ ascii "Content-Length" ++ [58, 32] <+: joined (ascii "Content-Encoding: gzip")
        ((ascii "Content-Length: " ++ formatU32 size) :: itemLines id fl x) :=
      not_prefix_append (by decide) (by decide) _
    rw [contentLines, if_pos rfl, List.singleton_append, joined_cons, field_skip htype hskip]
    exact hfield (not_crlf_of_notMem (by decide))

theorem length_contentHeader_lt {mime : Bytes} {gzip : Bool} {size id fl x : Nat}
    (hmime : mime.length ≤ 128) : (contentHeader mime gzip size id fl x).length < 300 := by
  have h₁ : (ascii "Content-Encoding: gzip").length = 22 := by decide
  have h₂ : (ascii "Content-Length: ").length = 16 := by decide
  have h₃ : crlf.length = 2 := rfl
  have hgzip : (if gzip then ascii "Content-Encoding: gzip" ++ crlf else []).length ≤ 24 := by
    cases gzip with
    | true => rw [if_pos rfl, List.length_append, h₁, h₃]
    | false => exact Nat.zero_le _
  have hct := (length_cString_le mime).trans hmime
  have hsize := length_formatU32_le size
  have hid := length_formatU64_le id
  have hfl := length_formatU32_le fl
  have hx := length_formatU32_le x
  rw [contentHeader, List.length_append, List.length_append, List.length_append,
    List.length_append, List.length_append, List.length_append, length_itemFields, h₂, h₃]
  omega

/-- The chunks are full but for the last. -/
theorem gzipChunks_spec {chunkSize fuel : Nat} {z : Bytes} (hpos : 0 < chunkSize)
    (h : z.length ≤ fuel) :
    (∀ x ∈ gzipChunks chunkSize fuel z, x.Inside) ∧ wire (gzipChunks chunkSize fuel z) = z := by
  induction fuel generalizing z with
  | zero => exact slice_spec (h.trans (Nat.zero_le _))
  | succ fuel ih =>
    rw [gzipChunks]
    split
    · next hlt => exact slice_spec hlt.le
    · next hge =>
      have hle : (z.drop chunkSize).length ≤ fuel := by
        rw [List.length_drop]
        omega
      obtain ⟨hin, hwire⟩ := ih hle
      refine ⟨fun x hx => ?_, ?_⟩
      · rcases List.mem_cons.mp hx with rfl | hx
        · exact Nat.le_refl _
        · exact hin x hx
      · rw [wire_cons, hwire]
        show (z.take chunkSize).take chunkSize ++ z.drop chunkSize = z
        rw [List.take_take, Nat.min_self, List.take_append_drop]

theorem inside_copied (data : Bytes) : (Piece.copied data).Inside := Nat.le_refl _

theorem bytes_copied (data : Bytes) : (Piece.copied data).bytes = data := List.take_length

theorem gzipPieces_spec {crc : Nat} {data z : Bytes} (hdata : data ≠ []) :
    (∀ x ∈ gzipPieces crc data z, x.Inside) ∧
      (wire (gzipPieces crc data z)).length = 10 + z.length + 8 := by
  have hpos : 0 < min 4096 data.length :=
    Nat.lt_min.mpr ⟨by decide, List.length_pos_iff.mpr hdata⟩
  obtain ⟨hin, hwire⟩ := gzipChunks_spec hpos (Nat.le_refl z.length)
  have htail : (outUint32 crc ++ outUint32 data.length).length = 8 := by
    simp only [outUint32, List.length_append, List.length_reverse, length_encodeBE]
  refine ⟨fun x hx => ?_, ?_⟩
  · rcases List.mem_cons.mp hx with rfl | hx
    · exact inside_copied _
    · rcases List.mem_append.mp hx with hx | hx
      · exact hin x hx
      · rw [List.mem_singleton.mp hx]
        exact inside_copied _
  · rw [gzipPieces, wire_cons, wire_append, hwire, wire_cons, bytes_copied, bytes_copied, wire,
      List.flatMap_nil, List.append_nil, List.length_append, List.length_append, htail,
      Nat.add_assoc]
    rfl

/-- A response with content, whatever stands for the data. -/
theorem proper_contentHeader_iff {ka bodyless gzip : Bool} {mime : Bytes} {size id fl x : Nat}
    {rest : List Piece} (hmime : mime.length ≤ 128) (hct : ¬ crlf <:+: cString mime)
    (hrest : ∀ x ∈ rest, x.Inside) :
    Proper (!ka) bodyless ([.literal (getRes200 ka),
        .printed 300 (contentHeader mime gzip size id fl x)] ++ rest) ↔
      (bodyless = false → size % 2 ^ 32 = (wire rest).length) := by
  have hlt : (contentHeader mime gzip size id fl x).length < 300 := length_contentHeader_lt hmime
  have h32 : (contentHeader mime gzip size id fl x).length < 2 ^ 32 := hlt.trans (by decide)
  have hwire : wire ([.literal (getRes200 ka),
      .printed 300 (contentHeader mime gzip size id fl x)] ++ rest) =
      resHead "200 OK" ka ++ (cString mime ++ ((contentLines gzip size id fl x).flatMap (crlf ++ ·) ++
        (crlf ++ (crlf ++ wire rest)))) := by
    rw [wire_append, wire_cons, wire_cons, bytes_literal, bytes_printed h32 hlt, contentHeader_eq]
    simp only [getRes200, wire, List.flatMap_nil, List.append_nil, List.append_assoc]
  have hframed : Framed (!ka) bodyless (wire ([.literal (getRes200 ka),
      .printed 300 (contentHeader mime gzip size id fl x)] ++ rest)) ↔
      (bodyless = false → size % 2 ^ 32 = (wire rest).length) := by
    rw [hwire, framed_lines_iff (by decide) hct line_contentLines,
      announced_iff (field_contentLines hct), and_iff_right rfl]
  rw [← hframed]
  constructor
  · exact Proper.framed
  · intro h
    refine ⟨fun y hy => ?_, h⟩
    rcases List.mem_append.mp hy with hy | hy
    · rcases List.mem_cons.mp hy with rfl | hy
      · exact inside_literal _
      · rw [List.mem_singleton.mp hy, inside_printed_iff h32]
        exact hlt.le
    · exact hrest y hy

theorem proper_content_iff {ka isHead : Bool} {mime data : Bytes} {id fl x : Nat} {it : Ptr}
    {gzip : Option (Nat × Bytes)} (hvalid : (content isHead mime id fl x it data gzip).Valid)
    (hct : ¬ crlf <:+: cString mime) :
    Proper (!ka) isHead ((content isHead mime id fl x it data gzip).pieces ka) ↔
      (content isHead mime id fl x it data gzip).Fits ka := by
  have hmod (n : Nat) : n % 2 ^ 32 = n ↔ n < 2 ^ 32 :=
    ⟨fun h => h ▸ Nat.mod_lt n (by decide), Nat.mod_eq_of_lt⟩
  obtain ⟨hmime, hdata⟩ := hvalid
  cases isHead with
  | true =>
    refine iff_of_true ?_ fun h => nomatch h
    have hnone : ∀ y ∈ ([] : List Piece), y.Inside := fun _ hy => nomatch hy
    exact (proper_contentHeader_iff hmime hct hnone).mpr fun h => nomatch h
  | false =>
    cases gzip with
    | none =>
      have hrest : ∀ y ∈ [(⟨data.length, data, data.length, some it⟩ : Piece)], y.Inside := by
        intro y hy
        rw [List.mem_singleton.mp hy]
        exact Nat.le_refl _
      have hlen : (wire [⟨data.length, data, data.length, some it⟩]).length = data.length := by
        rw [wire_cons, wire, List.flatMap_nil, List.append_nil]
        exact congrArg List.length List.take_length
      have hsize : data.length % 2 ^ 32 = (wire [⟨data.length, data, data.length, some it⟩]).length ↔
          data.length < 2 ^ 32 := by
        rw [hlen, hmod]
      exact (proper_contentHeader_iff hmime hct hrest).trans (imp_congr_right fun _ => hsize)
    | some g =>
      obtain ⟨crc, z⟩ := g
      have hspec : (∀ y ∈ gzipPieces crc data z, y.Inside) ∧
          (wire (gzipPieces crc data z)).length = 10 + z.length + 8 := gzipPieces_spec (hdata nofun)
      obtain ⟨hin, hlen⟩ := hspec
      have hsize : gzipSize z % 2 ^ 32 = (wire (gzipPieces crc data z)).length ↔
          z.length + 18 < 2 ^ 32 := by
        have hsum : 10 + z.length + 8 = z.length + 18 := by omega
        rw [hlen, gzipSize, Nat.mod_mod, hmod, hsum]
      exact (proper_contentHeader_iff hmime hct hin).trans (imp_congr_right fun _ => hsize)

/-- A head whose last character is lost is not a head. -/
theorem proper_notModified_iff {ka : Bool} {mime : Bytes} {id fl x : Nat}
    (hmime : mime.length ≤ 128) (hct : ¬ crlf <:+: cString mime) :
    Proper (!ka) true ((notModified mime id fl x).pieces ka) ↔ (notModified mime id fl x).Fits ka := by
  let header := notModifiedHeader mime id fl x
  have hlen : header.length = (cString mime).length + 2 * (formatU64 id).length +
      (formatU32 fl).length + (formatU32 x).length + 48 := by
    show (cString mime ++ (crlf ++ itemFields id fl x)).length = _
    rw [List.length_append, List.length_append, length_itemFields, show crlf.length = 2 from rfl]
    omega
  have hheader : header =
      cString mime ++ ((itemLines id fl x).flatMap (crlf ++ ·) ++ (crlf ++ crlf)) := by
    show cString mime ++ (crlf ++ itemFields id fl x) = _
    rw [itemFields_eq]
  have h32 : header.length < 2 ^ 32 := by
    have h₁ := (length_cString_le mime).trans hmime
    have h₂ := length_formatU64_le id
    have h₃ := length_formatU32_le fl
    have h₄ := length_formatU32_le x
    omega
  have hwire : wire ((notModified mime id fl x).pieces ka) =
      resHead "304 Not Modified" ka ++ (Piece.printed 200 header).bytes := by
    rw [pieces, wire_cons, wire_cons, bytes_literal, wire, List.flatMap_nil, List.append_nil]
    rfl
  have hst : (13 : UInt8) ∉ ascii "304 Not Modified" := by decide
  show _ ↔ _ < 200
  rw [← hlen]
  constructor
  · intro h
    have hin := (inside_printed_iff h32).mp
      (h.inside (.printed 200 header) (List.mem_cons_of_mem _ List.mem_cons_self))
    refine Nat.lt_of_le_of_ne hin fun hfull => ?_
    obtain ⟨head, body, hcut, -⟩ := h.framed
    have hne : header ≠ [] := by
      intro h0
      rw [h0] at hfull
      exact nomatch hfull
    have hlast : header.dropLast =
        cString mime ++ ((itemLines id fl x).flatMap (crlf ++ ·) ++ (crlf ++ [13])) := by
      rw [hheader, List.dropLast_append_of_ne_nil, List.dropLast_append_of_ne_nil]
      · rfl
      · exact List.cons_ne_nil _ _
      · exact List.append_ne_nil_of_right_ne_nil _ (List.cons_ne_nil _ _)
    have hbytes : (Piece.printed 200 header).bytes = cString mime ++
        ((itemLines id fl x).flatMap (crlf ++ ·) ++ (crlf ++ [13, 0])) := by
      rw [← hfull, bytes_printed_full h32 hne, hlast]
      simp only [List.append_assoc]
      rfl
    have hnone : cut (crlf ++ crlf) (crlf ++ [13, 0]) = none := by decide
    rw [hwire, hbytes, resHead_append, cut_joined (not_crlf_status hst)
      (lines_of_head hct line_itemLines), hnone] at hcut
    cases hcut
  · intro h
    refine ⟨fun y hy => ?_, ?_⟩
    · rcases List.mem_cons.mp hy with rfl | hy
      · exact inside_literal _
      · rw [List.mem_singleton.mp hy]
        exact (inside_printed_iff h32).mpr h.le
    · have hall : cString mime ++ ((itemLines id fl x).flatMap (crlf ++ ·) ++ (crlf ++ crlf)) =
          cString mime ++ ((itemLines id fl x).flatMap (crlf ++ ·) ++ (crlf ++ (crlf ++ []))) := rfl
      rw [hwire, bytes_printed h32 h, hheader, hall]
      exact (framed_lines_iff hst hct line_itemLines).mpr ⟨rfl, nofun⟩

end Contents

/-! ## Redirections -/

section Moved

open Reply

variable {ka : Bool} {n : Nat}

/-- The lines in front of the `Location`. -/
def movedLines (ka : Bool) (n : Nat) : List Bytes :=
  [ascii "Server: Xixibase/0.7", ascii "Connection: " ++ connection ka,
    ascii "Content-Type: " ++ ascii "text/html", ascii "Content-Length: " ++ formatU32 n]

def movedStatus : Bytes := ascii "HTTP/1.1 " ++ ascii "301 Moved Permanently"

theorem not_mem_status : (13 : UInt8) ∉ ascii "301 Moved Permanently" := by decide

theorem line_movedLines : ∀ x ∈ movedLines ka n, Line x := by
  refine lines_of_head (not_crlf_of_notMem (by decide)) fun x hx => ?_
  rw [List.mem_singleton.mp hx]
  exact line_append (by decide) (by decide) (not_crlf_of_notMem (notMem_formatU32 n))

theorem movedRes_eq (z : Bytes) :
    getRes301 ka ++ (formatU32 n ++ (crlf ++ (ascii "Location: " ++ z))) =
      joined movedStatus (movedLines ka n) ++ (crlf ++ (ascii "Location: " ++ z)) := by
  simp only [getRes301, resHead, textHtml, joined, movedLines, movedStatus, connection,
    List.flatMap_cons, List.flatMap_nil, List.append_assoc, List.append_nil]

/-- The empty line is looked for behind `Location`. -/
theorem cut_moved (z : Bytes) :
    cut (crlf ++ crlf) (getRes301 ka ++ (formatU32 n ++ (crlf ++ (ascii "Location: " ++ z)))) =
      (cut (crlf ++ crlf) z).map fun r =>
        (joined movedStatus (movedLines ka n ++ [ascii "Location: " ++ r.1]), r.2) := by
  have hloc : ¬ crlf <+: ascii "Location: " ++ z :=
    not_prefix_append (by decide) (by decide) _
  have hskip : cut (crlf ++ crlf) (ascii "Location: " ++ z) =
      (cut (crlf ++ crlf) z).map fun r => (ascii "Location: " ++ r.1, r.2) :=
    cut_append_of_notMem (by decide) _ _
  have hstatus : ¬ crlf <:+: movedStatus := not_crlf_status not_mem_status
  rw [movedRes_eq, cut_joined hstatus line_movedLines, cut_crlf hloc, hskip, Option.map_map,
    Option.map_map]
  congr 1
  funext r
  simp only [Function.comp_apply, joined, List.flatMap_append, List.flatMap_cons, List.flatMap_nil,
    List.append_assoc, List.append_nil]

/-- Behind the lines of a redirection stands what the empty line is followed by. -/
theorem framed_moved_iff {z head body : Bytes} (hcut : cut (crlf ++ crlf) z = some (head, body)) :
    Framed (!ka) false (getRes301 ka ++ (formatU32 n ++ (crlf ++ (ascii "Location: " ++ z)))) ↔
      n % 2 ^ 32 = body.length := by
  have hname : ascii "Content-Length: " = ascii "Content-Length" ++ [58, 32] := by decide
  have hct : ¬ crlf <:+: ascii "text/html" := not_crlf_of_notMem (by decide)
  have hfield : field (ascii "Content-Length") (joined (ascii "Content-Type: " ++ ascii "text/html")
      [ascii "Content-Length: " ++ formatU32 n, ascii "Location: " ++ head]) = some (formatU32 n) := by
    rw [joined_cons, hname, joined, List.flatMap_cons, List.append_assoc,
      List.append_assoc (ascii "Content-Length"), List.append_assoc crlf]
    have htype : ¬ crlf <:+: ascii "Content-Type: " ++ ascii "text/html" :=
      not_crlf_of_notMem (by decide)
    exact field_of_line htype (not_crlf_of_notMem (notMem_formatU32 n)) _
  have hwhole : cut (crlf ++ crlf)
      (getRes301 ka ++ (formatU32 n ++ (crlf ++ (ascii "Location: " ++ z)))) =
      some (joined movedStatus (movedLines ka n ++ [ascii "Location: " ++ head]), body) := by
    rw [cut_moved, hcut, Option.map_some]
  rw [framed_of_cut not_mem_status hct hwhole, and_iff_right rfl]
  exact (forall_prop_of_true rfl).trans (announced_iff hfield)

/-- What `snprintf` makes of the header: the last character may be lost. -/
theorem bytes_movedHeader {room : Nat} {text : Bytes}
    (h32 : (movedHeader n text).length < 2 ^ 32) (hroom : (movedHeader n text).length ≤ room) :
    (Piece.printed room (movedHeader n text)).bytes = formatU32 n ++ (crlf ++ (ascii "Location: " ++
      (text ++ ([47, 13, 10, 13] ++ [if (movedHeader n text).length < room then 10 else 0])))) := by
  have hslash : ascii "/" = [47] := by decide
  rcases Nat.lt_or_eq_of_le hroom with hlt | heq
  · rw [bytes_printed h32 hlt, if_pos hlt, movedHeader, hslash]
    rfl
  · have hne : movedHeader n text ≠ [] := by
      rw [movedHeader]
      exact List.append_ne_nil_of_left_ne_nil (natDigits_ne_nil 9 _) _
    have hsplit : movedHeader n text = (formatU32 n ++ (crlf ++ (ascii "Location: " ++
        (text ++ [47, 13, 10, 13])))) ++ [10] := by
      rw [movedHeader, hslash]
      simp only [List.append_assoc]
      rfl
    rw [if_neg heq.not_lt, ← heq, bytes_printed_full h32 hne, hsplit, List.dropLast_concat]
    simp only [List.append_assoc]

theorem length_movedBody (text : Bytes) : (movedBody text).length = text.length + 124 := by
  have h₁ : movedFront.length = 98 := by decide
  have h₂ : movedEnd.length = 26 := by decide
  rw [movedBody, List.length_append, List.length_append, h₁, h₂]
  omega

theorem length_movedHeader (text : Bytes) :
    (movedHeader n text).length = (formatU32 n).length + text.length + 17 := by
  have h₁ : (ascii "Location: ").length = 10 := by decide
  have h₂ : (ascii "/").length = 1 := by decide
  have h₃ : crlf.length = 2 := rfl
  simp only [movedHeader, List.length_append, h₁, h₂, h₃]
  omega

/-- The body has no empty line, unless the key has one. -/
theorem cut_movedBody {room : Nat} {text : Bytes} (htext : ¬ crlf ++ crlf <:+: text)
    (h32 : (movedBody text).length < 2 ^ 32) (hroom : (movedBody text).length ≤ room) :
    cut (crlf ++ crlf) (Piece.printed room (movedBody text)).bytes = none := by
  let mid := ascii "\">here</A>.</BODY></HTML"
  have hend : movedEnd = 47 :: mid ++ [62] := by decide
  have hsplit : movedBody text = movedFront ++ (text ++ 47 :: mid) ++ [62] := by
    rw [movedBody, hend]
    simp only [List.append_assoc, List.cons_append]
  have hnone (b : UInt8) (hb : b ≠ 13) :
      cut (crlf ++ crlf) (movedFront ++ (text ++ 47 :: mid) ++ [b]) = none := by
    have hrest : cut (crlf ++ crlf) (mid ++ [b]) = none := by
      refine cut_eq_none_iff.mpr fun h => ?_
      rcases List.mem_append.mp (h.subset (List.mem_cons_self : (13 : UInt8) ∈ crlf ++ crlf)) with
        h | h
      · exact absurd h (by decide)
      · exact hb (List.mem_singleton.mp h).symm
    have hfront : (13 : UInt8) ∉ movedFront := by decide
    have htail := cut_append_cons (x := (47 : UInt8)) htext (by decide) (mid ++ [b])
    rw [hrest, Option.map_none] at htail
    rw [List.append_assoc, List.append_assoc, List.cons_append]
    refine (cut_append_of_notMem hfront _ _).trans ?_
    rw [Option.map_eq_none_iff]
    exact htail
  rcases Nat.lt_or_eq_of_le hroom with hlt | heq
  · rw [bytes_printed h32 hlt, hsplit]
    exact hnone 62 (by decide)
  · have hne : movedBody text ≠ [] := by
      intro h0
      have hlen := length_movedBody text
      rw [h0] at hlen
      exact nomatch hlen
    rw [← heq, bytes_printed_full h32 hne, hsplit, List.dropLast_concat]
    exact hnone 0 (by decide)

theorem proper_moved_iff {key : Text} (hplain : (movedPermanently key).Plain) :
    Proper (!ka) false ((movedPermanently key).pieces ka) ↔ (movedPermanently key).Fits ka := by
  let text := cString key.mem
  let body := movedBody text
  let header := movedHeader body.length text
  let room₁ := (35 + key.length) % 2 ^ 32
  let room₂ := (150 + key.length) % 2 ^ 32
  have hbody : body.length = text.length + 124 := length_movedBody text
  have hheader : header.length = (formatU32 body.length).length + text.length + 17 :=
    length_movedHeader text
  have hdigits := length_formatU32_le body.length
  have htext : text.length + 150 < 2 ^ 31 := hplain
  have hb32 : body.length < 2 ^ 32 := by omega
  have hh32 : header.length < 2 ^ 32 := by omega
  have hfits : (movedPermanently key).Fits ka ↔
      ¬ crlf ++ crlf <:+: text ∧ body.length ≤ room₂ ∧ header.length < room₁ := by
    rw [hheader, hbody]
    exact Iff.rfl
  have hpieces : (movedPermanently key).pieces ka =
      [.literal (getRes301 ka), .printed room₁ header, .printed room₂ body] := rfl
  rw [hfits, hpieces]
  have hwire (hin : header.length ≤ room₁) :
      wire [.literal (getRes301 ka), .printed room₁ header, .printed room₂ body] =
        getRes301 ka ++ (formatU32 body.length ++ (crlf ++ (ascii "Location: " ++ (text ++
          ([47, 13, 10, 13] ++ ([if header.length < room₁ then 10 else 0] ++
            (Piece.printed room₂ body).bytes)))))) := by
    rw [wire_cons, wire_cons, wire_cons, bytes_literal, bytes_movedHeader hh32 hin, wire,
      List.flatMap_nil, List.append_nil]
    simp only [List.append_assoc]
    rfl
  constructor
  · intro h
    have hin₁ := (inside_printed_iff hh32).mp
      (h.inside (.printed room₁ header) (List.mem_cons_of_mem _ List.mem_cons_self))
    have hin₂ := (inside_printed_iff hb32).mp (h.inside (.printed room₂ body)
      (List.mem_cons_of_mem _ (List.mem_cons_of_mem _ List.mem_cons_self)))
    have hframed := h.framed
    rw [hwire hin₁] at hframed
    have hno : ¬ crlf ++ crlf <:+: text := by
      intro hsome
      obtain ⟨⟨t₁, t₂⟩, hcut⟩ := Option.isSome_iff_exists.mp (isSome_cut_iff.mpr hsome)
      -- the empty line in the key leaves more behind it than the body
      have hlen := (framed_moved_iff (cut_append hcut _)).mp hframed
      rw [Nat.mod_eq_of_lt hb32, List.length_append, List.length_append, List.length_append,
        length_bytes_printed hb32 hin₂] at hlen
      have hfour : ([47, 13, 10, 13] : Bytes).length = 4 := rfl
      omega
    refine ⟨hno, hin₂, Nat.lt_of_le_of_ne hin₁ fun heq => ?_⟩
    rw [if_neg heq.not_lt] at hframed
    obtain ⟨head, rest, hcut, -⟩ := hframed
    have hnone : cut (crlf ++ crlf) (text ++ ([47, 13, 10, 13] ++ ([0] ++
        (Piece.printed room₂ body).bytes))) = none := by
      refine (cut_append_cons (x := 47) hno (by decide) _).trans ?_
      rw [Option.map_eq_none_iff]
      have hcrlf : ¬ crlf <+: 13 :: 0 :: (Piece.printed room₂ body).bytes := fun h' =>
        absurd (List.cons_prefix_cons.mp (List.cons_prefix_cons.mp h').2).1 (by decide)
      have h13 : ¬ crlf ++ crlf <+: 13 :: 0 :: (Piece.printed room₂ body).bytes := fun h' =>
        hcrlf ((List.prefix_append _ _).trans h')
      have h0 : ¬ crlf ++ crlf <+: 0 :: (Piece.printed room₂ body).bytes := fun h' =>
        absurd (List.cons_prefix_cons.mp h').1 (by decide)
      refine (cut_crlf hcrlf).trans ?_
      rw [cut_cons_of_not h13, cut_cons_of_not h0, cut_movedBody hno hb32 hin₂]
      rfl
    rw [cut_moved, hnone] at hcut
    cases hcut
  · rintro ⟨hno, hin₂, hin₁⟩
    refine ⟨fun x hx => ?_, ?_⟩
    · rcases List.mem_cons.mp hx with rfl | hx
      · exact inside_literal _
      · rcases List.mem_cons.mp hx with rfl | hx
        · exact (inside_printed_iff hh32).mpr hin₁.le
        · rw [List.mem_singleton.mp hx]
          exact (inside_printed_iff hb32).mpr hin₂
    · have hcut : cut (crlf ++ crlf) (text ++ ([47, 13, 10, 13] ++ ([10] ++
          (Piece.printed room₂ body).bytes))) =
          some (text ++ [47], (Piece.printed room₂ body).bytes) := by
        have hfront := cut_front (crlf ++ crlf) (Piece.printed room₂ body).bytes
        have hskip := cut_append_cons (x := 47) hno (by decide)
          ((crlf ++ crlf) ++ (Piece.printed room₂ body).bytes)
        rw [hfront, Option.map_some] at hskip
        exact hskip
      rw [hwire hin₁.le, if_pos hin₁, framed_moved_iff hcut, length_bytes_printed hb32 hin₂,
        Nat.mod_eq_of_lt hb32]

end Moved

theorem proper_stats {ka : Bool} {result : Bytes} :
    Proper (!ka) false ((Reply.stats result).pieces ka) := by
  let size := result.length % 2 ^ 32
  have hlen : (result.take size).length = size := by
    rw [List.length_take]
    exact Nat.min_eq_left (Nat.mod_le _ _)
  have hpieces : (Reply.stats result).pieces ka = [.literal (defaultRes200 ka),
      .printed 50 (Reply.lengthHeader size)] ++ [.copied (result.take size)] := rfl
  rw [hpieces, proper_default_iff (by decide)]
  refine ⟨fun x hx => ?_, rfl, fun _ => ?_⟩
  · rw [List.mem_singleton.mp hx]
    exact inside_copied _
  · rw [wire_cons, bytes_copied, wire, List.flatMap_nil, List.append_nil, hlen]
    exact Nat.mod_mod _ _

end ResponseLemmas

open ResponseLemmas

/-- A response in an empty queue. -/
theorem Reply.proper_pieces_iff {ka : Bool} {r : Reply} (hvalid : r.Valid) (hplain : r.Plain) :
    Proper (!ka) r.bodyless (r.pieces ka) ↔ r.Fits ka := by
  have hshort {room headerRoom : Nat} {body : Bytes} (hheader : 30 ≤ headerRoom)
      (hroom : room < 2 ^ 32) (h : body.length ≤ room) :
      Proper (!ka) false (printedBody ka room headerRoom body) ↔ True :=
    iff_of_true ((proper_printedBody_iff hheader (h.trans_lt hroom)).mpr h) trivial
  have hid (id : Nat) : (cacheIdBody id).length ≤ 50 := by
    have h := length_formatU64_le id
    rw [length_cacheIdBody]
    omega
  cases r with
  | error reason => exact proper_error_iff
  | notModified mime id fl x => exact proper_notModified_iff hvalid hplain
  | content isHead mime id fl x it data gzip => exact proper_content_iff hvalid hplain
  | movedPermanently key => exact proper_moved_iff hplain
  | update id => exact hshort (Nat.le_refl 30) (by decide) (hid id)
  | updateFlags id => exact hshort (by decide) (by decide) (hid id)
  | touch id => exact hshort (by decide) (by decide) (hid id)
  | delete => exact iff_of_true proper_delete trivial
  | delta v id =>
    have hv := length_formatInt64_le v
    have hi := length_formatU64_le id
    have hlen : (deltaBody v id).length ≤ 100 := by
      rw [length_deltaBody]
      omega
    exact hshort (by decide) (by decide) hlen
  | getBase mime id fl x size =>
    have hmime := (length_cString_le mime).trans hvalid
    have h₁ := length_formatU64_le id
    have h₂ := length_formatU32_le fl
    have h₃ := length_formatU32_le x
    have h₄ := length_formatU32_le size
    have h32 : (getBaseBody mime id fl x size).length < 2 ^ 32 := by
      rw [length_getBaseBody]
      omega
    have h : Proper (!ka) false (printedBody ka 200 30 (getBaseBody mime id fl x size)) ↔
        (getBaseBody mime id fl x size).length ≤ 200 := proper_printedBody_iff (Nat.le_refl 30) h32
    rw [length_getBaseBody] at h
    exact h
  | createWatch id =>
    have h := length_formatU32_le id
    have hlen : (watchIdBody id).length ≤ 50 := by
      rw [length_watchIdBody]
      omega
    exact hshort (by decide) (by decide) hlen
  | flush count size =>
    have h₁ := length_formatU32_le count
    have h₂ := length_formatU64_le size
    have h32 : (flushBody count size).length < 2 ^ 32 := by
      rw [length_flushBody]
      omega
    have h : Proper (!ka) false (printedBody ka 50 50 (flushBody count size)) ↔
        (flushBody count size).length ≤ 50 := proper_printedBody_iff (by decide) h32
    rw [length_flushBody] at h
    exact h
  | stats result => exact iff_of_true proper_stats trivial
  | updateList l => exact proper_updateList_iff

/-! ## Responses in the queue -/

namespace Reply

/-- The response of `encode_update_list`. -/
def isUpdateList : Reply → Bool
  | .updateList _ => true
  | _ => false

end Reply

namespace ResponseLemmas

open Reply

/-- In an empty queue `encode_update_list` fills in its own slices. -/
theorem addTo_nil (ka : Bool) (l : List Nat) :
    (updateList l).addTo ka [] = (updateList l).pieces ka := by
  simp only [addTo, pieces, updateWriteBuf, List.nil_append, List.cons_append, List.length_cons,
    Nat.zero_lt_succ, if_true, List.set_cons_zero, Nat.succ_lt_succ_iff, List.set_cons_succ]

/-- In another it fills in those of an earlier response. -/
theorem not_proper_addTo {ka closes : Bool} {l : List Nat} {w slices : List Piece} (hw : w ≠ [])
    (heq : (updateList l).addTo ka w = w ++ slices) : ¬ Proper closes false slices := by
  intro h
  obtain ⟨-, htexts⟩ := updateSlices_spec true [] l (Nat.zero_le _)
  let header : Piece := .printed 50 (lengthHeader (updateSize true l))
  have hlt : (lengthHeader (updateSize true l)).length < 50 :=
    (length_lengthHeader_le _).trans_lt (by decide)
  obtain ⟨head, body, hcut, hconn, -⟩ := h.framed
  cases w with
  | nil => exact hw rfl
  | cons x w =>
    cases w with
    | nil =>
      -- the header stands alone in front of the list
      have hslices : slices = header :: .empty :: updateSlices true [] l := by
        have htail := congrArg List.tail heq
        simp only [addTo, updateWriteBuf, List.cons_append, List.nil_append, List.length_cons,
          Nat.zero_lt_succ, if_true, List.set_cons_zero, Nat.succ_lt_succ_iff, List.set_cons_succ,
          List.tail_cons] at htail
        exact htail.symm
      have hwire : wire slices = joined (formatU32 (updateSize true l)) [] ++
          (crlf ++ (crlf ++ updateTexts true l)) := by
        rw [hslices, wire_cons, wire_cons, htexts, bytes_printed (hlt.trans (by decide)) hlt, joined,
          lengthHeader, List.flatMap_nil, List.append_nil, List.append_assoc, List.append_assoc]
        rfl
      have hdigits := notMem_formatU32 (updateSize true l)
      have hnone : ∀ x ∈ ([] : List Bytes), Line x := fun _ hx => by cases hx
      rw [hwire, cut_joined_end (not_crlf_of_notMem hdigits) hnone] at hcut
      obtain ⟨rfl, -⟩ := Prod.mk.injEq .. ▸ Option.some.inj hcut
      rw [joined, List.flatMap_nil, List.append_nil, field_of_notMem hdigits] at hconn
      cases hconn
    | cons y w =>
      -- there is nothing in front of the list
      have hslices : slices = .empty :: .empty :: updateSlices true [] l := by
        have htail := congrArg (fun q => q.tail.tail) heq
        simp only [addTo, updateWriteBuf, List.cons_append, List.nil_append, List.length_cons,
          Nat.zero_lt_succ, if_true, List.set_cons_zero, Nat.succ_lt_succ_iff, List.set_cons_succ,
          List.tail_cons, List.append_assoc] at htail
        exact (List.append_cancel_left htail).symm
      have hwire : wire slices = updateTexts true l := by
        rw [hslices, wire_cons, wire_cons, htexts]
        rfl
      rw [hwire] at hcut
      refine absurd ?_ (notMem_updateTexts true l)
      rw [eq_of_cut hcut]
      exact List.mem_append_right _ List.mem_cons_self

theorem length_getMimeType_le (s : Settings) (ext key : Bytes) :
    (getMimeType s ext key).length ≤ 128 := by
  unfold getMimeType
  split
  · next h => exact h.2
  · split
    · split
      · next h => exact h
      · exact s.defaultMimeType_le
    · exact s.defaultMimeType_le

theorem ne_nil_of_gzip {s : Settings} {p : Params} {mime data : Bytes}
    (h : gzip s p mime data ≠ none) : data ≠ [] := by
  unfold gzip at h
  split at h
  · next hall => exact hall.2.2.2.2.2
  · exact absurd rfl h

variable {β : Type} {B : Backend β} {s : Settings}

theorem valid_processGet {m : β} {p : Params} {item : Option Ptr} {r : Reply}
    (h : (processGet B s m p item).reply = some r) : r.Valid := by
  unfold processGet at h
  split at h
  · rw [← Option.some.inj h]
    split
    · exact length_getMimeType_le _ _ _
    · exact ⟨length_getMimeType_le _ _ _, ne_nil_of_gzip⟩
  · rw [← Option.some.inj h]
    trivial
  · rw [← Option.some.inj h]
    trivial

theorem valid_processGetBase {m : β} {p : Params} {item : Option Ptr} {r : Reply}
    (h : (processGetBase B s m p item).reply = some r) : r.Valid := by
  unfold processGetBase at h
  split at h
  · rw [← Option.some.inj h]
    exact length_getMimeType_le _ _ _
  · rw [← Option.some.inj h]
    trivial

theorem reply_of_withKey {p : Params} {d d' : Done β} (h : withKey p d = some d') : d' = d := by
  unfold withKey at h
  split at h
  · exact (Option.some.inj h).symm
  · cases h

theorem valid_baseReply {reply : Nat → Reply} (h : ∀ id, (reply id).Valid) (x : Bool × Nat) :
    (baseReply reply x).Valid := by
  rcases x with ⟨_ | _, id⟩
  · trivial
  · exact h id

theorem valid_processUpdate {m : β} {p : Params} {verb : Verb} {d : Done β} {r : Reply}
    (h : processUpdate B m p verb = some d) (hr : d.reply = some r) : r.Valid := by
  have herror {reason : Reason} {item : Option Ptr} {m' : β}
      (h : some (⟨some (.error reason), item, m', p⟩ : Done β) = some d) : r.Valid := by
    rw [← Option.some.inj h] at hr
    rw [← Option.some.inj hr]
    trivial
  unfold processUpdate at h
  split at h
  · split at h
    · exact herror h
    · exact herror h
  · split at h
    · dsimp only at h
      split at h
      · rw [← Option.some.inj h] at hr
        rw [← Option.some.inj hr]
        trivial
      · exact herror h
    · cases h

/-- The handlers see to the length of the mime type. -/
theorem valid_execute {m : β} {p : Params} {item : Option Ptr} {classId : UInt8} {op : Operation}
    {d : Done β} {r : Reply} (h : execute B s m p item classId op = some d)
    (hr : d.reply = some r) : r.Valid := by
  cases op with
  | error reason =>
    rw [← Option.some.inj h] at hr
    rw [← Option.some.inj hr]
    trivial
  | get =>
    rw [reply_of_withKey h] at hr
    exact valid_processGet hr
  | getBase =>
    rw [reply_of_withKey h] at hr
    exact valid_processGetBase hr
  | update verb => exact valid_processUpdate h hr
  | delete =>
    rw [reply_of_withKey h, processDelete] at hr
    split at hr <;> (rw [← Option.some.inj hr]; trivial)
  | delta incr =>
    rw [reply_of_withKey h, processDelta] at hr
    split at hr <;> (rw [← Option.some.inj hr]; trivial)
  | flush =>
    rw [← Option.some.inj h] at hr
    rw [← Option.some.inj hr]
    trivial
  | touch =>
    have htouch (id : Nat) : (Reply.touch id).Valid := trivial
    rw [reply_of_withKey h] at hr
    rw [← Option.some.inj hr]
    exact valid_baseReply htouch _
  | updateFlags =>
    have hflags (id : Nat) : (Reply.updateFlags id).Valid := trivial
    rw [reply_of_withKey h] at hr
    rw [← Option.some.inj hr]
    exact valid_baseReply hflags _
  | stats =>
    rw [← Option.some.inj h] at hr
    rw [← Option.some.inj hr]
    trivial
  | watch =>
    rw [← Option.some.inj h, processWatch] at hr
    split at hr
    · rw [← Option.some.inj hr]
      trivial
    · split at hr
      · rw [← Option.some.inj hr]
        trivial
      · cases hr
  | createWatch =>
    rw [← Option.some.inj h] at hr
    rw [← Option.some.inj hr]
    trivial

end ResponseLemmas

namespace Conn

variable {β : Type} (B : Backend β) (s : Settings) (c : Conn β)

/-- A response is queued: by the handler of an operation, or when the timer goes off. -/
inductive Responds (r : Reply) : Conn β → Prop
  | served (classId : UInt8) (operation : Operation) (p : Params) (d : Done β)
      (done : execute B s c.mgr p c.cacheItem classId operation = some d)
      (reply : d.reply = some r) : Responds r (c.serve B s classId operation p)
  | notified (watchId : Nat)
      (reply : r = timerReply (B.exec c.mgr (.cache (.checkWatchAndClearCallback watchId))).1) :
      Responds r (c.notify B watchId)

variable {B s c} {r : Reply} {c' : Conn β}

namespace ResponsesLemmas

/-- Whichever it is, `write_buf_` grows by the slices of the response. -/
theorem Responds.writeRes (h : c.Responds B s r c') :
    r.Valid ∧ ∃ c₁ : Conn β, c₁.writeBuf = c.writeBuf ∧ c' = c₁.writeRes r := by
  cases h with
  | served classId operation p d done reply =>
    refine ⟨valid_execute done reply, { c with
      params := d.params
      cacheItem := d.cacheItem
      mgr := d.mgr
      log := c.log ++ [.served ⟨c.taken, c.mgr, operation, p, d.reply⟩] }, rfl, ?_⟩
    rw [serve, done]
    dsimp only
    rw [reply]
  | notified watchId reply =>
    rw [reply, notify]
    rcases B.exec c.mgr (.cache (.checkWatchAndClearCallback watchId)) with ⟨out, m⟩
    let x : Served β := ⟨c.taken, c.mgr, .watch, c.params, some (timerReply out)⟩
    refine ⟨?_, { c with mgr := m, log := c.log ++ [.notified x] }, rfl, rfl⟩
    cases out with
    | none => trivial
    | some out => trivial

/-- The server closes unless the connection is kept. -/
theorem closing_iff : (c.writeRes r).processWrite.state = .closing ↔ c.params.http.keepalive = false := by
  have hparams : (c.writeRes r).params = c.params := rfl
  have hnext : (c.writeRes r).nextState = .newCmd := rfl
  unfold processWrite
  cases hka : c.params.http.keepalive with
  | false =>
    refine iff_of_true ?_ rfl
    rw [hparams, hka]
    rfl
  | true =>
    refine iff_of_false ?_ nofun
    simp only [hparams, hka, if_true, hnext]
    split
    · split
      · exact fun h => nomatch h
      · exact fun h => nomatch h
    · exact fun h => nomatch h

end ResponsesLemmas

open ResponsesLemmas

/-- A response is proper exactly when its texts fit the buffers, and a list of updates is the first
in `write_buf_`. -/
theorem proper_iff (h : c.Responds B s r c') (hplain : r.Plain) :
    (∃ l, c'.writeBuf = c.writeBuf ++ l ∧
        Proper (decide (c'.processWrite.state = .closing)) r.bodyless l) ↔
      r.Fits c'.params.http.keepalive ∧ (r.isUpdateList = true → c.writeBuf = []) := by
  obtain ⟨hvalid, c₁, hw, rfl⟩ := Responds.writeRes h
  let ka := c₁.params.http.keepalive
  have hcloses : decide ((c₁.writeRes r).processWrite.state = .closing) = !ka := by
    calc decide ((c₁.writeRes r).processWrite.state = .closing)
      _ = decide (ka = false) := decide_eq_decide.mpr closing_iff
      _ = !ka := Bool.decide_eq_false
  have hbuf : (c₁.writeRes r).writeBuf = r.addTo ka c.writeBuf := by rw [← hw]; rfl
  have hproper : Proper (!ka) r.bodyless (r.pieces ka) ↔ r.Fits ka :=
    Reply.proper_pieces_iff hvalid hplain
  show _ ↔ r.Fits ka ∧ _
  rw [hcloses, hbuf, ← hproper]
  have happend (hadd : r.addTo ka c.writeBuf = c.writeBuf ++ r.pieces ka)
      (hlist : r.isUpdateList = true → c.writeBuf = []) :
      (∃ l, r.addTo ka c.writeBuf = c.writeBuf ++ l ∧ Proper (!ka) r.bodyless l) ↔
        Proper (!ka) r.bodyless (r.pieces ka) ∧ (r.isUpdateList = true → c.writeBuf = []) := by
    rw [hadd, and_iff_left hlist]
    constructor
    · rintro ⟨l, heq, hl⟩
      rwa [List.append_cancel_left heq]
    · exact fun hl => ⟨_, rfl, hl⟩
  cases r with
  | updateList l =>
    by_cases hnil : c.writeBuf = []
    · refine happend ?_ fun _ => hnil
      rw [hnil]
      exact addTo_nil ka l
    · refine iff_of_false ?_ fun hx => hnil (hx.2 rfl)
      rintro ⟨slices, heq, hl⟩
      exact not_proper_addTo hnil heq hl
  | error | notModified | content | movedPermanently | update | updateFlags | touch | delete | delta
  | getBase | createWatch | flush | stats => exact happend rfl nofun

/-- `GET` of something that is not there. -/
theorem proper_notFound :
    let c := opened (ascii "GET /a HTTP/1.1\r\n\r\n") []
    let c₁ := (c.resetForNewCmd smallBackend).takeHead 19
    let c' := (c.resetForNewCmd smallBackend).iterate smallBackend .small 0 0
    ∃ l, c'.writeBuf = c₁.writeBuf ++ l ∧
      Proper (decide (c'.processWrite.state = .closing)) (Reply.error (.cache .notFound)).bodyless l := by
  intro c c₁ c'
  let p := { Params.new with http := { http11 := true, keepalive := true, method := some .get
                                       uri := ascii "/a" }, key := .copy (ascii "/a") }
  have hreply : ((execute smallBackend .small c₁.mgr p c₁.cacheItem 0 .get).bind Done.reply) =
      some (.error (.cache .notFound)) := by
    decide +kernel
  obtain ⟨d, hd, hr⟩ := Option.bind_eq_some_iff.mp hreply
  have heq : c' = c₁.serve smallBackend .small 0 .get p := rfl
  rw [heq]
  exact (proper_iff (.served 0 .get p d hd hr) trivial).mpr ⟨(fun h => nomatch h), (fun h => nomatch h)⟩

/-- A body that is too large, on a connection that is not kept: the text of `write_error` is that
of a connection that is kept, and the last bytes are missing. -/
theorem tooLarge_is_cut :
    let c := [Action.turn 0 0, .turn 0 0].foldl (next smallBackend .small)
      (opened (ascii "POST /a HTTP/1.0\r\nContent-Length: 4000000\r\n\r\n") [])
    (∃ t, Run (Step smallBackend .small)
      (opened (ascii "POST /a HTTP/1.0\r\nContent-Length: 4000000\r\n\r\n") []) t c) ∧
      c.state = .write ∧ c.processWrite.state = .closing ∧ ¬ Proper true false c.writeBuf := by
  intro c
  have hok : Admitted (fun (c : Conn (CacheMgr × Nat)) a => c.Permitted a) (next smallBackend .small)
      (opened (ascii "POST /a HTTP/1.0\r\nContent-Length: 4000000\r\n\r\n") [])
      [.turn 0 0, .turn 0 0] := by
    decide +kernel
  have hbuf : c.writeBuf = [writeErrorRes false (.cache .tooLarge)] := by decide +kernel
  refine ⟨hok.run, by decide +kernel, by decide +kernel, ?_⟩
  rw [hbuf]
  exact not_proper_tooLarge

end Conn
end Xixi.Http
