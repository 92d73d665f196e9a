import Xixi.Lib.Search

/-!
# Texts made of lines

Lines that are ended by CR LF, as in the head of an HTTP message, which an empty line ends.

1. `joined l ls`: lines with CR LF between them. `cut_joined`: the empty line is not found in them.
2. `field name text`: the value of a header field. `field_skip`, `field_of_line`: it is found line
   by line.
-/

namespace Xixi.Lib

def crlf : List UInt8 := [13, 10]

/-- A line that is not empty, whatever stands behind it. -/
def Line (x : List UInt8) : Prop := ¬ crlf <:+: x ∧ ∃ b y, x = b :: y ∧ b ≠ 13

/-- Lines with CR LF between them. -/
def joined (l : List UInt8) (ls : List (List UInt8)) : List UInt8 := l ++ ls.flatMap (crlf ++ ·)

/-- The value of the first line, other than the very first, that starts with `name` and a colon. -/
def field (name text : List UInt8) : Option (List UInt8) :=
  (cut (crlf ++ (name ++ [58, 32])) text).map fun r => ((cut crlf r.2).map Prod.fst).getD r.2

variable {x y l sub : List UInt8} {ls : List (List UInt8)}

theorem not_crlf_of_notMem (h : 13 ∉ x) : ¬ crlf <:+: x := fun hx => h (hx.subset List.mem_cons_self)

theorem line_of_notMem (h : 13 ∉ x) (hne : x ≠ []) : Line x := by
  refine ⟨not_crlf_of_notMem h, ?_⟩
  cases x with
  | nil => exact absurd rfl hne
  | cons b y => exact ⟨b, y, rfl, fun hb => h (hb ▸ List.mem_cons_self)⟩

/-- A text that starts otherwise. -/
theorem not_prefix_append (h : ¬ sub <+: x) (h' : ¬ x <+: sub) (y : List UInt8) :
    ¬ sub <+: x ++ y := by
  intro hx
  rcases List.prefix_or_prefix_of_prefix hx (List.prefix_append x y) with hsub | hsub
  · exact h hsub
  · exact h' hsub

/-- A line with a text of its own in front. -/
theorem line_append {a : List UInt8} (ha : 13 ∉ a) (hne : a ≠ []) (h : ¬ crlf <:+: x) :
    Line (a ++ x) := by
  obtain ⟨-, b, y, rfl, hb⟩ := line_of_notMem ha hne
  refine ⟨?_, b, y ++ x, rfl, hb⟩
  intro hx
  have hsome := isSome_cut_iff.mpr hx
  have hnone := cut_eq_none_iff.mpr h
  rw [crlf] at hnone
  rw [crlf, cut_append_of_notMem ha, hnone] at hsome
  cases hsome

theorem joined_cons (l x : List UInt8) (ls : List (List UInt8)) :
    joined l (x :: ls) = l ++ (crlf ++ joined x ls) := by
  rw [joined, joined, List.flatMap_cons, List.append_assoc]

/-- A line without CR LF in it is skipped. -/
theorem cut_line (hx : ¬ crlf <:+: x) (sub y : List UInt8) :
    cut (crlf ++ sub) (x ++ (crlf ++ y)) =
      (cut (crlf ++ sub) (crlf ++ y)).map fun r => (x ++ r.1, r.2) := by
  induction x with
  | nil => exact Option.map_id_apply.symm
  | cons b x ih =>
    have hx' : ¬ crlf <:+: x := fun h => hx (h.trans (List.suffix_cons b x).isInfix)
    have hfront : ¬ crlf ++ sub <+: b :: (x ++ (crlf ++ y)) := by
      intro h
      have hcr : crlf <+: b :: (x ++ (crlf ++ y)) := (List.prefix_append _ _).trans h
      cases x with
      | nil =>
        -- a CR at the end of the line is followed by another CR
        obtain ⟨-, hcr⟩ := List.cons_prefix_cons.mp hcr
        obtain ⟨h10, -⟩ := List.cons_prefix_cons.mp hcr
        exact absurd h10 (by decide)
      | cons b' x =>
        have hle : crlf.length ≤ (b :: b' :: x).length := Nat.le_add_left _ _
        exact hx (List.prefix_of_prefix_length_le hcr
          (List.prefix_append (b :: b' :: x) (crlf ++ y)) hle).isInfix
    rw [List.cons_append, cut_cons_of_not hfront, ih hx', Option.map_map]
    rfl

/-- CR LF that something else follows is skipped. -/
theorem cut_crlf (h : ¬ sub <+: y) :
    cut (crlf ++ sub) (crlf ++ y) =
      (cut (crlf ++ sub) y).map fun r => (crlf ++ r.1, r.2) := by
  have h0 : ¬ crlf ++ sub <+: 13 :: 10 :: y := by
    intro hx
    exact h ((List.prefix_append_right_inj crlf).mp hx)
  have h1 : ¬ crlf ++ sub <+: 10 :: y := by
    intro hx
    exact absurd (List.cons_prefix_cons.mp hx).1 (by decide)
  rw [show crlf ++ y = 13 :: 10 :: y from rfl, cut_cons_of_not h0, cut_cons_of_not h1,
    Option.map_map]
  rfl

/-- Lines do not contain the empty line. -/
theorem cut_joined (hl : ¬ crlf <:+: l) (hls : ∀ x ∈ ls, Line x) (y : List UInt8) :
    cut (crlf ++ crlf) (joined l ls ++ (crlf ++ y)) =
      (cut (crlf ++ crlf) (crlf ++ y)).map fun r => (joined l ls ++ r.1, r.2) := by
  induction ls generalizing l with
  | nil =>
    rw [joined, List.flatMap_nil, List.append_nil]
    exact cut_line hl crlf y
  | cons x ls ih =>
    have hx := hls x List.mem_cons_self
    have hfront : ¬ crlf <+: joined x ls ++ (crlf ++ y) := by
      obtain ⟨-, b, x', rfl, hb⟩ := hx
      intro h
      exact hb (List.cons_prefix_cons.mp h).1.symm
    rw [joined_cons, List.append_assoc, List.append_assoc, cut_line hl, cut_crlf hfront,
      ih hx.1 fun z hz => hls z (List.mem_cons_of_mem _ hz), Option.map_map, Option.map_map]
    congr 1
    funext r
    simp only [Function.comp_apply, List.append_assoc]

/-- The empty line behind lines. -/
theorem cut_joined_end (hl : ¬ crlf <:+: l) (hls : ∀ x ∈ ls, Line x) (body : List UInt8) :
    cut (crlf ++ crlf) (joined l ls ++ (crlf ++ (crlf ++ body))) = some (joined l ls, body) := by
  have hfront : cut (crlf ++ crlf) (crlf ++ (crlf ++ body)) = some ([], body) :=
    cut_front (crlf ++ crlf) body
  rw [cut_joined hl hls, hfront, Option.map_some, List.append_nil]

section Fields

variable {name v : List UInt8}

/-- A line that is not the field. -/
theorem field_skip (hl : ¬ crlf <:+: l) (hx : ¬ name ++ [58, 32] <+: x) :
    field name (l ++ (crlf ++ x)) = field name x := by
  rw [field, field, cut_line hl, cut_crlf hx, Option.map_map, Option.map_map]
  rfl

/-- The line is the field. -/
theorem field_of_line (hl : ¬ crlf <:+: l) (hv : ¬ crlf <:+: v) (z : List UInt8) :
    field name (l ++ (crlf ++ (name ++ ([58, 32] ++ (v ++ (crlf ++ z)))))) = some v := by
  have hfront : cut (crlf ++ (name ++ [58, 32]))
      (crlf ++ (name ++ ([58, 32] ++ (v ++ (crlf ++ z))))) = some ([], v ++ (crlf ++ z)) := by
    have h := cut_front (crlf ++ (name ++ [58, 32])) (v ++ (crlf ++ z))
    simpa only [List.append_assoc] using h
  have hend : cut crlf (v ++ (crlf ++ z)) = some (v, z) := by
    have h := cut_line hv [] z
    rw [List.append_nil, cut_front, Option.map_some, List.append_nil] at h
    exact h
  rw [field, cut_line hl, hfront, Option.map_some, Option.map_some]
  show some (((cut crlf (v ++ (crlf ++ z))).map Prod.fst).getD (v ++ (crlf ++ z))) = some v
  rw [hend]
  rfl

/-- The last line is the field. -/
theorem field_of_last (hl : ¬ crlf <:+: l) (hv : ¬ crlf <:+: v) :
    field name (l ++ (crlf ++ (name ++ ([58, 32] ++ v)))) = some v := by
  have hfront : cut (crlf ++ (name ++ [58, 32])) (crlf ++ (name ++ ([58, 32] ++ v))) =
      some ([], v) := by
    have h := cut_front (crlf ++ (name ++ [58, 32])) v
    simpa only [List.append_assoc] using h
  have hend : cut crlf v = none := cut_eq_none_iff.mpr hv
  rw [field, cut_line hl, hfront, Option.map_some, Option.map_some]
  show some (((cut crlf v).map Prod.fst).getD v) = some v
  rw [hend]
  rfl

/-- Without a further line there is no field. -/
theorem field_of_notMem {text : List UInt8} (h : 13 ∉ text) : field name text = none := by
  have hcut : cut (crlf ++ (name ++ [58, 32])) text = none :=
    cut_eq_none_iff.mpr fun hx => h (hx.subset List.mem_cons_self)
  rw [field, hcut]
  rfl

end Fields
end Xixi.Lib
