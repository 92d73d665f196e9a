import Mathlib.Data.List.Infix

/-!
# Reading in stages

A reader fills a buffer, and when it is full goes on to its next stage with an empty one. A stage
that needs nothing is never left.

1. `Reads m s bs s' buf`: what has been read leads from one stage to another one.
2. `Reads.of_lt`, `Reads.of_ge`, `Reads.of_zero`: it is known from the number of the bytes, and
   `Reads.front` from what the next ones are.
3. `Reads.part`, `Reads.full`: the next read, however much it gets.
4. `Reads.drop`: the reader may be looked at from a later stage on.
5. `Reads.messages`: a reader that takes every message to where the next one starts is between
   two messages or within one, and their number is known from the bytes.
-/

namespace Xixi.Lib

/-- How much a stage reads, and where it leads. -/
structure Stages (σ α : Type) where
  need : σ → Nat
  next : σ → List α → σ

variable {σ α : Type} {m : Stages σ α} {s s' s₁ : σ} {bs bs' buf seg c : List α}

/-- From the stage `s` with an empty buffer, `bs` lead to the stage `s'` with `buf` in the buffer. -/
inductive Reads (m : Stages σ α) : σ → List α → σ → List α → Prop
  | stay {s : σ} {buf : List α} (h : buf = [] ∨ buf.length < m.need s) : Reads m s buf s buf
  | go {s s' : σ} {seg bs buf : List α} (hseg : seg.length = m.need s) (hpos : 0 < m.need s)
      (h : Reads m (m.next s seg) bs s' buf) : Reads m s (seg ++ bs) s' buf

namespace Reads

theorem refl (s : σ) : Reads m s [] s [] := .stay (.inl rfl)

theorem of_lt (hlen : bs.length < m.need s) (h : Reads m s bs s' buf) : s' = s ∧ buf = bs := by
  cases h with
  | stay h => exact ⟨rfl, rfl⟩
  | go hseg hpos h =>
    rw [List.length_append] at hlen
    omega

theorem of_zero (hzero : m.need s = 0) (h : Reads m s bs s' buf) :
    s' = s ∧ bs = [] ∧ buf = [] := by
  cases h with
  | stay h =>
    rcases h with rfl | h
    · exact ⟨rfl, rfl, rfl⟩
    · omega
  | go hseg hpos h => omega

/-- A full buffer is behind the reader. -/
theorem of_ge (hpos : 0 < m.need s) (hlen : m.need s ≤ bs.length) (h : Reads m s bs s' buf) :
    Reads m (m.next s (bs.take (m.need s))) (bs.drop (m.need s)) s' buf := by
  cases h with
  | stay h =>
    rcases h with rfl | h
    · exact absurd hlen (Nat.not_le_of_lt hpos)
    · omega
  | go hseg _ h =>
    rw [← hseg, List.take_left, List.drop_left]
    exact h

/-- What is known to come next has been read, or is being read. -/
theorem front {left more : List α} (hpos : 0 < m.need s) (hseg : seg.length = m.need s)
    (hstream : bs ++ left = seg ++ more) (h : Reads m s bs s' buf) :
    bs.length < m.need s ∧ s' = s ∨
      ∃ bs', bs = seg ++ bs' ∧ bs' ++ left = more ∧ Reads m (m.next s seg) bs' s' buf := by
  rcases Nat.lt_or_ge bs.length (m.need s) with hlt | hge
  · exact .inl ⟨hlt, (of_lt hlt h).1⟩
  · obtain ⟨bs', rfl⟩ : seg <+: bs :=
      List.prefix_of_prefix_length_le (List.prefix_append seg more)
        (hstream ▸ List.prefix_append bs left) (hseg ▸ hge)
    have hrest := of_ge hpos hge h
    rw [← hseg, List.take_left, List.drop_left] at hrest
    rw [List.append_assoc] at hstream
    exact .inr ⟨bs', rfl, List.append_cancel_left hstream, hrest⟩

/-- The buffer is not full yet. -/
theorem part (h : Reads m s bs s' buf) (hlen : (buf ++ c).length < m.need s') :
    Reads m s (bs ++ c) s' (buf ++ c) := by
  induction h with
  | stay _ => exact .stay (.inr hlen)
  | go hseg hpos _ ih =>
    rw [List.append_assoc]
    exact .go hseg hpos (ih hlen)

/-- The buffer becomes full. -/
theorem full (h : Reads m s bs s' buf) (hc : c ≠ []) (hlen : (buf ++ c).length = m.need s') :
    Reads m s (bs ++ c) (m.next s' (buf ++ c)) [] := by
  induction h with
  | stay _ =>
    have hpos := List.length_pos_iff.mpr hc
    rw [List.length_append] at hlen
    have hgo := Reads.go (m := m) (by rwa [List.length_append]) (by omega) (refl (m.next _ (_ ++ c)))
    rwa [List.append_nil] at hgo
  | go hseg hpos _ ih =>
    rw [List.append_assoc]
    exact .go hseg hpos (ih hlen)

theorem trans (h : Reads m s bs s₁ []) (h' : Reads m s₁ bs' s' buf) :
    Reads m s (bs ++ bs') s' buf := by
  generalize hempty : ([] : List α) = e at h
  induction h with
  | stay _ =>
    subst hempty
    exact h'
  | go hseg hpos _ ih =>
    rw [List.append_assoc]
    exact .go hseg hpos (ih h' hempty)

/-- What comes behind an empty buffer is read from there on. -/
theorem drop (h : Reads m s bs s₁ []) (h' : Reads m s (bs ++ bs') s' buf) :
    Reads m s₁ bs' s' buf := by
  generalize hempty : ([] : List α) = e at h
  induction h with
  | stay _ =>
    subst hempty
    exact h'
  | @go s _ seg bs _ hseg hpos _ ih =>
    rw [List.append_assoc] at h'
    have hrest := of_ge hpos (by rw [List.length_append]; omega) h'
    rw [← hseg, List.take_left, List.drop_left] at hrest
    exact ih hrest hempty

/-- The buffer has room for something, or there is nothing in it. -/
theorem buf_lt (h : Reads m s bs s' buf) : buf = [] ∨ buf.length < m.need s' := by
  induction h with
  | stay h => exact h
  | go _ _ _ ih => exact ih

end Reads

/-! ## Messages one after the other -/

section Messages
variable {ρ : Type} (bytes : ρ → List α)

/-- How many of the messages have ended within the first `n` bytes. -/
def ended : List ρ → Nat → Nat
  | [], _ => 0
  | r :: rs, n => if (bytes r).length ≤ n then ended rs (n - (bytes r).length) + 1 else 0

variable {bytes}

/-- A message that has not ended is longer than what is left for it. -/
theorem lt_of_ended_lt {rs : List ρ} {n : Nat} (h : ended bytes rs n < rs.length) :
    n < (rs.flatMap bytes).length := by
  induction rs generalizing n with
  | nil => exact absurd h (Nat.lt_irrefl 0)
  | cons r rs ih =>
    rw [ended] at h
    rw [List.flatMap_cons, List.length_append]
    split at h
    · next hle =>
      have hlt := ih (Nat.lt_of_succ_lt_succ h)
      omega
    · next hgt => exact Nat.lt_add_right _ (Nat.lt_of_not_le hgt)

variable {rs : List ρ} {left rest : List α}

/-- `At i` is where the message with the number `i` starts. -/
theorem Reads.messages (At Within : Nat → σ → Prop)
    (whole : ∀ i r s, rs[i]? = some r → At i s → ∃ s', At (i + 1) s' ∧ Reads m s (bytes r) s' [])
    (part : ∀ i r s bs s' buf, rs[i]? = some r → At i s → bs <+: bytes r →
      bs.length < (bytes r).length → Reads m s bs s' buf → Within i s')
    (h0 : At 0 s) (h : Reads m s bs s' buf) (hstream : bs ++ left = rs.flatMap bytes ++ rest) :
    ended bytes rs bs.length < rs.length ∧ Within (ended bytes rs bs.length) s' ∨
      ended bytes rs bs.length = rs.length ∧
        ∃ s₁ c, At rs.length s₁ ∧ Reads m s₁ c s' buf ∧ c ++ left = rest := by
  induction rs generalizing s bs At Within with
  | nil => exact .inr ⟨rfl, s, bs, h0, h, hstream⟩
  | cons r rs ih =>
    rw [List.flatMap_cons, List.append_assoc] at hstream
    have hbs : bs <+: bytes r ++ (rs.flatMap bytes ++ rest) := hstream ▸ List.prefix_append bs left
    rw [ended]
    split
    · next hle =>
      have hpre : bytes r <+: bs :=
        List.prefix_of_prefix_length_le (List.prefix_append _ _) hbs hle
      obtain ⟨bs', rfl⟩ := hpre
      obtain ⟨s₁, hat, hreads⟩ := whole 0 r s rfl h0
      rw [List.append_assoc] at hstream
      have hrest := ih (fun i => At (i + 1)) (fun i => Within (i + 1))
        (fun i => whole (i + 1)) (fun i => part (i + 1)) hat (hreads.drop h)
        (List.append_cancel_left hstream)
      rw [List.length_append, Nat.add_sub_cancel_left]
      rcases hrest with ⟨hlt, hwithin⟩ | ⟨hend, hlast⟩
      · exact .inl ⟨Nat.succ_lt_succ hlt, hwithin⟩
      · exact .inr ⟨congrArg (· + 1) hend, hlast⟩
    · next hlt =>
      have hpre : bs <+: bytes r :=
        List.prefix_of_prefix_length_le hbs (List.prefix_append _ _) (Nat.le_of_not_le hlt)
      exact .inl ⟨Nat.succ_pos _, part 0 r s bs s' buf rfl h0 hpre (Nat.lt_of_not_le hlt) h⟩

end Messages
end Xixi.Lib
