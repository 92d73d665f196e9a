import Mathlib.Data.List.Induction

/-!
# Runs of a labelled transition system

1. `Run step s t s'`: `t` lists the steps from `s` to `s'`, each as the state it
   started in and its label.
2. `Run.invariant`: what every step keeps holds in the end.
3. `Run.simulates`: a run is matched step by step by a run of another system.
4. `Admitted.run`: a list of actions that are admitted in turn is a run.
-/

namespace Xixi.Lib

variable {σ α τ β : Type} {step : σ → α → σ → Prop}

inductive Run (step : σ → α → σ → Prop) : σ → List (σ × α) → σ → Prop
  | nil (s : σ) : Run step s [] s
  | snoc {s s' s'' : σ} {t : List (σ × α)} {a : α} (run : Run step s t s') (last : step s' a s'') :
      Run step s (t ++ [(s', a)]) s''

namespace Run

variable {s s' s'' : σ} {t t' : List (σ × α)}

theorem single {a : α} (h : step s a s') : Run step s [(s, a)] s' := .snoc (.nil s) h

theorem trans (h : Run step s t s') (h' : Run step s' t' s'') : Run step s (t ++ t') s'' := by
  induction h' with
  | nil => rwa [List.append_nil]
  | snoc _ last ih =>
    rw [← List.append_assoc]
    exact .snoc ih last

/-- A run can be interrupted after any of its steps. -/
theorem split (h : Run step s (t ++ t') s'') : ∃ s', Run step s t s' ∧ Run step s' t' s'' := by
  induction t' using List.reverseRecOn generalizing s'' with
  | nil =>
    rw [List.append_nil] at h
    exact ⟨s'', h, .nil s''⟩
  | append_singleton t' x ih =>
    rw [← List.append_assoc] at h
    generalize hall : t ++ t' ++ [x] = u at h
    cases h with
    | nil => exact absurd hall (List.append_ne_nil_of_right_ne_nil _ (List.cons_ne_nil _ _))
    | snoc run last =>
      obtain ⟨rfl, hx⟩ := List.append_inj' hall rfl
      obtain ⟨s', h1, h2⟩ := ih run
      obtain rfl := (List.cons.inj hx).1
      exact ⟨s', h1, .snoc h2 last⟩

/-- What every step keeps holds in the end. -/
theorem invariant {I : σ → Prop} (keep : ∀ s a s', I s → step s a s' → I s')
    (h : Run step s t s') (h0 : I s) : I s' := by
  induction h with
  | nil => exact h0
  | snoc _ last ih => exact keep _ _ _ ih last

/-- It holds before every step, too. -/
theorem invariant_before {I : σ → Prop} (keep : ∀ s a s', I s → step s a s' → I s')
    (h : Run step s t s') (h0 : I s) : ∀ x ∈ t, I x.1 ∧ ∃ y, step x.1 x.2 y := by
  induction h with
  | nil => exact fun x hx => absurd hx List.not_mem_nil
  | snoc run last ih =>
    intro x hx
    rcases List.mem_append.mp hx with hx | hx
    · exact ih x hx
    · rw [List.mem_singleton.mp hx]
      exact ⟨run.invariant keep h0, _, last⟩

/-- A run of a system with fewer steps. -/
theorem mono {step' : σ → α → σ → Prop} (hsub : ∀ s a s', step s a s' → step' s a s')
    (h : Run step s t s') : Run step' s t s' := by
  induction h with
  | nil => exact .nil _
  | snoc _ last ih => exact .snoc ih (hsub _ _ _ last)

/-- A run all of whose steps have a property. -/
theorem restrict {P : σ → α → Prop} (h : Run step s t s') (hP : ∀ x ∈ t, P x.1 x.2) :
    Run (fun s a s' => P s a ∧ step s a s') s t s' := by
  induction h with
  | nil => exact .nil _
  | snoc _ last ih =>
    refine .snoc (ih fun x hx => hP x (List.mem_append_left _ hx)) ⟨?_, last⟩
    exact hP _ (List.mem_append_right _ (List.mem_singleton_self _))

/-- Steps that are matched one by one make runs that are matched; `f` is the label
that the other system shows for a step. -/
theorem simulates {step' : τ → β → τ → Prop} {R : σ → τ → Prop} {f : σ → α → β}
    (sim : ∀ s a s' u, R s u → step s a s' → ∃ u', step' u (f s a) u' ∧ R s' u')
    (h : Run step s t s') {u : τ} (h0 : R s u) :
    ∃ t' u', Run step' u t' u' ∧ R s' u' ∧ t'.map Prod.snd = t.map fun x => f x.1 x.2 := by
  induction h with
  | nil => exact ⟨[], u, .nil u, h0, rfl⟩
  | snoc _ last ih =>
    obtain ⟨t', u', hrun, hR, hlab⟩ := ih
    obtain ⟨u'', hstep, hR'⟩ := sim _ _ _ u' hR last
    refine ⟨_, u'', .snoc hrun hstep, hR', ?_⟩
    rw [List.map_append, List.map_append, hlab]
    rfl

end Run

/-! ## Runs of deterministic systems -/

section Deterministic

variable (ok : σ → α → Prop) (next : σ → α → σ)

/-- Every action is admitted when its turn comes. -/
def Admitted : σ → List α → Prop
  | _, [] => True
  | s, a :: as => ok s a ∧ Admitted (next s a) as

instance decidableAdmitted [∀ s a, Decidable (ok s a)] : (s : σ) → (as : List α) →
    Decidable (Admitted ok next s as)
  | _, [] => .isTrue trivial
  | s, a :: as =>
    have := decidableAdmitted (next s a) as
    inferInstanceAs (Decidable (_ ∧ _))

variable {ok next}

theorem admitted_append {s : σ} {as bs : List α} :
    Admitted ok next s (as ++ bs) ↔ Admitted ok next s as ∧ Admitted ok next (as.foldl next s) bs := by
  induction as generalizing s with
  | nil => exact (true_and _).symm ▸ Iff.rfl
  | cons a as ih => exact (and_congr_right fun _ => ih).trans and_assoc.symm

theorem Admitted.run {s : σ} {as : List α} (h : Admitted ok next s as) :
    ∃ t, Run (fun s a s' => ok s a ∧ s' = next s a) s t (as.foldl next s) := by
  induction as generalizing s with
  | nil => exact ⟨[], .nil s⟩
  | cons a as ih =>
    obtain ⟨t, ht⟩ := ih h.2
    exact ⟨_, (Run.single ⟨h.1, rfl⟩).trans ht⟩

variable (next) in
/-- The states in which the actions are taken. -/
def trace : σ → List α → List (σ × α)
  | _, [] => []
  | s, a :: as => (s, a) :: trace (next s a) as

theorem Admitted.run_trace {s : σ} {as : List α} (h : Admitted ok next s as) :
    Run (fun s a s' => ok s a ∧ s' = next s a) s (trace next s as) (as.foldl next s) := by
  induction as generalizing s with
  | nil => exact .nil s
  | cons a as ih => exact (Run.single ⟨h.1, rfl⟩).trans (ih h.2)

/-- The steps of the run have a property that was checked as they were admitted. -/
theorem Admitted.run_of_and {P : σ → α → Prop} {s : σ} {as : List α}
    (h : Admitted (fun s a => ok s a ∧ P s a) next s as) :
    ∃ t, Run (fun s a s' => ok s a ∧ s' = next s a) s t (as.foldl next s) ∧
      ∀ x ∈ t, P x.1 x.2 := by
  induction as generalizing s with
  | nil => exact ⟨[], .nil s, by simp⟩
  | cons a as ih =>
    obtain ⟨t, ht, hall⟩ := ih h.2
    refine ⟨_, (Run.single ⟨h.1.1, rfl⟩).trans ht, fun x hx => ?_⟩
    rcases List.mem_append.mp hx with hx | hx
    · rw [List.mem_singleton.mp hx]
      exact h.1.2
    · exact hall x hx

end Deterministic
end Xixi.Lib
