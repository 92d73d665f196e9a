import Mathlib.Data.List.Basic
import Mathlib.Logic.Function.Basic
import Xixi.Lib.Run

/-!
# Callers of a shared object

A step of the system is taken on behalf of a caller, or on its own. Every caller keeps to rules that
can be told from what it has done itself: `ok` says what it may do next, `next` what it knows then.
Which callers there are and how their steps interleave is left open.

1. `part i t`: what the caller `i` contributes to a run.
2. `known i t`: what it knows at the end.
3. `Run.composes`: an invariant that relates the system to what its callers know, kept by every step
   that the rules of its caller allow, holds after every run whose callers keep to their rules.
4. `Run.composes_before`: and before each of its steps, which is then allowed.
-/

namespace Xixi.Lib

variable {ι α ε σ τ : Type} [DecidableEq ι]

section Parts

variable (i : ι) (t : List (σ × ((ι × α) ⊕ ε)))

/-- What the caller does in this step. -/
def own : (ι × α) ⊕ ε → Option α
  | .inl (j, a) => if j = i then some a else none
  | .inr _ => none

def part : List α := t.filterMap fun x => own i x.2

end Parts

variable {ok : τ → α → Prop} {next : τ → α → τ} {s s' : σ} {i : ι} {a : α} {e : ε}
  {t t' : List (σ × ((ι × α) ⊕ ε))}

theorem part_append : part i (t ++ t') = part i t ++ part i t' := List.filterMap_append ..

theorem part_self : part i [(s, (.inl (i, a) : (ι × α) ⊕ ε))] = [a] := by
  have hown : own i (.inl (i, a) : (ι × α) ⊕ ε) = some a := if_pos rfl
  exact List.filterMap_cons_some hown

theorem part_of_ne {j : ι} (h : j ≠ i) : part i [(s, (.inl (j, a) : (ι × α) ⊕ ε))] = [] :=
  List.filterMap_cons_none (if_neg h)

theorem part_env : part i [(s, (.inr e : (ι × α) ⊕ ε))] = ([] : List α) := rfl

/-- What the callers know after a run. -/
def known (next : τ → α → τ) (start : τ) (t : List (σ × ((ι × α) ⊕ ε))) : ι → τ :=
  fun i => (part i t).foldl next start

variable {start : τ}

theorem known_own : known next start (t ++ [(s, .inl (i, a))]) =
    Function.update (known next start t) i (next (known next start t i) a) := by
  funext j
  rcases eq_or_ne j i with rfl | h
  · rw [Function.update_self, known, part_append, part_self, List.foldl_append]
    rfl
  · rw [Function.update_of_ne h, known, part_append, part_of_ne h.symm, List.append_nil, known]

theorem known_env : known next start (t ++ [(s, .inr e)]) = known next start t := by
  funext i
  rw [known, part_append, part_env, List.append_nil, known]

section Compose

variable {step : σ → (ι × α) ⊕ ε → σ → Prop} {I : σ → (ι → τ) → Prop}
  (hown : ∀ s i a s' H, I s H → ok (H i) a → step s (.inl (i, a)) s' →
    I s' (Function.update H i (next (H i) a)))
  (henv : ∀ s e s' H, I s H → step s (.inr e) s' → I s' H)
include hown henv

theorem Run.composes (h : Run step s t s') (h0 : I s fun _ => start)
    (hok : ∀ i, Admitted ok next start (part i t)) : I s' (known next start t) := by
  induction h with
  | nil => exact h0
  | @snoc s₁ s₂ t l _ last ih =>
    have hbefore : I s₁ (known next start t) := ih fun i =>
      (admitted_append.mp (part_append (i := i) ▸ hok i)).1
    cases l with
    | inl x =>
      have hallowed := (admitted_append.mp (part_append (i := x.1) ▸ hok x.1)).2
      rw [part_self] at hallowed
      rw [known_own]
      exact hown _ x.1 x.2 _ _ hbefore hallowed.1 last
    | inr e =>
      rw [known_env]
      exact henv _ e _ _ hbefore last

theorem Run.composes_before (h : Run step s t s') (h0 : I s fun _ => start)
    (hok : ∀ i, Admitted ok next start (part i t)) :
    ∀ x ∈ t, ∃ H, I x.1 H ∧ ∀ i a, x.2 = .inl (i, a) → ok (H i) a := by
  induction h with
  | nil => exact fun x hx => by cases hx
  | @snoc s₁ s₂ t l run last ih =>
    have hbefore (i : ι) : Admitted ok next start (part i t) :=
      (admitted_append.mp (part_append (i := i) ▸ hok i)).1
    intro x hx
    rcases List.mem_append.mp hx with hx | hx
    · exact ih hbefore x hx
    · rw [List.mem_singleton.mp hx]
      refine ⟨known next start t, run.composes hown henv h0 hbefore, fun i a hl => ?_⟩
      obtain rfl : l = .inl (i, a) := hl
      have hallowed := (admitted_append.mp (part_append (i := i) ▸ hok i)).2
      rw [part_self] at hallowed
      exact hallowed.1

end Compose

end Xixi.Lib
