import Mathlib.Control.Basic

/-!
# Computations that are seen through a view

A computation on a state may be realized by one on a state with more in it.

1. `Realizes view ok m n`: what `m` returns and leaves is, through `view`, what `n` does. From a
   state that is `ok` it returns whenever `n` does.
2. `Realizes.pure`, `Realizes.bind`, `Realizes.failure`: a program is realized if its primitives
   are.
-/

namespace Xixi.Lib

variable {σ τ α β : Type} {view : σ → τ} {ok : σ → Prop}

structure Realizes (view : σ → τ) (ok : σ → Prop) (m : StateT σ Option α) (n : StateT τ Option α) :
    Prop where
  result : ∀ {s s' a}, m s = some (a, s') → n (view s) = some (a, view s')
  kept : ∀ {s s' a}, ok s → m s = some (a, s') → ok s'
  returns : ∀ {s}, ok s → m s = none → n (view s) = none

namespace Realizes

theorem bind_eq (m : StateT σ Option α) (f : α → StateT σ Option β) (s : σ) :
    (m >>= f) s = (m s).bind fun x => f x.1 x.2 := by
  show (m s >>= fun x => f x.1 x.2) = _
  rw [Option.bind_eq_bind]

theorem pure (a : α) : Realizes view ok (Pure.pure a) (Pure.pure a) where
  result h := by
    cases h
    rfl
  kept hs h := by
    cases h
    exact hs
  returns _ h := by cases h

theorem failure : Realizes view ok (α := α) Alternative.failure Alternative.failure where
  result h := by cases h
  kept _ h := by cases h
  returns _ _ := rfl

theorem bind {m : StateT σ Option α} {n : StateT τ Option α} {f : α → StateT σ Option β}
    {g : α → StateT τ Option β} (hm : Realizes view ok m n)
    (hf : ∀ a, Realizes view ok (f a) (g a)) : Realizes view ok (m >>= f) (n >>= g) where
  result {s s' b} h := by
    rw [bind_eq] at h ⊢
    obtain ⟨⟨a, s₁⟩, hfirst, hrest⟩ := Option.bind_eq_some_iff.mp h
    rw [hm.result hfirst]
    exact (hf a).result hrest
  kept {s s' b} hs h := by
    rw [bind_eq] at h
    obtain ⟨⟨a, s₁⟩, hfirst, hrest⟩ := Option.bind_eq_some_iff.mp h
    exact (hf a).kept (hm.kept hs hfirst) hrest
  returns {s} hs h := by
    rw [bind_eq] at h ⊢
    cases hfirst : m s with
    | none =>
      rw [hm.returns hs hfirst]
      rfl
    | some x =>
      rw [hfirst] at h
      rw [hm.result hfirst]
      exact (hf x.1).returns (hm.kept hs hfirst) h

/-- A case that both computations distinguish. -/
theorem ite {p : Prop} [Decidable p] {m m' : StateT σ Option α} {n n' : StateT τ Option α}
    (hm : Realizes view ok m n) (hm' : Realizes view ok m' n') :
    Realizes view ok (if p then m else m') (if p then n else n') := by
  split
  · exact hm
  · exact hm'

end Realizes
end Xixi.Lib
