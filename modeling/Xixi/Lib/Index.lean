import Mathlib.Logic.Function.Basic

/-!
# A store with an index

A store keeps values under keys that can be read off them, and an index finds the values by
another attribute.

1. `Indexed key id S I`: the index `I` finds exactly the values of the store `S`.
2. `Indexed.erase`, `Indexed.insert`, `Indexed.empty`: what keeps it so.
-/

namespace Xixi.Lib

variable {K V C : Type} [DecidableEq K] [DecidableEq C] {key : V → K} {id : V → C}
  {S : K → Option V} {I : C → Option V} {k : K} {u v : V}

/-- The index finds exactly the values of the store, and these are where they belong. -/
structure Indexed (key : V → K) (id : V → C) (S : K → Option V) (I : C → Option V) : Prop where
  placed : ∀ {k v}, S k = some v → key v = k
  exact : ∀ {c v}, I c = some v ↔ S (key v) = some v ∧ id v = c

namespace Indexed

omit [DecidableEq K] [DecidableEq C] in
theorem empty : Indexed key id (fun _ => none) (fun _ => none) :=
  ⟨nofun, ⟨nofun, fun h => nomatch h.1⟩⟩

omit [DecidableEq K] [DecidableEq C] in
theorem eq_of_id (h : Indexed key id S I) (hu : S (key u) = some u) (hv : S (key v) = some v)
    (hid : id u = id v) : u = v := by
  have h1 : I (id v) = some u := h.exact.mpr ⟨hu, hid⟩
  have h2 : I (id v) = some v := h.exact.mpr ⟨hv, rfl⟩
  exact Option.some.inj (h1.symm.trans h2)

/-- A value leaves the store and the index. -/
theorem erase (h : Indexed key id S I) (hk : S k = some v) :
    Indexed key id (Function.update S k none) (Function.update I (id v) none) := by
  have hkey := h.placed hk
  refine ⟨fun {k' u} hu => ?_, fun {c u} => ?_⟩
  · by_cases hkk : k' = k
    · rw [hkk, Function.update_self] at hu
      exact nomatch hu
    · rw [Function.update_of_ne hkk] at hu
      exact h.placed hu
  · by_cases hc : c = id v
    · rw [hc, Function.update_self]
      constructor
      · exact nofun
      · rintro ⟨hu, hid⟩
        by_cases hku : key u = k
        · rw [hku, Function.update_self] at hu
          exact nomatch hu
        · rw [Function.update_of_ne hku] at hu
          rw [h.eq_of_id hu (hkey.symm ▸ hk) hid] at hku
          exact absurd hkey hku
    · rw [Function.update_of_ne hc, h.exact]
      constructor
      · rintro ⟨hu, hid⟩
        have hku : key u ≠ k := by
          intro hku
          rw [hku, hk] at hu
          exact hc (hid.symm.trans (congrArg id (Option.some.inj hu).symm))
        rw [Function.update_of_ne hku]
        exact ⟨hu, hid⟩
      · rintro ⟨hu, hid⟩
        by_cases hku : key u = k
        · rw [hku, Function.update_self] at hu
          exact nomatch hu
        · rw [Function.update_of_ne hku] at hu
          exact ⟨hu, hid⟩

/-- A value enters the store under a free key, and its attribute is not in use. -/
theorem insert (h : Indexed key id S I) (hk : S (key v) = none)
    (hid : ∀ u, S (key u) = some u → id u ≠ id v) :
    Indexed key id (Function.update S (key v) (some v)) (Function.update I (id v) (some v)) := by
  refine ⟨fun {k' u} hu => ?_, fun {c u} => ?_⟩
  · by_cases hkk : k' = key v
    · rw [hkk, Function.update_self] at hu
      rw [← Option.some.inj hu, hkk]
    · rw [Function.update_of_ne hkk] at hu
      exact h.placed hu
  · by_cases hku : key u = key v
    · rw [hku, Function.update_self]
      constructor
      · intro hu
        by_cases hc : c = id v
        · rw [hc, Function.update_self] at hu
          exact ⟨hu, hc ▸ congrArg id (Option.some.inj hu).symm⟩
        · rw [Function.update_of_ne hc, h.exact, hku, hk] at hu
          exact nomatch hu.1
      · rintro ⟨hu, hc⟩
        obtain rfl := Option.some.inj hu
        rw [← hc, Function.update_self]
    · rw [Function.update_of_ne hku]
      by_cases hc : c = id v
      · rw [hc, Function.update_self]
        constructor
        · intro hu
          rw [Option.some.inj hu] at hku
          exact absurd rfl hku
        · rintro ⟨hu, hid'⟩
          exact absurd hid' (hid u hu)
      · rw [Function.update_of_ne hc]
        exact h.exact

end Indexed
end Xixi.Lib
