import Mathlib.Algebra.BigOperators.Group.Finset.Piecewise
import Mathlib.Algebra.Order.BigOperators.Group.Finset
import Mathlib.Algebra.Order.Floor.Div
import Mathlib.Algebra.Order.Group.Unbundled.Int
import Mathlib.Order.Interval.Finset.Nat

/-!
# Points on a ring

The numbers from `-M` to `M - 1` are the places of a ring: behind `M - 1` comes `-M`.

1. `ceilingOrFirst keys h`: the least key that is not below `h`, or the least of all keys.
2. `ceilingOrFirst_eq`: this is the key that comes next behind `h` on the ring.
3. `evenSlot`, `even_next`: which one that is if the points are spaced evenly.
4. `card_found`: how many places belong to the points with a given label.
-/

namespace Xixi.Lib

/-- The least key that is not below `h`, or the least of all keys. -/
def ceilingOrFirst (keys : List Int) (h : Int) : Option Int :=
  match (keys.filter (h ≤ ·)).min? with
  | some k => some k
  | none => keys.min?

section Ring

variable {M h k : Int}

theorem distance_of_le (hh : -M ≤ h) (hk : k < M) (hle : h ≤ k) : (k - h) % (2 * M) = k - h :=
  Int.emod_eq_of_lt (by omega) (by omega)

theorem distance_of_lt (hh : h < M) (hk : -M ≤ k) (hlt : k < h) :
    (k - h) % (2 * M) = k - h + 2 * M := by
  rw [← Int.add_emod_right]
  exact Int.emod_eq_of_lt (by omega) (by omega)

/-- The key at the least distance behind `h` is found. -/
theorem ceilingOrFirst_eq {keys : List Int} (hh : -M ≤ h ∧ h < M)
    (hkeys : ∀ k ∈ keys, -M ≤ k ∧ k < M) (hk : k ∈ keys)
    (hnext : ∀ k' ∈ keys, (k - h) % (2 * M) ≤ (k' - h) % (2 * M)) :
    ceilingOrFirst keys h = some k := by
  have hkM := hkeys k hk
  unfold ceilingOrFirst
  split
  · next k' hmin =>
    obtain ⟨hmem, hle⟩ := List.min?_eq_some_iff.mp hmin
    obtain ⟨hmem, hh'⟩ := List.mem_filter.mp hmem
    have hh' : h ≤ k' := of_decide_eq_true hh'
    have hdist := hnext k' hmem
    rw [distance_of_le hh.1 (hkeys k' hmem).2 hh'] at hdist
    -- a key below `h` is farther away than any key above it
    have hhk : h ≤ k := by
      by_contra hlt
      rw [distance_of_lt hh.2 hkM.1 (by omega)] at hdist
      have := (hkeys k' hmem).2
      omega
    rw [distance_of_le hh.1 hkM.2 hhk] at hdist
    have hle' := hle k (List.mem_filter.mpr ⟨hk, decide_eq_true hhk⟩)
    exact congrArg some (by omega)
  · next hnone =>
    have hbelow : ∀ k' ∈ keys, k' < h := by
      intro k' hk'
      have hfilter := List.filter_eq_nil_iff.mp (List.min?_eq_none_iff.mp hnone) k' hk'
      simpa using hfilter
    refine List.min?_eq_some_iff.mpr ⟨hk, fun k' hk' => ?_⟩
    have hdist := hnext k' hk'
    rw [distance_of_lt hh.2 hkM.1 (hbelow k hk),
      distance_of_lt hh.2 (hkeys k' hk').1 (hbelow k' hk')] at hdist
    omega

end Ring

/-! ## Evenly spaced points -/

/-- The first of the points `0`, `interval`, ... that is not below `u`, or the point `0`. -/
def evenSlot (interval n u : Nat) : Nat :=
  if u ⌈/⌉ interval < n then u ⌈/⌉ interval else 0

variable {N interval n u : Nat}

theorem evenSlot_lt (hn : 0 < n) : evenSlot interval n u < n := by
  unfold evenSlot
  split
  · next h => exact h
  · exact hn

/-- The point is the next one behind `u` on a ring of `N` places. -/
theorem even_next (hinterval : 0 < interval) (hn : n * interval ≤ N) (hu : u < N) {p : Nat}
    (hp : p < n) : ((evenSlot interval n u * interval : Nat) - u : Int) % N ≤
      ((p * interval : Nat) - u : Int) % N := by
  have hdist {q : Nat} (hq : q < n) : ((q * interval : Nat) - u : Int) % N =
      if u ≤ q * interval then ((q * interval : Nat) - u : Int)
      else ((q * interval : Nat) - u : Int) + N := by
    have hqN : q * interval < N := by
      have hmul : (q + 1) * interval ≤ n * interval := Nat.mul_le_mul_right _ hq
      rw [Nat.succ_mul] at hmul
      omega
    split
    · exact Int.emod_eq_of_lt (by omega) (by omega)
    · rw [← Int.add_emod_right]
      exact Int.emod_eq_of_lt (by omega) (by omega)
  have hceil (q : Nat) : u ⌈/⌉ interval ≤ q ↔ u ≤ q * interval := by
    rw [ceilDiv_le_iff_le_mul hinterval, Nat.mul_comm]
  unfold evenSlot
  split
  · next hslot =>
    have hself := (hceil _).mp (le_refl (u ⌈/⌉ interval))
    rw [hdist hslot, hdist hp, if_pos hself]
    split
    · next hle =>
      have hmul := Nat.mul_le_mul_right interval ((hceil p).mpr hle)
      omega
    · have hmul : (u ⌈/⌉ interval + 1) * interval ≤ n * interval := Nat.mul_le_mul_right _ hslot
      rw [Nat.succ_mul] at hmul
      omega
  · next hslot =>
    -- all points are below `u`
    have hbelow : ¬ u ≤ p * interval := fun hle => hslot (lt_of_le_of_lt ((hceil p).mpr hle) hp)
    rw [hdist (by omega), hdist hp, if_neg hbelow, Nat.zero_mul]
    split
    · next hzero => omega
    · omega

/-! ## Shares of the ring -/

/-- A point has the places from the one before it on; the first point has the rest besides. -/
theorem card_evenSlot (hinterval : 0 < interval) (hn : n * interval ≤ N) {p : Nat} (hp : p < n) :
    ((Finset.range N).filter fun u => evenSlot interval n u = p).card =
      interval + if p = 0 then N - n * interval else 0 := by
  have hceil (u q : Nat) : u ⌈/⌉ interval ≤ q ↔ u ≤ q * interval := by
    rw [ceilDiv_le_iff_le_mul hinterval, Nat.mul_comm]
  obtain ⟨m, rfl⟩ : ∃ m, n = m + 1 := ⟨n - 1, by omega⟩
  rw [Nat.succ_mul] at hn ⊢
  cases p with
  | zero =>
    have hplaces : ((Finset.range N).filter fun u => evenSlot interval (m + 1) u = 0) =
        insert 0 (Finset.Ioo (m * interval) N) := by
      ext u
      have hzero := hceil u 0
      have hlast := hceil u m
      rw [Nat.zero_mul] at hzero
      simp only [Finset.mem_filter, Finset.mem_range, Finset.mem_insert, Finset.mem_Ioo]
      unfold evenSlot
      split <;> omega
    rw [hplaces, Finset.card_insert_of_notMem (by simp), Nat.card_Ioo, if_pos rfl]
    omega
  | succ p =>
    have hplaces : ((Finset.range N).filter fun u => evenSlot interval (m + 1) u = p + 1) =
        Finset.Ioc (p * interval) ((p + 1) * interval) := by
      ext u
      have hlow := hceil u p
      have hhigh := hceil u (p + 1)
      have hmul : (p + 1) * interval ≤ m * interval :=
        Nat.mul_le_mul_right _ (Nat.le_of_lt_succ hp)
      simp only [Finset.mem_filter, Finset.mem_range, Finset.mem_Ioc]
      unfold evenSlot
      split <;> omega
    rw [hplaces, Nat.card_Ioc, if_neg (Nat.succ_ne_zero p), Nat.succ_mul]
    omega

variable {α : Type} [DecidableEq α]

theorem card_filter_getElem? (L : List α) (a : α) :
    ((Finset.range L.length).filter fun p => L[p]? = some a).card = L.count a := by
  induction L using List.reverseRecOn with
  | nil => rfl
  | append_singleton L b ih =>
    have hsame : ((Finset.range L.length).filter fun p => (L ++ [b])[p]? = some a) =
        (Finset.range L.length).filter fun p => L[p]? = some a := by
      refine Finset.filter_congr fun p hp => ?_
      rw [List.getElem?_append_left (Finset.mem_range.mp hp)]
    rw [List.length_append, List.length_singleton, Finset.range_add_one, Finset.filter_insert,
      hsame, List.getElem?_concat_length, List.count_append, List.count_singleton]
    split
    · next heq =>
      obtain rfl := Option.some.inj heq
      rw [Finset.card_insert_of_notMem (by simp), ih, if_pos (beq_self_eq_true b)]
    · next hne =>
      rw [ih, if_neg (by simpa using hne)]
      rfl

/-- A label that stands at several of the points has all their places. -/
theorem card_found (hinterval : 0 < interval) {L : List α} (hL : 0 < L.length)
    (hn : L.length * interval ≤ N) (a : α) :
    ((Finset.range N).filter fun u => L[evenSlot interval L.length u]? = some a).card =
      L.count a * interval + if L[0]? = some a then N - L.length * interval else 0 := by
  let points := (Finset.range L.length).filter fun p => L[p]? = some a
  have hslot (u : Nat) : evenSlot interval L.length u < L.length := evenSlot_lt hL
  have hfiber : ∀ p ∈ points, (((Finset.range N).filter fun u =>
      L[evenSlot interval L.length u]? = some a).filter fun u =>
        evenSlot interval L.length u = p).card =
      interval + if p = 0 then N - L.length * interval else 0 := by
    intro p hp
    obtain ⟨hlt, heq⟩ := Finset.mem_filter.mp hp
    rw [← card_evenSlot hinterval hn (Finset.mem_range.mp hlt), Finset.filter_filter]
    congr 1
    refine Finset.filter_congr fun u _ => ⟨And.right, fun h => ⟨?_, h⟩⟩
    rw [h]
    exact heq
  rw [Finset.card_eq_sum_card_fiberwise (f := evenSlot interval L.length) (t := points) ?_,
    Finset.sum_congr rfl hfiber, Finset.sum_add_distrib, Finset.sum_const, smul_eq_mul,
    card_filter_getElem?, Finset.sum_ite_eq']
  · simp only [points, Finset.mem_filter, Finset.mem_range, hL, true_and]
  · intro u hu
    exact Finset.mem_coe.mpr (Finset.mem_filter.mpr ⟨Finset.mem_range.mpr (hslot u),
      (Finset.mem_filter.mp (Finset.mem_coe.mp hu)).2⟩)

end Xixi.Lib
