import Mathlib.Algebra.Order.Field.Rat
import Mathlib.Algebra.Order.Field.Basic
import Mathlib.Data.Rat.Cast.Order
import Xixi.Lib.Probe
import Xixi.Manager

/-!
# The size classes (`Cache_Mgr::get_class_id`, `Cache_Mgr::init`)

`get_class_id` starts its search at the class it found last, and `init` fills the table of the
classes with sizes that grow by a factor.

1. `CacheMgr.Table`: the sizes increase.
2. `probeClassId`: `get_class_id` as a computation that looks at one size after the other.
3. `classId_exact`: after any earlier calls, the search returns the least class that is large
   enough, and stays within the table.
4. `grown`: the sizes of the classes, computed without bounds.
5. `tables_iff`: `init` leaves a table exactly when the sizes exceed the largest class within
   198 rounds, and the last but one of them, rounded up, does not.
-/

namespace Xixi

open Lib CacheMgr

/-! ## Looking a class up -/

namespace CacheMgr

/-- The sizes increase from the first class to the last. -/
structure Table (s : CacheMgr) : Prop where
  classes : 1 ≤ s.classIdMax
  zero : s.maxSize 0 = 0
  increasing : ∀ i j, 1 ≤ i → i < j → j ≤ s.classIdMax → s.maxSize i < s.maxSize j

/-- The least class that holds the size, and 0 if there is none. -/
structure LeastClass (s : CacheMgr) (size c : Nat) : Prop where
  below : ∀ i, 1 ≤ i → (c = 0 ∧ i ≤ s.classIdMax ∨ i < c) → s.maxSize i < size
  within : c ≤ s.classIdMax
  holds : c ≠ 0 → size ≤ s.maxSize c

end CacheMgr

/-- The loop `for (--class_id; class_id >= CLASSID_MIN; --class_id)`. -/
def probeDown (size : Nat) : Nat → Probe Nat Nat Nat
  | 0 => pure 0
  | c + 1 => do if (← Probe.peek c) < size then pure (c + 1) else probeDown size c

/-- The loop `for (; class_id <= class_id_max_; ++class_id)`; `n` rounds are left. -/
def probeUp (size : Nat) : Nat → Nat → Probe Nat Nat (Option Nat)
  | 0, _ => pure none
  | n + 1, c => do if size ≤ (← Probe.peek c) then pure (some c) else probeUp size n (c + 1)

/-- `get_class_id`: the class, and `last_class_id_` afterwards. -/
def probeClassId (classIdMax lastClassId size : Nat) : Probe Nat Nat (Nat × Nat) := do
  if size < (← Probe.peek lastClassId) then
    if (← Probe.peek (lastClassId - 1)) < size then pure (lastClassId, lastClassId)
    else
      let c ← probeDown size (lastClassId - 1)
      pure (c, c)
  else
    let c ← probeUp size (classIdMax + 1 - lastClassId) lastClassId
    pure (c.elim (0, lastClassId) fun c => (c, c))

namespace SizeClassLemmas

variable {s : CacheMgr} {size c n : Nat}

theorem result_probeDown (maxSize : Nat → Nat) (size c : Nat) :
    (probeDown size c).result maxSize = classDown maxSize size c := by
  induction c with
  | zero => rfl
  | succ c ih =>
    rw [probeDown, Probe.result_bind, Probe.result_peek, Probe.result_ite, ih]
    rfl

theorem result_probeUp (maxSize : Nat → Nat) (size n c : Nat) :
    (probeUp size n c).result maxSize = classUp maxSize size n c := by
  induction n generalizing c with
  | zero => rfl
  | succ n ih =>
    rw [probeUp, Probe.result_bind, Probe.result_peek, Probe.result_ite, ih]
    rfl

theorem looks_probeDown (maxSize : Nat → Nat) (size c : Nat) :
    ∀ i ∈ (probeDown size c).looks maxSize, i < c := by
  induction c with
  | zero => exact fun i hi => nomatch hi
  | succ c ih =>
    intro i hi
    rw [probeDown, Probe.looks_bind, Probe.looks_peek, Probe.looks_ite] at hi
    rcases List.mem_append.mp hi with hi | hi
    · rw [List.mem_singleton.mp hi]
      exact Nat.lt_succ_self c
    · split at hi
      · exact nomatch hi
      · exact Nat.lt_succ_of_lt (ih i hi)

theorem looks_probeUp (maxSize : Nat → Nat) (size n c : Nat) :
    ∀ i ∈ (probeUp size n c).looks maxSize, i < c + n := by
  induction n generalizing c with
  | zero => exact fun i hi => nomatch hi
  | succ n ih =>
    intro i hi
    rw [probeUp, Probe.looks_bind, Probe.looks_peek, Probe.looks_ite] at hi
    rcases List.mem_append.mp hi with hi | hi
    · rw [List.mem_singleton.mp hi]
      omega
    · split at hi
      · exact nomatch hi
      · have h := ih (c + 1) i hi
        omega

/-- Going down ends at the least class, if the start is large enough. -/
theorem classDown_spec (h0 : s.maxSize 0 = 0) (hpos : 1 ≤ size) (hc : size ≤ s.maxSize c) :
    1 ≤ classDown s.maxSize size c ∧ classDown s.maxSize size c ≤ c ∧
      size ≤ s.maxSize (classDown s.maxSize size c) ∧
      s.maxSize (classDown s.maxSize size c - 1) < size := by
  induction c with
  | zero =>
    rw [h0] at hc
    omega
  | succ c ih =>
    rw [classDown]
    split
    · next hlt => exact ⟨by omega, Nat.le_refl _, hc, hlt⟩
    · next hge =>
      obtain ⟨h1, hle, hfits, hleast⟩ := ih (Nat.le_of_not_lt hge)
      exact ⟨h1, by omega, hfits, hleast⟩

/-- Going up ends at the first class that is large enough, or behind the last one. -/
theorem classUp_spec (maxSize : Nat → Nat) (size n c : Nat) :
    match classUp maxSize size n c with
    | some d => c ≤ d ∧ d < c + n ∧ size ≤ maxSize d ∧ ∀ i, c ≤ i → i < d → maxSize i < size
    | none => ∀ i, c ≤ i → i < c + n → maxSize i < size := by
  induction n generalizing c with
  | zero => exact fun i h1 h2 => absurd h2 (Nat.not_lt.mpr h1)
  | succ n ih =>
    have hnext := ih (c + 1)
    rw [classUp]
    by_cases hc : size ≤ maxSize c
    · rw [if_pos hc]
      exact ⟨Nat.le_refl c, by omega, hc, fun i h1 h2 => absurd h2 (Nat.not_lt.mpr h1)⟩
    · rw [if_neg hc]
      -- the class that was too small, and those behind it
      have hless {d : Nat} (h : ∀ i, c + 1 ≤ i → i < d → maxSize i < size) :
          ∀ i, c ≤ i → i < d → maxSize i < size := by
        intro i h1 h2
        rcases Nat.lt_or_eq_of_le h1 with hlt | rfl
        · exact h i hlt h2
        · exact Nat.lt_of_not_le hc
      cases hd : classUp maxSize size n (c + 1) with
      | none =>
        rw [hd] at hnext
        exact hless fun i h1 h2 => hnext i h1 (by omega)
      | some d =>
        rw [hd] at hnext
        obtain ⟨h1, h2, hfits, hleast⟩ := hnext
        exact ⟨by omega, by omega, hfits, hless hleast⟩

end SizeClassLemmas

open SizeClassLemmas

theorem getClassId_eq (s : CacheMgr) (size : Nat) : s.getClassId size =
    (((probeClassId s.classIdMax s.lastClassId size).result s.maxSize).1,
      { s with lastClassId :=
        ((probeClassId s.classIdMax s.lastClassId size).result s.maxSize).2 }) := by
  unfold getClassId probeClassId
  rw [Probe.result_bind, Probe.result_peek, Probe.result_ite, Probe.result_bind, Probe.result_peek,
    Probe.result_ite, Probe.result_bind, result_probeDown, Probe.result_bind, result_probeUp]
  dsimp only
  split
  · split
    · rfl
    · rfl
  · cases classUp s.maxSize size (s.classIdMax + 1 - s.lastClassId) s.lastClassId with
    | none => rfl
    | some c => rfl

namespace CacheMgr

/-- `last_class_id_` is a class of the table. -/
structure ClassReady (s : CacheMgr) : Prop where
  table : s.Table
  first : 1 ≤ s.lastClassId
  last : s.lastClassId ≤ s.classIdMax

end CacheMgr

namespace SizeClassLemmas

variable {s : CacheMgr} {size c : Nat}

theorem below_of_lt (h : s.Table) {d : Nat} (hd : d ≤ s.classIdMax) (hsize : s.maxSize d < size) :
    ∀ i, 1 ≤ i → i ≤ d → s.maxSize i < size := by
  intro i h1 hi
  rcases Nat.lt_or_eq_of_le hi with hlt | rfl
  · exact (h.increasing i d h1 hlt hd).trans hsize
  · exact hsize

/-- A class that holds the size, while the class before it does not. -/
theorem leastClass_of_pred (h : s.Table) (h1 : 1 ≤ c) (hc : c ≤ s.classIdMax)
    (hholds : size ≤ s.maxSize c) (hpred : s.maxSize (c - 1) < size) : s.LeastClass size c := by
  refine ⟨fun i hi hcase => ?_, hc, fun _ => hholds⟩
  rcases hcase with ⟨h0, -⟩ | hlt
  · omega
  · exact below_of_lt h (by omega) hpred i hi (by omega)

/-- One call, by the two directions of the search. -/
theorem getClassId_least (h : s.ClassReady) (hpos : 1 ≤ size) :
    s.LeastClass size (s.getClassId size).1 ∧ (s.getClassId size).2.ClassReady := by
  obtain ⟨htable, hfirst, hlast⟩ := h
  have hincreasing := htable.increasing
  have hready (d : Nat) (h1 : 1 ≤ d) (h2 : d ≤ s.classIdMax) :
      ({ s with lastClassId := d } : CacheMgr).ClassReady :=
    ⟨⟨htable.classes, htable.zero, htable.increasing⟩, h1, h2⟩
  unfold getClassId
  dsimp only
  split
  · next hlt =>
    split
    · next hpred =>
      exact ⟨leastClass_of_pred htable hfirst hlast hlt.le hpred, htable, hfirst, hlast⟩
    · next hpred =>
      obtain ⟨h1, hle, hholds, hleast⟩ := classDown_spec htable.zero hpos (Nat.le_of_not_lt hpred)
      have hmax : classDown s.maxSize size (s.lastClassId - 1) ≤ s.classIdMax := by omega
      exact ⟨leastClass_of_pred htable h1 hmax hholds hleast, hready _ h1 hmax⟩
  · next hge =>
    have hup := classUp_spec s.maxSize size (s.classIdMax + 1 - s.lastClassId) s.lastClassId
    -- the classes before the last answer are smaller than it
    have hless (i : Nat) (h1 : 1 ≤ i) (hi : i < s.lastClassId) : s.maxSize i < size :=
      (hincreasing i _ h1 hi hlast).trans_le (Nat.le_of_not_lt hge)
    cases hc : classUp s.maxSize size (s.classIdMax + 1 - s.lastClassId) s.lastClassId with
    | none =>
      rw [hc] at hup
      show s.LeastClass size 0 ∧ s.ClassReady
      refine ⟨⟨fun i h1 hcase => ?_, Nat.zero_le _, (absurd rfl ·)⟩, htable, hfirst, hlast⟩
      rcases Nat.lt_or_ge i s.lastClassId with hi | hi
      · exact hless i h1 hi
      · exact hup i hi (by omega)
    | some d =>
      rw [hc] at hup
      obtain ⟨h1, h2, hholds, hleast⟩ := hup
      show s.LeastClass size d ∧ ({ s with lastClassId := d } : CacheMgr).ClassReady
      refine ⟨⟨fun i hi hcase => ?_, by omega, fun _ => hholds⟩, hready d (by omega) (by omega)⟩
      rcases Nat.lt_or_ge i s.lastClassId with hlt | hge
      · exact hless i hi hlt
      · exact hleast i hge (by omega)

theorem looks_probeClassId (h : s.ClassReady) :
    ∀ i ∈ (probeClassId s.classIdMax s.lastClassId size).looks s.maxSize, i ≤ s.classIdMax := by
  have hfirst := h.first
  have hlast := h.last
  intro i hi
  unfold probeClassId at hi
  rw [Probe.looks_bind, Probe.looks_peek, Probe.looks_ite, Probe.looks_bind, Probe.looks_peek,
    Probe.looks_ite, Probe.looks_bind, Probe.looks_bind] at hi
  rcases List.mem_append.mp hi with hi | hi
  · rw [List.mem_singleton.mp hi]
    exact hlast
  · split at hi
    · rcases List.mem_append.mp hi with hi | hi
      · rw [List.mem_singleton.mp hi]
        omega
      · split at hi
        · exact nomatch hi
        · rw [Probe.looks_pure, List.append_nil] at hi
          have hlt := looks_probeDown s.maxSize size (s.lastClassId - 1) i hi
          omega
    · rw [Probe.looks_pure, List.append_nil] at hi
      have hlt := looks_probeUp s.maxSize size (s.classIdMax + 1 - s.lastClassId) s.lastClassId i hi
      omega

/-- Earlier calls. -/
def calls (s : CacheMgr) (sizes : List Nat) : CacheMgr :=
  sizes.foldl (fun s size => (s.getClassId size).2) s

theorem ready_calls {sizes : List Nat} (h : s.ClassReady) (hpos : ∀ size ∈ sizes, 1 ≤ size) :
    (calls s sizes).ClassReady := by
  induction sizes generalizing s with
  | nil => exact h
  | cons size sizes ih =>
    have hnext := (getClassId_least h (hpos size List.mem_cons_self)).2
    exact ih hnext fun z hz => hpos z (List.mem_cons_of_mem size hz)

end SizeClassLemmas

/-- After any earlier calls `get_class_id` returns the least class that is large enough, looks at
sizes of the table only, and leaves a class of the table in `last_class_id_`. -/
theorem classId_exact {s : CacheMgr} (htable : s.Table) (hlast : s.lastClassId = 1)
    {sizes : List Nat} (hsizes : ∀ size ∈ sizes, 1 ≤ size) {size : Nat} (hpos : 1 ≤ size) :
    let s' := sizes.foldl (fun s size => (s.getClassId size).2) s
    s'.LeastClass size (s'.getClassId size).1 ∧
      (∀ i ∈ (probeClassId s'.classIdMax s'.lastClassId size).looks s'.maxSize, i ≤ s'.classIdMax) ∧
      1 ≤ (s'.getClassId size).2.lastClassId ∧
      (s'.getClassId size).2.lastClassId ≤ (s'.getClassId size).2.classIdMax := by
  intro s'
  have hready : s'.ClassReady := by
    refine ready_calls ⟨htable, Nat.le_of_eq hlast.symm, ?_⟩ hsizes
    rw [hlast]
    exact htable.classes
  obtain ⟨hleast, hafter⟩ := getClassId_least hready hpos
  exact ⟨hleast, looks_probeClassId hready, hafter.first, hafter.last⟩

/-- Three classes, and a size that is exactly the second. -/
theorem classId_exact_small :
    let s := { CacheMgr.new 0 with maxSize := fun i => 100 * i, classIdMax := 3 }
    let s' := [250, 1, 1000].foldl (fun s size => (s.getClassId size).2) s
    s'.LeastClass 200 (s'.getClassId 200).1 ∧
      (∀ i ∈ (probeClassId s'.classIdMax s'.lastClassId 200).looks s'.maxSize, i ≤ s'.classIdMax) ∧
      1 ≤ (s'.getClassId 200).2.lastClassId ∧
      (s'.getClassId 200).2.lastClassId ≤ (s'.getClassId 200).2.classIdMax := by
  intro s
  have htable : s.Table := ⟨by decide, rfl, fun i j _ hij _ => Nat.mul_lt_mul_of_pos_left hij (by decide)⟩
  exact classId_exact htable rfl (by decide) (by decide)

/-! ## Filling the table -/

/-- The next multiple of `CHUNK_ALIGN_BYTES`, without a bound. -/
def roundUp (size : Nat) : Nat := (size + 7) / 8 * 8

/-- The sizes before they are rounded up, without a bound. -/
def grown (factor : Rat) (size : Nat) : Nat → Nat
  | 0 => size
  | k + 1 => (roundUp (grown factor size k) * factor).floor.toNat

/-- The sizes exceed the largest class, divided by the factor, after `m` rounds. Only the last of
them may be cut to 32 bits. -/
structure Reaches (factor : Rat) (largest size m : Nat) : Prop where
  rounds : m ≤ 198
  goes : ∀ k < m, (grown factor size k : Rat) ≤ largest / factor
  stops : (largest / factor : Rat) < (grown factor size m % 2 ^ 32 : Nat)
  last : ∀ k, m = k + 1 → roundUp (grown factor size k) < largest

namespace CacheMgr

/-- `init`, whatever the arrays held before: it is done within 199 rounds, it writes the classes
from 1 to 199 only, and it leaves sizes that increase up to the largest item. -/
structure Tables (env : Env) (limit itemSizeMax itemSizeMin : Nat) (factor : Rat) : Prop where
  ends : ∀ n s, 199 ≤ n → initLoop (env.sizeofItem + itemSizeMax : Nat) factor n 1
    ((env.sizeofItem + itemSizeMin) % 2 ^ 32) s = initLoop (env.sizeofItem + itemSizeMax : Nat)
      factor 199 1 ((env.sizeofItem + itemSizeMin) % 2 ^ 32) s
  inside : ∀ (s : CacheMgr) i, ¬ (1 ≤ i ∧ i < 200) →
    (s.init env limit itemSizeMax itemSizeMin factor).maxSize i = s.maxSize i ∧
      (s.init env limit itemSizeMax itemSizeMin factor).freeCacheMaxCount i = s.freeCacheMaxCount i
  increasing : ∀ (s : CacheMgr) i j, 1 ≤ i → i < j →
    j ≤ (s.init env limit itemSizeMax itemSizeMin factor).classIdMax →
    (s.init env limit itemSizeMax itemSizeMin factor).maxSize i <
      (s.init env limit itemSizeMax itemSizeMin factor).maxSize j
  largest : ∀ s : CacheMgr, (s.init env limit itemSizeMax itemSizeMin factor).maxSize
    (s.init env limit itemSizeMax itemSizeMin factor).classIdMax = env.sizeofItem + itemSizeMax

end CacheMgr

namespace SizeClassLemmas

section Loop

variable {limit factor : Rat}

/-- The size of the next class before it is rounded up. -/
def nextSize (factor : Rat) (size : Nat) : Nat := (alignSize size * factor).floor.toNat % 2 ^ 32

/-- What `m` rounds leave, starting with the class `c`. -/
structure Filled (limit factor : Rat) (c size m : Nat) (s s' : CacheMgr) : Prop where
  classIdMax : s'.classIdMax = c + m
  filled : ∀ k < m, s'.maxSize (c + k) = alignSize ((nextSize factor)^[k] size)
  rest : ∀ i, ¬ (c ≤ i ∧ i < c + m) → s'.maxSize i = s.maxSize i
  counts : ∀ i, ¬ (c ≤ i ∧ i < c + m) → s'.freeCacheMaxCount i = s.freeCacheMaxCount i
  goes : ∀ k < m, c + k < 200 ∧ ((nextSize factor)^[k] size : Rat) ≤ limit / factor

/-- The loop runs until the classes are used up or the size is too large. -/
theorem initLoop_filled (limit factor : Rat) (n : Nat) : ∀ (c size : Nat) (s : CacheMgr), s.classIdMax = c →
    200 ≤ c + n → ∃ m, Filled limit factor c size m s (initLoop limit factor n c size s) ∧
      ¬ (c + m < 200 ∧ ((nextSize factor)^[m] size : Rat) ≤ limit / factor) := by
  induction n with
  | zero =>
    intro c size s hc hn
    refine ⟨0, ⟨hc, (fun k hk => nomatch hk), fun _ _ => rfl, fun _ _ => rfl,
      (fun k hk => nomatch hk)⟩, ?_⟩
    exact fun h => absurd h.1 (by omega)
  | succ n ih =>
    intro c size s hc hn
    unfold initLoop
    split
    · next hgo =>
      let s₁ : CacheMgr := { s with
        classIdMax := c + 1
        maxSize := Function.update s.maxSize c (alignSize size)
        freeCacheMaxCount :=
          Function.update s.freeCacheMaxCount c (min (1024 * 1024 / alignSize size) 1000) }
      obtain ⟨m, ⟨hmax, hfilled, hrest, hcounts, hgoes⟩, hstop⟩ :=
        ih (c + 1) (nextSize factor size) s₁ rfl (by omega)
      refine ⟨m + 1, ⟨hmax.trans (by omega), fun k hk => ?_, fun i hi => ?_, fun i hi => ?_,
        fun k hk => ?_⟩, ?_⟩
      · cases k with
        | zero => exact (hrest c (by omega)).trans (Function.update_self ..)
        | succ k =>
          have h := hfilled k (by omega)
          rw [Nat.add_right_comm] at h
          exact h
      · exact (hrest i (by omega)).trans (Function.update_of_ne (by omega) ..)
      · exact (hcounts i (by omega)).trans (Function.update_of_ne (by omega) ..)
      · cases k with
        | zero => exact hgo
        | succ k =>
          have h := hgoes k (by omega)
          rw [Nat.add_right_comm] at h
          exact h
      · rw [Nat.add_right_comm] at hstop
        exact hstop
    · next hstop =>
      exact ⟨0, ⟨hc, (fun k hk => nomatch hk), fun _ _ => rfl, fun _ _ => rfl,
        (fun k hk => nomatch hk)⟩, hstop⟩

/-- The loop does not depend on how many rounds it is given, if they are enough. -/
theorem initLoop_fuel (n : Nat) : ∀ (n' c size : Nat) (s : CacheMgr), 200 ≤ c + n → n ≤ n' →
    initLoop limit factor n' c size s = initLoop limit factor n c size s := by
  induction n with
  | zero =>
    intro n' c size s hc _
    cases n' with
    | zero => rfl
    | succ n' => exact if_neg fun h => absurd h.1 (by omega)
  | succ n ih =>
    intro n' c size s hc hn
    obtain ⟨n', rfl⟩ : ∃ k, n' = k + 1 := ⟨n' - 1, by omega⟩
    rw [initLoop, initLoop]
    split
    · exact ih n' _ _ _ (by omega) (by omega)
    · rfl

end Loop
/-! ## The sizes -/

theorem le_roundUp (size : Nat) : size ≤ roundUp size := by
  unfold roundUp
  omega

theorem roundUp_roundUp (size : Nat) : roundUp (roundUp size) = roundUp size := by
  unfold roundUp
  omega

theorem roundUp_le {size size' : Nat} (h : size ≤ roundUp size') : roundUp size ≤ roundUp size' := by
  unfold roundUp at *
  omega

theorem alignSize_eq {size : Nat} (h : roundUp size < 2 ^ 32) : alignSize size = roundUp size := by
  unfold alignSize
  unfold roundUp at *
  split <;> omega

/-- Rounding up goes beyond 32 bits at the last multiple only. -/
theorem alignSize_zero {size : Nat} (h : size < 2 ^ 32) (hup : ¬ roundUp size < 2 ^ 32) :
    alignSize size = 0 := by
  unfold alignSize
  unfold roundUp at hup
  split <;> omega

section Scaled

variable {factor : Rat} {size k m : Nat}

/-- The size times the factor, cut to an integer. -/
theorem le_scaled_iff (hf : 1 < factor) {x n : Nat} :
    n ≤ (x * factor : Rat).floor.toNat ↔ (n : Rat) ≤ x * factor := by
  have hpos : (0 : Rat) ≤ x * factor :=
    mul_nonneg (Nat.cast_nonneg x) (le_of_lt (lt_trans zero_lt_one hf))
  have hfloor : 0 ≤ (x * factor : Rat).floor := Rat.le_floor_iff.mpr hpos
  rw [Int.le_toNat hfloor, Rat.le_floor_iff, Int.cast_natCast]

theorem le_scaled (hf : 1 < factor) (x : Nat) : x ≤ (x * factor : Rat).floor.toNat :=
  (le_scaled_iff hf).mpr (le_mul_of_one_le_right (Nat.cast_nonneg x) (le_of_lt hf))

/-- Rounded up and multiplied, a size is not smaller than the size before it. -/
theorem roundUp_le_grown (hf : 1 < factor) (size k : Nat) :
    roundUp (grown factor size k) ≤ grown factor size (k + 1) := le_scaled hf _

/-- A size that does not grow any more. -/
theorem grown_stalled (h : grown factor size (k + 1) = roundUp (grown factor size k)) (j : Nat) :
    grown factor size (k + 1 + j) = roundUp (grown factor size k) := by
  induction j with
  | zero => exact h
  | succ j ih =>
    have hnext : grown factor size (k + 1 + j + 1) =
        (roundUp (grown factor size (k + 1 + j)) * factor : Rat).floor.toNat := rfl
    have hsame : grown factor size (k + 1) =
        (roundUp (grown factor size k) * factor : Rat).floor.toNat := rfl
    rw [← Nat.add_assoc, hnext, ih, roundUp_roundUp, ← hsame, h]

end Scaled

/-! ## The conditions on the sizes -/

/-- The sizes that the loop computes exceed the largest class after `m` rounds, and the classes are
in order. -/
structure Ordered (factor : Rat) (largest size m : Nat) : Prop where
  rounds : m ≤ 198
  goes : ∀ k < m, ((nextSize factor)^[k] size : Rat) ≤ largest / factor
  stops : (largest / factor : Rat) < ((nextSize factor)^[m] size : Nat)
  steps : ∀ k, k + 1 < m →
    alignSize ((nextSize factor)^[k] size) < alignSize ((nextSize factor)^[k + 1] size)
  last : ∀ k, m = k + 1 → alignSize ((nextSize factor)^[k] size) < largest

section Conditions

variable {factor : Rat} {largest size m k : Nat}

/-- What goes on is not larger than the largest class. -/
theorem le_of_goes (hf : 1 < factor) {x : Nat} (h : (x : Rat) ≤ largest / factor) : x ≤ largest := by
  have hle : (largest / factor : Rat) ≤ largest := div_le_self (Nat.cast_nonneg _) (le_of_lt hf)
  exact Nat.cast_le.mp (le_trans h hle)

theorem fits_of_reaches (h : Reaches factor largest size m) (hf : 1 < factor) (hl : largest < 2 ^ 32)
    (hk : k < m) : roundUp (grown factor size k) < 2 ^ 32 := by
  rcases Nat.lt_or_eq_of_le (Nat.succ_le_of_lt hk) with hlt | heq
  · have hle := le_of_goes hf (h.goes (k + 1) hlt)
    have hgrow := roundUp_le_grown hf size k
    omega
  · have hlast := h.last k heq.symm
    omega

/-- As long as the loop goes on, nothing is lost. -/
theorem size_of_reaches (h : Reaches factor largest size m) (hf : 1 < factor)
    (hl : largest < 2 ^ 32) (hsize : size < 2 ^ 32) (hk : k ≤ m) :
    (nextSize factor)^[k] size = grown factor size k % 2 ^ 32 := by
  induction k with
  | zero => exact (Nat.mod_eq_of_lt hsize).symm
  | succ k ih =>
    have hle := le_of_goes hf (h.goes k hk)
    have hmod : grown factor size k % 2 ^ 32 = grown factor size k := Nat.mod_eq_of_lt (by omega)
    rw [Function.iterate_succ_apply', ih (Nat.le_of_succ_le hk), hmod, nextSize,
      alignSize_eq (fits_of_reaches h hf hl hk)]
    rfl

theorem ordered_of_reaches (h : Reaches factor largest size m) (hf : 1 < factor)
    (hl : largest < 2 ^ 32) (hsize : size < 2 ^ 32) : Ordered factor largest size m := by
  have hsame (j : Nat) (hj : j < m) : (nextSize factor)^[j] size = grown factor size j := by
    have hle := le_of_goes hf (h.goes j hj)
    rw [size_of_reaches h hf hl hsize hj.le, Nat.mod_eq_of_lt (by omega)]
  refine ⟨h.rounds, fun k hk => ?_, ?_, fun k hk => ?_, fun k hk => ?_⟩
  · rw [hsame k hk]
    exact h.goes k hk
  · rw [size_of_reaches h hf hl hsize (Nat.le_refl m)]
    exact h.stops
  · rw [hsame k (by omega), hsame (k + 1) hk, alignSize_eq (fits_of_reaches h hf hl (by omega)),
      alignSize_eq (fits_of_reaches h hf hl hk)]
    rcases Nat.lt_or_eq_of_le (roundUp_le_grown hf size k) with hlt | heq
    · exact hlt.trans_le (le_roundUp _)
    · -- a size that has stopped growing never exceeds the bound
      obtain ⟨j, rfl⟩ : ∃ j, m = k + 1 + j := ⟨m - (k + 1), by omega⟩
      have hstalled := grown_stalled heq.symm j
      have hbound := h.goes (k + 1) hk
      have hle := le_of_goes hf hbound
      rw [← heq] at hbound hle
      have hstops := h.stops
      rw [hstalled, Nat.mod_eq_of_lt (by omega)] at hstops
      exact absurd hstops (not_lt.mpr hbound)
  · rw [hsame k (by omega), alignSize_eq (fits_of_reaches h hf hl (by omega))]
    exact h.last k hk

theorem size_lt (factor : Rat) (hsize : size < 2 ^ 32) (k : Nat) :
    (nextSize factor)^[k] size < 2 ^ 32 := by
  cases k with
  | zero => exact hsize
  | succ k =>
    rw [Function.iterate_succ_apply']
    exact Nat.mod_lt _ (by decide)

/-- A size that is rounded up to 2^32 is stored as 0, and the classes are not in order. -/
theorem Ordered.fits (h : Ordered factor largest size m) (hf : 1 < factor) (hsize : size < 2 ^ 32)
    (hk : k < m) : roundUp ((nextSize factor)^[k] size) < 2 ^ 32 := by
  by_contra hup
  have hzero := alignSize_zero (size_lt factor hsize k) hup
  have hnext : (nextSize factor)^[k + 1] size = 0 := by
    rw [Function.iterate_succ_apply', nextSize, hzero, Nat.cast_zero, zero_mul]
    rfl
  rcases Nat.lt_or_eq_of_le (Nat.succ_le_of_lt hk) with hlt | heq
  · have hstep := h.steps k hlt
    rw [hzero, hnext] at hstep
    exact absurd hstep (by decide)
  · have hstops := h.stops
    rw [← heq, hnext, Nat.cast_zero] at hstops
    have hpos : (0 : Rat) ≤ largest / factor :=
      div_nonneg (Nat.cast_nonneg _) (le_of_lt (lt_trans zero_lt_one hf))
    exact absurd hstops (not_lt.mpr hpos)

/-- If the classes are in order, the loop has lost nothing before its last round. -/
theorem Ordered.size_eq (h : Ordered factor largest size m) (hf : 1 < factor)
    (hl : largest < 2 ^ 32) (hsize : size < 2 ^ 32) (hk : k < m) :
    (nextSize factor)^[k] size = grown factor size k := by
  induction k with
  | zero => rfl
  | succ k ih =>
    have hsame := ih (Nat.lt_of_succ_lt hk)
    have hfits := h.fits hf hsize (Nat.lt_of_succ_lt hk)
    have hnext : (nextSize factor)^[k + 1] size = grown factor size (k + 1) % 2 ^ 32 := by
      rw [Function.iterate_succ_apply', nextSize, alignSize_eq hfits, hsame]
      rfl
    rw [hnext]
    refine Nat.mod_eq_of_lt ?_
    by_contra hover
    -- beyond 2^32 the class before is larger than the bound, and the rest of the size is not
    have hbig : (2 ^ 32 : Nat) ≤ (roundUp (grown factor size k) * factor : Rat).floor.toNat :=
      Nat.le_of_not_lt hover
    have hle := (le_scaled_iff hf).mp hbig
    have hlt : (largest : Rat) < roundUp (grown factor size k) * factor :=
      lt_of_lt_of_le (Nat.cast_lt.mpr hl) hle
    have hgoes := lt_of_le_of_lt (h.goes (k + 1) hk)
      ((div_lt_iff₀ (lt_trans zero_lt_one hf)).mpr hlt)
    have hless := roundUp_le (Nat.cast_lt.mp hgoes).le
    rw [hsame] at hfits
    have hstep := h.steps k hk
    rw [hsame, alignSize_eq hfits, alignSize_eq (hless.trans_lt hfits)] at hstep
    exact absurd hstep (Nat.not_lt.mpr hless)

theorem Ordered.reaches (h : Ordered factor largest size m) (hf : 1 < factor)
    (hl : largest < 2 ^ 32) (hsize : size < 2 ^ 32) : Reaches factor largest size m := by
  have hfits (k : Nat) (hk : k < m) : roundUp (grown factor size k) < 2 ^ 32 := by
    have hup := h.fits hf hsize hk
    rwa [h.size_eq hf hl hsize hk] at hup
  refine ⟨h.rounds, fun k hk => ?_, ?_, fun k hk => ?_⟩
  · rw [← h.size_eq hf hl hsize hk]
    exact h.goes k hk
  · have hstops := h.stops
    cases m with
    | zero =>
      rw [grown, Nat.mod_eq_of_lt hsize]
      exact hstops
    | succ m =>
      rw [Function.iterate_succ_apply', h.size_eq hf hl hsize (Nat.lt_succ_self m), nextSize,
        alignSize_eq (hfits m (Nat.lt_succ_self m))] at hstops
      exact hstops
  · have hlast := h.last k hk
    rwa [h.size_eq hf hl hsize (by omega), alignSize_eq (hfits k (by omega))] at hlast

end Conditions

/-! ## The tables -/

section Init

variable {env : Env} {limit itemSizeMax itemSizeMin m : Nat} {factor : Rat}

/-- What `init` leaves after `m` rounds. -/
structure Laid (largest size : Nat) (factor : Rat) (m : Nat) (s s' : CacheMgr) : Prop where
  classIdMax : s'.classIdMax = 1 + m
  sizes : ∀ k < m, s'.maxSize (1 + k) = alignSize ((nextSize factor)^[k] size)
  top : s'.maxSize (1 + m) = largest
  rest : ∀ i, ¬ (1 ≤ i ∧ i ≤ 1 + m) → s'.maxSize i = s.maxSize i
  counts : ∀ i, ¬ (1 ≤ i ∧ i < 1 + m) → s'.freeCacheMaxCount i = s.freeCacheMaxCount i
  rounds : m ≤ 199
  goes : ∀ k < m, ((nextSize factor)^[k] size : Rat) ≤ largest / factor
  stops : m ≤ 198 → (largest / factor : Rat) < ((nextSize factor)^[m] size : Nat)

theorem init_laid (limit : Nat) (factor : Rat) (s : CacheMgr) (hmin : itemSizeMin ≤ itemSizeMax)
    (hmax : env.sizeofItem + itemSizeMax < 2 ^ 32) :
    ∃ m, Laid (env.sizeofItem + itemSizeMax) (env.sizeofItem + itemSizeMin) factor m s
      (s.init env limit itemSizeMax itemSizeMin factor) := by
  have hsize : (env.sizeofItem + itemSizeMin) % 2 ^ 32 = env.sizeofItem + itemSizeMin :=
    Nat.mod_eq_of_lt (by omega)
  obtain ⟨m, h, hstop⟩ := initLoop_filled (env.sizeofItem + itemSizeMax : Nat) factor 200 1
    (env.sizeofItem + itemSizeMin) { s with memLimit := limit, classIdMax := 1 } rfl (by decide)
  have hclass := h.classIdMax
  unfold CacheMgr.init
  simp only [hsize]
  generalize initLoop (env.sizeofItem + itemSizeMax : Nat) factor 200 1
    (env.sizeofItem + itemSizeMin) { s with memLimit := limit, classIdMax := 1 } = s' at h hclass
  refine ⟨m, hclass, fun k hk => ?_, ?_, fun i hi => ?_, fun i hi => h.counts i hi, ?_,
    fun k hk => (h.goes k hk).2, fun hm => ?_⟩
  · rw [← h.filled k hk]
    exact Function.update_of_ne (by omega) ..
  · simp only [hclass, Function.update_self, Nat.mod_eq_of_lt hmax]
  · rw [← h.rest i (by omega)]
    exact Function.update_of_ne (by omega) ..
  · cases m with
    | zero => exact Nat.zero_le _
    | succ m =>
      have hlt := (h.goes m (Nat.lt_succ_self m)).1
      omega
  · exact lt_of_not_ge fun hle => hstop ⟨by omega, hle⟩

/-- The number of rounds does not depend on what the arrays held. -/
theorem Ordered.laid {largest size m' : Nat} {s s' : CacheMgr} (h : Ordered factor largest size m)
    (h' : Laid largest size factor m' s s') : m' = m := by
  have hrounds := h.rounds
  rcases Nat.lt_trichotomy m' m with hlt | heq | hgt
  · exact absurd (h.goes m' hlt) (not_le.mpr (h'.stops (by omega)))
  · exact heq
  · exact absurd h.stops (not_lt.mpr (h'.goes m hgt))

theorem Ordered.increasing {largest size : Nat} (h : Ordered factor largest size m) {i j : Nat}
    (hij : i < j) (hj : j < m) :
    alignSize ((nextSize factor)^[i] size) < alignSize ((nextSize factor)^[j] size) := by
  induction j with
  | zero => omega
  | succ j ih =>
    have hstep := h.steps j hj
    rcases Nat.lt_or_eq_of_le (Nat.le_of_lt_succ hij) with hlt | rfl
    · exact (ih hlt (by omega)).trans hstep
    · exact hstep

theorem tables_of_ordered (hmin : itemSizeMin ≤ itemSizeMax)
    (hmax : env.sizeofItem + itemSizeMax < 2 ^ 32)
    (h : Ordered factor (env.sizeofItem + itemSizeMax) (env.sizeofItem + itemSizeMin) m) :
    Tables env limit itemSizeMax itemSizeMin factor := by
  have hrounds := h.rounds
  have hlaid (s : CacheMgr) :
      Laid (env.sizeofItem + itemSizeMax) (env.sizeofItem + itemSizeMin) factor m s
        (s.init env limit itemSizeMax itemSizeMin factor) := by
    obtain ⟨m', h'⟩ := init_laid limit factor s hmin hmax
    rwa [h.laid h'] at h'
  refine ⟨fun n s hn => initLoop_fuel 199 n _ _ _ (by decide) hn, fun s i hi => ?_,
    fun s i j hi hij hj => ?_, fun s => ?_⟩
  · exact ⟨(hlaid s).rest i (by omega), (hlaid s).counts i (by omega)⟩
  · rw [(hlaid s).classIdMax] at hj
    obtain ⟨i, rfl⟩ : ∃ k, i = 1 + k := ⟨i - 1, by omega⟩
    obtain ⟨j, rfl⟩ : ∃ k, j = 1 + k := ⟨j - 1, by omega⟩
    rw [(hlaid s).sizes i (by omega)]
    rcases Nat.lt_or_eq_of_le (Nat.le_of_add_le_add_left hj) with hlt | rfl
    · rw [(hlaid s).sizes j hlt]
      exact h.increasing (by omega) hlt
    · -- the last class is larger than the one before it, and so than all others
      obtain ⟨k, rfl⟩ : ∃ k, j = k + 1 := ⟨j - 1, by omega⟩
      rw [(hlaid s).top]
      rcases Nat.lt_or_eq_of_le (show i ≤ k by omega) with hlt | rfl
      · exact (h.increasing hlt (Nat.lt_succ_self k)).trans (h.last k rfl)
      · exact h.last i rfl
  · rw [(hlaid s).classIdMax, (hlaid s).top]

theorem ordered_of_tables (hmin : itemSizeMin ≤ itemSizeMax)
    (hmax : env.sizeofItem + itemSizeMax < 2 ^ 32)
    (h : Tables env limit itemSizeMax itemSizeMin factor) :
    ∃ m, Ordered factor (env.sizeofItem + itemSizeMax) (env.sizeofItem + itemSizeMin) m := by
  -- the entry behind the last class held something that `init` does not write
  let s : CacheMgr := { CacheMgr.new 0 with maxSize := fun _ => env.sizeofItem + itemSizeMax + 1 }
  obtain ⟨m, hlaid⟩ := init_laid limit factor s hmin hmax
  have hrounds : m ≤ 198 := by
    by_contra hm
    have hm199 : m = 199 := by
      have hle := hlaid.rounds
      omega
    subst hm199
    have hkept := (h.inside s 200 (by omega)).1
    rw [hlaid.top] at hkept
    exact absurd hkept (Nat.ne_of_lt (Nat.lt_succ_self _))
  refine ⟨m, hrounds, hlaid.goes, hlaid.stops hrounds, fun k hk => ?_, fun k hk => ?_⟩
  · have hinc := h.increasing s (1 + k) (1 + (k + 1)) (by omega) (by omega)
      (by rw [hlaid.classIdMax]; omega)
    rwa [hlaid.sizes k (by omega), hlaid.sizes (k + 1) hk] at hinc
  · subst hk
    have hinc := h.increasing s (1 + k) (1 + (k + 1)) (by omega) (by omega)
      (by rw [hlaid.classIdMax])
    rwa [hlaid.sizes k (Nat.lt_succ_self k), hlaid.top] at hinc

end Init
end SizeClassLemmas

/-- `init` leaves a table of increasing sizes, and writes nothing else, exactly when the sizes
exceed the bound of the loop within 198 rounds and the last of them before, rounded up, is smaller
than the largest item. -/
theorem tables_iff {env : Env} {limit itemSizeMax itemSizeMin : Nat} {factor : Rat}
    (hfactor : 1 < factor) (hmin : itemSizeMin ≤ itemSizeMax)
    (hmax : env.sizeofItem + itemSizeMax < 2 ^ 32) :
    Tables env limit itemSizeMax itemSizeMin factor ↔
      ∃ m, Reaches factor (env.sizeofItem + itemSizeMax) (env.sizeofItem + itemSizeMin) m := by
  have hsize : env.sizeofItem + itemSizeMin < 2 ^ 32 := by omega
  constructor
  · intro h
    obtain ⟨m, hm⟩ := ordered_of_tables hmin hmax h
    exact ⟨m, hm.reaches hfactor hmax hsize⟩
  · rintro ⟨m, hm⟩
    exact tables_of_ordered hmin hmax (ordered_of_reaches hm hfactor hmax hsize)

/-- Three classes with a factor of 2. -/
theorem tables_small : Tables ⟨fun _ _ => 0, 96, .unbounded⟩ 100000 1000 48 2 :=
  (tables_iff (by decide) (by decide) (by decide)).mpr
    ⟨2, by decide, by decide +kernel, by decide +kernel, fun k hk => by
      obtain rfl : k = 1 := by omega
      decide +kernel⟩

/-- With the sizes of the default configuration and a factor of 1.01 all classes are used up, and
the largest one is written behind the end of the array. -/
theorem not_tables_slow : ¬ Tables ⟨fun _ _ => 0, 96, .unbounded⟩ (64 * 1024 * 1024)
    (5 * 1024 * 1024) 48 (101 / 100) := by
  intro h
  have hkept := (h.inside (CacheMgr.new 0) 200 (by decide)).1
  exact absurd hkept (by decide +kernel)

end Xixi
