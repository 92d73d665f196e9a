import Mathlib.Algebra.BigOperators.Group.List.Basic
import Mathlib.Data.List.AList

/-!
# Sums over finite maps

`AList` is a finite map. The sum of a weight over its values is taken in any commutative group, so
that it also serves for machine integers.

1. `total f m`: the sum of the weights of the values.
2. `total_insert`, `add_total_erase`: what an insertion and a removal do to it.
3. `total_foldl_insert`: the values of one map move to another one.
4. `map_total`: a homomorphism goes through.
-/

namespace Xixi.Lib

variable {κ ν : Type} [DecidableEq κ] {M : Type} [AddCommMonoid M]

abbrev Table (κ ν : Type) := AList fun _ : κ => ν

namespace Table

/-- The sum of the weights of the values. -/
def total (f : ν → M) (m : Table κ ν) : M := (m.entries.map fun e => f e.2).sum

variable (f : ν → M) {m : Table κ ν} {k k' : κ} {v v' : ν}

omit [DecidableEq κ] in
@[simp] theorem total_empty : total f (∅ : Table κ ν) = 0 := rfl

theorem total_insert (m : Table κ ν) (k : κ) (v : ν) :
    total f (m.insert k v) = f v + total f (m.erase k) := by
  rw [total, AList.entries_insert, List.map_cons, List.sum_cons]
  rfl

theorem erase_of_lookup_none (h : m.lookup k = none) : m.erase k = m :=
  AList.ext (List.kerase_of_notMem_keys (AList.lookup_eq_none.mp h))

/-- The value that is removed was part of the sum. -/
theorem add_total_erase (h : m.lookup k = some v) : f v + total f (m.erase k) = total f m := by
  have hmem : k ∈ m.entries.keys := AList.lookup_isSome.mp (by rw [h]; rfl)
  obtain ⟨b, l₁, l₂, hnot, hsplit, herase⟩ := List.exists_of_kerase hmem
  have hb : b = v := by
    have hlook : m.lookup k = some b := by
      rw [AList.lookup, hsplit, List.dlookup_append, List.dlookup_eq_none.mpr hnot,
        List.dlookup_cons_eq]
      rfl
    exact Option.some.inj (hlook.symm.trans h)
  have hentries : (m.erase k).entries = l₁ ++ l₂ := herase
  rw [total, total, hentries, hsplit, hb, List.map_append, List.map_append, List.sum_append,
    List.sum_append, List.map_cons, List.sum_cons, add_left_comm]

theorem total_insert_of_none (h : m.lookup k = none) (v : ν) :
    total f (m.insert k v) = f v + total f m := by
  rw [total_insert, erase_of_lookup_none h]

/-- A value takes the place of another one. -/
theorem add_total_insert (h : m.lookup k = some v) (v' : ν) :
    f v + total f (m.insert k v') = f v' + total f m := by
  rw [total_insert, add_left_comm, add_total_erase f h]

theorem lookup_insert_eq (m : Table κ ν) (k k' : κ) (v : ν) :
    (m.insert k v).lookup k' = if k' = k then some v else m.lookup k' := by
  split
  · next h => rw [h, AList.lookup_insert]
  · next h => rw [AList.lookup_insert_ne h]

theorem lookup_erase_eq (m : Table κ ν) (k k' : κ) :
    (m.erase k).lookup k' = if k' = k then none else m.lookup k' := by
  split
  · next h => rw [h, AList.lookup_erase]
  · next h => rw [AList.lookup_erase_ne h]

theorem lookup_insert_update (m : Table κ ν) (k : κ) (v : ν) :
    (fun k' => (m.insert k v).lookup k') = Function.update (fun k' => m.lookup k') k (some v) := by
  funext k'
  rw [lookup_insert_eq, Function.update_apply]

theorem lookup_erase_update (m : Table κ ν) (k : κ) :
    (fun k' => (m.erase k).lookup k') = Function.update (fun k' => m.lookup k') k none := by
  funext k'
  rw [lookup_erase_eq, Function.update_apply]

theorem insert_erase_self (m : Table κ ν) (k : κ) (v : ν) : (m.erase k).insert k v = m.insert k v := by
  refine AList.ext ?_
  have hentries : (m.erase k).entries.kerase k = (m.erase k).entries :=
    List.kerase_of_notMem_keys (AList.lookup_eq_none.mp (AList.lookup_erase k m))
  rw [AList.entries_insert, AList.entries_insert, hentries]
  rfl

theorem mem_entries_iff {e : Sigma fun _ : κ => ν} :
    e ∈ m.entries ↔ m.lookup e.1 = some e.2 := (AList.mem_lookup_iff).symm

/-! ## Moving the values of one map to another one -/

/-- The values of `l` are stored under their own keys. -/
def insertAll (key : ν → κ) (l : List ν) (m : Table κ ν) : Table κ ν :=
  l.foldl (fun m v => m.insert (key v) v) m

theorem total_insertAll {key : ν → κ} {l : List ν} (hl : (l.map key).Nodup)
    (h : ∀ v ∈ l, m.lookup (key v) = none) :
    total f (insertAll key l m) = (l.map f).sum + total f m := by
  induction l generalizing m with
  | nil => exact (zero_add _).symm
  | cons v l ih =>
    obtain ⟨hv, hl⟩ := List.nodup_cons.mp hl
    have hrest : ∀ u ∈ l, (m.insert (key v) v).lookup (key u) = none := by
      intro u hu
      have hne : key u ≠ key v := fun he => hv (he ▸ List.mem_map_of_mem hu)
      rw [AList.lookup_insert_ne hne]
      exact h u (List.mem_cons_of_mem _ hu)
    have hfirst := h v List.mem_cons_self
    calc total f (insertAll key (v :: l) m)
        = (l.map f).sum + total f (m.insert (key v) v) := ih hl hrest
      _ = (l.map f).sum + (f v + total f m) := by rw [total_insert_of_none f hfirst]
      _ = ((v :: l).map f).sum + total f m := by
        rw [List.map_cons, List.sum_cons, add_left_comm, add_assoc]

theorem lookup_insertAll {key : ν → κ} {l : List ν} (hl : (l.map key).Nodup) :
    (insertAll key l m).lookup k = some v ↔
      (v ∈ l ∧ key v = k) ∨ (m.lookup k = some v ∧ ∀ u ∈ l, key u ≠ k) := by
  induction l generalizing m with
  | nil => simp [insertAll]
  | cons u l ih =>
    obtain ⟨hu, hl⟩ := List.nodup_cons.mp hl
    have hstep : insertAll key (u :: l) m = insertAll key l (m.insert (key u) u) := rfl
    have hnot : ∀ u' ∈ l, key u' ≠ key u := fun u' hu' he => hu (he ▸ List.mem_map_of_mem hu')
    rw [hstep, ih hl, lookup_insert_eq]
    by_cases hk : k = key u
    · subst hk
      rw [if_pos rfl]
      constructor
      · rintro (⟨hv, hkey⟩ | ⟨hv, -⟩)
        · exact absurd hkey (hnot v hv)
        · exact .inl ⟨Option.some.inj hv ▸ List.mem_cons_self, by rw [Option.some.inj hv]⟩
      · rintro (⟨hv, hkey⟩ | ⟨-, hall⟩)
        · rcases List.mem_cons.mp hv with rfl | hv
          · exact .inr ⟨rfl, hnot⟩
          · exact absurd hkey (hnot v hv)
        · exact absurd rfl (hall u List.mem_cons_self)
    · rw [if_neg hk]
      constructor
      · rintro (⟨hv, hkey⟩ | ⟨hv, hall⟩)
        · exact .inl ⟨List.mem_cons_of_mem _ hv, hkey⟩
        · exact .inr ⟨hv, List.forall_mem_cons.mpr ⟨Ne.symm hk, hall⟩⟩
      · rintro (⟨hv, hkey⟩ | ⟨hv, hall⟩)
        · rcases List.mem_cons.mp hv with rfl | hv
          · exact absurd hkey.symm hk
          · exact .inl ⟨hv, hkey⟩
        · exact .inr ⟨hv, (List.forall_mem_cons.mp hall).2⟩

/-! ## Homomorphisms -/

omit [DecidableEq κ] in
theorem map_total {N : Type} [AddCommMonoid N] (φ : M →+ N) (m : Table κ ν) :
    φ (total f m) = total (fun v => φ (f v)) m := by
  rw [total, total, map_list_sum, List.map_map]
  rfl

end Table
end Xixi.Lib
