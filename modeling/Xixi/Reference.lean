import Xixi.Structure

/-!
# Reference counts

`ref_count` has 16 bits. Along a run in which no operation ends in one of the
mismatch exits that keep their reference, and in which the callers never hold more
than 65533 references to one item, the counts are exact.

1. `Exact env x`: counts are the link plus the callers' references, and an item is
   in use as long as it is linked or somebody holds it.
2. `exact_of_run`: they are so in every state of such a run.
3. `not_exact_after_mismatch`: a mismatch exit of `update_flags` breaks them.
-/

namespace Xixi

open Xixi.Lists StepLemmas SystemLemmas StructureLemmas Lib

/-- The chunk has been obtained and has not been passed to `free_item` since. -/
def CacheMgr.InUse (s : CacheMgr) (p : Ptr) : Prop :=
  s.allocated p = true ∧ ∀ i, ¬ s.lists.Mem (.freeCache i) p

open Classical in
/-- The counts are exact. -/
structure Exact (x : Sys) : Prop where
  count : ∀ p, x.mgr.InUse p →
    (x.mgr.item p).refCount = (if x.mgr.cacheHashMap.Mem p then 1 else 0) + x.out p
  inUse : ∀ p, x.mgr.InUse p ↔ x.mgr.cacheHashMap.Mem p ∨ 0 < x.out p
  asserts : x.mgr.ok = true

/-- The operation does not end in a mismatch exit that keeps its reference, and there
is room in the counts. -/
def Balanced (env : Env) (x : Sys) (op : Op) : Prop :=
  leaked env x.mgr op = none ∧ ∀ p < x.mgr.nextPtr, x.out p ≤ 65533

instance (env : Env) (x : Sys) (op : Op) : Decidable (Balanced env x op) :=
  inferInstanceAs (Decidable (_ ∧ ∀ p < x.mgr.nextPtr, _))

variable {env : Env} {x : Sys}

namespace ReferenceLemmas

theorem inUse_iff {held : Ptr → Nat} {L : ListId → List Ptr} {s : CacheMgr} (h : Core env held L s)
    (p : Ptr) : s.InUse p ↔ 0 < (s.item p).refCount := by
  constructor
  · rintro ⟨ha, hf⟩
    by_contra hz
    obtain ⟨i, hi⟩ := h.kept (Nat.eq_zero_of_not_pos hz) ha
    exact hf i ((Lists.mem_iff h.rep _ p).mpr hi)
  · intro hp
    obtain ⟨ha, hf, -⟩ := h.used hp
    exact ⟨ha, fun i hi => hf i ((Lists.mem_iff h.rep _ p).mp hi)⟩

theorem exact_of_sysInv (hx : SysInv env (fun _ => 0) x) : Exact x := by
  obtain ⟨L, h⟩ := hx.inv
  have hcount : ∀ p, (x.mgr.item p).refCount = linkCount L p + x.out p := h.refCount
  refine ⟨fun p _ => ?_, fun p => ?_, h.ok⟩
  · rw [hcount p]
    by_cases hl : Linked L p
    · rw [linkCount_of_linked hl, if_pos ((mem_hashMap h p).mpr hl)]
    · rw [linkCount_of_not hl, if_neg fun hm => hl ((mem_hashMap h p).mp hm)]
  · rw [inUse_iff h p, hcount p, mem_hashMap h p]
    by_cases hl : Linked L p
    · simp [linkCount_of_linked hl, hl]
    · simp [linkCount_of_not hl, hl]

/-- Nobody holds what has never been obtained. -/
theorem room_uint16 (hw : env.refWidth = .uint16) (hx : SysInv env (fun _ => 0) x)
    (h : ∀ p < x.mgr.nextPtr, x.out p ≤ 65533) : Room env (total x.out fun _ => 0) := by
  obtain ⟨L, hL⟩ := hx.inv
  intro p n hn
  have hp : x.out p ≤ 65533 := by
    by_cases hlt : p < x.mgr.nextPtr
    · exact h p hlt
    · have hz : ¬ 0 < total x.out (fun _ => 0) p := fun hu => hlt (hL.lt_nextPtr (hL.pos_of_held hu))
      simp only [total] at hz
      omega
  simp only [total, Nat.add_zero] at hn
  rw [hw]
  show n % 2 ^ 16 = n
  omega

end ReferenceLemmas

open ReferenceLemmas

/-- The counts are exact in every state of a run whose steps are balanced. -/
theorem exact_of_run {lastTime limit itemSizeMax itemSizeMin : Nat} {factor : Rat}
    {t : List (Sys × (Op × Outcome))} (hw : env.refWidth = .uint16)
    (h : Run (fun x l y => Balanced env x l.1 ∧ Sys.Step env x l y)
      (Sys.start env lastTime limit itemSizeMax itemSizeMin factor) t x) : Exact x := by
  refine exact_of_sysInv (h.invariant (I := SysInv env fun _ => 0)
    (fun x l y hx hstep => ?_) sysInv_start)
  obtain ⟨⟨hleak, hout⟩, hperm, hexec⟩ := hstep
  obtain ⟨-, -, hy⟩ := hx.step (room_uint16 hw hx hout) hperm
  rw [hexec, hleak] at hy
  exact hy

/-- An item is linked, found, replaced under a wrong and under the right cache id, and
released by all its holders. -/
theorem exact_after_replace :
    Exact ((Sys.small .uint16).execAll (.colliding .uint16)
      [.alloc .zeros 1 1 0 0 2 0, .fill 0 ⟨[107], [55, 56], [], 0⟩, .update .set .zeros 0 0,
        .releaseReference 0, .get 1 [107] 0 false, .alloc .zeros 1 1 0 0 1 0,
        .fill 1 ⟨[107], [57], [], 7⟩, .update .replace .zeros 1 0, .releaseReference 1,
        .alloc .zeros 1 1 0 0 1 0, .fill 2 ⟨[107], [57], [], 1⟩, .update .replace .zeros 2 0,
        .releaseReference 0]) :=
  exact_of_run rfl
    ((Sys.run_execAll (by decide +kernel)).restrict (P := fun x l => Balanced _ x l.1)
      (by decide +kernel))

/-- `update_flags` finds the item under another cache id than it was asked for: the
reference it took stays, although nobody holds one. -/
theorem not_exact_after_mismatch : ∃ t x, Run (Sys.Step (.colliding .uint16)) (Sys.small .uint16) t x ∧
    ¬ Exact x := by
  have hok : (Sys.small .uint16).Allowed (.colliding .uint16) [.alloc .zeros 1 1 0 0 2 0,
      .fill 0 ⟨[107], [55, 56], [], 0⟩, .update .set .zeros 0 0, .releaseReference 0,
      .updateFlags 1 [107] 5 9] := by
    decide +kernel
  refine ⟨_, _, Sys.run_execAll hok, fun hex => ?_⟩
  generalize hx : Sys.execAll _ _ _ = x at hex
  have hmem : x.mgr.cacheHashMap.Mem 0 := by
    subst hx
    exact ⟨0, by decide +kernel, [], none,
      seg_cons.mpr ⟨by decide +kernel, seg_nil.mpr (by decide +kernel)⟩⟩
  have hcount := hex.count 0 ((hex.inUse 0).mpr (.inl hmem))
  have hout : x.out 0 = 0 := by
    subst hx
    decide +kernel
  have href : (x.mgr.item 0).refCount = 2 := by
    subst hx
    decide +kernel
  rw [href, if_pos hmem, hout] at hcount
  exact absurd hcount (by decide)

end Xixi
