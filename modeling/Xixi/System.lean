import Xixi.Lib.Run
import Xixi.Refinement.Operation

/-!
# Runs of the cache manager

The invariant of the manager together with its callers. `lost` counts the
references that mismatch exits have taken and not given back.

1. `SysInv env lost x`: the counts are link, callers and lost references, and the
   items in preparation can be linked at any time.
2. `SysInv.step`: a permitted operation keeps it and is an action of the store.
3. `sysInv_start`: it holds after `init`.
4. `SysInv.act`, `SysInv.roomRun`: along every run in which no `ref_count` overflows it
   holds, and every step is an action of the store.
-/

namespace Xixi

open Xixi.Lists StepLemmas RefinementLemmas OperationLemmas Lib

/-- All references to an item but its link. -/
def total (out lost : Ptr → Nat) : Ptr → Nat := fun p => out p + lost p

/-- An item its allocator has not passed on yet. -/
structure Prepared (env : Env) (x : Sys) (p : Ptr) : Prop where
  out : 0 < x.out p
  absent : (abs env x.mgr).Absent p
  keyLength : (x.mgr.item p).keyLength < 2 ^ 16
  hash : x.stage p = .filled →
    x.mgr.cacheHashMap.hashValue p = env.hash32 (x.mgr.item p).key (x.mgr.item p).groupId

structure SysInv (env : Env) (lost : Ptr → Nat) (x : Sys) : Prop where
  inv : Inv env (total x.out lost) x.mgr
  prepared : ∀ p, x.stage p ≠ .passed → Prepared env x p

variable {env : Env} {lost out : Ptr → Nat} {x y : Sys} {op : Op} {p q : Ptr} {r : Outcome}

namespace SystemLemmas

theorem total_bump_out (out lost : Ptr → Nat) (p : Ptr) :
    total (bump out p) lost = bump (total out lost) p := by
  funext q
  by_cases hq : q = p
  · subst hq
    simp only [total, bump, Function.update_self]
    omega
  · simp only [total, bump, Function.update_of_ne hq]

theorem total_bump_lost (out lost : Ptr → Nat) (p : Ptr) :
    total out (bump lost p) = bump (total out lost) p := by
  funext q
  by_cases hq : q = p
  · subst hq
    simp only [total, bump, Function.update_self]
    omega
  · simp only [total, bump, Function.update_of_ne hq]

theorem total_drop (lost : Ptr → Nat) (h : 0 < out p) :
    total (drop out p) lost = drop (total out lost) p := by
  funext q
  by_cases hq : q = p
  · subst hq
    simp only [total, drop, Function.update_self]
    omega
  · simp only [total, drop, Function.update_of_ne hq]

/-- The callers' references and the lost ones add up to what the manager counts. -/
theorem heldAfter_eq {s : CacheMgr} (hc : ∀ p, op.consumed = some p → 0 < out p) :
    heldAfter env (total out lost) s op r =
      total (bumpOpt (dropOpt out op.consumed) r.handed) (bumpOpt lost (leaked env s op)) := by
  have hlost : ∀ out : Ptr → Nat, bumpOpt (total out lost) (leaked env s op) =
      total out (bumpOpt lost (leaked env s op)) := by
    intro out
    cases leaked env s op with
    | none => rfl
    | some p => exact (total_bump_lost out lost p).symm
  have hhand : ∀ out : Ptr → Nat, bumpOpt (total out lost) r.handed =
      total (bumpOpt out r.handed) lost := by
    intro out
    cases r.handed with
    | none => rfl
    | some p => exact (total_bump_out out lost p).symm
  have hdrop : dropOpt (total out lost) op.consumed = total (dropOpt out op.consumed) lost := by
    cases hcon : op.consumed with
    | none => rfl
    | some p => exact (total_drop lost (hc p hcon)).symm
  rw [heldAfter, hdrop, hhand, hlost]

theorem le_bumpOpt (held : Ptr → Nat) (o : Option Ptr) (q : Ptr) : held q ≤ bumpOpt held o q := by
  cases o with
  | none => exact Nat.le_refl _
  | some p =>
    by_cases hq : q = p
    · subst hq
      show held q ≤ bump held q q
      rw [bump_self]
      omega
    · exact Nat.le_of_eq (bump_of_ne hq).symm

theorem stage_exec (env : Env) (x : Sys) (op : Op) :
    (x.exec env op).2.stage = Sys.nextStage x.stage op (x.mgr.exec env op).1 := rfl

theorem consumed_pos (hp : x.Permitted op) (hx : SysInv env lost x) (h : op.consumed = some p) :
    0 < x.out p := by
  cases op with
  | loadFromFileLink o q w =>
    obtain rfl := Option.some.inj h
    have hst : x.stage q = .filled := hp
    exact (hx.prepared q (by rw [hst]; exact nofun)).out
  | releaseReference q =>
    obtain rfl := Option.some.inj h
    exact hp
  | _ => exact nomatch h

theorem consumed_subject (h : op.consumed = some p) : op.subject = some p := by
  cases op with
  | loadFromFileLink o q w => exact h
  | releaseReference q => exact h
  | _ => exact nomatch h

theorem request_of_filled (hx : SysInv env lost x) (hst : x.stage p = .filled) :
    Request env (total x.out lost) x.mgr p := by
  have hp := hx.prepared p (by rw [hst]; exact nofun)
  exact ⟨Nat.lt_of_lt_of_le hp.out (Nat.le_add_right ..), hp.absent, hp.hash hst, hp.keyLength⟩

theorem ready_of_permitted (hx : SysInv env lost x) (hp : x.Permitted op) :
    Ready env (total x.out lost) x.mgr op := by
  cases op with
  | fill p c =>
    have hprep := hx.prepared p hp
    exact ⟨Nat.lt_of_lt_of_le hprep.out (Nat.le_add_right ..), hprep.absent⟩
  | update verb o p w => exact request_of_filled hx hp
  | loadFromFileLink o p w => exact request_of_filled hx hp
  | delta o g k incr d x => exact hp
  | releaseReference p =>
    exact Nat.lt_of_lt_of_le (show 0 < x.out p from hp) (Nat.le_add_right ..)
  | _ => exact trivial

theorem le_dropOpt {held : Ptr → Nat} {o : Option Ptr} (h : o ≠ some q) :
    held q ≤ dropOpt held o q := by
  cases o with
  | none => exact Nat.le_refl _
  | some p =>
    have hqp : q ≠ p := fun he => h (he ▸ rfl)
    exact Nat.le_of_eq (Function.update_of_ne hqp ..).symm

/-- Only the operation that gives a reference up lowers the count of references. -/
theorem le_heldAfter {held : Ptr → Nat} {s : CacheMgr} (h : op.consumed ≠ some q) :
    held q ≤ heldAfter env held s op r q :=
  (le_dropOpt h).trans ((le_bumpOpt _ _ q).trans (le_bumpOpt _ _ q))

/-- If the count of an item is unchanged, there is none left for a link. -/
theorem absent_of_refCount {held held' : Ptr → Nat} {s s' : CacheMgr} (hs : Inv env held s)
    (hs' : Inv env held' s') (hq : (abs env s).Absent q) (hle : held q ≤ held' q)
    (hcount : (s'.item q).refCount = (s.item q).refCount) : (abs env s').Absent q := by
  obtain ⟨L, hL⟩ := hs
  obtain ⟨L', hL'⟩ := hs'
  refine (absent_iff hL').mpr fun hl => ?_
  have h1 := hL.refCount q
  have h2 := hL'.refCount q
  rw [linkCount_of_not ((absent_iff hL).mp hq)] at h1
  rw [hcount, linkCount_of_linked hl] at h2
  omega

theorem consumed_of_subject (h : op.subject ≠ some q) : op.consumed ≠ some q :=
  fun hc => h (consumed_subject hc)

/-- An item in preparation that the operation does not work on. -/
theorem prepared_of_slot {a : Action} (hx : SysInv env lost x)
    (hsim : Simulated env (total x.out lost) x.mgr op a) (hq : x.stage q ≠ .passed)
    (hsub : op.subject ≠ some q) (hst : (x.exec env op).2.stage q = x.stage q) :
    Prepared env (x.exec env op).2 q := by
  have hprep := hx.prepared q hq
  have hpos : 0 < total x.out lost q := Nat.lt_of_lt_of_le hprep.out (Nat.le_add_right ..)
  have hslot := hsim.slot q hprep.absent hpos hsub
  have hitem : (x.mgr.exec env op).2.item q = x.mgr.item q := congrArg Prod.fst hslot
  have hhash : (x.mgr.exec env op).2.cacheHashMap.hashValue q = x.mgr.cacheHashMap.hashValue q :=
    congrArg Prod.snd hslot
  have hout : x.out q ≤ (x.exec env op).2.out q :=
    (le_dropOpt (consumed_of_subject hsub)).trans (le_bumpOpt _ _ q)
  refine ⟨Nat.lt_of_lt_of_le hprep.out hout, ?_, ?_, fun hf => ?_⟩
  · exact absent_of_refCount hx.inv hsim.inv hprep.absent (le_heldAfter (consumed_of_subject hsub))
      (congrArg CacheItem.refCount hitem)
  · show ((x.mgr.exec env op).2.item q).keyLength < 2 ^ 16
    rw [hitem]
    exact hprep.keyLength
  · show (x.mgr.exec env op).2.cacheHashMap.hashValue q =
      env.hash32 ((x.mgr.exec env op).2.item q).key ((x.mgr.exec env op).2.item q).groupId
    rw [hitem, hhash]
    exact hprep.hash (hst ▸ hf)

/-- An item that has just been allocated. -/
theorem prepared_alloc {o : Malloc} {g kl fl et ds es : Nat} (hx : SysInv env lost x)
    (hr : (x.exec env (.alloc o g kl fl et ds es)).1 = .alloc (some p)) :
    Prepared env (x.exec env (.alloc o g kl fl et ds es)).2 p := by
  obtain ⟨L, hL⟩ := hx.inv
  have hexec : x.mgr.exec env (.alloc o g kl fl et ds es) =
      (x.mgr.doAlloc env o g kl fl (CacheMgr.realtime x.mgr.currTime et) ds es).map .alloc id := rfl
  simp only [Sys.exec, hexec] at hr ⊢
  cases hd : x.mgr.doAlloc env o g kl fl (CacheMgr.realtime x.mgr.currTime et) ds es with
  | mk r s' =>
    rw [hd] at hr
    obtain rfl : r = some p := by simpa using hr
    have ha := hL.doAlloc_some hd
    have habs := ha.abs
    have hn : ¬ Linked L p := by
      intro hl
      have := hL.pos_of_linked hl
      have := ha.idle
      omega
    refine ⟨?_, ?_, ?_, fun hf => ?_⟩
    · show 0 < bump x.out p p
      rw [bump_self]
      omega
    · show (abs env s').Absent p
      rw [habs]
      exact (absent_iff hL).mpr hn
    · show (s'.item p).keyLength < 2 ^ 16
      rw [ha.fresh.keyLength]
      exact Nat.mod_lt _ (by decide)
    · have hst : Function.update x.stage p .allocated p = .filled := hf
      rw [Function.update_self] at hst
      exact nomatch hst

/-- An item that has just been filled. -/
theorem prepared_fill {c : Contents} (hx : SysInv env lost x) (hq : x.stage p ≠ .passed)
    (hsim : Simulated env (total x.out lost) x.mgr (.fill p c) (.silent .done)) :
    Prepared env (x.exec env (.fill p c)).2 p := by
  have hprep := hx.prepared p hq
  have habs : abs env x.mgr = abs env (x.mgr.fill env p c) := congrArg Prod.snd hsim.act
  have hself : (x.mgr.fill env p c).item p = (x.mgr.item p).fill c := by
    simp only [CacheMgr.fill, CacheMgr.item_modify_self]
  refine ⟨hprep.out, ?_, ?_, fun _ => ?_⟩
  · show (abs env (x.mgr.fill env p c)).Absent p
    rw [← habs]
    exact hprep.absent
  · show ((x.mgr.fill env p c).item p).keyLength < 2 ^ 16
    rw [hself]
    exact hprep.keyLength
  · show (x.mgr.fill env p c).cacheHashMap.hashValue p =
      env.hash32 ((x.mgr.fill env p c).item p).key ((x.mgr.fill env p c).item p).groupId
    rw [hself]
    simp only [CacheMgr.fill, CacheMgr.item_modify_self, Function.update_self]

end SystemLemmas

open SystemLemmas

/-- A permitted operation keeps the invariant and is an action of the store. -/
theorem SysInv.step (hx : SysInv env lost x) (hroom : Room env (total x.out lost))
    (hp : x.Permitted op) :
    ∃ a, Simulated env (total x.out lost) x.mgr op a ∧
      SysInv env (bumpOpt lost (leaked env x.mgr op)) (x.exec env op).2 := by
  obtain ⟨a, hsim⟩ := exec_refines hx.inv hroom (ready_of_permitted hx hp)
  refine ⟨a, hsim, ?_, fun q hq => ?_⟩
  · have hinv := hsim.inv
    have hheld : ∀ p, op.consumed = some p → 0 < x.out p := fun p hc => consumed_pos hp hx hc
    rw [heldAfter_eq hheld] at hinv
    exact hinv
  -- an item that is in preparation afterwards was so before, unless the step began it
  have hkeep : ∀ q, (x.exec env op).2.stage q = x.stage q → op.subject ≠ some q →
      (x.exec env op).2.stage q ≠ .passed → Prepared env (x.exec env op).2 q :=
    fun q hst hsub hq => prepared_of_slot hx hsim (hst ▸ hq) hsub hst
  have hpassed : ∀ p, (x.exec env op).2.stage = Function.update x.stage p .passed →
      op.subject = some p → Prepared env (x.exec env op).2 q := by
    intro p hst hsub
    have hqp : q ≠ p := by
      intro he
      rw [hst, he, Function.update_self] at hq
      exact hq rfl
    refine hkeep q ?_ ?_ hq
    · rw [hst, Function.update_of_ne hqp]
    · rw [hsub]
      exact fun he => hqp (Option.some.inj he).symm
  cases op with
  | alloc o g kl fl et ds es =>
    cases hr : (x.exec env (.alloc o g kl fl et ds es)).1 with
    | alloc r =>
      have hst : (x.exec env (.alloc o g kl fl et ds es)).2.stage =
          Sys.nextStage x.stage (.alloc o g kl fl et ds es) (.alloc r) := by
        rw [← hr]
        exact stage_exec env x _
      cases r with
      | none => exact hkeep q (by rw [hst]; rfl) nofun hq
      | some p =>
        by_cases hqp : q = p
        · subst hqp
          exact prepared_alloc hx hr
        · exact hkeep q (by rw [hst]; exact Function.update_of_ne hqp ..) nofun hq
    | _ => exact nomatch hr
  | fill p c =>
    by_cases hqp : q = p
    · subst hqp
      have hready := ready_of_permitted hx hp
      exact prepared_fill hx hp (fill_simulated hx.inv hready.1 hready.2 c)
    · exact hkeep q (Function.update_of_ne hqp ..) (fun he => hqp (Option.some.inj he).symm) hq
  | update verb o p w => exact hpassed p rfl rfl
  | loadFromFileLink o p w => exact hpassed p rfl rfl
  | releaseReference p => exact hpassed p rfl rfl
  | _ =>
    refine hkeep q ?_ nofun hq
    rw [stage_exec]
    rfl

/-! ## The start -/

namespace SystemLemmas

/-- `init` only fills in the class table. -/
theorem initLoop_eq (limit factor : Rat) (n : Nat) :
    ∀ (c size : Nat) (s : CacheMgr), ∃ m i f, CacheMgr.initLoop limit factor n c size s =
      { s with maxSize := m, classIdMax := i, freeCacheMaxCount := f } := by
  induction n with
  | zero => exact fun _ _ s => ⟨s.maxSize, s.classIdMax, s.freeCacheMaxCount, rfl⟩
  | succ n ih =>
    intro c size s
    unfold CacheMgr.initLoop
    split
    · obtain ⟨m, i, f, he⟩ := ih (c + 1)
        ((CacheMgr.alignSize size * factor).floor.toNat % 2 ^ 32)
        { s with
          classIdMax := c + 1
          maxSize := Function.update s.maxSize c (CacheMgr.alignSize size)
          freeCacheMaxCount := Function.update s.freeCacheMaxCount c
            (min (1024 * 1024 / CacheMgr.alignSize size) 1000) }
      exact ⟨m, i, f, he⟩
    · exact ⟨s.maxSize, s.classIdMax, s.freeCacheMaxCount, rfl⟩

theorem init_eq (env : Env) (s : CacheMgr) (limit itemSizeMax itemSizeMin : Nat) (factor : Rat) :
    ∃ m i f, s.init env limit itemSizeMax itemSizeMin factor =
      { s with maxSize := m, classIdMax := i, freeCacheMaxCount := f, memLimit := limit } := by
  obtain ⟨m, i, f, he⟩ := initLoop_eq (env.sizeofItem + itemSizeMax : Nat) factor 200 1
    ((env.sizeofItem + itemSizeMin) % 2 ^ 32) { s with memLimit := limit, classIdMax := 1 }
  refine ⟨Function.update m i ((env.sizeofItem + itemSizeMax) % 2 ^ 32), i, f, ?_⟩
  simp only [CacheMgr.init, he]

theorem core_new (env : Env) (lastTime : Nat) :
    Core env (fun _ => 0) (fun _ => []) (CacheMgr.new lastTime) where
  rep := rep_empty
  inRange := nofun
  noFlushed := rfl
  expirationId := nofun
  table := ⟨∅, fun p => by simp [Linked], HashMap.rep_new (by decide)⟩
  bucket := show 7 ∈ bucketSizes by decide
  hash := fun ⟨_, hp⟩ => nomatch hp
  inj := fun ⟨_, hp⟩ => nomatch hp
  refCount := fun p => by
    rw [linkCount_of_not fun ⟨_, hp⟩ => nomatch hp]
    rfl
  stored := fun p => by
    cases hw : env.refWidth <;> rfl
  used := fun h => nomatch h
  idle := fun _ => ⟨rfl, rfl⟩
  free := nofun
  kept := fun _ h => nomatch h
  bound := fun h => nomatch h
  ok := rfl

end SystemLemmas

variable {lastTime limit itemSizeMax itemSizeMin : Nat} {factor : Rat}

theorem sysInv_start :
    SysInv env (fun _ => 0) (Sys.start env lastTime limit itemSizeMax itemSizeMin factor) := by
  obtain ⟨m, i, f, he⟩ := init_eq env (CacheMgr.new lastTime) limit itemSizeMax itemSizeMin factor
  refine ⟨⟨fun _ => [], ?_⟩, fun p hp => absurd rfl hp⟩
  show Core env (fun _ => 0) _ ((CacheMgr.new lastTime).init env limit itemSizeMax itemSizeMin factor)
  rw [he]
  exact core_new env lastTime

/-- At the start nothing is stored and no watch exists. -/
theorem abs_start : abs env (Sys.start env lastTime limit itemSizeMax itemSizeMin factor).mgr =
    ⟨fun _ => none, fun _ => none, 0, 8⟩ := by
  obtain ⟨m, i, f, he⟩ := init_eq env (CacheMgr.new lastTime) limit itemSizeMax itemSizeMin factor
  refine Store.ext (funext fun k => ?_) ?_ ?_ ?_
  · rw [Option.eq_none_iff_forall_ne_some]
    intro e hent
    have hcore : Core env (fun _ => 0) (fun _ => [])
        (Sys.start env lastTime limit itemSizeMax itemSizeMin factor).mgr := by
      show Core env _ _ ((CacheMgr.new lastTime).init env limit itemSizeMax itemSizeMin factor)
      rw [he]
      exact core_new env lastTime
    obtain ⟨p, ⟨i, hp⟩, -⟩ := (abs_entry_iff hcore).mp hent
    exact nomatch hp
  all_goals
    simp only [Sys.start, he]
    rfl

/-! ## Runs -/

theorem room_unbounded (h : env.refWidth = .unbounded) (held : Ptr → Nat) : Room env held := by
  intro p n _
  rw [h]
  rfl

/-- No reference count is about to overflow. -/
def Sys.Roomy (env : Env) (x : Sys) : Prop :=
  env.refWidth = .unbounded ∨ ∀ p < x.mgr.nextPtr, (x.mgr.item p).refCount ≤ 65533

instance (env : Env) (x : Sys) : Decidable (x.Roomy env) :=
  inferInstanceAs (Decidable (_ ∨ _))

theorem room_of_roomy (hx : SysInv env lost x) (h : x.Roomy env) : Room env (total x.out lost) := by
  rcases h with hw | h
  · exact room_unbounded hw _
  obtain ⟨L, hL⟩ := hx.inv
  intro p n hn
  have hcount := hL.refCount p
  have hp : total x.out lost p ≤ 65533 := by
    by_cases hlt : p < x.mgr.nextPtr
    · have := h p hlt
      omega
    · have hz : ¬ 0 < (x.mgr.item p).refCount := fun hu => hlt (hL.lt_nextPtr hu)
      omega
  cases hw : env.refWidth with
  | unbounded => rfl
  | uint16 =>
    show n % 2 ^ 16 = n
    omega

/-- A step in which no reference count overflows. -/
def Sys.RoomStep (env : Env) (x : Sys) (l : Op × Outcome) (y : Sys) : Prop :=
  x.Roomy env ∧ x.Step env l y

/-- Such a step is an action of the store. -/
theorem SysInv.act {l : Op × Outcome} (hx : ∃ lost, SysInv env lost x) (h : x.RoomStep env l y) :
    (∃ lost, SysInv env lost y) ∧
      ∃ a, Acts env x.mgr l.1 a ∧ (abs env x.mgr).act a = (l.2, abs env y.mgr) := by
  obtain ⟨lost, hx⟩ := hx
  obtain ⟨hroom, hp, hexec⟩ := h
  obtain ⟨a, hsim, hy⟩ := hx.step (room_of_roomy hx hroom) hp
  have hact := hsim.act
  rw [hexec] at hy
  have hr : (x.mgr.exec env l.1).1 = l.2 := congrArg Prod.fst hexec
  have hm : (x.mgr.exec env l.1).2 = y.mgr := congrArg (fun z => z.2.mgr) hexec
  rw [hr, hm] at hact
  exact ⟨⟨_, hy⟩, a, hsim.acts, hact⟩

/-- What there is to work with in such a step. -/
theorem SysInv.core {l : Op × Outcome} (hx : ∃ lost, SysInv env lost x) (h : x.RoomStep env l y) :
    ∃ held L held' L', Core env held L x.mgr ∧ Core env held' L' y.mgr ∧ Room env held ∧
      Ready env held x.mgr l.1 ∧ x.mgr.exec env l.1 = (l.2, y.mgr) := by
  obtain ⟨⟨lost', hy⟩, -⟩ := SysInv.act hx h
  obtain ⟨lost, hx⟩ := hx
  obtain ⟨hroom, hp, hexec⟩ := h
  obtain ⟨L, hL⟩ := hx.inv
  obtain ⟨L', hL'⟩ := hy.inv
  have hr : (x.mgr.exec env l.1).1 = l.2 := congrArg Prod.fst hexec
  have hm : (x.mgr.exec env l.1).2 = y.mgr := congrArg (fun z => z.2.mgr) hexec
  exact ⟨_, L, _, L', hL, hL', room_of_roomy hx hroom, ready_of_permitted hx hp, Prod.ext hr hm⟩

/-- The invariant along every run in which no reference count overflows. -/
theorem SysInv.roomRun {t : List (Sys × (Op × Outcome))} (h : Run (Sys.RoomStep env) x t y)
    (hx : ∃ lost, SysInv env lost x) : ∃ lost, SysInv env lost y :=
  h.invariant (I := fun x => ∃ lost, SysInv env lost x) (fun _ _ _ hx hs => (SysInv.act hx hs).1) hx

/-- The invariant along every run, for counts that cannot overflow. -/
theorem SysInv.run {t : List (Sys × (Op × Outcome))} (hw : env.refWidth = .unbounded)
    (h : Run (Sys.Step env) x t y) (hx : ∃ lost, SysInv env lost x) : ∃ lost, SysInv env lost y :=
  SysInv.roomRun (h.mono fun _ _ _ hs => ⟨.inl hw, hs⟩) hx

/-! ## Concrete runs -/

namespace Sys

/-- The state after a list of operations. -/
def execAll (env : Env) : Sys → List Op → Sys
  | x, [] => x
  | x, op :: ops => execAll env (x.exec env op).2 ops

def trace (env : Env) : Sys → List Op → List (Sys × (Op × Outcome))
  | _, [] => []
  | x, op :: ops => (x, op, (x.exec env op).1) :: trace env (x.exec env op).2 ops

/-- Every operation is permitted when its turn comes. -/
def Allowed (env : Env) : Sys → List Op → Prop
  | _, [] => True
  | x, op :: ops => x.Permitted op ∧ Allowed env (x.exec env op).2 ops

instance decidableAllowed (env : Env) : (x : Sys) → (ops : List Op) → Decidable (x.Allowed env ops)
  | _, [] => .isTrue trivial
  | x, op :: ops =>
    have := decidableAllowed env (x.exec env op).2 ops
    inferInstanceAs (Decidable (_ ∧ _))

theorem run_execAll {x : Sys} {ops : List Op} (h : x.Allowed env ops) :
    Run (Step env) x (x.trace env ops) (x.execAll env ops) := by
  induction ops generalizing x with
  | nil => exact .nil x
  | cons op ops ih => exact (Run.single ⟨h.1, rfl⟩).trans (ih h.2)

theorem roomRun_execAll {x : Sys} {ops : List Op} (h : x.Allowed env ops)
    (hroom : ∀ z ∈ x.trace env ops, z.1.Roomy env) :
    Run (RoomStep env) x (x.trace env ops) (x.execAll env ops) :=
  (run_execAll h).restrict (P := fun (x : Sys) (_ : Op × Outcome) => x.Roomy env) hroom

theorem step_execAll {x : Sys} {op : Op} {r : Outcome} (hp : x.Permitted op)
    (hr : (x.exec env op).1 = r) : x.Step env (op, r) (x.execAll env [op]) :=
  ⟨hp, Prod.ext hr rfl⟩

end Sys

/-- An environment in which all keys collide. -/
def Env.colliding (w : RefWidth) : Env := ⟨fun _ _ => 0, 96, w⟩

/-- A manager with one size class. -/
def Sys.small (w : RefWidth) : Sys := Sys.start (.colliding w) 0 100000 1000 2000 2

/-- Memory filled with zeros. -/
def Malloc.zeros : Malloc := ⟨true, fun _ => 0, true⟩

end Xixi
