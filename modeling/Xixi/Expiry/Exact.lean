import Xixi.Structure
import Xixi.Expiry.Completeness

/-!
# One sweep is exact

`expire_items` does not look at every list, and it moves the items it keeps while it walks. That it
finds everything that is due rests on a relation between the lists and their check times, which it
restores.

1. `SweepReady s c`: no list is looked at later than the first of its items expires, and a list
   is looked at within its period.
2. `expireItemsWithin_eq`: the walks end before the fuel does.
3. `expireItems_kept`: what stays linked keeps its key and content.
4. `sweep_exact`: the sweep unlinks what is due and nothing else, and is ready for the next one.
-/

namespace Xixi

open Xixi.Lists StepLemmas RefinementLemmas SweepLemmas ExpiryLemmas StructureLemmas CacheMgr Lib

/-- The lists fit their check times, at the time `c`. -/
structure SweepReady (s : CacheMgr) (c : Nat) : Prop where
  timed : ∀ i ≤ 32, ∀ p, s.lists.Mem (.expire i) p →
    0 < (s.item p).expireTime ∧ s.expireCheckTime i ≤ (s.item p).expireTime
  untimed : ∀ p, s.lists.Mem (.expire 33) p → (s.item p).expireTime = 0
  soon : ∀ i ≤ 31, s.expireCheckTime i ≤ c + 2 ^ i

namespace CacheMgr

/-- `expire_list` with a given bound on the steps of the walk. -/
def expireListWithin (env : Env) (currTime fuel : Nat) (s : CacheMgr) (i : Nat) : CacheMgr :=
  if s.expireCheckTime i ≤ currTime then
    let s := { s with
      expireCheckTime :=
        Function.update s.expireCheckTime i (realtime currTime (expirationTime i)) }
    expireLoop env currTime i fuel (s.lists.front (.expire i)) s
  else s

def expireItemsWithin (env : Env) (s : CacheMgr) (currTime fuel : Nat) : CacheMgr :=
  (List.range 33).foldl (expireListWithin env currTime fuel) s

end CacheMgr

/-- What a sweep at the time `c` has to do. -/
structure ExactSweep (env : Env) (s : CacheMgr) (c : Nat) (s' : CacheMgr) : Prop where
  unlinked : ∀ p, s'.cacheHashMap.Mem p ↔ s.cacheHashMap.Mem p ∧
    ¬ (0 < (s.item p).expireTime ∧ (s.item p).expireTime ≤ c)
  structured : Structured env s'
  kept : ∀ p, s'.cacheHashMap.Mem p → (s'.item p).ident = (s.item p).ident ∧
    (s'.item p).entry p = (s.item p).entry p
  ready : SweepReady s' c

variable {env : Env} {held : Ptr → Nat} {L : ListId → List Ptr} {s s' : CacheMgr} {now i : Nat}
  {p : Ptr}

namespace ExpiryLemmas

/-! ## Termination -/

/-- A walk that has not run out of fuel does the same with more. -/
theorem expireLoop_more {n m : Nat} {it : Option Ptr} (hnm : n ≤ m)
    (h : (expireLoop env now i n it s).ok = true) :
    expireLoop env now i m it s = expireLoop env now i n it s := by
  induction n generalizing m it s with
  | zero =>
    cases it with
    | none => cases m <;> rfl
    | some p =>
      have hfalse : (s.ok && false) = true := h
      rw [Bool.and_false] at hfalse
      exact nomatch hfalse
  | succ n ih =>
    obtain ⟨m, rfl⟩ : ∃ k, m = k + 1 := ⟨m - 1, by omega⟩
    have hnm' : n ≤ m := Nat.le_of_succ_le_succ hnm
    cases it with
    | none => rfl
    | some p =>
      simp only [expireLoop] at h ⊢
      split at h
      · next hdue =>
        rw [if_pos hdue, if_pos hdue]
        exact ih hnm' h
      · next hdue =>
        rw [if_neg hdue, if_neg hdue]
        split at h
        · exact ih hnm' h
        · exact ih hnm' h

/-- A list that the sweep comes to holds items that were linked before. -/
theorem length_le_of_swept {n : Nat} {L₁ : ListId → List Ptr} {s₁ : CacheMgr}
    (h : Core env held L s) (h₁ : Swept env held now n L s L₁ s₁) :
    (L₁ (.expire n)).length ≤ s.nextPtr := by
  have hsub : (L₁ (.expire n)).toFinset ⊆ Finset.range s.nextPtr := by
    intro q hq
    have hl := ((h₁.mem_list q).mp (List.mem_toFinset.mp hq)).1
    exact Finset.mem_range.mpr (h.lt_nextPtr (h.pos_of_linked hl))
  have hcard := Finset.card_le_card hsub
  rwa [List.toFinset_card_of_nodup (h₁.core.rep.nodup _), Finset.card_range] at hcard

theorem foldl_within (h : Core env held L s) {fuel : Nat} (hfuel : s.nextPtr ≤ fuel) (n : Nat)
    (hn : n ≤ 34) : (List.range n).foldl (expireListWithin env now fuel) s =
      (List.range n).foldl (expireList env now) s := by
  induction n with
  | zero => rfl
  | succ n ih =>
    obtain ⟨L₁, h₁⟩ := expireItems_items now h n (by omega)
    rw [List.range_succ, List.foldl_append, List.foldl_append, ih (by omega)]
    generalize (List.range n).foldl (expireList env now) s = s₁ at h₁
    simp only [List.foldl_cons, List.foldl_nil, expireListWithin, expireList]
    split
    · -- both bounds are at least the length of the list
      have hlen := length_le_of_swept h h₁
      have hok (m : Nat) (hm : (L₁ (.expire n)).length ≤ m) (t : Nat → Nat) :
          (expireLoop env now n m (L₁ (.expire n)).head? { s₁ with expireCheckTime := t }).ok =
            true := by
        obtain ⟨L₂, h₂, -⟩ := expireLoop_items now (by omega)
          (L₁ (.expire n)) m [] L₁ { s₁ with expireCheckTime := t } h₁.core rfl hm
        exact h₂.ok
      rw [front_eq h₁.core]
      rw [expireLoop_more (hlen.trans hfuel) (hok _ (Nat.le_refl _) _),
        expireLoop_more (length_le_nextPtr h₁.core n) (hok _ (Nat.le_refl _) _)]
    · rfl

end ExpiryLemmas

/-- The walks end before the fuel does. -/
theorem expireItemsWithin_eq (h : Inv env held s) (c : Nat) {fuel : Nat}
    (hfuel : s.nextPtr ≤ fuel) : s.expireItemsWithin env c fuel = s.expireItems env c := by
  obtain ⟨L, h⟩ := h
  exact foldl_within h hfuel 33 (by decide)

/-! ## What stays -/

/-- What stays linked keeps its key and content. -/
theorem expireItems_kept (h : Core env held L s) (c : Nat)
    (hp : (s.expireItems env c).cacheHashMap.Mem p) :
    ((s.expireItems env c).item p).ident = (s.item p).ident ∧
      ((s.expireItems env c).item p).entry p = (s.item p).entry p := by
  obtain ⟨ks, L', hex⟩ := expireItems_spec (List.range 33)
    (fun i hi => (List.mem_range.mp hi).trans (by decide)) L s h
  unfold expireItems at hp ⊢
  have hafter := abs_entry_of_linked hex.core ((mem_hashMap hex.core p).mp hp)
  rw [hex.abs, Store.entry_unlinkAll] at hafter
  split at hafter
  · exact nomatch hafter
  · -- the entry was there before, and it says which item it is
    obtain ⟨q, -, hident, hentry⟩ := (abs_entry_iff h).mp hafter
    obtain rfl : p = q := congrArg Entry.ptr hentry
    exact ⟨hident.symm, hentry⟩

namespace ExpiryLemmas

variable {c₀ c : Nat} {L' : ListId → List Ptr}

/-- The list of an item that is due is due. -/
theorem due_of_ready (h : Core env held L s) (hr : SweepReady s c₀) (hl : Linked L p)
    (hdue : 0 < (s.item p).expireTime ∧ (s.item p).expireTime ≤ c) : s.Due c 33 p := by
  have hm := (mem_expire h _ p).mpr (h.mem_of_linked hl)
  have hlt : (s.item p).expirationId < 34 := h.inRange (h.mem_of_linked hl)
  have hne : (s.item p).expirationId ≠ 33 := by
    intro he
    rw [he] at hm
    have h0 := hr.untimed p hm
    omega
  have hle : (s.item p).expirationId ≤ 32 := by omega
  exact ⟨Nat.lt_succ_of_le hle, (hr.timed _ hle p hm).2.trans hdue.2⟩

/-- An item stays linked unless it is due. -/
theorem linked_iff_of_swept (h : Core env held L s) (hr : SweepReady s c₀)
    (hs : Swept env held c 33 L s L' s') (p : Ptr) : Linked L' p ↔
      Linked L p ∧ ¬ (0 < (s.item p).expireTime ∧ (s.item p).expireTime ≤ c) := by
  by_cases hd : Linked L p ∧ s.Due c 33 p
  · obtain ⟨hl, hd⟩ := hd
    have hm := (mem_expire h _ p).mpr (h.mem_of_linked hl)
    have hpos := (hr.timed _ (Nat.le_of_lt_succ hd.1) p hm).1
    rw [(hs.visited p hl hd).linked]
    constructor
    · exact fun hlt => ⟨hl, fun hx => Nat.not_lt.mpr hx.2 hlt⟩
    · exact fun hx => Nat.not_le.mp fun hle => hx.2 ⟨hpos, hle⟩
  · rw [(hs.untouched p hd).linked]
    constructor
    · exact fun hl => ⟨hl, fun hx => hd ⟨hl, due_of_ready h hr hl hx⟩⟩
    · exact And.left

/-- The check time of a list is at most one period ahead. -/
theorem checkTime_le_of_swept (hr : SweepReady s c₀) (hc : c₀ ≤ c)
    (hs : Swept env held c 33 L s L' s') (hi : i ≤ 31) : s'.expireCheckTime i ≤ c + 2 ^ i := by
  rw [hs.expireCheckTime]
  split
  · have hperiod : expirationTime i = 2 ^ i := if_pos (Nat.lt_succ_of_le hi)
    rw [hperiod]
    exact realtime_le c (2 ^ i)
  · exact (hr.soon i hi).trans (Nat.add_le_add_right hc _)

/-- The list in which an item was left is looked at in time. -/
theorem checkTime_of_visited (hr : SweepReady s c₀) (hc : c₀ ≤ c)
    (hs : Swept env held c 33 L s L' s') (hl : Linked L p) (hd : s.Due c 33 p) (hl' : Linked L' p) :
    s'.expireCheckTime (s'.item p).expirationId ≤ (s'.item p).expireTime := by
  obtain ⟨-, htime, hlist, hperiod⟩ := hs.visited p hl hd
  rw [htime hl']
  refine le_trans ?_ (hperiod hl')
  rw [hs.expireCheckTime]
  split
  · exact realtime_le _ _
  · next hnot =>
    -- only a list below the one that was walked can be one that is not due
    have hlt : (s'.item p).expirationId < (s.item p).expirationId := by
      refine lt_of_le_of_ne (hlist hl') fun he => hnot ?_
      rw [he]
      exact hd
    have hle : (s'.item p).expirationId ≤ 31 := by
      have h33 := hd.1
      omega
    rw [expirationTime, if_pos (Nat.lt_succ_of_le hle)]
    exact (hr.soon _ hle).trans (Nat.add_le_add_right hc _)

/-- The sweep leaves what the next one needs. -/
theorem ready_of_swept (h : Core env held L s) (hr : SweepReady s c₀) (hc : c₀ ≤ c)
    (hs : Swept env held c 33 L s L' s') : SweepReady s' c := by
  refine ⟨fun i hi p hp => ?_, fun p hp => ?_, fun i hi => checkTime_le_of_swept hr hc hs hi⟩
  · have hm := (mem_expire hs.core i p).mp hp
    have hl' : Linked L' p := ⟨i, hm⟩
    have hl := ((linked_iff_of_swept h hr hs p).mp hl').1
    have hid := hs.core.expirationId hm
    have hbefore := (mem_expire h _ p).mpr (h.mem_of_linked hl)
    by_cases hd : s.Due c 33 p
    · have hpos := (hr.timed _ (Nat.le_of_lt_succ hd.1) p hbefore).1
      have hcheck := checkTime_of_visited hr hc hs hl hd hl'
      rw [hid] at hcheck
      rw [(hs.visited p hl hd).expireTime hl'] at hcheck ⊢
      exact ⟨hpos, hcheck⟩
    · have hitem := (hs.untouched p fun hx => hd hx.2).item
      rw [hitem] at hid ⊢
      rw [hid] at hbefore
      have hnot : ¬ (i < 33 ∧ s.expireCheckTime i ≤ c) := by
        rw [← hid]
        exact hd
      rw [hs.expireCheckTime, if_neg hnot]
      exact hr.timed i hi p hbefore
  · have hm := (mem_expire hs.core 33 p).mp hp
    have hl := ((linked_iff_of_swept h hr hs p).mp ⟨33, hm⟩).1
    have hid := hs.core.expirationId hm
    have hbefore := (mem_expire h _ p).mpr (h.mem_of_linked hl)
    have hd : ¬ s.Due c 33 p := by
      intro hd
      have hle := (hs.visited p hl hd).list ⟨33, hm⟩
      rw [hid] at hle
      exact absurd hd.1 (Nat.not_lt.mpr hle)
    have hitem := (hs.untouched p fun hx => hd hx.2).item
    rw [hitem] at hid ⊢
    rw [hid] at hbefore
    exact hr.untimed p hbefore

end ExpiryLemmas

/-- From a state that is ready, the sweep ends, unlinks what is due and nothing else, keeps the
rest as it was, and is ready for the next sweep. -/
theorem sweep_exact {c₀ c : Nat} (h : Inv env held s) (hr : SweepReady s c₀) (hc : c₀ ≤ c) :
    (∀ fuel, s.nextPtr ≤ fuel → s.expireItemsWithin env c fuel = s.expireItems env c) ∧
      ExactSweep env s c (s.expireItems env c) := by
  refine ⟨fun fuel hfuel => expireItemsWithin_eq h c hfuel, ?_⟩
  obtain ⟨L, h⟩ := h
  obtain ⟨L', hs⟩ := expireItems_items c h 33 (by decide)
  refine ⟨fun p => ?_, structured_of_core hs.core, fun p hp => expireItems_kept h c hp,
    ready_of_swept h hr hc hs⟩
  rw [mem_hashMap h]
  exact (mem_hashMap hs.core p).trans (linked_iff_of_swept h hr hs p)

/-- An item is stored that has ten seconds to live. -/
def briefOps : List Op :=
  [.alloc .zeros 1 1 0 10 1 0, .fill 0 ⟨[107], [53], [], 0⟩, .update .set .zeros 0 0,
    .releaseReference 0]

/-- If there is only one item, its list is the only one that is not empty. -/
theorem mem_of_single (h : Inv env held s) (hone : s.nextPtr = 1) (hp : s.lists.Mem (.expire i) p) :
    p = 0 ∧ i = (s.item 0).expirationId := by
  obtain ⟨L, h⟩ := h
  have hm := (mem_expire h i p).mp hp
  have hlt := h.lt_nextPtr (h.pos_of_linked ⟨i, hm⟩)
  rw [hone] at hlt
  obtain rfl : p = 0 := Nat.lt_one_iff.mp hlt
  exact ⟨rfl, (h.expirationId hm).symm⟩

/-- The sweep at the time 20 comes twelve seconds later. -/
theorem sweep_exact_small :
    let env := Env.colliding .uint16
    let x := (Sys.small .uint16).execAll env briefOps
    SweepReady x.mgr 8 ∧ (x.mgr.item 0).expireTime = 18 ∧
      ExactSweep env x.mgr 20 (x.mgr.expireItems env 20) := by
  intro env x
  have hrun : Run (Sys.RoomStep env) (Sys.small .uint16) _ x :=
    Sys.roomRun_execAll (by decide +kernel) (by decide +kernel)
  have hstart : ∃ lost, SysInv env lost (Sys.small .uint16) := ⟨_, sysInv_start⟩
  obtain ⟨lost, hx⟩ := SysInv.roomRun hrun hstart
  have hone : x.mgr.nextPtr = 1 := by decide +kernel
  have hlist : (x.mgr.item 0).expirationId = 3 := by decide +kernel
  have htime : (x.mgr.item 0).expireTime = 18 := by decide +kernel
  have hcheck : ∀ i ≤ 31, x.mgr.expireCheckTime i = 0 := by decide +kernel
  have hready : SweepReady x.mgr 8 := by
    refine ⟨fun i _ p hp => ?_, fun p hp => ?_, fun i hi => ?_⟩
    · obtain ⟨hp, hid⟩ := mem_of_single hx.inv hone hp
      rw [hlist] at hid
      rw [hp, hid, htime, hcheck 3 (by decide)]
      decide
    · have hid := (mem_of_single hx.inv hone hp).2
      rw [hlist] at hid
      exact absurd hid (by decide)
    · rw [hcheck i hi]
      exact Nat.zero_le _
  exact ⟨hready, htime, (sweep_exact hx.inv hready (by decide)).2⟩

end Xixi
