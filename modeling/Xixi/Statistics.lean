import Mathlib.Algebra.Order.BigOperators.Group.Finset
import Xixi.Moves.Operation
import Xixi.Structure

/-!
# What the statistics say about the store

1. `Counted.Step`: the manager, and `stats_` beside it. `add_group` and `remove_group` come
   through `Cache_Mgr::stats`.
2. `linkStats_of_run`: `group_sum_` has the linked items and their bytes, until a counter wraps.
3. `groupStats_of_run`: the item of the only group in use equals `group_sum_`, as long as nothing
   is unlinked and no update comes to the check of a watch.
4. `groupStats_disagree`: otherwise it need not.
-/

namespace Xixi

open Xixi.Lists StepLemmas MoveLemmas Lib

/-- `cache_mgr_` and `stats_`. -/
structure Counted where
  sys : Sys
  stats : Stats

inductive CountedOp
  | cache (l : Op × Outcome)
  | addGroup (groupId : Nat)
  | removeGroup (groupId : Nat)

namespace Counted

/-- A step of the manager makes its calls to `stats_` on the way. -/
inductive Step (env : Env) (maxStatsGroup : Nat) : Counted → CountedOp → Counted → Prop
  | cache {x : Counted} {l : Op × Outcome} {y : Sys} (h : x.sys.Step env l y) :
      Step env maxStatsGroup x (.cache l)
        ⟨y, x.stats.recordAll (y.mgr.stats.drop x.sys.mgr.stats.length)⟩
  | addGroup (x : Counted) (g : Nat) :
      Step env maxStatsGroup x (.addGroup g) ⟨x.sys, (x.stats.addGroup maxStatsGroup g).2⟩
  | removeGroup (x : Counted) (g : Nat) :
      Step env maxStatsGroup x (.removeGroup g) ⟨x.sys, (x.stats.removeGroup g).2⟩

def start (env : Env) (lastTime limit itemSizeMax itemSizeMin : Nat) (factor : Rat) : Counted where
  sys := Sys.start env lastTime limit itemSizeMax itemSizeMin factor
  stats := .new

end Counted

open Classical in
/-- The linked items. -/
noncomputable def CacheMgr.linkedItems (s : CacheMgr) : Finset Ptr :=
  (Finset.range s.nextPtr).filter fun p => s.cacheHashMap.Mem p

/-- What a call adds to a counter of `group_sum_`. -/
def StatCall.adds (x : Counter) (c : StatCall) : Nat := (Stats.new.record c).groupSum x

/-- What the calls have added to a counter of `group_sum_` in all. -/
def Counter.total (x : Counter) (cs : List StatCall) : Nat := (cs.map (StatCall.adds x)).sum

/-- The counters of the linked items and of their bytes. -/
structure LinkStats (env : Env) (s : CacheMgr) (item : GroupStatsItem) : Prop where
  items : item .linkItems = item .unlinkItems + s.linkedItems.card
  bytes : item .linkBytes = item .unlinkBytes + ∑ p ∈ s.linkedItems, s.totalSize env p

variable {env : Env} {A : Scope} {held : Ptr → Nat} {L : ListId → List Ptr} {s s' : CacheMgr}
  {p : Ptr} {maxStatsGroup : Nat}

/-! ## Counting -/

namespace StatisticsLemmas

theorem record_groupSum (c : StatCall) :
    ∃ as, ∀ st : Stats, (st.record c).groupSum = st.groupSum.addAll as := by
  cases c <;> exact ⟨_, fun _ => rfl⟩

theorem add_lt {item : GroupStatsItem} (h : ∀ x, item x < 2 ^ x.width) (a : Counter × Nat)
    (x : Counter) : item.add a x < 2 ^ x.width := by
  unfold GroupStatsItem.add
  by_cases hx : x = a.1
  · subst hx
    rw [Function.update_self]
    exact Nat.mod_lt _ (Nat.two_pow_pos _)
  · rw [Function.update_of_ne hx]
    exact h x

theorem addAll_lt {item : GroupStatsItem} (as : List (Counter × Nat))
    (h : ∀ x, item x < 2 ^ x.width) (x : Counter) : item.addAll as x < 2 ^ x.width := by
  induction as generalizing item with
  | nil => exact h x
  | cons a as ih => exact ih (add_lt h a)

theorem add_mod (item : GroupStatsItem) (a : Counter × Nat) (x : Counter) :
    item.add a x % 2 ^ x.width = (item x + GroupStatsItem.clear.add a x) % 2 ^ x.width := by
  unfold GroupStatsItem.add GroupStatsItem.clear
  by_cases hx : x = a.1
  · subst hx
    simp only [Function.update_self]
    simp
  · simp only [Function.update_of_ne hx]
    rfl

/-- What is added does not depend on what was there. -/
theorem addAll_mod (item : GroupStatsItem) (as : List (Counter × Nat)) (x : Counter) :
    item.addAll as x % 2 ^ x.width =
      (item x + GroupStatsItem.clear.addAll as x) % 2 ^ x.width := by
  induction as generalizing item with
  | nil => rfl
  | cons a as ih =>
    have hitem := ih (item.add a)
    have hclear := ih (GroupStatsItem.clear.add a)
    calc item.addAll (a :: as) x % 2 ^ x.width
        = (item.add a x % 2 ^ x.width + GroupStatsItem.clear.addAll as x) % 2 ^ x.width := by
          rw [Nat.mod_add_mod]
          exact hitem
      _ = (item x + (GroupStatsItem.clear.add a x + GroupStatsItem.clear.addAll as x)) %
            2 ^ x.width := by
          rw [add_mod, Nat.mod_add_mod, Nat.add_assoc]
      _ = (item x + GroupStatsItem.clear.addAll (a :: as) x) % 2 ^ x.width := by
          rw [Nat.add_mod, ← hclear, ← Nat.add_mod]
          rfl

theorem record_lt {st : Stats} (c : StatCall) (h : ∀ x, st.groupSum x < 2 ^ x.width)
    (x : Counter) : (st.record c).groupSum x < 2 ^ x.width := by
  obtain ⟨as, has⟩ := record_groupSum c
  rw [has]
  exact addAll_lt as h x

theorem record_mod (st : Stats) (c : StatCall) (x : Counter) :
    (st.record c).groupSum x % 2 ^ x.width = (st.groupSum x + c.adds x) % 2 ^ x.width := by
  obtain ⟨as, has⟩ := record_groupSum c
  rw [StatCall.adds, has, has]
  exact addAll_mod _ as x

/-- A counter of `group_sum_` is what was added to it, up to its width. -/
theorem recordAll_groupSum {st : Stats} (cs : List StatCall) (h : ∀ x, st.groupSum x < 2 ^ x.width)
    (x : Counter) : (st.recordAll cs).groupSum x = (st.groupSum x + x.total cs) % 2 ^ x.width := by
  induction cs generalizing st with
  | nil => exact (Nat.mod_eq_of_lt (h x)).symm
  | cons c cs ih =>
    have htail : (st.recordAll (c :: cs)).groupSum x =
        ((st.record c).groupSum x + x.total cs) % 2 ^ x.width := ih (record_lt c h)
    have htotal : x.total (c :: cs) = c.adds x + x.total cs := List.sum_cons
    rw [htail, Nat.add_mod, record_mod, ← Nat.add_mod, htotal, Nat.add_assoc]

theorem total_append (x : Counter) (cs cs' : List StatCall) :
    x.total (cs ++ cs') = x.total cs + x.total cs' := by
  rw [Counter.total, List.map_append, List.sum_append]
  rfl

/-! ## Linked items -/

theorem adds_of_not_linking {c : StatCall} (h : c.linking = false) :
    c.adds .linkItems = 0 ∧ c.adds .unlinkItems = 0 ∧ c.adds .linkBytes = 0 ∧
      c.adds .unlinkBytes = 0 := by
  cases c with
  | itemLink | itemUnlink => exact nomatch h
  | _ => exact ⟨rfl, rfl, rfl, rfl⟩

theorem total_of_not_linking {cs : List StatCall} (h : ∀ c ∈ cs, c.linking = false) :
    Counter.linkItems.total cs = 0 ∧ Counter.unlinkItems.total cs = 0 ∧
      Counter.linkBytes.total cs = 0 ∧ Counter.unlinkBytes.total cs = 0 := by
  have hzero : ∀ x : Counter, (∀ c ∈ cs, c.adds x = 0) → x.total cs = 0 := by
    intro x hx
    refine List.sum_eq_zero fun n hn => ?_
    obtain ⟨c, hc, rfl⟩ := List.mem_map.mp hn
    exact hx c hc
  refine ⟨hzero _ fun c hc => ?_, hzero _ fun c hc => ?_, hzero _ fun c hc => ?_,
    hzero _ fun c hc => ?_⟩
  · exact (adds_of_not_linking (h c hc)).1
  · exact (adds_of_not_linking (h c hc)).2.1
  · exact (adds_of_not_linking (h c hc)).2.2.1
  · exact (adds_of_not_linking (h c hc)).2.2.2

theorem totalSize_congr {q : Ptr} (h : (s'.item q).shape = (s.item q).shape) :
    s'.totalSize env q = s.totalSize env q := by
  have hk : (s'.item q).keyLength = (s.item q).keyLength := congrArg (·.2.2.1) h
  have hd : (s'.item q).dataSize = (s.item q).dataSize := congrArg (·.2.2.2.1) h
  have he : (s'.item q).extSize = (s.item q).extSize := congrArg (·.2.2.2.2) h
  unfold CacheMgr.totalSize CacheItem.totalSize
  rw [hk, hd, he]

theorem totalSize_mod (q : Ptr) : s.totalSize env q % 2 ^ 64 = s.totalSize env q :=
  Nat.mod_eq_of_lt ((Nat.mod_lt _ (Nat.two_pow_pos 32)).trans (by decide))

/-- The calls so far, and the items that are linked now. -/
structure LinkLog (env : Env) (s : CacheMgr) (F : Finset Ptr) : Prop where
  mem : ∀ p, p ∈ F ↔ s.IsLinked p
  items : Counter.linkItems.total s.stats = Counter.unlinkItems.total s.stats + F.card
  bytes : Counter.linkBytes.total s.stats =
    Counter.unlinkBytes.total s.stats + ∑ p ∈ F, s.totalSize env p

variable {F : Finset Ptr}

/-- Nothing is linked or unlinked, and the linked items stay as long as they are. -/
theorem linkLog_same {cs : List StatCall} (h : LinkLog env s F)
    (hlinked : ∀ p, s'.IsLinked p ↔ s.IsLinked p)
    (hsize : ∀ p, s.IsLinked p → s'.totalSize env p = s.totalSize env p)
    (hstats : s'.stats = s.stats ++ cs) (hcs : ∀ c ∈ cs, c.linking = false) :
    LinkLog env s' F := by
  obtain ⟨h1, h2, h3, h4⟩ := total_of_not_linking hcs
  have hsum : ∑ p ∈ F, s'.totalSize env p = ∑ p ∈ F, s.totalSize env p :=
    Finset.sum_congr rfl fun p hp => hsize p ((h.mem p).mp hp)
  refine ⟨fun p => (h.mem p).trans (hlinked p).symm, ?_, ?_⟩
  · rw [hstats, total_append, total_append, h1, h2]
    exact h.items
  · rw [hstats, total_append, total_append, h3, h4, hsum]
    exact h.bytes

theorem linkLog_link (h : LinkLog env s F) (m : LinkMove env s p s') :
    LinkLog env s' (insert p F) := by
  have hnew : p ∉ F := fun hp => m.absent ((h.mem p).mp hp)
  have hsize : ∀ q, s'.totalSize env q = s.totalSize env q := fun q => totalSize_congr (m.shape q)
  have htotal : ∀ x : Counter, x.total s'.stats = x.total s.stats +
      StatCall.adds x (.itemLink (s.item p).groupId (s.item p).classId (s.totalSize env p)) := by
    intro x
    rw [m.stats, total_append]
    exact congrArg _ (List.sum_singleton)
  refine ⟨fun q => ?_, ?_, ?_⟩
  · rw [Finset.mem_insert, h.mem, m.linked, or_comm]
  · have hitems := h.items
    rw [htotal, htotal, Finset.card_insert_of_notMem hnew, hitems]
    exact Nat.add_assoc _ _ _
  · have hbytes := h.bytes
    have hadd : StatCall.adds .linkBytes
        (.itemLink (s.item p).groupId (s.item p).classId (s.totalSize env p)) =
        (0 + s.totalSize env p) % 2 ^ 64 := rfl
    have hkeep : StatCall.adds .unlinkBytes
        (.itemLink (s.item p).groupId (s.item p).classId (s.totalSize env p)) = 0 := rfl
    rw [htotal, htotal, hadd, hkeep, Finset.sum_insert hnew, Nat.zero_add, totalSize_mod, hsize,
      Finset.sum_congr rfl fun q _ => hsize q, hbytes, Nat.add_zero, Nat.add_assoc,
      Nat.add_comm (s.totalSize env p)]

theorem linkLog_detach (h : LinkLog env s F) (m : DetachMove env A s p s') :
    LinkLog env s' (F.erase p) := by
  have hmem : p ∈ F := (h.mem p).mpr m.present
  have hsize : ∀ q, s'.totalSize env q = s.totalSize env q := fun q => totalSize_congr (m.shape q)
  have htotal : ∀ x : Counter, x.total s'.stats = x.total s.stats +
      StatCall.adds x (.itemUnlink (s.item p).groupId (s.item p).classId (s.totalSize env p)) := by
    intro x
    rw [m.stats, total_append]
    exact congrArg _ (List.sum_singleton)
  refine ⟨fun q => ?_, ?_, ?_⟩
  · rw [Finset.mem_erase, h.mem, m.linked, and_comm]
  · have hitems := h.items
    have hadd : StatCall.adds .unlinkItems
        (.itemUnlink (s.item p).groupId (s.item p).classId (s.totalSize env p)) = 1 := rfl
    have hkeep : StatCall.adds .linkItems
        (.itemUnlink (s.item p).groupId (s.item p).classId (s.totalSize env p)) = 0 := rfl
    rw [htotal, htotal, hadd, hkeep, hitems, ← Finset.card_erase_add_one hmem, Nat.add_zero,
      Nat.add_assoc, Nat.add_comm 1]
  · have hbytes := h.bytes
    have hadd : StatCall.adds .unlinkBytes
        (.itemUnlink (s.item p).groupId (s.item p).classId (s.totalSize env p)) =
        (0 + s.totalSize env p) % 2 ^ 64 := rfl
    have hkeep : StatCall.adds .linkBytes
        (.itemUnlink (s.item p).groupId (s.item p).classId (s.totalSize env p)) = 0 := rfl
    rw [htotal, htotal, hadd, hkeep, Nat.zero_add, totalSize_mod,
      Finset.sum_congr rfl fun q _ => hsize q, hbytes, Nat.add_zero, Nat.add_assoc,
      Finset.add_sum_erase _ _ hmem]

theorem linkLog_move (h : ∃ F, LinkLog env s F) (hinv : ∃ held, Inv env held s)
    (m : Move env A s s') : ∃ F, LinkLog env s' F := by
  obtain ⟨F, h⟩ := h
  obtain ⟨held, L, hL⟩ := hinv
  cases m with
  | quiet m =>
    obtain ⟨cs, hstats, hcs⟩ := m.stats
    exact ⟨F, linkLog_same h m.linked (fun q _ => totalSize_congr (m.shape q)) hstats
      fun c hc => (hcs c hc).linking⟩
  | link p m => exact ⟨_, linkLog_link h m⟩
  | detach p m => exact ⟨_, linkLog_detach h m⟩
  | alloc p id m =>
    -- the item comes out of `do_alloc`, so nobody referred to it, the lists included
    have hother : ∀ q, s.IsLinked q → q ≠ p := by
      rintro q hq rfl
      exact m.idle (hL.pos_of_linked ((isLinked_iff hL).mp hq))
    exact ⟨F, linkLog_same h m.linked
      (fun q hq => totalSize_congr (congrArg _ (m.item q (hother q hq))))
      (m.stats.trans (List.append_nil _).symm) nofun⟩
  | free p m =>
    have hother : ∀ q, s.IsLinked q → q ≠ p := by
      rintro q hq rfl
      exact m.absent hq
    exact ⟨F, linkLog_same h m.linked
      (fun q hq => totalSize_congr (congrArg _ (m.item q (hother q hq))))
      (m.stats.trans (List.append_nil _).symm) nofun⟩

theorem linkedItems_eq (h : LinkLog env s F) (hL : Core env held L s) : s.linkedItems = F := by
  classical
  ext p
  rw [CacheMgr.linkedItems, Finset.mem_filter, Finset.mem_range, h.mem, isLinked_iff hL,
    StructureLemmas.mem_hashMap hL]
  exact ⟨fun hp => hp.2, fun hp => ⟨hL.lt_nextPtr (hL.pos_of_linked hp), hp⟩⟩

/-- What the calls have added to `group_sum_`, and what they say about the manager. -/
structure Tallied (env : Env) (x : Counted) : Prop where
  sys : ∃ lost, SysInv env lost x.sys
  log : ∃ F, LinkLog env x.sys.mgr F
  sum : ∀ c : Counter, x.stats.groupSum c = c.total x.sys.mgr.stats % 2 ^ c.width

theorem stats_of_moves (h : Moves env A s s') : ∃ cs, s'.stats = s.stats ++ cs := by
  refine h.invariant (I := fun s' => ∃ cs, s'.stats = s.stats ++ cs) ?_ ⟨[], by simp⟩
  rintro s₁ s₂ - m ⟨cs, hcs⟩
  cases m with
  | quiet m =>
    obtain ⟨cs', hcs', -⟩ := m.stats
    exact ⟨cs ++ cs', by rw [hcs', hcs, List.append_assoc]⟩
  | link p m => exact ⟨_, by rw [m.stats, hcs, List.append_assoc]⟩
  | detach p m => exact ⟨_, by rw [m.stats, hcs, List.append_assoc]⟩
  | alloc p id m => exact ⟨cs, m.stats.trans hcs⟩
  | free p m => exact ⟨cs, m.stats.trans hcs⟩

theorem addGroup_groupSum (st : Stats) (n g : Nat) : (st.addGroup n g).2.groupSum = st.groupSum := by
  unfold Stats.addGroup
  split
  · split <;> rfl
  · rfl

theorem removeGroup_groupSum (st : Stats) (g : Nat) :
    (st.removeGroup g).2.groupSum = st.groupSum := by
  unfold Stats.removeGroup
  split <;> rfl

theorem tallied_step {x y : Counted} {l : CountedOp} (hw : env.refWidth = .unbounded)
    (hx : Tallied env x) (h : Counted.Step env maxStatsGroup x l y) : Tallied env y := by
  cases h with
  | @cache l sys h =>
    have hstep : x.sys.RoomStep env l sys := ⟨.inl hw, h⟩
    have hmoves := moves_step hx.sys hstep
    obtain ⟨cs, hcs⟩ := stats_of_moves hmoves
    refine ⟨(SysInv.act hx.sys hstep).1, ?_, fun c => ?_⟩
    · exact hmoves.invariant (I := fun s => ∃ F, LinkLog env s F)
        (fun _ _ hinv m hs => linkLog_move hs hinv m) hx.log
    · have hlt : ∀ c : Counter, x.stats.groupSum c < 2 ^ c.width := by
        intro c
        rw [hx.sum]
        exact Nat.mod_lt _ (Nat.two_pow_pos _)
      dsimp only
      rw [hcs, List.drop_left, recordAll_groupSum cs hlt, hx.sum, total_append, Nat.mod_add_mod]
  | addGroup g =>
    refine ⟨hx.sys, hx.log, fun c => ?_⟩
    rw [addGroup_groupSum]
    exact hx.sum c
  | removeGroup g =>
    refine ⟨hx.sys, hx.log, fun c => ?_⟩
    rw [removeGroup_groupSum]
    exact hx.sum c

variable {lastTime limit itemSizeMax itemSizeMin : Nat} {factor : Rat}

/-- At the start nothing is recorded, linked or in use. -/
theorem start_empty (hs : s = (Sys.start env lastTime limit itemSizeMax itemSizeMin factor).mgr) :
    s.stats = [] ∧ (∀ p, ¬ s.IsLinked p) ∧ ∀ p, ¬ s.Referenced p := by
  obtain ⟨m, i, f, he⟩ :=
    SystemLemmas.init_eq env (CacheMgr.new lastTime) limit itemSizeMax itemSizeMin factor
  have hmgr : s = { CacheMgr.new lastTime with
      maxSize := m, classIdMax := i, freeCacheMaxCount := f, memLimit := limit } := hs.trans he
  have hseq : (CacheMgr.new lastTime).lists.seq = fun _ => [] := rep_empty.seq_eq
  subst hmgr
  refine ⟨rfl, fun p hp => ?_, fun p hp => nomatch hp⟩
  obtain ⟨i, hi⟩ := hp
  exact nomatch (congrFun hseq (.expire i) ▸ hi : p ∈ ([] : List Ptr))

theorem tallied_start :
    Tallied env (Counted.start env lastTime limit itemSizeMax itemSizeMin factor) := by
  obtain ⟨hstats, hlinked, -⟩ :=
    start_empty (rfl : (Sys.start env lastTime limit itemSizeMax itemSizeMin factor).mgr = _)
  refine ⟨⟨_, sysInv_start⟩, ⟨∅, fun p => ?_, ?_, ?_⟩, fun c => ?_⟩
  · exact iff_of_false (Finset.notMem_empty p) (hlinked p)
  · simp only [Counted.start, hstats]
    rfl
  · simp only [Counted.start, hstats]
    rfl
  · simp only [Counted.start, hstats]
    exact (Nat.zero_mod _).symm

end StatisticsLemmas

open StatisticsLemmas

/-- The counters of `group_sum_` agree with the linked items, as long as `link_items_` and
`link_bytes_` have not wrapped. -/
theorem linkStats_of_run {lastTime limit itemSizeMax itemSizeMin : Nat} {factor : Rat} {y : Counted}
    {t : List (Counted × CountedOp)} (hw : env.refWidth = .unbounded)
    (h : Run (Counted.Step env maxStatsGroup)
      (Counted.start env lastTime limit itemSizeMax itemSizeMin factor) t y)
    (hitems : Counter.linkItems.total y.sys.mgr.stats < 2 ^ 64)
    (hbytes : Counter.linkBytes.total y.sys.mgr.stats < 2 ^ 64) :
    LinkStats env y.sys.mgr y.stats.groupSum := by
  obtain ⟨⟨lost, hy⟩, ⟨F, hF⟩, hsum⟩ := h.invariant (I := Tallied env)
    (fun _ _ _ hx hs => tallied_step hw hx hs) tallied_start
  obtain ⟨L, hL⟩ := hy.inv
  have hcount : Counter.unlinkItems.total y.sys.mgr.stats ≤ Counter.linkItems.total y.sys.mgr.stats :=
    hF.items ▸ Nat.le_add_right _ _
  have hsize : Counter.unlinkBytes.total y.sys.mgr.stats ≤ Counter.linkBytes.total y.sys.mgr.stats :=
    hF.bytes ▸ Nat.le_add_right _ _
  refine ⟨?_, ?_⟩
  · rw [hsum, hsum, linkedItems_eq hF hL]
    have h1 : Counter.linkItems.total y.sys.mgr.stats % 2 ^ 64 = _ := Nat.mod_eq_of_lt hitems
    have h2 : Counter.unlinkItems.total y.sys.mgr.stats % 2 ^ 64 = _ :=
      Nat.mod_eq_of_lt (hcount.trans_lt hitems)
    exact h1.trans (hF.items.trans (congrArg (· + F.card) h2.symm))
  · rw [hsum, hsum, linkedItems_eq hF hL]
    have h1 : Counter.linkBytes.total y.sys.mgr.stats % 2 ^ 64 = _ := Nat.mod_eq_of_lt hbytes
    have h2 : Counter.unlinkBytes.total y.sys.mgr.stats % 2 ^ 64 = _ :=
      Nat.mod_eq_of_lt (hsize.trans_lt hbytes)
    exact h1.trans (hF.bytes.trans (congrArg (· + _) h2.symm))

namespace Counted

/-- One operation. -/
def exec (env : Env) (x : Counted) (op : Op) : Counted where
  sys := (x.sys.exec env op).2
  stats := x.stats.recordAll ((x.sys.exec env op).2.mgr.stats.drop x.sys.mgr.stats.length)

/-- The state after a list of operations. -/
def execAll (env : Env) : Counted → List Op → Counted
  | x, [] => x
  | x, op :: ops => execAll env (x.exec env op) ops

def trace (env : Env) : Counted → List Op → List (Counted × CountedOp)
  | _, [] => []
  | x, op :: ops => (x, .cache (op, (x.sys.exec env op).1)) :: trace env (x.exec env op) ops

theorem run_execAll (maxStatsGroup : Nat) {x : Counted} {ops : List Op}
    (h : x.sys.Allowed env ops) :
    Run (Step env maxStatsGroup) x (x.trace env ops) (x.execAll env ops) := by
  induction ops generalizing x with
  | nil => exact .nil x
  | cons op ops ih =>
    have hstep : x.sys.Step env (op, (x.sys.exec env op).1) (x.sys.exec env op).2 := ⟨h.1, rfl⟩
    exact (Run.single (.cache hstep)).trans (ih h.2)

/-- Nothing is stored yet. -/
def small (w : RefWidth) : Counted := ⟨Sys.small w, .new⟩

end Counted

/-- `append` unlinks one item and links another. -/
theorem linkStats_after_append :
    let y := (Counted.small .unbounded).execAll (.colliding .unbounded)
      [.alloc .zeros 1 1 0 0 2 0, .fill 0 ⟨[107], [55, 56], [], 0⟩, .update .set .zeros 0 0,
        .releaseReference 0, .alloc .zeros 1 1 0 0 1 0, .fill 1 ⟨[107], [57], [], 0⟩,
        .update .append .zeros 1 0]
    LinkStats (.colliding .unbounded) y.sys.mgr y.stats.groupSum :=
  linkStats_of_run rfl (Counted.run_execAll 0 (by decide +kernel)) (by decide +kernel)
    (by decide +kernel)

/-! ## The only group -/

namespace CountedOp

/-- The operation names no other group, and the group is not removed. -/
def Of (g : Nat) : CountedOp → Prop
  | .cache l => ∀ g', l.1.groups g' → g' = g
  | .addGroup _ => True
  | .removeGroup g' => g' ≠ g

/-- The operation unlinks no item and does not come to the check of a watch, and no reference
count overflows. -/
def Plain (env : Env) (x : Counted) : CountedOp → Prop
  | .cache l => x.sys.Roomy env ∧ ¬ l.1.Unlinks env x.sys.mgr ∧ ¬ l.1.ChecksWatch env x.sys.mgr
  | .addGroup _ => True
  | .removeGroup _ => True

end CountedOp

/-- Every counter of the group equals that of `group_sum_`. -/
def Stats.Agrees (st : Stats) (g : Nat) : Prop := st.groupMap g = some st.groupSum

namespace StatisticsLemmas

variable {g : Nat} {st : Stats}

theorem agrees_record {c : StatCall} (hc : c.Faithful) (hg : c.groupId = g) (h : st.Agrees g) :
    (st.record c).Agrees g := by
  obtain ⟨as, has⟩ := hc
  have hitem : st.groupMap g = some st.groupSum := h
  unfold Stats.Agrees
  rw [has, hg, Stats.both, Stats.apart]
  simp only [Function.update_self, hitem]
  rfl

theorem agrees_recordAll {cs : List StatCall} (hcs : ∀ c ∈ cs, c.Faithful ∧ c.groupId = g)
    (h : st.Agrees g) : (st.recordAll cs).Agrees g := by
  induction cs generalizing st with
  | nil => exact h
  | cons c cs ih =>
    obtain ⟨hf, hg⟩ := hcs c List.mem_cons_self
    exact ih (fun c hc => hcs c (List.mem_cons_of_mem _ hc)) (agrees_record hf hg h)

theorem agrees_addGroup {n g' : Nat} (h : st.Agrees g) : (st.addGroup n g').2.Agrees g := by
  have hitem : st.groupMap g = some st.groupSum := h
  unfold Stats.addGroup
  split
  · split
    · exact h
    · next hnew =>
      have hne : g ≠ g' := by
        rintro rfl
        exact hnew (by rw [hitem]; rfl)
      unfold Stats.Agrees
      simp only [Function.update_of_ne hne]
      exact hitem
  · exact h

theorem agrees_removeGroup {g' : Nat} (hne : g' ≠ g) (h : st.Agrees g) :
    (st.removeGroup g').2.Agrees g := by
  unfold Stats.removeGroup
  split
  · unfold Stats.Agrees
    simp only [Function.update_of_ne hne.symm]
    exact h
  · exact h

/-- The items in use are of the group, and so are the calls since `s₀`. -/
structure OneGroup (g : Nat) (s₀ s : CacheMgr) : Prop where
  items : ∀ p, s.Referenced p → (s.item p).groupId = g
  calls : ∃ cs, s.stats = s₀.stats ++ cs ∧ ∀ c ∈ cs, c.Faithful ∧ c.groupId = g

theorem group_of_scope (hA : ∀ g', A.groups g' → g' = g)
    (hs : ∀ p, s.Referenced p → (s.item p).groupId = g) {g' : Nat} (h : A.Group s g') : g' = g := by
  rcases h with h | ⟨p, hp, rfl⟩
  · exact hA g' h
  · exact hs p hp

theorem items_same (hs : ∀ p, s.Referenced p → (s.item p).groupId = g) (m : SameChunks s s') :
    ∀ p, s'.Referenced p → (s'.item p).groupId = g := by
  intro p hp
  have hshape : (s'.item p).groupId = (s.item p).groupId := congrArg (·.2.1) (m.shape p)
  rw [hshape]
  exact hs p ((m.referenced p).mp hp)

theorem oneGroup_move {s₀ : CacheMgr} (hA : ∀ g', A.groups g' → g' = g) (hw : ¬ A.watched)
    (hu : ¬ A.unlinks) (h : OneGroup g s₀ s) (m : Move env A s s') : OneGroup g s₀ s' := by
  obtain ⟨hitems, cs, hstats, hcs⟩ := h
  cases m with
  | quiet m =>
    obtain ⟨cs', hstats', hcs'⟩ := m.stats
    refine ⟨items_same hitems m.toSameChunks, cs ++ cs', ?_, fun c hc => ?_⟩
    · rw [hstats', hstats, List.append_assoc]
    · rcases List.mem_append.mp hc with hc | hc
      · exact hcs c hc
      · obtain ⟨hl, hgroup, hwatch⟩ := hcs' c hc
        have hnot : c.watched = false := by
          cases hcw : c.watched with
          | true => exact absurd (hwatch hcw) hw
          | false => rfl
        have hf : c.Faithful := StatCall.faithful_of_not_watched hnot (by
          rintro g i n rfl
          exact nomatch hl)
        exact ⟨hf, group_of_scope hA hitems hgroup⟩
  | link p m =>
    let c₀ : StatCall := .itemLink (s.item p).groupId (s.item p).classId (s.totalSize env p)
    refine ⟨items_same hitems m.toSameChunks, cs ++ [c₀], ?_, fun c hc => ?_⟩
    · rw [m.stats, hstats, List.append_assoc]
    · rcases List.mem_append.mp hc with hc | hc
      · exact hcs c hc
      · rw [List.mem_singleton.mp hc]
        exact ⟨StatCall.faithful_of_not_watched rfl nofun, hitems p m.used⟩
  | detach p m => exact absurd m.unlinks hu
  | alloc p id m =>
    refine ⟨fun q hq => ?_, cs, m.stats.trans hstats, hcs⟩
    rcases eq_or_ne q p with rfl | hne
    · exact group_of_scope hA hitems m.group
    · rw [m.item q hne]
      rw [CacheMgr.Referenced, m.item q hne] at hq
      exact hitems q hq
  | free p m =>
    refine ⟨fun q hq => ?_, cs, m.stats.trans hstats, hcs⟩
    rcases eq_or_ne q p with rfl | hne
    · exact absurd hq m.idle
    · rw [m.item q hne]
      rw [CacheMgr.Referenced, m.item q hne] at hq
      exact hitems q hq

/-- The invariant of a run about the group. -/
structure Single (env : Env) (g : Nat) (x : Counted) : Prop where
  sys : ∃ lost, SysInv env lost x.sys
  items : ∀ p, x.sys.mgr.Referenced p → (x.sys.mgr.item p).groupId = g
  agrees : x.stats.Agrees g

theorem single_step {x y : Counted} {l : CountedOp} (hx : Single env g x) (hg : l.Of g)
    (hplain : l.Plain env x) (h : Counted.Step env maxStatsGroup x l y) : Single env g y := by
  cases h with
  | @cache l sys h =>
    obtain ⟨hroom, hunlinks, hwatch⟩ := hplain
    have hstep : x.sys.RoomStep env l sys := ⟨hroom, h⟩
    have hnames : ∀ g', (l.1.scope env x.sys.mgr).groups g' → g' = g := hg
    have hone : OneGroup g x.sys.mgr sys.mgr := (moves_step hx.sys hstep).invariant
      (I := OneGroup g x.sys.mgr) (fun _ _ _ m hs => oneGroup_move hnames hwatch hunlinks hs m)
      ⟨hx.items, [], (List.append_nil _).symm, nofun⟩
    obtain ⟨hitems, cs, hstats, hcs⟩ := hone
    refine ⟨(SysInv.act hx.sys hstep).1, hitems, ?_⟩
    rw [hstats, List.drop_left]
    exact agrees_recordAll hcs hx.agrees
  | addGroup g' => exact ⟨hx.sys, hx.items, agrees_addGroup hx.agrees⟩
  | removeGroup g' => exact ⟨hx.sys, hx.items, agrees_removeGroup hg hx.agrees⟩

/-- Only `add_group` and `remove_group` so far. -/
structure Uncounted (x₀ x : Counted) : Prop where
  sys : x.sys = x₀.sys
  sum : x.stats.groupSum = .clear
  item : ∀ g it, x.stats.groupMap g = some it → it = .clear

theorem uncounted_addGroup {n : Nat} (hitem : ∀ g it, st.groupMap g = some it → it = .clear) :
    ∀ g' it, (st.addGroup n g).2.groupMap g' = some it → it = .clear := by
  intro g' it hit
  unfold Stats.addGroup at hit
  split at hit
  · split at hit
    · exact hitem g' it hit
    · rcases eq_or_ne g' g with rfl | hne
      · simp only [Function.update_self] at hit
        exact (Option.some.inj hit).symm
      · simp only [Function.update_of_ne hne] at hit
        exact hitem g' it hit
  · exact hitem g' it hit

theorem uncounted_removeGroup (hitem : ∀ g it, st.groupMap g = some it → it = .clear) :
    ∀ g' it, (st.removeGroup g).2.groupMap g' = some it → it = .clear := by
  intro g' it hit
  unfold Stats.removeGroup at hit
  split at hit
  · rcases eq_or_ne g' g with rfl | hne
    · simp only [Function.update_self] at hit
      exact nomatch hit
    · simp only [Function.update_of_ne hne] at hit
      exact hitem g' it hit
  · exact hitem g' it hit

theorem uncounted_step {x₀ x y : Counted} {l : CountedOp} (hx : Uncounted x₀ x)
    (hl : ∀ l', l ≠ .cache l') (h : Counted.Step env maxStatsGroup x l y) : Uncounted x₀ y := by
  cases h with
  | cache h => exact absurd rfl (hl _)
  | addGroup g => exact ⟨hx.sys, (addGroup_groupSum ..).trans hx.sum, uncounted_addGroup hx.item⟩
  | removeGroup g =>
    exact ⟨hx.sys, (removeGroup_groupSum ..).trans hx.sum, uncounted_removeGroup hx.item⟩

/-- A group that has been added is counted. -/
theorem isSome_addGroup {n : Nat} {st' : Stats} (h : st.addGroup n g = (true, st')) :
    (st'.groupMap g).isSome = true := by
  unfold Stats.addGroup at h
  split at h
  · split at h
    · next hthere =>
      obtain rfl : st = st' := congrArg Prod.snd h
      exact hthere
    · have hst : _ = st' := congrArg Prod.snd h
      subst hst
      simp only [Function.update_self]
      rfl
  · exact nomatch congrArg Prod.fst h

end StatisticsLemmas

/-- The group has been added before the first operation, and all operations are about it: its
counters are those of `group_sum_`, if the operations are plain. -/
theorem groupStats_of_run {lastTime limit itemSizeMax itemSizeMin g : Nat} {factor : Rat}
    {x y : Counted} {st : Stats} {t₀ t : List (Counted × CountedOp)}
    (h₀ : Run (Counted.Step env maxStatsGroup)
      (Counted.start env lastTime limit itemSizeMax itemSizeMin factor) t₀ x)
    (hfirst : ∀ z ∈ t₀, ∀ l, z.2 ≠ .cache l)
    (hadd : x.stats.addGroup maxStatsGroup g = (true, st))
    (h : Run (Counted.Step env maxStatsGroup) ⟨x.sys, st⟩ t y) (hgroup : ∀ z ∈ t, z.2.Of g)
    (hplain : ∀ z ∈ t, z.2.Plain env z.1) : y.stats.Agrees g := by
  let x₀ := Counted.start env lastTime limit itemSizeMax itemSizeMin factor
  have hnone : Uncounted x₀ x := (h₀.restrict (P := fun _ l => ∀ l', l ≠ .cache l') hfirst).invariant
    (I := Uncounted x₀) (fun _ _ _ hx hs => uncounted_step hx hs.1 hs.2) ⟨rfl, rfl, nofun⟩
  have hst : (x.stats.addGroup maxStatsGroup g).2 = st := congrArg Prod.snd hadd
  have hsum : st.groupSum = .clear := hst ▸ (addGroup_groupSum ..).trans hnone.sum
  have hagrees : st.Agrees g := by
    obtain ⟨it, hit⟩ := Option.isSome_iff_exists.mp (isSome_addGroup hadd)
    have hclear : it = .clear := uncounted_addGroup hnone.item g it (hst ▸ hit)
    rw [Stats.Agrees, hit, hclear, hsum]
  have hstart : Single env g ⟨x.sys, st⟩ := by
    obtain ⟨-, -, hidle⟩ := start_empty (congrArg Sys.mgr hnone.sys)
    have hinv : SysInv env (fun _ => 0) x.sys := by
      rw [hnone.sys]
      exact sysInv_start
    exact ⟨⟨_, hinv⟩, fun p hp => absurd hp (hidle p), hagrees⟩
  have hrun := h.restrict (P := fun x l => l.Of g ∧ l.Plain env x) fun z hz =>
    ⟨hgroup z hz, hplain z hz⟩
  exact (hrun.invariant (I := Single env g)
    (fun _ _ _ hx hs => single_step hx hs.1.1 hs.1.2 hs.2) hstart).agrees

namespace StatisticsLemmas

variable {x : Counted} {o : Malloc} {r : Outcome} {g w : Nat} {k : Bytes} {q : Ptr}

theorem plain_alloc {kl fl e d n : Nat} (h : x.sys.Roomy env) :
    (CountedOp.cache (.alloc o g kl fl e d n, r)).Plain env x := ⟨h, id, id⟩

theorem plain_fill {c : Contents} (h : x.sys.Roomy env) :
    (CountedOp.cache (.fill p c, r)).Plain env x := ⟨h, id, id⟩

theorem plain_set (h : x.sys.Roomy env) (hnew : x.sys.mgr.findOf p = none) :
    (CountedOp.cache (.update .set o p 0, r)).Plain env x := by
  refine ⟨h, ?_, fun hw => hw.1 rfl⟩
  rintro ⟨q, hq, -⟩
  exact nomatch hnew.symm.trans hq

theorem plain_get {b : Bool} (h : x.sys.Roomy env)
    (hfind : x.sys.mgr.find g k (env.hash32 k g) = some q)
    (hkept : (x.sys.mgr.item q).expireTime = 0) :
    (CountedOp.cache (.get g k w b, r)).Plain env x := by
  refine ⟨h, ?_, id⟩
  rintro ⟨q', hq, hne, -⟩
  obtain rfl : q' = q := Option.some.inj (hq.symm.trans hfind)
  exact hne hkept

end StatisticsLemmas

/-- Group 1 is counted, and nothing is stored yet. -/
def Counted.smallGroup : Counted := ⟨Sys.small .uint16, (Stats.new.addGroup 1 1).2⟩

/-- The key `k` is set in group 1. -/
def setOps (w : Nat) : List Op :=
  [.alloc .zeros 1 1 0 0 2 0, .fill 0 ⟨[107], [55, 56], [], 0⟩, .update .set .zeros 0 w]

/-- A value is set and read. -/
theorem groupStats_after_get :
    (Counted.smallGroup.execAll (.colliding .uint16)
      (setOps 0 ++ [.get 1 [107] 0 false])).stats.Agrees 1 := by
  have h₀ : Run (Counted.Step (.colliding .uint16) 1)
      (Counted.start (.colliding .uint16) 0 100000 1000 2000 2) [] (.small .uint16) := .nil _
  have hadd : (Counted.small .uint16).stats.addGroup 1 1 = (true, Counted.smallGroup.stats) := rfl
  have hrun : Run (Counted.Step (.colliding .uint16) 1)
      ⟨(Counted.small .uint16).sys, Counted.smallGroup.stats⟩ _
      (Counted.smallGroup.execAll (.colliding .uint16) (setOps 0 ++ [.get 1 [107] 0 false])) :=
    Counted.run_execAll 1 (by decide +kernel)
  refine groupStats_of_run h₀ (fun z hz => absurd hz List.not_mem_nil) hadd hrun ?_ ?_
  · simp only [setOps, List.cons_append, List.nil_append, Counted.trace, List.forall_mem_cons,
      CountedOp.Of, Op.groups]
    simp
  · simp only [setOps, List.cons_append, List.nil_append, Counted.trace, List.forall_mem_cons]
    refine ⟨plain_alloc ?_, plain_fill ?_, plain_set ?_ ?_, plain_get (q := 0) ?_ ?_ ?_, ?_⟩
    · decide +kernel
    · decide +kernel
    · decide +kernel
    · decide +kernel
    · decide +kernel
    · decide +kernel
    · decide +kernel
    · exact fun z hz => absurd hz List.not_mem_nil

/-- A run about a group that was added, after which a counter of the group is not that of
`group_sum_`. -/
def Disagrees (env : Env) (g : Nat) (c : Counter) : Prop :=
  ∃ t₀ x st t y, Run (Counted.Step env 1) (Counted.start env 0 100000 1000 2000 2) t₀ x ∧
    (∀ z ∈ t₀, ∀ l, z.2 ≠ .cache l) ∧ x.stats.addGroup 1 g = (true, st) ∧
    Run (Counted.Step env 1) ⟨x.sys, st⟩ t y ∧ (∀ z ∈ t, z.2.Of g) ∧
    (y.stats.groupMap g).map (· c) ≠ some (y.stats.groupSum c)

theorem StatisticsLemmas.disagrees_of_ops {ops : List Op} {c : Counter}
    (hok : (Sys.small .uint16).Allowed (.colliding .uint16) ops)
    (hof : ∀ z ∈ Counted.smallGroup.trace (.colliding .uint16) ops, z.2.Of 1)
    (hne : ((Counted.smallGroup.execAll (.colliding .uint16) ops).stats.groupMap 1).map (· c) ≠
      some ((Counted.smallGroup.execAll (.colliding .uint16) ops).stats.groupSum c)) :
    Disagrees (.colliding .uint16) 1 c :=
  ⟨[], .small .uint16, Counted.smallGroup.stats, _, _, .nil _,
    fun _ hz => absurd hz List.not_mem_nil, rfl, Counted.run_execAll 1 hok, hof, hne⟩

/-- `item_unlink` adds to `link_bytes_` of the group what it adds to `unlink_bytes_` of the sum;
a `set` with a watch counts as `set_success` in the sum and as `set_success_watch` in the group. -/
theorem groupStats_disagree :
    Disagrees (.colliding .uint16) 1 .linkBytes ∧ Disagrees (.colliding .uint16) 1 .unlinkBytes ∧
      Disagrees (.colliding .uint16) 1 (.cacheStats 1 .setSuccessWatch) := by
  have hof : ∀ z ∈ Counted.smallGroup.trace (.colliding .uint16)
      (setOps 0 ++ [.remove 1 [107] 0]), z.2.Of 1 := by
    simp only [setOps, List.cons_append, List.nil_append, Counted.trace, List.forall_mem_cons,
      CountedOp.Of, Op.groups]
    simp
  refine ⟨disagrees_of_ops (by decide +kernel) hof (by decide +kernel),
    disagrees_of_ops (by decide +kernel) hof (by decide +kernel), ?_⟩
  have hof : ∀ z ∈ Counted.smallGroup.trace (.colliding .uint16)
      (.createWatch 1 100 :: setOps 1), z.2.Of 1 := by
    simp only [setOps, Counted.trace, List.forall_mem_cons, CountedOp.Of, Op.groups]
    simp
  exact disagrees_of_ops (by decide +kernel) hof (by decide +kernel)

end Xixi
