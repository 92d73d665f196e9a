import Xixi.Refinement.Sweep
import Xixi.Stats

/-!
# The moves that operations are made of

For the account that is kept of memory and of the linked items, an operation is a sequence of a
few kinds of moves: a chunk is obtained or given back, an item is linked or unlinked, and
everything else is quiet.

1. `Move A s s'`: one move. `A` says what the operation may do on its way.
2. `Moves A s s'`: a sequence of moves, with the invariant before each of them.
3. `Moves.invariant`: what every move keeps, the operation keeps.
4. `moves_take`, `moves_release`, `moves_alloc`, `moves_link`, `moves_unlink`, ...: the steps of the
   manager as moves.
-/

namespace Xixi

open Xixi.Lists StepLemmas

/-- What an item is charged by: its class, its group and its lengths. -/
def CacheItem.shape (it : CacheItem) : Nat × Nat × Nat × Nat × Nat :=
  (it.classId, it.groupId, it.keyLength, it.dataSize, it.extSize)

namespace CacheMgr

/-- The chunks obtained from `malloc`, and the account of them. -/
def chunks (s : CacheMgr) : (Ptr → Bool) × (Ptr → Nat) × Nat × Nat × Bool :=
  (s.allocated, s.chunkSize, s.nextPtr, s.memUsed, s.underflow)

/-- What `init` has set. -/
def classTable (s : CacheMgr) : (Nat → Nat) × Nat × (Nat → Nat) × Nat :=
  (s.maxSize, s.classIdMax, s.freeCacheMaxCount, s.memLimit)

/-- The items in `free_cache_list_[i]`. -/
noncomputable def freeList (s : CacheMgr) (i : Nat) : List Ptr := s.lists.seq (.freeCache i)

/-- The item is in one of the expire lists. -/
def IsLinked (s : CacheMgr) (p : Ptr) : Prop := Linked s.lists.seq p

/-- Someone refers to the item. -/
def Referenced (s : CacheMgr) (p : Ptr) : Prop := 0 < (s.item p).refCount

end CacheMgr

/-- What an operation may do: the groups it names, whether the statistics of a watch are
recorded, whether it unlinks, and in which state `malloc` has a chunk for it. -/
structure Scope where
  groups : Nat → Prop
  watched : Prop
  unlinks : Prop
  malloc : CacheMgr → Prop

namespace Scope

/-- The group is one that the operation names, or the one of an item in use. -/
def Group (A : Scope) (s : CacheMgr) (g : Nat) : Prop :=
  A.groups g ∨ ∃ p, s.Referenced p ∧ (s.item p).groupId = g

/-- A call of the statistics other than `item_link` and `item_unlink`. -/
structure Records (A : Scope) (s : CacheMgr) (c : StatCall) : Prop where
  linking : c.linking = false
  group : A.Group s c.groupId
  watched : c.watched = true → A.watched

end Scope

/-- The class table stays, and `last_class_id_` within it. -/
structure SameTable (s s' : CacheMgr) : Prop where
  classTable : s'.classTable = s.classTable
  lastClassId : s'.lastClassId ≤ max s.lastClassId s.classIdMax

/-- No chunk comes or goes, and no item changes its class, its group or its lengths. -/
structure SameChunks (s s' : CacheMgr) : Prop extends SameTable s s' where
  chunks : s'.chunks = s.chunks
  shape : ∀ p, (s'.item p).shape = (s.item p).shape
  referenced : ∀ p, s'.Referenced p ↔ s.Referenced p
  freeList : ∀ i, s'.freeList i = s.freeList i

structure QuietMove (A : Scope) (s s' : CacheMgr) : Prop extends SameChunks s s' where
  linked : ∀ p, s'.IsLinked p ↔ s.IsLinked p
  stats : ∃ cs, s'.stats = s.stats ++ cs ∧ ∀ c ∈ cs, A.Records s c

structure LinkMove (env : Env) (s : CacheMgr) (p : Ptr) (s' : CacheMgr) : Prop
    extends SameChunks s s' where
  used : s.Referenced p
  absent : ¬ s.IsLinked p
  linked : ∀ q, s'.IsLinked q ↔ s.IsLinked q ∨ q = p
  stats : s'.stats =
    s.stats ++ [.itemLink (s.item p).groupId (s.item p).classId (s.totalSize env p)]

structure DetachMove (env : Env) (A : Scope) (s : CacheMgr) (p : Ptr) (s' : CacheMgr) : Prop
    extends SameChunks s s' where
  unlinks : A.unlinks
  present : s.IsLinked p
  linked : ∀ q, s'.IsLinked q ↔ s.IsLinked q ∧ q ≠ p
  stats : s'.stats =
    s.stats ++ [.itemUnlink (s.item p).groupId (s.item p).classId (s.totalSize env p)]

/-- An item of class `id` comes out of `do_alloc`. -/
structure AllocMove (A : Scope) (s : CacheMgr) (p : Ptr) (id : Nat) (s' : CacheMgr) : Prop
    extends SameTable s s' where
  bound : id ≤ max s.lastClassId s.classIdMax
  idle : ¬ s.Referenced p
  item : ∀ q, q ≠ p → s'.item q = s.item q
  used : s'.Referenced p
  classId : (s'.item p).classId = id % 2 ^ 8
  extSize : (s'.item p).extSize < 2 ^ 8
  group : A.Group s (s'.item p).groupId
  linked : ∀ q, s'.IsLinked q ↔ s.IsLinked q
  stats : s'.stats = s.stats
  chunk : (p ∈ s.freeList id ∧ s'.chunks = s.chunks ∧ ∀ i, s'.freeList i = (s.freeList i).erase p) ∨
    (A.malloc s ∧ p = s.nextPtr ∧ (s.memUsed + s.maxSize id) % 2 ^ 64 ≤ s.memLimit ∧
      s'.chunks = (Function.update s.allocated p true, Function.update s.chunkSize p (s.maxSize id),
        s.nextPtr + 1, (s.memUsed + s.maxSize id) % 2 ^ 64, s.underflow) ∧
      ∀ i, s'.freeList i = s.freeList i)

/-- `free_item`: the chunk is kept in the free list of its class, or given back. -/
structure FreeMove (s : CacheMgr) (p : Ptr) (s' : CacheMgr) : Prop extends SameTable s s' where
  used : s.Referenced p
  absent : ¬ s.IsLinked p
  item : ∀ q, q ≠ p → s'.item q = s.item q
  idle : ¬ s'.Referenced p
  linked : ∀ q, s'.IsLinked q ↔ s.IsLinked q
  stats : s'.stats = s.stats
  chunk :
    ((s.freeList (s.item p).classId).length % 2 ^ 32 < s.freeCacheMaxCount (s.item p).classId ∧
      s'.chunks = s.chunks ∧ s'.freeList (s.item p).classId = p :: s.freeList (s.item p).classId ∧
      ∀ i, i ≠ (s.item p).classId → s'.freeList i = s.freeList i) ∨
    (s'.chunks = (Function.update s.allocated p false, s.chunkSize, s.nextPtr,
        (s.memUsed + (2 ^ 64 - s.maxSize (s.item p).classId)) % 2 ^ 64,
        s.underflow || decide (s.memUsed < s.maxSize (s.item p).classId)) ∧
      ∀ i, s'.freeList i = s.freeList i)

inductive Move (env : Env) (A : Scope) (s s' : CacheMgr) : Prop
  | quiet (h : QuietMove A s s')
  | link (p : Ptr) (h : LinkMove env s p s')
  | detach (p : Ptr) (h : DetachMove env A s p s')
  | alloc (p : Ptr) (id : Nat) (h : AllocMove A s p id s')
  | free (p : Ptr) (h : FreeMove s p s')

theorem Move.sameTable {env : Env} {A : Scope} {s s' : CacheMgr} (m : Move env A s s') :
    SameTable s s' := by
  cases m with
  | quiet h => exact h.toSameTable
  | link p h => exact h.toSameTable
  | detach p h => exact h.toSameTable
  | alloc p id h => exact h.toSameTable
  | free p h => exact h.toSameTable

/-- A sequence of moves. -/
inductive Moves (env : Env) (A : Scope) : CacheMgr → CacheMgr → Prop
  | refl (s : CacheMgr) : Moves env A s s
  | step {s s₁ s₂ : CacheMgr} (run : Moves env A s s₁) (inv : ∃ held, Inv env held s₁)
      (last : Move env A s₁ s₂) : Moves env A s s₂

namespace Moves

variable {env : Env} {A : Scope} {s s' s'' : CacheMgr}

theorem trans (h : Moves env A s s') (h' : Moves env A s' s'') : Moves env A s s'' := by
  induction h' with
  | refl => exact h
  | step _ inv last ih => exact ih.step inv last

/-- What every move keeps, the operation keeps. -/
theorem invariant {I : CacheMgr → Prop}
    (keep : ∀ s s', (∃ held, Inv env held s) → Move env A s s' → I s → I s')
    (h : Moves env A s s') (h0 : I s) : I s' := by
  induction h with
  | refl => exact h0
  | step _ inv last ih => exact keep _ _ inv last ih

end Moves

variable {env : Env} {A : Scope} {held held' : Ptr → Nat} {L L' : ListId → List Ptr}
  {s s' s₁ : CacheMgr} {p q : Ptr}

theorem Moves.single (h : Core env held L s) (m : Move env A s s') : Moves env A s s' :=
  .step (.refl s) ⟨held, L, h⟩ m

/-! ## Quiet moves -/

namespace MoveLemmas

theorem isLinked_iff (h : Core env held L s) : s.IsLinked p ↔ Linked L p := by
  rw [CacheMgr.IsLinked, h.rep.seq_eq]

theorem freeList_eq (h : Core env held L s) (i : Nat) : s.freeList i = L (.freeCache i) := by
  rw [CacheMgr.freeList, h.rep.seq_eq]

theorem sameTable_of_eq (ht : s'.classTable = s.classTable) (hl : s'.lastClassId = s.lastClassId) :
    SameTable s s' := ⟨ht, hl ▸ le_max_left _ _⟩

/-- The state changes outside of the lists, the items and the chunks. -/
theorem sameChunks_of_eq (htab : SameTable s s') (hc : s'.chunks = s.chunks)
    (hi : s'.item = s.item) (hl : s'.lists = s.lists) : SameChunks s s' where
  toSameTable := htab
  chunks := hc
  shape p := by rw [hi]
  referenced p := by rw [CacheMgr.Referenced, CacheMgr.Referenced, hi]
  freeList i := by rw [CacheMgr.freeList, CacheMgr.freeList, hl]

theorem quiet_of_eq (htab : SameTable s s') (hc : s'.chunks = s.chunks) (hi : s'.item = s.item)
    (hl : s'.lists = s.lists) (hs : s'.stats = s.stats) : QuietMove A s s' where
  toSameChunks := sameChunks_of_eq htab hc hi hl
  linked p := by rw [CacheMgr.IsLinked, CacheMgr.IsLinked, hl]
  stats := ⟨[], by rw [hs, List.append_nil], nofun⟩

theorem quiet_modify {f : CacheItem → CacheItem} (hf : (f (s.item p)).shape = (s.item p).shape)
    (hu : 0 < (f (s.item p)).refCount ↔ s.Referenced p) : QuietMove A s (s.modify p f) where
  classTable := rfl
  lastClassId := le_max_left _ _
  chunks := rfl
  shape q := by
    by_cases hq : q = p
    · subst hq
      rw [CacheMgr.item_modify_self, hf]
    · rw [CacheMgr.item_modify_of_ne s f hq]
  referenced q := by
    by_cases hq : q = p
    · subst hq
      rw [CacheMgr.Referenced, CacheMgr.item_modify_self, hu]
    · rw [CacheMgr.Referenced, CacheMgr.item_modify_of_ne s f hq, CacheMgr.Referenced]
  freeList _ := rfl
  linked _ := Iff.rfl
  stats := ⟨[], (List.append_nil _).symm, nofun⟩

end MoveLemmas

open MoveLemmas

/-- An item changes in fields that it is not charged by. -/
theorem moves_modify {f : CacheItem → CacheItem} (h : Core env held L s)
    (hf : (f (s.item p)).shape = (s.item p).shape)
    (hr : (f (s.item p)).refCount = (s.item p).refCount) : Moves env A s (s.modify p f) :=
  .single h (.quiet (quiet_modify hf (by rw [hr]; rfl)))

theorem moves_stat {c : StatCall} (h : Core env held L s) (hc : A.Records s c) :
    Moves env A s (s.stat c) :=
  .single h (.quiet {
    toSameChunks := sameChunks_of_eq (sameTable_of_eq rfl rfl) rfl rfl rfl
    linked := fun _ => Iff.rfl
    stats := ⟨[c], rfl, fun _ hc' => List.mem_singleton.mp hc' ▸ hc⟩ })

theorem moves_addWatchIf (h : Core env held L s) (w : Nat) : Moves env A s (s.addWatchIf p w) := by
  unfold CacheMgr.addWatchIf
  split
  · exact moves_modify h rfl rfl
  · exact .refl s

/-- The change from one expire list to another. -/
theorem moves_move {i j : Nat} (h : Core env held L s) (hp : p ∈ L (.expire i)) (hj : j < 34) :
    Moves env A s (s.moveExpire p i j) := by
  obtain ⟨h', -⟩ := h.move hp hj
  have hlp : Linked L p := ⟨i, hp⟩
  have hq := quiet_modify (A := A) (s := s) (p := p)
    (f := fun it => { it with expirationId := j % 2 ^ 8 }) rfl Iff.rfl
  refine .single h (.quiet { hq with freeList := fun k => ?_, linked := fun q => ?_ })
  · rw [freeList_eq h, freeList_eq h', Function.update_of_ne (by simp)]
    exact List.erase_of_not_mem ((h.used (h.pos_of_linked hlp)).2.1 k)
  · rw [isLinked_iff h, isLinked_iff h']
    exact linked_move h.rep hlp q

/-! ## References -/

/-- A further reference to an item in use. -/
theorem moves_take (h : Core env held L s) (hu : s.Referenced p)
    (hu' : (s.addReference env p).Referenced p) : Moves env A s (s.addReference env p) := by
  rw [CacheMgr.Referenced, CacheMgr.addReference, CacheMgr.item_modify_self] at hu'
  exact .single h (.quiet (quiet_modify rfl (iff_of_true hu' hu)))

namespace MoveLemmas

/-- The last reference is released. -/
theorem free_of_last (h : Core env held L s) (hu : s.Referenced p) (hn : ¬ Linked L p) :
    FreeMove s p ((s.modify p fun it => { it with refCount := 0 }).freeItem p) := by
  obtain ⟨L', hc⟩ := chunkStep_freeItem h hu hn
  have hfree : ∀ i, CacheMgr.freeList
      ((s.modify p fun it => { it with refCount := 0 }).freeItem p) i = L' (.freeCache i) := by
    intro i
    rw [CacheMgr.freeList, hc.rep.seq_eq]
  have hlink : ∀ q, CacheMgr.IsLinked
      ((s.modify p fun it => { it with refCount := 0 }).freeItem p) q ↔ s.IsLinked q := by
    intro q
    rw [CacheMgr.IsLinked, hc.rep.seq_eq, isLinked_iff h]
    exact linked_congr hc.expire q
  have hitem : ∀ q, q ≠ p → CacheMgr.item
      ((s.modify p fun it => { it with refCount := 0 }).freeItem p) q = s.item q := by
    intro q hq
    rw [hc.item, Function.update_of_ne hq]
  have hidle : ¬ CacheMgr.Referenced
      ((s.modify p fun it => { it with refCount := 0 }).freeItem p) p := by
    rw [CacheMgr.Referenced, hc.item, Function.update_self]
    exact Nat.lt_irrefl 0
  have hrep := hc.rep
  unfold CacheMgr.freeItem at hrep hfree hlink hitem hidle ⊢
  simp only [CacheMgr.assert, CacheMgr.modify, Function.update_self, Function.update_idem]
    at hrep hfree hlink hitem hidle ⊢
  have hno := h.not_mem hu hn
  split at hfree
  · next hroom =>
    rw [if_pos hroom] at hrep hlink hitem hidle ⊢
    have hL' : L' = Function.update L (.freeCache (s.item p).classId)
        (p :: L (.freeCache (s.item p).classId)) :=
      hrep.seq_eq.symm.trans (rep_pushFront h.rep _ hno).seq_eq
    refine ⟨sameTable_of_eq rfl rfl, hu, (isLinked_iff h).not.mpr hn, hitem, hidle, hlink, rfl,
      .inl ⟨?_, rfl, ?_, fun i hi => ?_⟩⟩
    · rw [freeList_eq h, ← h.rep.size]
      exact hroom
    · rw [hfree, hL', Function.update_self, freeList_eq h]
    · rw [hfree, hL', Function.update_of_ne (by simpa using hi), freeList_eq h]
  · next hroom =>
    rw [if_neg hroom] at hrep hlink hitem hidle ⊢
    have hL' : L' = L := hrep.seq_eq.symm.trans h.rep.seq_eq
    refine ⟨sameTable_of_eq rfl rfl, hu, (isLinked_iff h).not.mpr hn, hitem, hidle, hlink, rfl,
      .inr ⟨rfl, fun i => ?_⟩⟩
    rw [hfree, hL', freeList_eq h]

end MoveLemmas

/-- Releasing a reference. -/
theorem moves_release (h : Core env (bump held p) L s) :
    Moves env A s (s.doReleaseReference env p) := by
  have hrc := h.refCount p
  rw [bump_self] at hrc
  have hpos : s.Referenced p := by
    show 0 < (s.item p).refCount
    omega
  rw [h.release_eq hpos]
  split
  · next hlast =>
    have hn : ¬ Linked L p := by
      intro hl
      rw [linkCount_of_linked hl] at hrc
      omega
    exact .single h (.free p (free_of_last h hpos hn))
  · next hmore =>
    refine .single h (.quiet (quiet_modify rfl (iff_of_true ?_ hpos)))
    have hpos' : 0 < (s.item p).refCount := hpos
    show 0 < (s.item p).refCount - 1
    omega

/-! ## Allocating -/

namespace MoveLemmas

theorem classDown_le (maxSize : Nat → Nat) (size c : Nat) :
    CacheMgr.classDown maxSize size c ≤ c := by
  induction c with
  | zero => exact Nat.le_refl 0
  | succ c ih =>
    unfold CacheMgr.classDown
    split
    · exact Nat.le_refl _
    · exact Nat.le_succ_of_le ih

theorem classUp_lt {maxSize : Nat → Nat} {size c' : Nat} (n : Nat) :
    ∀ c, CacheMgr.classUp maxSize size n c = some c' → c' < c + n := by
  induction n with
  | zero => exact fun c h => nomatch h
  | succ n ih =>
    intro c h
    unfold CacheMgr.classUp at h
    split at h
    · cases h
      omega
    · have := ih (c + 1) h
      omega

/-- `get_class_id` stays within the class table. -/
theorem getClassId_le (s : CacheMgr) (size : Nat) :
    (s.getClassId size).1 ≤ max s.lastClassId s.classIdMax ∧
      (s.getClassId size).2.lastClassId ≤ max s.lastClassId s.classIdMax := by
  unfold CacheMgr.getClassId
  dsimp only
  split
  · split
    · exact ⟨le_max_left _ _, le_max_left _ _⟩
    · have hdown := classDown_le s.maxSize size (s.lastClassId - 1)
      have hle : CacheMgr.classDown s.maxSize size (s.lastClassId - 1) ≤
          max s.lastClassId s.classIdMax := by omega
      exact ⟨hle, hle⟩
  · split
    · next c hc =>
      have hup := classUp_lt _ _ hc
      have hle : c ≤ max s.lastClassId s.classIdMax := by omega
      exact ⟨hle, hle⟩
    · exact ⟨Nat.zero_le _, le_max_left _ _⟩

theorem sameTable_getClassId (s : CacheMgr) (size : Nat) : SameTable s (s.getClassId size).2 := by
  obtain ⟨c, hc⟩ := getClassId_snd s size
  refine ⟨?_, (getClassId_le s size).2⟩
  rw [hc]
  rfl

end MoveLemmas

/-- `do_alloc` has nothing to give. -/
theorem moves_alloc_none {o : Malloc} {g kl fl et ds es : Nat} (h : Core env held L s)
    (ha : s.doAlloc env o g kl fl et ds es = (none, s')) : Moves env A s s' := by
  obtain ⟨c, hc⟩ := getClassId_snd s (CacheMgr.calcItemSize env kl ds es)
  have htab := sameTable_getClassId s (CacheMgr.calcItemSize env kl ds es)
  have hs' : s' = (s.getClassId (CacheMgr.calcItemSize env kl ds es)).2 := by
    unfold CacheMgr.doAlloc at ha
    dsimp only at ha
    split at ha
    · exact (Prod.mk.inj ha).2.symm
    · split at ha
      · exact nomatch (Prod.mk.inj ha).1
      · split at ha
        · split at ha
          · exact nomatch (Prod.mk.inj ha).1
          · exact (Prod.mk.inj ha).2.symm
        · exact (Prod.mk.inj ha).2.symm
  rw [hs']
  refine .single h (.quiet (quiet_of_eq htab ?_ ?_ ?_ ?_))
  · rw [hc]
    rfl
  · rw [hc]
  · rw [hc]
  · rw [hc]

/-- `do_alloc` takes a chunk from the free list of the class, or a new one. -/
theorem moves_alloc {o : Malloc} {g kl fl et ds es : Nat} (h : Core env held L s)
    (ha : s.doAlloc env o g kl fl et ds es = (some p, s')) (hg : A.Group s g)
    (hm : o.item = true → A.malloc s) : Moves env A s s' := by
  have hspec := h.doAlloc_some ha
  obtain ⟨L', h', hL'⟩ := hspec.core
  have hlink : ∀ q, s'.IsLinked q ↔ s.IsLinked q := by
    intro q
    rw [isLinked_iff h, isLinked_iff h']
    exact linked_congr hL' q
  have hidle : ¬ s.Referenced p := by
    rw [CacheMgr.Referenced, hspec.idle]
    exact Nat.lt_irrefl 0
  have hused : s'.Referenced p := by
    rw [CacheMgr.Referenced, hspec.fresh.refCount]
    exact Nat.one_pos
  have hgroup : A.Group s (s'.item p).groupId := hspec.fresh.groupId ▸ hg
  have hext : (s'.item p).extSize < 2 ^ 8 := by
    rw [hspec.fresh.extSize]
    exact Nat.mod_lt _ (by decide)
  obtain ⟨c, hc⟩ := getClassId_snd s (CacheMgr.calcItemSize env kl ds es)
  obtain ⟨hbound, hlast⟩ := getClassId_le s (CacheMgr.calcItemSize env kl ds es)
  unfold CacheMgr.doAlloc at ha
  dsimp only at ha
  rw [hc] at ha hlast
  generalize (s.getClassId (CacheMgr.calcItemSize env kl ds es)).1 = id at ha hbound
  split at ha
  · exact nomatch (Prod.mk.inj ha).1
  · split at ha
    · next r lists hpop =>
      -- the front of the free list
      obtain ⟨hp, hs'⟩ := Prod.mk.inj ha
      obtain rfl := Option.some.inj hp
      dsimp only at hpop
      cases hfree : L (.freeCache id) with
      | nil =>
        rw [popFront_nil h.rep hfree] at hpop
        exact nomatch (Prod.mk.inj hpop).1
      | cons a as =>
        rw [popFront_cons h.rep hfree] at hpop
        obtain ⟨hq, hl⟩ := Prod.mk.inj hpop
        obtain rfl := Option.some.inj hq
        have hmem : a ∈ L (.freeCache id) := by simp [hfree]
        have hlists : s'.lists = s.lists.remove (.freeCache id) a := by
          rw [← hs', hl]
          rfl
        have hseq : s'.lists.seq = fun j => (L j).erase a := by
          rw [hlists]
          exact (rep_remove_erase h.rep hmem).seq_eq
        refine .single h (.alloc a id ⟨⟨?_, ?_⟩, hbound, hidle, hspec.item_of_ne, hused, ?_, hext, hgroup,
          hlink, ?_, .inl ⟨?_, ?_, fun i => ?_⟩⟩)
        · rw [← hs']
          rfl
        · rw [← hs']
          exact hlast
        · rw [← hs', CacheMgr.initItem, CacheMgr.item_modify_self]
          rfl
        · rw [← hs']
          rfl
        · rw [freeList_eq h]
          exact hmem
        · rw [← hs']
          rfl
        · rw [CacheMgr.freeList, hseq, freeList_eq h]
    · split at ha
      · next hlimit =>
        split at ha
        · next hgrant =>
          -- a new chunk
          obtain ⟨hp, hs'⟩ := Prod.mk.inj ha
          obtain rfl := Option.some.inj hp
          have hlists : s'.lists = s.lists := by
            rw [← hs']
            rfl
          refine .single h (.alloc s.nextPtr id ⟨⟨?_, ?_⟩, hbound, hidle, hspec.item_of_ne, hused,
            ?_, hext, hgroup, hlink, ?_, .inr ⟨hm hgrant, rfl, hlimit, ?_, fun i => ?_⟩⟩)
          · rw [← hs']
            rfl
          · rw [← hs']
            exact hlast
          · rw [← hs', CacheMgr.initItem, CacheMgr.item_modify_self]
            rfl
          · rw [← hs']
            rfl
          · rw [← hs']
            rfl
          · rw [CacheMgr.freeList, CacheMgr.freeList, hlists]
        · exact nomatch (Prod.mk.inj ha).1
      · exact nomatch (Prod.mk.inj ha).1

/-- The copies into a new item. -/
theorem moves_copyInto (h : Core env held L s) (n r : Ptr) (first second ext : Bytes) :
    Moves env A s (s.copyInto n r first second ext) := by
  obtain ⟨body, hbody⟩ := CacheItem.copy_eq (s.item n) (s.item r).key first second ext
  have hq := quiet_modify (A := A) (s := s) (p := n)
    (f := fun it => it.copy (s.item r).key first second ext) (by rw [hbody]; rfl)
    (by rw [hbody]; rfl)
  exact .single h (.quiet {
    classTable := rfl
    lastClassId := le_max_left _ _
    chunks := rfl
    shape := hq.shape
    referenced := hq.referenced
    freeList := fun _ => rfl
    linked := fun _ => Iff.rfl
    stats := ⟨[], (List.append_nil _).symm, nofun⟩ })

/-! ## Linking and unlinking -/

/-- `do_link` of an item in use that is not linked. -/
theorem moves_link {o : Malloc} (h : Core env held L s) (hu : s.Referenced p) (hn : ¬ Linked L p)
    (hu' : (s.doLink env o p).Referenced p) : Moves env A s (s.doLink env o p) := by
  have hno := h.not_mem hu hn
  have hself : (s.doLink env o p).item p = linkedItem env s p := by
    rw [doLink_eq]
    exact Function.update_self ..
  have hne : ∀ q, q ≠ p → (s.doLink env o p).item q = s.item q := by
    intro q hq
    rw [doLink_eq]
    exact Function.update_of_ne hq ..
  have hseq : (s.doLink env o p).lists.seq = Function.update L (.expire (s.item p).expirationId)
      (L (.expire (s.item p).expirationId) ++ [p]) := by
    rw [doLink_eq]
    exact (rep_pushBack h.rep _ hno).seq_eq
  refine .single h (.link p ⟨⟨sameTable_of_eq ?_ ?_, ?_, fun q => ?_, fun q => ?_, fun i => ?_⟩, hu,
    (isLinked_iff h).not.mpr hn, fun q => ?_, ?_⟩)
  · rw [doLink_eq]
    rfl
  · rw [doLink_eq]
  · rw [doLink_eq]
    rfl
  · by_cases hq : q = p
    · subst hq
      rw [hself]
      rfl
    · rw [hne q hq]
  · by_cases hq : q = p
    · subst hq
      exact iff_of_true hu' hu
    · rw [CacheMgr.Referenced, hne q hq, CacheMgr.Referenced]
  · rw [CacheMgr.freeList, hseq, Function.update_of_ne (by simp), freeList_eq h]
  · rw [CacheMgr.IsLinked, hseq, isLinked_iff h]
    exact linked_push L _ _ p q fun q => by simp
  · rw [doLink_eq]

namespace MoveLemmas

theorem detach_move (h : Core env held L s) (hp : Linked L p) (hA : A.unlinks) :
    DetachMove env A s p (s.detach env p) := by
  have h' := core_detach h hp
  have hq : SameChunks s (s.detach env p) := {
    classTable := rfl
    lastClassId := le_max_left _ _
    chunks := rfl
    shape := fun _ => rfl
    referenced := fun _ => Iff.rfl
    freeList := fun i => by
      rw [freeList_eq h', freeList_eq h]
      exact List.erase_of_not_mem ((h.used (h.pos_of_linked hp)).2.1 i) }
  refine ⟨hq, hA, (isLinked_iff h).mpr hp, fun q => ?_, rfl⟩
  rw [isLinked_iff h', isLinked_iff h]
  exact linked_erase h.rep q

end MoveLemmas

/-- The loop of `notify_watch` touches the watches only. -/
theorem moves_notifyWatch (h : Core env held L s) (t : NotifyType) :
    Moves env A s (s.notifyWatch p t) := by
  cases hw : (s.item p).watchItem with
  | none =>
    rw [CacheMgr.notifyWatch, hw]
    exact .refl s
  | some ws =>
    obtain ⟨s₁, he, hs₁, -⟩ := notifyWatch_spec env hw t
    have h₁ : Core env held L s₁ := by
      rw [hs₁]
      exact h
    rw [he]
    have hm : Moves env A s s₁ := by
      rw [hs₁]
      exact .single h (.quiet (quiet_of_eq (sameTable_of_eq rfl rfl) rfl rfl rfl rfl))
    exact hm.trans (moves_modify h₁ rfl rfl)

/-- `do_unlink` of a linked item. -/
theorem moves_unlink (h : Core env held L s) (hp : Linked L p) (hA : A.unlinks) (t : NotifyType) :
    Moves env A s (s.doUnlink env p t) := by
  have hnd : ¬ Linked (fun j => (L j).erase p) p := fun hl => ((linked_erase h.rep p).mp hl).2 rfl
  have h₁ := core_detach h hp
  have hpos := h.pos_of_linked hp
  obtain ⟨h₂, -⟩ := core_dropWatch h₁ hpos hnd t
  have hdrop : Moves env A (s.detach env p) ((s.detach env p).dropWatch p t) := by
    unfold CacheMgr.dropWatch
    split
    · next hw =>
      obtain ⟨ws, hws⟩ := Option.isSome_iff_exists.mp hw
      refine (moves_notifyWatch (p := p) h₁ t).trans ?_
      obtain ⟨s₁, he, hs₁, -⟩ := notifyWatch_spec env hws t
      have hc : Core env (bump held p) (fun j => (L j).erase p) s₁ := by
        rw [hs₁]
        exact h₁
      have hi : s₁.item = (s.detach env p).item := by rw [hs₁]
      rw [he]
      exact moves_modify (hc.modify (by rw [hi]; exact hpos) rfl rfl fun _ => rfl) rfl rfl
    · exact .refl _
  exact ((Moves.single h (.detach p (detach_move h hp hA))).trans hdrop).trans (moves_release h₂)

end Xixi
