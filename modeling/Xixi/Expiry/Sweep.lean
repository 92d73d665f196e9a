import Xixi.Failure

/-!
# What a sweep does to each item

`expire_items` goes through the expire lists that are due, from the first to the last but one.
An item of a list that is due is unlinked, or moved to a list with a smaller number (or to the
front of the same list), so no item is met twice.

1. `Untouched`, `Visited`: what may happen to an item.
2. `expireLoop_items`, `expireItems_items`: an item is visited if its list is due, and it is
   left alone otherwise.
3. `checkExpired_items`: the same for `check_expired`, with the times afterwards.
-/

namespace Xixi

open Xixi.Lists StepLemmas RefinementLemmas SweepLemmas CacheMgr

variable {env : Env} {held : Ptr → Nat} {L L₁ L₂ : ListId → List Ptr} {s s₁ s₂ : CacheMgr}
  {now i : Nat} {p q : Ptr}

/-- The item is as it was, and linked if it was linked. -/
structure Untouched (L : ListId → List Ptr) (s : CacheMgr) (L' : ListId → List Ptr) (s' : CacheMgr)
    (q : Ptr) : Prop where
  linked : Linked L' q ↔ Linked L q
  item : s'.item q = s.item q

/-- What the walk over the list `i` does to an item of it: the item is unlinked if it is due,
and it is in a list whose period fits into the time that is left otherwise. -/
structure Visited (now i : Nat) (s : CacheMgr) (L' : ListId → List Ptr) (s' : CacheMgr) (q : Ptr) :
    Prop where
  linked : Linked L' q ↔ now < (s.item q).expireTime
  expireTime : Linked L' q → (s'.item q).expireTime = (s.item q).expireTime
  list : Linked L' q → (s'.item q).expirationId ≤ i
  period : Linked L' q →
    now + expirationTime (s'.item q).expirationId ≤ (s.item q).expireTime

namespace Untouched

theorem refl (L : ListId → List Ptr) (s : CacheMgr) (q : Ptr) : Untouched L s L s q := ⟨.rfl, rfl⟩

theorem trans (h : Untouched L s L₁ s₁ q) (h' : Untouched L₁ s₁ L₂ s₂ q) : Untouched L s L₂ s₂ q :=
  ⟨h'.linked.trans h.linked, h'.item.trans h.item⟩

theorem visited (h : Untouched L s L₁ s₁ q) (h' : Visited now i s₁ L₂ s₂ q) :
    Visited now i s L₂ s₂ q := by
  obtain ⟨hlinked, htime, hlist, hperiod⟩ := h'
  rw [h.item] at hlinked htime hperiod
  exact ⟨hlinked, htime, hlist, hperiod⟩

end Untouched

theorem Visited.untouched (h : Visited now i s L₁ s₁ q) (h' : Untouched L₁ s₁ L₂ s₂ q) :
    Visited now i s L₂ s₂ q := by
  obtain ⟨hlinked, htime, hlist, hperiod⟩ := h
  rw [← h'.linked] at hlinked htime hlist hperiod
  rw [← h'.item] at htime hlist hperiod
  exact ⟨hlinked, htime, hlist, hperiod⟩

namespace ExpiryLemmas

/-- An item that is not due fits into some list. -/
theorem rebucket_some {x : Nat} (hx : 0 < x) (i : Nat) :
    ∃ j ≤ i, rebucket x i = some j ∧ expirationTime j ≤ x := by
  induction i with
  | zero => exact ⟨0, Nat.le_refl 0, if_pos hx, hx⟩
  | succ i ih =>
    unfold rebucket
    split
    · next hle => exact ⟨i + 1, Nat.le_refl _, rfl, hle⟩
    · obtain ⟨j, hj, hr, hle⟩ := ih
      exact ⟨j, Nat.le_succ_of_le hj, hr, hle⟩

/-- The walk unlinks the item it stands at. -/
theorem unlink_items (h : Core env held L s) {done rest : List Ptr}
    (hi : L (.expire i) = done ++ p :: rest) (hdue : (s.item p).expireTime ≤ now) :
    ∃ L', Core env held L' (s.doUnlink env p .expired) ∧ L' (.expire i) = done ++ rest ∧
      (∀ q, q ≠ p → Untouched L s L' (s.doUnlink env p .expired) q) ∧
      Visited now i s L' (s.doUnlink env p .expired) p := by
  have hp : Linked L p := ⟨i, by simp [hi]⟩
  obtain ⟨L', h', hL', -⟩ := h.unlink hp .expired
  have hlinked (q : Ptr) : Linked L' q ↔ Linked L q ∧ q ≠ p :=
    (linked_congr hL' q).trans (linked_erase h.rep q)
  have hgone : ¬ Linked L' p := fun hl => ((hlinked p).mp hl).2 rfl
  refine ⟨L', h', ?_, fun q hq => ⟨?_, item_unlink_of_ne env s .expired hq⟩, ?_⟩
  · rw [hL', hi, erase_middle (hi ▸ h.rep.nodup _)]
  · rw [hlinked]
    exact ⟨And.left, fun hl => ⟨hl, hq⟩⟩
  · exact ⟨iff_of_false hgone (Nat.not_lt.mpr hdue), fun hl => absurd hl hgone,
      fun hl => absurd hl hgone, fun hl => absurd hl hgone⟩

/-- The walk moves the item it stands at. -/
theorem move_items (h : Core env held L s) {j : Nat} {done rest : List Ptr}
    (hi : L (.expire i) = done ++ p :: rest) (hi34 : i < 34) (hj : j ≤ i)
    (hlt : now < (s.item p).expireTime) (hperiod : expirationTime j ≤ (s.item p).expireTime - now) :
    ∃ L' done', Core env held L' (s.moveExpire p i j) ∧ L' (.expire i) = done' ++ rest ∧
      (∀ q, q ≠ p → Untouched L s L' (s.moveExpire p i j) q) ∧
      Visited now i s L' (s.moveExpire p i j) p := by
  have hp : p ∈ L (.expire i) := by simp [hi]
  have hmod : j % 2 ^ 8 = j := by omega
  obtain ⟨h', -⟩ := h.move hp (Nat.lt_of_le_of_lt hj hi34)
  obtain ⟨done', hrest⟩ := rest_of_move (j := j) h hi
  have hlinked (q : Ptr) := linked_move (i := j) h.rep ⟨i, hp⟩ q
  refine ⟨_, done', h', hrest, fun q hq => ⟨hlinked q, ?_⟩, iff_of_true ?_ hlt, fun _ => ?_,
    fun _ => ?_, fun _ => ?_⟩
  · exact congrArg Prod.fst (slot_moveExpire s i j hq)
  · exact (hlinked p).mpr ⟨i, hp⟩
  · rw [item_moveExpire_self]
  · rw [item_moveExpire_self]
    show j % 2 ^ 8 ≤ i
    rw [hmod]
    exact hj
  · rw [item_moveExpire_self]
    show now + expirationTime (j % 2 ^ 8) ≤ _
    rw [hmod]
    omega

/-- The walk over one list: induction on what is left of it. -/
theorem expireLoop_items (now : Nat) (hi34 : i < 34) (rest : List Ptr) :
    ∀ (n : Nat) (done : List Ptr) (L : ListId → List Ptr) (s : CacheMgr), Core env held L s →
      L (.expire i) = done ++ rest → rest.length ≤ n →
      ∃ L', Core env held L' (expireLoop env now i n rest.head? s) ∧
        (∀ q, q ∉ rest → Untouched L s L' (expireLoop env now i n rest.head? s) q) ∧
        ∀ q ∈ rest, Visited now i s L' (expireLoop env now i n rest.head? s) q := by
  induction rest with
  | nil =>
    intro n done L s h _ _
    have hloop : expireLoop env now i n none s = s := by cases n <;> rfl
    rw [List.head?_nil, hloop]
    exact ⟨L, h, fun q _ => .refl L s q, nofun⟩
  | cons p rest ih =>
    intro n done L s h hi hn
    obtain ⟨n, rfl⟩ : ∃ m, n = m + 1 := ⟨n - 1, by simp only [List.length_cons] at hn; omega⟩
    have hn' : rest.length ≤ n := by simpa using hn
    have hp : p ∉ rest := by
      have hnodup : (done ++ p :: rest).Nodup := hi ▸ h.rep.nodup _
      exact (List.nodup_cons.mp (List.nodup_append.mp hnodup).2.1).1
    -- the item at the front of the rest is dealt with, and the walk goes on
    have hgo : ∀ (L₁ : ListId → List Ptr) (s₁ : CacheMgr) (done' : List Ptr),
        Core env held L₁ s₁ → L₁ (.expire i) = done' ++ rest →
        (∀ q, q ≠ p → Untouched L s L₁ s₁ q) → Visited now i s L₁ s₁ p →
        ∃ L', Core env held L' (expireLoop env now i n rest.head? s₁) ∧
          (∀ q, q ∉ p :: rest → Untouched L s L' (expireLoop env now i n rest.head? s₁) q) ∧
          ∀ q ∈ p :: rest, Visited now i s L' (expireLoop env now i n rest.head? s₁) q := by
      intro L₁ s₁ done' h₁ hi₁ hothers hself
      obtain ⟨L', h', hout, hin⟩ := ih n done' L₁ s₁ h₁ hi₁ hn'
      refine ⟨L', h', fun q hq => ?_, fun q hq => ?_⟩
      · rw [List.mem_cons, not_or] at hq
        exact (hothers q hq.1).trans (hout q hq.2)
      · rcases List.mem_cons.mp hq with rfl | hq
        · exact hself.untouched (hout q hp)
        · have hne : q ≠ p := fun he => hp (he ▸ hq)
          exact (hothers q hne).visited (hin q hq)
    rw [List.head?_cons]
    simp only [expireLoop, next_eq h hi]
    by_cases hdue : (s.item p).expireTime ≤ now
    · rw [if_pos hdue]
      obtain ⟨L₁, h₁, hi₁, hothers, hself⟩ := unlink_items h hi hdue
      exact hgo L₁ _ done h₁ hi₁ hothers hself
    · rw [if_neg hdue]
      obtain ⟨j, hj, hr, hperiod⟩ := rebucket_some (x := (s.item p).expireTime - now) (by omega) i
      rw [hr]
      obtain ⟨L₁, done', h₁, hi₁, hothers, hself⟩ :=
        move_items h hi hi34 hj (Nat.not_le.mp hdue) hperiod
      exact hgo L₁ _ done' h₁ hi₁ hothers hself

end ExpiryLemmas

open ExpiryLemmas

/-- The item is in one of the first `n` lists, and its list is due. -/
def CacheMgr.Due (s : CacheMgr) (now n : Nat) (q : Ptr) : Prop :=
  (s.item q).expirationId < n ∧ s.expireCheckTime (s.item q).expirationId ≤ now

/-- What the sweep at the time `now` has done after the first `n` lists. -/
structure Swept (env : Env) (held : Ptr → Nat) (now n : Nat) (L : ListId → List Ptr) (s : CacheMgr)
    (L' : ListId → List Ptr) (s' : CacheMgr) : Prop where
  core : Core env held L' s'
  currTime : s'.currTime = s.currTime
  lastCheckExpiredTime : s'.lastCheckExpiredTime = s.lastCheckExpiredTime
  expireCheckTime : ∀ i, s'.expireCheckTime i = if i < n ∧ s.expireCheckTime i ≤ now then
    realtime now (expirationTime i) else s.expireCheckTime i
  visited : ∀ q, Linked L q → s.Due now n q → Visited now (s.item q).expirationId s L' s' q
  untouched : ∀ q, ¬ (Linked L q ∧ s.Due now n q) → Untouched L s L' s' q

/-- A list that the walk has not come to is as it was before the sweep. -/
theorem Swept.mem_list {n : Nat} (h : Swept env held now n L s L₁ s₁) (q : Ptr) :
    q ∈ L₁ (.expire n) ↔ Linked L q ∧ (s.item q).expirationId = n := by
  constructor
  · intro hq
    have hlist : (s₁.item q).expirationId = n := h.core.expirationId hq
    by_cases hd : Linked L q ∧ s.Due now n q
    · have hle := (h.visited q hd.1 hd.2).list ⟨n, hq⟩
      have hlt := hd.2.1
      omega
    · have hsame := h.untouched q hd
      rw [hsame.item] at hlist
      exact ⟨hsame.linked.mp ⟨n, hq⟩, hlist⟩
  · rintro ⟨hl, hlist⟩
    have hsame := h.untouched q fun hd => absurd hd.2.1 (by omega)
    have hm := h.core.mem_of_linked (hsame.linked.mpr hl)
    rw [hsame.item, hlist] at hm
    exact hm

namespace ExpiryLemmas

/-- One round of the sweep. -/
theorem expireList_items (now : Nat) (h : Core env held L s) (hi34 : i < 34) :
    ∃ L', Core env held L' (expireList env now s i) ∧
      (expireList env now s i).times = (s.currTime, (if s.expireCheckTime i ≤ now then
        Function.update s.expireCheckTime i (realtime now (expirationTime i))
        else s.expireCheckTime), s.lastCheckExpiredTime) ∧
      (∀ q, q ∈ L (.expire i) → s.expireCheckTime i ≤ now →
        Visited now i s L' (expireList env now s i) q) ∧
      ∀ q, ¬ (q ∈ L (.expire i) ∧ s.expireCheckTime i ≤ now) →
        Untouched L s L' (expireList env now s i) q := by
  unfold expireList
  by_cases hdue : s.expireCheckTime i ≤ now
  · let s₁ := { s with
      expireCheckTime :=
        Function.update s.expireCheckTime i (realtime now (expirationTime i)) }
    have hloop := expireLoop_items now hi34 (L (.expire i)) s₁.nextPtr [] L s₁ h rfl
      (length_le_nextPtr h i)
    have htimes := (tells_expireLoop env s₁ now i s₁.nextPtr (L (.expire i)).head?).times
    rw [← front_eq h] at hloop htimes
    obtain ⟨L', h', hout, hin⟩ := hloop
    rw [if_pos hdue, if_pos hdue]
    refine ⟨L', h', htimes, fun q hq _ => ?_, fun q hq => ?_⟩
    · obtain ⟨hlinked, htime, hlist, hperiod⟩ := hin q hq
      exact ⟨hlinked, htime, hlist, hperiod⟩
    · obtain ⟨hlinked, hitem⟩ := hout q fun hm => hq ⟨hm, hdue⟩
      exact ⟨hlinked, hitem⟩
  · rw [if_neg hdue, if_neg hdue]
    exact ⟨L, h, rfl, fun _ _ hd => absurd hd hdue, fun q _ => .refl L s q⟩

/-- The rounds of the sweep: an item that has been visited is behind the walk. -/
theorem expireItems_items (now : Nat) (h : Core env held L s) (n : Nat) (hn : n ≤ 34) :
    ∃ L', Swept env held now n L s L' ((List.range n).foldl (expireList env now) s) := by
  induction n with
  | zero =>
    refine ⟨L, h, rfl, rfl, fun i => ?_, fun q _ hd => ?_, fun q _ => .refl L s q⟩
    · rw [if_neg fun hi => absurd hi.1 (Nat.not_lt_zero i)]
      rfl
    · exact absurd hd.1 (Nat.not_lt_zero _)
  | succ n ih =>
    obtain ⟨L₁, h₁⟩ := ih (by omega)
    rw [List.range_succ, List.foldl_append, List.foldl_cons, List.foldl_nil]
    generalize (List.range n).foldl (expireList env now) s = s₁ at h₁
    obtain ⟨L₂, h₂, htimes, hin, hout⟩ := expireList_items now h₁.core (i := n) (by omega)
    generalize expireList env now s₁ n = s₂ at h₂ htimes hin hout
    have hcheck : s₁.expireCheckTime n = s.expireCheckTime n := by
      rw [h₁.expireCheckTime, if_neg fun hi => absurd hi.1 (Nat.lt_irrefl n)]
    rw [hcheck] at htimes hin hout
    have hmem := h₁.mem_list
    refine ⟨L₂, h₂, ?_, ?_, fun i => ?_, fun q hl hd => ?_, fun q hq => ?_⟩
    · exact (congrArg Prod.fst htimes).trans h₁.currTime
    · exact (congrArg (·.2.2) htimes).trans h₁.lastCheckExpiredTime
    · have hi : s₂.expireCheckTime i = (if s.expireCheckTime n ≤ now then Function.update
          s₁.expireCheckTime n (realtime now (expirationTime n)) else s₁.expireCheckTime) i :=
        congrFun (congrArg (·.2.1) htimes) i
      rw [hi]
      by_cases hin' : i = n
      · subst hin'
        split
        · next hd => rw [Function.update_self, if_pos ⟨Nat.lt_succ_self i, hd⟩]
        · next hd => rw [hcheck, if_neg fun hi => hd hi.2]
      · have hlt : i < n + 1 ↔ i < n := by omega
        simp only [hlt, ← h₁.expireCheckTime]
        split
        · exact Function.update_of_ne hin' ..
        · rfl
    · obtain ⟨hlt, hdue⟩ := hd
      by_cases hlist : (s.item q).expirationId = n
      · have hsame := h₁.untouched q fun hd => absurd hd.2.1 (by omega)
        rw [hlist] at hdue ⊢
        exact hsame.visited (hin q ((hmem q).mpr ⟨hl, hlist⟩) hdue)
      · have hvisited := h₁.visited q hl ⟨by omega, hdue⟩
        exact hvisited.untouched (hout q fun hm => hlist ((hmem q).mp hm.1).2)
    · have hsame := h₁.untouched q fun hd => hq ⟨hd.1, Nat.lt_succ_of_lt hd.2.1, hd.2.2⟩
      refine hsame.trans (hout q fun hm => ?_)
      obtain ⟨hl, hlist⟩ := (hmem q).mp hm.1
      exact hq ⟨hl, by omega, by rw [hlist]; exact hm.2⟩

end ExpiryLemmas

/-- `check_expired` at a new time. -/
theorem checkExpired_items (h : Core env held L s) (hnew : s.currTime ≠ s.lastCheckExpiredTime) :
    ∃ L', Swept env held s.currTime 33 L { s with lastCheckExpiredTime := s.currTime } L'
      (s.checkExpired env) := by
  let s₁ := CacheMgr.expireWatchs { s with lastCheckExpiredTime := s.currTime } s.currTime
  obtain ⟨L', h'⟩ := expireItems_items (s := s₁) s.currTime h 33 (by omega)
  have hrun : s.checkExpired env = (List.range 33).foldl (expireList env s.currTime) s₁ := by
    rw [checkExpired, if_pos hnew]
    exact freeFlushedItems_eq h'.core
  rw [hrun]
  refine ⟨L', h'.core, h'.currTime, h'.lastCheckExpiredTime, h'.expireCheckTime,
    fun q hl hd => ?_, fun q hq => ?_⟩
  · obtain ⟨hlinked, htime, hlist, hperiod⟩ := h'.visited q hl hd
    exact ⟨hlinked, htime, hlist, hperiod⟩
  · obtain ⟨hlinked, hitem⟩ := h'.untouched q hq
    exact ⟨hlinked, hitem⟩

end Xixi
