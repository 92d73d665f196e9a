import Xixi.Refinement.Update

/-!
# The cache manager refines the abstract store: sweeps

`flush` and `expire_items` walk the expire lists and unlink items on the way. The
pointer to the next item is read before the current one is unlinked or moved, so
the walk sees what was in the list when it began.

1. `flush_refines`: the keys of the group are unlinked, counted and measured.
2. `checkExpired_refines`: expired watches go first, then items that are due.
-/

namespace Xixi

open Xixi.Lists StepLemmas RefinementLemmas

variable {env : Env} {held : Ptr → Nat} {L L' : ListId → List Ptr} {s s' : CacheMgr}
  {p q : Ptr} {k : Key} {e : Entry}

/-- `total_size` of the entry of a key. -/
def Store.totalSize (env : Env) (st : Store) (k : Key) : Nat :=
  (st.entry k).elim 0 fun e =>
    (env.sizeofItem + k.2.length + e.data.length + e.ext.length) % 2 ^ 32

/-- The lists of `s'` are parts of those of `s`, what is in them is unchanged, and so
is what was not linked before. -/
structure Shrinks (L : ListId → List Ptr) (s : CacheMgr) (L' : ListId → List Ptr) (s' : CacheMgr) :
    Prop where
  expire : ∀ i p, p ∈ L' (.expire i) → p ∈ L (.expire i) ∧ s'.item p = s.item p
  slot : ∀ q, ¬ Linked L q → s'.slot q = s.slot q

namespace SweepLemmas

theorem length_le_nextPtr (h : Core env held L s) (i : Nat) :
    (L (.expire i)).length ≤ s.nextPtr := by
  have hsub : (L (.expire i)).toFinset ⊆ Finset.range s.nextPtr := by
    intro p hp
    rw [List.mem_toFinset] at hp
    exact Finset.mem_range.mpr (h.lt_nextPtr (h.pos_of_linked ⟨i, hp⟩))
  have := Finset.card_le_card hsub
  rwa [List.toFinset_card_of_nodup (h.rep.nodup _), Finset.card_range] at this

theorem front_eq (h : Core env held L s) (i : ListId) : s.lists.front i = (L i).head? :=
  ListLemmas.head_eq h.rep i

theorem next_eq (h : Core env held L s) {i : Nat} {done rest : List Ptr}
    (hi : L (.expire i) = done ++ p :: rest) : s.lists.next p = rest.head? :=
  ListLemmas.next_eq h.rep hi

theorem shrinks_trans {L₁ L₂ L₃ : ListId → List Ptr} {s₁ s₂ s₃ : CacheMgr}
    (h : Shrinks L₁ s₁ L₂ s₂) (h' : Shrinks L₂ s₂ L₃ s₃) : Shrinks L₁ s₁ L₃ s₃ := by
  refine ⟨fun i p hp => ?_, fun q hq => ?_⟩
  · obtain ⟨hp, hi⟩ := h'.expire i p hp
    obtain ⟨hp, hi'⟩ := h.expire i p hp
    exact ⟨hp, hi.trans hi'⟩
  · have hq' : ¬ Linked L₂ q := fun ⟨i, hi⟩ => hq ⟨i, (h.expire i q hi).1⟩
    exact (h'.slot q hq').trans (h.slot q hq)

theorem erase_middle {done rest : List Ptr} (h : (done ++ p :: rest).Nodup) :
    (done ++ p :: rest).erase p = done ++ rest := by
  have hp : p ∉ done := by
    intro hm
    exact (List.nodup_append.mp h).2.2 p hm p (List.mem_cons_self ..) rfl
  rw [List.erase_append_right _ hp, List.erase_cons_head]

/-- The walk unlinks the item it stands at. -/
theorem unlink_visited (h : Core env held L s) {i : Nat} {done rest : List Ptr}
    (hi : L (.expire i) = done ++ p :: rest) (t : NotifyType) :
    ∃ L', Core env held L' (s.doUnlink env p t) ∧ L' (.expire i) = done ++ rest ∧
      Shrinks L s L' (s.doUnlink env p t) ∧
      (abs env s).entry (s.item p).ident = some ((s.item p).entry p) ∧
      abs env (s.doUnlink env p t) = (abs env s).unlink (s.item p).ident t := by
  have hp : Linked L p := ⟨i, by simp [hi]⟩
  obtain ⟨L', h', hL', ha⟩ := h.unlink hp t
  refine ⟨L', h', ?_, ⟨fun j q hq => ?_, fun q hq => ?_⟩, abs_entry_of_linked h hp, ha⟩
  · rw [hL', hi, erase_middle (hi ▸ h.rep.nodup _)]
  · rw [hL', (h.rep.nodup _).mem_erase_iff] at hq
    exact ⟨hq.2, CacheMgr.item_unlink_of_ne env s t hq.1⟩
  · exact CacheMgr.slot_unlink env s t fun he => hq (he ▸ hp)

end SweepLemmas

open SweepLemmas

/-! ## `flush` -/

/-- What a walk over the lists has unlinked. -/
structure Flushed (env : Env) (held : Ptr → Nat) (g : Nat) (L : ListId → List Ptr)
    (r : Nat × Nat × CacheMgr) (ks : List Key) (L' : ListId → List Ptr)
    (r' : Nat × Nat × CacheMgr) : Prop where
  core : Core env held L' r'.2.2
  abs : abs env r'.2.2 = (abs env r.2.2).unlinkAll .flushed ks
  shrinks : Shrinks L r.2.2 L' r'.2.2
  nodup : ks.Nodup
  keys : ∀ k ∈ ks, k.1 = g ∧ ((Xixi.abs env r.2.2).entry k).isSome
  count : r'.1 % 2 ^ 32 = (r.1 + ks.length) % 2 ^ 32
  size : r'.2.1 % 2 ^ 64 =
    (r.2.1 + (ks.map ((Xixi.abs env r.2.2).totalSize env)).sum) % 2 ^ 64

namespace SweepLemmas

theorem flushed_refl {g : Nat} {r : Nat × Nat × CacheMgr} (h : Core env held L r.2.2) :
    Flushed env held g L r [] L r where
  core := h
  abs := rfl
  shrinks := ⟨fun _ _ hp => ⟨hp, rfl⟩, fun _ _ => rfl⟩
  nodup := List.nodup_nil
  keys := nofun
  count := rfl
  size := by simp

theorem flushed_trans {g : Nat} {L₁ L₂ L₃ : ListId → List Ptr} {r₁ r₂ r₃ : Nat × Nat × CacheMgr}
    {ks ks' : List Key} (h : Flushed env held g L₁ r₁ ks L₂ r₂)
    (h' : Flushed env held g L₂ r₂ ks' L₃ r₃) : Flushed env held g L₁ r₁ (ks ++ ks') L₃ r₃ := by
  -- a key that is unlinked later was there before, under the same entry
  have hsame : ∀ k ∈ ks', k ∉ ks ∧ (abs env r₂.2.2).entry k = (abs env r₁.2.2).entry k := by
    intro k hk
    have hs := (h'.keys k hk).2
    rw [h.abs, Store.entry_unlinkAll] at hs ⊢
    by_cases hm : k ∈ ks
    · rw [if_pos hm] at hs
      exact nomatch hs
    · exact ⟨hm, if_neg hm⟩
  have hsize : ks'.map ((abs env r₂.2.2).totalSize env) =
      ks'.map ((abs env r₁.2.2).totalSize env) := by
    refine List.map_congr_left fun k hk => ?_
    rw [Store.totalSize, (hsame k hk).2]
    rfl
  refine ⟨h'.core, ?_, shrinks_trans h.shrinks h'.shrinks, ?_, fun k hk => ?_, ?_, ?_⟩
  · rw [h'.abs, h.abs, Store.unlinkAll_append]
  · refine List.nodup_append.mpr ⟨h.nodup, h'.nodup, fun a ha b hb he => ?_⟩
    exact (hsame b hb).1 (he ▸ ha)
  · rcases List.mem_append.mp hk with hk | hk
    · exact h.keys k hk
    · obtain ⟨hg, hs⟩ := h'.keys k hk
      exact ⟨hg, (hsame k hk).2 ▸ hs⟩
  · have h1 := h.count
    have h2 := h'.count
    rw [List.length_append]
    omega
  · have h1 := h.size
    have h2 := h'.size
    rw [hsize] at h2
    rw [List.map_append, List.sum_append]
    omega

theorem totalSize_eq (h : Core env held L s) (hp : Linked L p) :
    (abs env s).totalSize env (s.item p).ident = s.totalSize env p := by
  rw [Store.totalSize, abs_entry_of_linked h hp]
  show (env.sizeofItem + (s.item p).key.length + (s.item p).data.length + (s.item p).ext.length) %
    2 ^ 32 = _
  rw [CacheItem.length_key, CacheItem.length_data, CacheItem.length_ext]
  rfl

/-- The walk over one list: induction on what is left of it. -/
theorem flushLoop_spec {g i : Nat} (rest : List Ptr) :
    ∀ (n : Nat) (done : List Ptr) (L : ListId → List Ptr) (r : Nat × Nat × CacheMgr),
      Core env held L r.2.2 → L (.expire i) = done ++ rest → rest.length ≤ n →
      (∀ p ∈ done, (r.2.2.item p).groupId ≠ g) →
      ∃ ks L', Flushed env held g L r ks L' (CacheMgr.flushLoop env g n rest.head? r) ∧
        ∀ p ∈ L' (.expire i),
          ((CacheMgr.flushLoop env g n rest.head? r).2.2.item p).groupId ≠ g := by
  induction rest with
  | nil =>
    intro n done L r h hi _ hdone
    have hloop : CacheMgr.flushLoop env g n none r = r := by cases n <;> rfl
    rw [List.head?_nil, hloop]
    refine ⟨[], L, flushed_refl h, fun p hp => hdone p ?_⟩
    rwa [hi, List.append_nil] at hp
  | cons p rest ih =>
    intro n done L r h hi hn hdone
    obtain ⟨c, z, s⟩ := r
    obtain ⟨n, rfl⟩ : ∃ m, n = m + 1 := ⟨n - 1, by simp only [List.length_cons] at hn; omega⟩
    have hn' : rest.length ≤ n := by simpa using hn
    have hnext : s.lists.next p = rest.head? := next_eq h hi
    rw [List.head?_cons]
    simp only [CacheMgr.flushLoop, hnext]
    by_cases hg : (s.item p).groupId = g
    · rw [if_pos hg]
      have hp : Linked L p := ⟨i, by simp [hi]⟩
      obtain ⟨L₁, h₁, hi₁, hsh, he, ha⟩ := unlink_visited h hi .flushed
      have hstep : Flushed env held g L (c, z, s) [(s.item p).ident] L₁
          ((c + 1) % 2 ^ 32, (z + s.totalSize env p) % 2 ^ 64, s.doUnlink env p .flushed) := by
        refine ⟨h₁, ha, hsh, List.nodup_singleton _, fun k hk => ?_, ?_, ?_⟩
        · obtain rfl := List.mem_singleton.mp hk
          exact ⟨hg, by rw [he]; rfl⟩
        · exact Nat.mod_mod ..
        · simp only [List.map_cons, List.map_nil, List.sum_cons, List.sum_nil, Nat.add_zero,
            totalSize_eq h hp]
          exact Nat.mod_mod ..
      obtain ⟨ks, L', hfl, hout⟩ := ih n done L₁ (_, _, s.doUnlink env p .flushed) h₁ hi₁ hn'
        fun q hq => by
        have hq₁ : q ∈ L₁ (.expire i) := by
          rw [hi₁]
          exact List.mem_append_left _ hq
        rw [(hsh.expire i q hq₁).2]
        exact hdone q hq
      exact ⟨_, L', flushed_trans hstep hfl, hout⟩
    · rw [if_neg hg]
      refine ih n (done ++ [p]) L (c, z, s) h (by simpa using hi) hn' fun q hq => ?_
      rcases List.mem_append.mp hq with hq | hq
      · exact hdone q hq
      · rw [List.mem_singleton.mp hq]
        exact hg

/-- The loop over the lists. -/
theorem flush_fold {g : Nat} (is : List Nat) :
    ∀ (L : ListId → List Ptr) (r : Nat × Nat × CacheMgr), Core env held L r.2.2 →
      ∃ ks L', Flushed env held g L r ks L' (is.foldl (CacheMgr.flushList env g) r) ∧
        ∀ i ∈ is, ∀ p ∈ L' (.expire i),
          ((is.foldl (CacheMgr.flushList env g) r).2.2.item p).groupId ≠ g := by
  induction is with
  | nil =>
    intro L r h
    exact ⟨[], L, flushed_refl h, nofun⟩
  | cons i is ih =>
    intro L r h
    obtain ⟨ks₁, L₁, hfl₁, hout₁⟩ := flushLoop_spec (g := g) (i := i) (L (.expire i))
      r.2.2.nextPtr [] L r h rfl (length_le_nextPtr h i) nofun
    rw [← front_eq h, show CacheMgr.flushLoop env g r.2.2.nextPtr
      (r.2.2.lists.front (.expire i)) r = CacheMgr.flushList env g r i from rfl] at hfl₁ hout₁
    obtain ⟨ks₂, L₂, hfl₂, hout₂⟩ := ih L₁ _ hfl₁.core
    refine ⟨_, L₂, flushed_trans hfl₁ hfl₂, fun j hj p hp => ?_⟩
    rw [List.foldl_cons]
    rcases List.mem_cons.mp hj with rfl | hj
    · obtain ⟨hp₁, hit⟩ := hfl₂.shrinks.expire j p hp
      rw [hit]
      exact hout₁ p hp₁
    · exact hout₂ j hj p hp

theorem flushLoop_lt {g : Nat} (n : Nat) :
    ∀ (o : Option Ptr) (r : Nat × Nat × CacheMgr), r.1 < 2 ^ 32 ∧ r.2.1 < 2 ^ 64 →
      (CacheMgr.flushLoop env g n o r).1 < 2 ^ 32 ∧ (CacheMgr.flushLoop env g n o r).2.1 < 2 ^ 64 := by
  induction n with
  | zero =>
    intro o r h
    cases o <;> exact h
  | succ n ih =>
    intro o r h
    cases o with
    | none => exact h
    | some p =>
      simp only [CacheMgr.flushLoop]
      split
      · exact ih _ _ ⟨Nat.mod_lt _ (by decide), Nat.mod_lt _ (by decide)⟩
      · exact ih _ _ h

/-- The counters are kept in 32 and 64 bits. -/
theorem flush_fold_lt {g : Nat} (is : List Nat) :
    ∀ r : Nat × Nat × CacheMgr, r.1 < 2 ^ 32 ∧ r.2.1 < 2 ^ 64 →
      (is.foldl (CacheMgr.flushList env g) r).1 < 2 ^ 32 ∧
        (is.foldl (CacheMgr.flushList env g) r).2.1 < 2 ^ 64 := by
  induction is with
  | nil => exact fun _ hr => hr
  | cons i is ih => exact fun r hr => ih _ (flushLoop_lt _ _ _ hr)

end SweepLemmas

/-- `flush` unlinks exactly the keys of the group, in some order. -/
theorem flush_refines (h : Inv env held s) (g : Nat) :
    ∃ ks : List Key, ks.Nodup ∧ (∀ k, k ∈ ks ↔ k.1 = g ∧ ((abs env s).entry k).isSome) ∧
      (∀ q, (abs env s).Absent q → (s.flush env g).2.slot q = s.slot q) ∧
      Refines env held (s.flush env g)
        ((ks.length % 2 ^ 32, (ks.map ((abs env s).totalSize env)).sum % 2 ^ 64),
          (abs env s).unlinkAll .flushed ks) := by
  obtain ⟨L, h⟩ := h
  obtain ⟨ks, L', hfl, hout⟩ := flush_fold (g := g) (List.range 34) L (0, 0, s) h
  obtain ⟨hc, hz⟩ := flush_fold_lt (g := g) (List.range 34) (0, 0, s)
    ⟨Nat.two_pow_pos 32, Nat.two_pow_pos 64⟩
  unfold CacheMgr.flush
  generalize (List.range 34).foldl (CacheMgr.flushList env g) (0, 0, s) = r at hfl hout hc hz
  refine ⟨ks, hfl.nodup, fun k => ⟨hfl.keys k, fun ⟨hg, hs⟩ => ?_⟩,
    fun q hq => hfl.shrinks.slot q ((absent_iff h).mp hq), ⟨L', hfl.core⟩, ?_, hfl.abs⟩
  · -- an item of the group that is left would be in one of the 34 lists
    by_contra hk
    obtain ⟨e, he⟩ := Option.isSome_iff_exists.mp hs
    have he' : (abs env r.2.2).entry k = some e := by
      rw [hfl.abs, Store.entry_unlinkAll, if_neg hk]
      exact he
    obtain ⟨p, ⟨i, hp⟩, hid, -⟩ := (abs_entry_iff hfl.core).mp he'
    refine hout i (List.mem_range.mpr (hfl.core.inRange hp)) p hp ?_
    rw [← hg, ← hid]
    rfl
  · have h1 := hfl.count
    have h2 := hfl.size
    rw [Nat.mod_eq_of_lt hc, Nat.zero_add] at h1
    rw [Nat.mod_eq_of_lt hz, Nat.zero_add] at h2
    exact Prod.ext h1 h2

/-! ## `check_expired` -/

/-- What the sweep has unlinked: items that are due at the time `now`. -/
structure Expired (env : Env) (held : Ptr → Nat) (now : Nat) (L : ListId → List Ptr) (s : CacheMgr)
    (ks : List Key) (L' : ListId → List Ptr) (s' : CacheMgr) : Prop where
  core : Core env held L' s'
  abs : abs env s' = (abs env s).unlinkAll .expired ks
  nodup : ks.Nodup
  keys : ∀ k ∈ ks, ∃ e, (Xixi.abs env s).entry k = some e ∧ e.expireTime ≤ now
  linked : ∀ q, Linked L' q → Linked L q
  slot : ∀ q, ¬ Linked L q → s'.slot q = s.slot q

namespace SweepLemmas

theorem expired_refl {now : Nat} (h : Core env held L s) : Expired env held now L s [] L s where
  core := h
  abs := rfl
  nodup := List.nodup_nil
  keys := nofun
  linked := fun _ hq => hq
  slot := fun _ _ => rfl

theorem expired_trans {now : Nat} {L₁ L₂ L₃ : ListId → List Ptr} {s₁ s₂ s₃ : CacheMgr}
    {ks ks' : List Key} (h : Expired env held now L₁ s₁ ks L₂ s₂)
    (h' : Expired env held now L₂ s₂ ks' L₃ s₃) : Expired env held now L₁ s₁ (ks ++ ks') L₃ s₃ := by
  have hsame : ∀ k ∈ ks', k ∉ ks ∧ (abs env s₂).entry k = (abs env s₁).entry k := by
    intro k hk
    obtain ⟨e, he, -⟩ := h'.keys k hk
    rw [h.abs, Store.entry_unlinkAll] at he ⊢
    by_cases hm : k ∈ ks
    · rw [if_pos hm] at he
      exact nomatch he
    · exact ⟨hm, if_neg hm⟩
  refine ⟨h'.core, ?_, ?_, fun k hk => ?_, fun q hq => h.linked q (h'.linked q hq),
    fun q hq => (h'.slot q fun hl => hq (h.linked q hl)).trans (h.slot q hq)⟩
  · rw [h'.abs, h.abs, Store.unlinkAll_append]
  · refine List.nodup_append.mpr ⟨h.nodup, h'.nodup, fun a ha b hb he => ?_⟩
    exact (hsame b hb).1 (he ▸ ha)
  · rcases List.mem_append.mp hk with hk | hk
    · exact h.keys k hk
    · obtain ⟨e, he, hle⟩ := h'.keys k hk
      exact ⟨e, (hsame k hk).2 ▸ he, hle⟩

theorem rebucket_le {x j : Nat} (n : Nat) (h : CacheMgr.rebucket x n = some j) : j ≤ n := by
  induction n with
  | zero =>
    simp only [CacheMgr.rebucket] at h
    split at h
    · exact Nat.le_of_eq (Option.some.inj h).symm
    · exact nomatch h
  | succ n ih =>
    simp only [CacheMgr.rebucket] at h
    split at h
    · exact Nat.le_of_eq (Option.some.inj h).symm
    · exact (ih h).trans (Nat.le_succ n)

/-- What is left to visit when the item the walk stands at has moved to the front of the
list `j`, which may be the list it came from. -/
theorem rest_of_move (h : Core env held L s) {i j : Nat} {done rest : List Ptr}
    (hi : L (.expire i) = done ++ p :: rest) :
    ∃ done', Function.update (fun k => (L k).erase p) (.expire j) (p :: (L (.expire j)).erase p)
      (.expire i) = done' ++ rest := by
  have hrest : (L (.expire i)).erase p = done ++ rest := by
    rw [hi, erase_middle (hi ▸ h.rep.nodup _)]
  by_cases hji : i = j
  · subst hji
    refine ⟨p :: done, ?_⟩
    rw [Function.update_self, hrest, List.cons_append]
  · refine ⟨done, ?_⟩
    rw [Function.update_of_ne (by simpa using hji), hrest]

theorem move_visited (h : Core env held L s) {now i j : Nat} {done rest : List Ptr}
    (hi : L (.expire i) = done ++ p :: rest) (hj : j < 34) :
    ∃ L' done', Expired env held now L s [] L' (s.moveExpire p i j) ∧
      L' (.expire i) = done' ++ rest := by
  have hp : p ∈ L (.expire i) := by simp [hi]
  obtain ⟨h', ha⟩ := h.move hp hj
  obtain ⟨done', hrest⟩ := rest_of_move (j := j) h hi
  exact ⟨_, done', ⟨h', ha, List.nodup_nil, nofun, fun q hq => (linked_move h.rep ⟨i, hp⟩ q).mp hq,
    fun q hq => CacheMgr.slot_moveExpire s i j fun he => hq ⟨i, he ▸ hp⟩⟩, hrest⟩

/-- The walk over one list: induction on what is left of it. -/
theorem expireLoop_spec {now i : Nat} (hi34 : i < 34) (rest : List Ptr) :
    ∀ (n : Nat) (done : List Ptr) (L : ListId → List Ptr) (s : CacheMgr), Core env held L s →
      L (.expire i) = done ++ rest → rest.length ≤ n →
      ∃ ks L', Expired env held now L s ks L' (CacheMgr.expireLoop env now i n rest.head? s) := by
  induction rest with
  | nil =>
    intro n done L s h hi _
    have hloop : CacheMgr.expireLoop env now i n none s = s := by cases n <;> rfl
    rw [List.head?_nil, hloop]
    exact ⟨[], L, expired_refl h⟩
  | cons p rest ih =>
    intro n done L s h hi hn
    obtain ⟨n, rfl⟩ : ∃ m, n = m + 1 := ⟨n - 1, by simp only [List.length_cons] at hn; omega⟩
    have hn' : rest.length ≤ n := by simpa using hn
    rw [List.head?_cons]
    simp only [CacheMgr.expireLoop, next_eq h hi]
    by_cases hdue : (s.item p).expireTime ≤ now
    · rw [if_pos hdue]
      obtain ⟨L₁, h₁, hi₁, hsh, he, ha⟩ := unlink_visited h hi .expired
      have hstep : Expired env held now L s [(s.item p).ident] L₁ (s.doUnlink env p .expired) := by
        refine ⟨h₁, ha, List.nodup_singleton _, fun k hk => ?_,
          fun q ⟨i, hq⟩ => ⟨i, (hsh.expire i q hq).1⟩, hsh.slot⟩
        obtain rfl := List.mem_singleton.mp hk
        exact ⟨_, he, hdue⟩
      obtain ⟨ks, L', hex⟩ := ih n done L₁ _ h₁ hi₁ hn'
      exact ⟨_, L', expired_trans hstep hex⟩
    · rw [if_neg hdue]
      cases hb : CacheMgr.rebucket ((s.item p).expireTime - now) i with
      | none => exact ih n (done ++ [p]) L s h (by simpa using hi) hn'
      | some j =>
        obtain ⟨L₁, done', hmove, hi₁⟩ :=
          move_visited h hi (Nat.lt_of_le_of_lt (rebucket_le i hb) hi34)
        obtain ⟨ks, L', hex⟩ := ih n done' L₁ _ hmove.core hi₁ hn'
        exact ⟨ks, L', expired_trans hmove hex⟩

theorem expireItems_spec {now : Nat} (is : List Nat) (his : ∀ i ∈ is, i < 34) :
    ∀ (L : ListId → List Ptr) (s : CacheMgr), Core env held L s →
      ∃ ks L', Expired env held now L s ks L' (is.foldl (CacheMgr.expireList env now) s) := by
  induction is with
  | nil => exact fun L s h => ⟨[], L, expired_refl h⟩
  | cons i is ih =>
    intro L s h
    have hlist : ∃ ks L', Expired env held now L s ks L' (CacheMgr.expireList env now s i) := by
      unfold CacheMgr.expireList
      split
      · have hex := @expireLoop_spec env held now i
          (his i (List.mem_cons_self ..)) (L (.expire i)) s.nextPtr [] L
          { s with
            expireCheckTime := Function.update s.expireCheckTime i
              (CacheMgr.realtime now (CacheMgr.expirationTime i)) } h rfl (length_le_nextPtr h i)
        rw [← front_eq h] at hex
        obtain ⟨ks, L', hex⟩ := hex
        exact ⟨ks, L', hex.core, hex.abs, hex.nodup, hex.keys, hex.linked, hex.slot⟩
      · exact ⟨[], L, expired_refl h⟩
    obtain ⟨ks₁, L₁, hex₁⟩ := hlist
    obtain ⟨ks₂, L₂, hex₂⟩ := ih (fun j hj => his j (List.mem_cons_of_mem _ hj)) L₁ _ hex₁.core
    exact ⟨_, L₂, expired_trans hex₁ hex₂⟩

/-- Nothing ever enters `flush_cache_list_`. -/
theorem freeFlushedItems_eq (h : Core env held L s) : s.freeFlushedItems env = s := by
  have hfront : s.lists.front .flushCache = none := by
    rw [front_eq h, h.noFlushed]
    rfl
  rw [CacheMgr.freeFlushedItems, hfront]
  cases s.nextPtr <;> rfl

theorem abs_expireWatchs (s : CacheMgr) (now : Nat) :
    abs env (s.expireWatchs now) =
      (abs env s).expireWatchs fun w => (s.watchMap w).any fun watch => watch.isExpired now := by
  refine Store.ext rfl (funext fun w => ?_) rfl rfl
  have hopt : ∀ o : Option CacheWatch,
      (o.filter fun watch => !watch.isExpired now).map
          (fun watch => (watch.updatedList, watch.updatedTypeList)) =
        if o.any (fun watch => watch.isExpired now) then none
        else o.map fun watch => (watch.updatedList, watch.updatedTypeList) := by
    intro o
    cases o with
    | none => rfl
    | some watch => cases hx : watch.isExpired now <;> simp [hx]
  exact hopt (s.watchMap w)

end SweepLemmas

/-- `check_expired` drops the expired watches and unlinks items that are due. -/
theorem checkExpired_refines (h : Inv env held s) :
    ∃ ks : List Key, ks.Nodup ∧
      (∀ k ∈ ks, ∃ e, (abs env s).entry k = some e ∧ e.expireTime ≤ s.currTime) ∧
      (∀ q, (abs env s).Absent q → (s.checkExpired env).slot q = s.slot q) ∧
      Inv env held (s.checkExpired env) ∧
      abs env (s.checkExpired env) =
        if s.currTime ≠ s.lastCheckExpiredTime then
          ((abs env s).expireWatchs fun w =>
            (s.watchMap w).any fun watch => watch.isExpired s.currTime).unlinkAll .expired ks
        else abs env s := by
  obtain ⟨L, h⟩ := h
  by_cases ht : s.currTime ≠ s.lastCheckExpiredTime
  · obtain ⟨ks, L', hex⟩ := expireItems_spec (List.range 33)
      (fun i hi => by rw [List.mem_range] at hi; omega) L
      (CacheMgr.expireWatchs { s with lastCheckExpiredTime := s.currTime } s.currTime) h
    refine ⟨ks, hex.nodup, hex.keys, ?_⟩
    have hrun : s.checkExpired env = (List.range 33).foldl (CacheMgr.expireList env s.currTime)
        (CacheMgr.expireWatchs { s with lastCheckExpiredTime := s.currTime } s.currTime) := by
      rw [CacheMgr.checkExpired, if_pos ht]
      exact freeFlushedItems_eq hex.core
    rw [hrun, if_pos ht]
    refine ⟨fun q hq => hex.slot q ((absent_iff h).mp hq), ⟨L', hex.core⟩, ?_⟩
    rw [hex.abs, abs_expireWatchs]
    rfl
  · refine ⟨[], List.nodup_nil, nofun, ?_⟩
    rw [CacheMgr.checkExpired, if_neg ht, if_neg ht]
    exact ⟨fun _ _ => rfl, ⟨L, h⟩, rfl⟩

end Xixi
