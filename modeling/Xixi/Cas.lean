import Xixi.Structure

/-!
# Cache ids and conditional updates

A cache id names one version of one entry: every change of data, flags or extension
goes with a new id, so that an update that names the id it has seen cannot
overwrite a change in between.

1. `act_cases`: an action keeps, touches and drops entries, and stores at most one
   of them under a new id.
2. `act_consumes`: a conditional action that succeeds uses its id up.
3. `cas_safety`: ids are distinct, an id stands for one content, and of all
   operations conditional on one id at most one succeeds.
-/

namespace Xixi

open Lib StructureLemmas

/-- The version that an entry holds. -/
def Entry.content (e : Entry) : Nat × Bytes × Nat × Bytes := (e.cacheId, e.data, e.flags, e.ext)

@[simp] theorem Entry.content_addWatchIf (e : Entry) (w : Nat) :
    (e.addWatchIf w).content = e.content := by
  unfold Entry.addWatchIf
  split <;> rfl

namespace Store

/-- The ids are distinct, none is 0, and all have been issued. -/
structure IdsOk (st : Store) : Prop where
  pos : ∀ {k e}, st.entry k = some e → 0 < e.cacheId
  issued : ∀ {k e}, st.entry k = some e → e.cacheId ≤ st.lastCacheId
  distinct : ∀ {k k' e e'}, st.entry k = some e → st.entry k' = some e' →
    e.cacheId = e'.cacheId → k = k'
  bound : st.lastCacheId < 2 ^ 64

/-- Every version in `st'` is one of `st`. -/
structure Sub (st st' : Store) : Prop where
  last : st'.lastCacheId = st.lastCacheId
  entry : ∀ {k e'}, st'.entry k = some e' → ∃ e, st.entry k = some e ∧ e.content = e'.content

/-- `st'` is later than `st`: a version in `st'` whose id is not new is one of `st`. -/
structure Evolves (st st' : Store) : Prop where
  last : st.lastCacheId ≤ st'.lastCacheId
  entry : ∀ {k e'}, st'.entry k = some e' → e'.cacheId ≤ st.lastCacheId →
    ∃ e, st.entry k = some e ∧ e.content = e'.content

theorem Sub.refl (st : Store) : st.Sub st := ⟨rfl, fun h => ⟨_, h, rfl⟩⟩

theorem Sub.trans {st st' st'' : Store} (h : st.Sub st') (h' : st'.Sub st'') : st.Sub st'' := by
  refine ⟨h'.last.trans h.last, fun he => ?_⟩
  obtain ⟨e', he', hc'⟩ := h'.entry he
  obtain ⟨e, he, hc⟩ := h.entry he'
  exact ⟨e, he, hc.trans hc'⟩

end Store

open Store

namespace CasLemmas

variable {st st' st₁ : Store} {k : Key} {e : Entry} {a : Action}

theorem sub_of_entry (hl : st'.lastCacheId = st.lastCacheId) (he : st'.entry = st.entry) :
    st.Sub st' := ⟨hl, fun h => ⟨_, he ▸ h, rfl⟩⟩

theorem sub_unlink (st : Store) (k : Key) (t : NotifyType) : st.Sub (st.unlink k t) := by
  refine ⟨lastCacheId_unlink .., fun {k'} _ h => ?_⟩
  rw [entry_unlink] at h
  by_cases hk : k' = k
  · rw [hk, Function.update_self] at h
    exact nomatch h
  · rw [Function.update_of_ne hk] at h
    exact ⟨_, h, rfl⟩

theorem sub_unlinkAll (st : Store) (t : NotifyType) (ks : List Key) :
    st.Sub (st.unlinkAll t ks) := by
  refine ⟨lastCacheId_unlinkAll .., fun h => ?_⟩
  rw [entry_unlinkAll] at h
  split at h
  · exact nomatch h
  · exact ⟨_, h, rfl⟩

/-- An entry is touched: its version stays. -/
theorem sub_put {e' : Entry} (he : st.entry k = some e) (hc : e'.content = e.content) :
    st.Sub (st.put k (some e')) := by
  refine ⟨rfl, fun {k'} _ h => ?_⟩
  rw [entry_put] at h
  by_cases hk : k' = k
  · subst hk
    rw [Function.update_self] at h
    exact ⟨e, he, (Option.some.inj h ▸ hc).symm⟩
  · rw [Function.update_of_ne hk] at h
    exact ⟨_, h, rfl⟩

/-- What an action can do to the versions. -/
def Stores (st st' : Store) : Prop :=
  st.Sub st' ∨ ∃ st₁ k e, st.Sub st₁ ∧ st' = st₁.link k e

theorem stores_add (st : Store) (k : Key) (e : Entry) (w : Nat) : Stores st (st.add k e w).2 := by
  unfold Store.add
  split
  · split
    · exact .inr ⟨st, k, _, .refl st, rfl⟩
    · exact .inl (.refl st)
  · exact .inl (.refl st)

theorem stores_replace (st : Store) (k : Key) (e : Entry) (w : Nat) :
    Stores st (st.replace k e w).2 := by
  unfold Store.replace
  split
  · exact .inl (.refl st)
  · split
    · split
      · exact .inr ⟨_, k, _, sub_unlink st k .dataUpdated, rfl⟩
      · exact .inl (.refl st)
    · exact .inl (.refl st)

theorem stores_append (st : Store) (k : Key) (x : Nat) (new : Option Entry) (w : Nat) :
    Stores st (st.append k x new w).2 := by
  unfold Store.append
  split
  · exact .inl (.refl st)
  · split
    · exact .inl (.refl st)
    · split
      · exact .inl (.refl st)
      · split
        · exact .inr ⟨_, k, _, sub_unlink st k .dataUpdated, rfl⟩
        · exact .inl (.refl st)

theorem stores_delta (st : Store) (k : Key) (x : Nat) (v : Int) (buf : Bytes) (new : Option Entry) :
    Stores st (st.delta k x v buf new).2 := by
  unfold Store.delta
  split
  · exact .inl (.refl st)
  · split
    · split
      · split
        · exact .inl (.refl st)
        · exact .inr ⟨_, k, _, sub_unlink st k .dataUpdated, rfl⟩
      · exact .inr ⟨st, k, _, .refl st, rfl⟩
    · exact .inl (.refl st)

end CasLemmas

open CasLemmas

/-- An action keeps, touches and drops entries, and then stores at most one of them
under a new id. -/
theorem act_cases (st : Store) (a : Action) : Stores st (st.act a).2 := by
  cases a with
  | silent r => exact .inl (.refl st)
  | get k w =>
    refine .inl ?_
    show st.Sub (st.get k w).2
    unfold Store.get
    split
    · exact .refl st
    · next e he =>
      split
      · split
        · exact sub_put he (Entry.content_addWatchIf e w)
        · exact .refl st
      · exact sub_unlink st k .expired
  | getTouch k w t =>
    refine .inl ?_
    show st.Sub (st.getTouch k w t).2
    unfold Store.getTouch
    split
    · exact .refl st
    · next e he =>
      split
      · exact sub_put he (Entry.content_addWatchIf _ w)
      · exact sub_put he rfl
  | updateFlags k x fl =>
    show Stores st (st.updateFlags k x fl).2
    unfold Store.updateFlags
    split
    · exact .inl (.refl st)
    · next e he =>
      split
      · exact .inr ⟨st.notify e.watchIds e.cacheId .baseInfoUpdated, k, _, sub_of_entry rfl rfl, rfl⟩
      · exact .inl (.refl st)
  | updateExpiration k x t =>
    refine .inl ?_
    show st.Sub (st.updateExpiration k x t).2
    unfold Store.updateExpiration
    split
    · exact .refl st
    · next e he =>
      split
      · exact sub_put he rfl
      · exact .refl st
  | add k e w => exact stores_add st k e w
  | set k e w =>
    show Stores st (st.set k e w).2
    unfold Store.set
    split
    · exact stores_add st k e w
    · exact stores_replace st k e w
  | replace k e w => exact stores_replace st k e w
  | append k x new w => exact stores_append st k x new w
  | loadFromFileLink k e w =>
    show Stores st (st.loadFromFileLink k e w).2
    unfold Store.loadFromFileLink
    split
    · split
      · exact .inr ⟨st, k, _, .refl st, rfl⟩
      · exact .inl (.refl st)
    · exact .inl (.refl st)
  | remove k x =>
    refine .inl ?_
    show st.Sub (st.remove k x).2
    unfold Store.remove
    split
    · exact .refl st
    · split
      · exact sub_unlink st k .deleted
      · exact .refl st
  | delta k x v new => exact stores_delta st k x v (formatInt64 v) new
  | flush r ks => exact .inl (sub_unlinkAll st .flushed ks)
  | checkExpired gone ks =>
    exact .inl ((sub_of_entry rfl rfl : st.Sub (st.expireWatchs gone)).trans
      (sub_unlinkAll _ .expired ks))
  | watch r w q => exact .inl (sub_of_entry rfl rfl)
  | clock t => exact .inl (sub_of_entry rfl rfl)

/-! ## Evolution -/

namespace CasLemmas

variable {st st' st₁ : Store} {k : Key} {e : Entry} {x : Nat} {a : Action}

/-- The counter does not wrap around when the new id is the larger one. -/
theorem nextId_eq (hb : st.lastCacheId < 2 ^ 64) (h : st.lastCacheId ≤ st.nextId) :
    st.nextId = st.lastCacheId + 1 ∧ st.nextId < 2 ^ 64 := by
  unfold Store.nextId at h ⊢
  by_cases h0 : (st.lastCacheId + 1) % 2 ^ 64 = 0
  · rw [if_pos h0] at h
    omega
  · rw [if_neg h0]
    omega

theorem idsOk_sub (h : st.Sub st') (hi : st.IdsOk) : st'.IdsOk := by
  have hid : ∀ {k e'}, st'.entry k = some e' →
      ∃ e, st.entry k = some e ∧ e.cacheId = e'.cacheId := by
    intro k e' he'
    obtain ⟨e, he, hc⟩ := h.entry he'
    exact ⟨e, he, congrArg Prod.fst hc⟩
  refine ⟨fun he' => ?_, fun he' => ?_, fun h1 h2 heq => ?_, h.last ▸ hi.bound⟩
  · obtain ⟨e, he, hc⟩ := hid he'
    exact hc ▸ hi.pos he
  · obtain ⟨e, he, hc⟩ := hid he'
    rw [h.last, ← hc]
    exact hi.issued he
  · obtain ⟨e1, he1, hc1⟩ := hid h1
    obtain ⟨e2, he2, hc2⟩ := hid h2
    exact hi.distinct he1 he2 (hc1.trans (heq.trans hc2.symm))

theorem evolves_sub (h : st.Sub st') : st.Evolves st' :=
  ⟨Nat.le_of_eq h.last.symm, fun he _ => h.entry he⟩

theorem idsOk_link (hi : st.IdsOk) (hn : st.lastCacheId ≤ st.nextId) : (st.link k e).IdsOk := by
  obtain ⟨hnext, hlt⟩ := nextId_eq hi.bound hn
  have hcase : ∀ {k' e'}, (st.link k e).entry k' = some e' →
      (k' = k ∧ e'.cacheId = st.nextId) ∨ (k' ≠ k ∧ st.entry k' = some e') := by
    intro k' e' he'
    rw [entry_link] at he'
    by_cases hk : k' = k
    · rw [hk, Function.update_self] at he'
      exact .inl ⟨hk, (Option.some.inj he') ▸ rfl⟩
    · rw [Function.update_of_ne hk] at he'
      exact .inr ⟨hk, he'⟩
  refine ⟨fun he' => ?_, fun he' => ?_, fun h1 h2 heq => ?_, hlt⟩
  · rcases hcase he' with ⟨-, hid⟩ | ⟨-, he⟩
    · omega
    · exact hi.pos he
  · rw [lastCacheId_link]
    rcases hcase he' with ⟨-, hid⟩ | ⟨-, he⟩
    · exact Nat.le_of_eq hid
    · have := hi.issued he
      omega
  · rcases hcase h1 with ⟨hk1, hid1⟩ | ⟨-, he1⟩ <;> rcases hcase h2 with ⟨hk2, hid2⟩ | ⟨-, he2⟩
    · rw [hk1, hk2]
    · have := hi.issued he2
      omega
    · have := hi.issued he1
      omega
    · exact hi.distinct he1 he2 heq

theorem evolves_link (hs : st.Sub st₁) (hi : st.IdsOk) (hn : st₁.lastCacheId ≤ st₁.nextId) :
    st.Evolves (st₁.link k e) := by
  obtain ⟨hnext, -⟩ := nextId_eq (idsOk_sub hs hi).bound hn
  have hlast := hs.last
  refine ⟨by rw [lastCacheId_link]; omega, fun {k' e'} he' hle => ?_⟩
  rw [entry_link] at he'
  by_cases hk : k' = k
  · rw [hk, Function.update_self] at he'
    have hid : e'.cacheId = st₁.nextId := (Option.some.inj he') ▸ rfl
    omega
  · rw [Function.update_of_ne hk] at he'
    exact hs.entry he'

/-- One action, with the counter not wrapping around. -/
theorem evolves_act (hi : st.IdsOk) (hn : st.lastCacheId ≤ (st.act a).2.lastCacheId) :
    (st.act a).2.IdsOk ∧ st.Evolves (st.act a).2 := by
  rcases act_cases st a with hs | ⟨st₁, k, e, hs, heq⟩
  · exact ⟨idsOk_sub hs hi, evolves_sub hs⟩
  · rw [heq] at hn ⊢
    rw [lastCacheId_link, ← hs.last] at hn
    exact ⟨idsOk_link (idsOk_sub hs hi) hn, evolves_link hs hi hn⟩

theorem Evolves.trans {st'' : Store} (h : st.Evolves st') (h' : st'.Evolves st'') :
    st.Evolves st'' := by
  refine ⟨h.last.trans h'.last, fun he hle => ?_⟩
  obtain ⟨e', he', hc'⟩ := h'.entry he (hle.trans h.last)
  have hle' : e'.cacheId ≤ st.lastCacheId := by
    rw [show e'.cacheId = _ from congrArg Prod.fst hc']
    exact hle
  obtain ⟨e, he, hc⟩ := h.entry he' hle'
  exact ⟨e, he, hc.trans hc'⟩

end CasLemmas

/-! ## Conditional actions -/

/-- The key and the cache id that an action is conditional on. -/
def Action.condition : Action → Option (Key × Nat)
  | .updateFlags k x _ => some (k, x)
  | .set k e _ => some (k, e.cacheId)
  | .replace k e _ => some (k, e.cacheId)
  | .append k x _ _ => some (k, x)
  | .remove k x => some (k, x)
  | .delta k x _ _ => some (k, x)
  | _ => none

namespace CasLemmas

/-- The result of an action that was conditional on the id `x` and has found the entry `e`. -/
def Consumes (st : Store) (k : Key) (x : Nat) (e : Entry) (r : Outcome × Store) : Prop :=
  r.1.succeeded = true → e.cacheId = x ∧ ∀ e', r.2.entry k = some e' →
    e'.cacheId = st.nextId ∧ r.2.lastCacheId = st.nextId

variable {k : Key} {x : Nat} {e e₁ : Entry} {st₁ : Store}

theorem consumes_failed {r : Outcome × Store} (h : r.1.succeeded = false) : Consumes st k x e r :=
  fun hs => nomatch h.symm.trans hs

theorem consumes_link {r : Outcome} (hnext : st₁.nextId = st.nextId) (hid : e.cacheId = x) :
    Consumes st k x e (r, st₁.link k e₁) := by
  refine fun _ => ⟨hid, fun e' he' => ?_⟩
  rw [entry_link, Function.update_self] at he'
  rw [lastCacheId_link, ← hnext, ← Option.some.inj he']
  exact ⟨rfl, rfl⟩

theorem consumes_updateFlags (hx : x ≠ 0) (he : st.entry k = some e) (fl : Nat) :
    Consumes st k x e ((st.updateFlags k x fl).map .base id) := by
  simp only [Store.updateFlags, he]
  split
  · next hm => exact consumes_link rfl (hm.resolve_left hx).symm
  · exact consumes_failed rfl

theorem consumes_replace (hx : e₁.cacheId ≠ 0) (he : st.entry k = some e) (w : Nat) :
    Consumes st k e₁.cacheId e ((st.replace k e₁ w).map .update id) := by
  simp only [Store.replace, he]
  split
  · next hm =>
    split
    · exact consumes_link (nextId_unlink ..) (hm.resolve_left hx).symm
    · exact consumes_failed rfl
  · exact consumes_failed rfl

theorem consumes_append (hx : x ≠ 0) (he : st.entry k = some e) (new : Option Entry) (w : Nat) :
    Consumes st k x e ((st.append k x new w).map .update id) := by
  by_cases hm : x = 0 ∨ x = e.cacheId
  swap
  · rw [append_mismatch he hm]
    exact consumes_failed rfl
  rw [append_match he hm]
  cases new with
  | none => exact consumes_failed rfl
  | some ne =>
    dsimp only
    split
    · exact consumes_link (nextId_unlink ..) (hm.resolve_left hx).symm
    · exact consumes_failed rfl

theorem consumes_remove (hx : x ≠ 0) (he : st.entry k = some e) :
    Consumes st k x e ((st.remove k x).map .remove id) := by
  simp only [Store.remove, he]
  split
  · next hm =>
    refine fun _ => ⟨(hm.resolve_left hx).symm, fun e' he' => ?_⟩
    have hgone : (st.unlink k .deleted).entry k = some e' := he'
    rw [entry_unlink, Function.update_self] at hgone
    exact absurd hgone.symm (Option.some_ne_none e')
  · exact consumes_failed rfl

theorem consumes_delta (hx : x ≠ 0) (he : st.entry k = some e) (v : Int) (new : Option Entry) :
    Consumes st k x e ((st.delta k x v (formatInt64 v) new).map .delta id) := by
  by_cases hm : x = 0 ∨ x = e.cacheId
  swap
  · rw [delta_mismatch he hm]
    exact consumes_failed rfl
  by_cases hlen : (formatInt64 v).length = e.data.length
  · rw [delta_inPlace he hm hlen]
    exact consumes_link rfl (hm.resolve_left hx).symm
  · rw [delta_realloc he hm hlen]
    cases new with
    | none => exact consumes_failed rfl
    | some ne => exact consumes_link (nextId_unlink ..) (hm.resolve_left hx).symm

end CasLemmas

/-- A conditional action that finds the key and succeeds has found its id, and the
entry it leaves has another one. -/
theorem act_consumes {st : Store} {a : Action} {k : Key} {x : Nat} {e : Entry}
    (hc : a.condition = some (k, x)) (hx : x ≠ 0) (he : st.entry k = some e)
    (hs : (st.act a).1.succeeded = true) :
    e.cacheId = x ∧ ∀ e', (st.act a).2.entry k = some e' →
      e'.cacheId = st.nextId ∧ (st.act a).2.lastCacheId = st.nextId := by
  suffices h : Consumes st k x e (st.act a) from h hs
  cases a with
  | updateFlags k' x' fl =>
    obtain ⟨rfl, rfl⟩ := Prod.mk.inj (Option.some.inj hc)
    exact consumes_updateFlags hx he fl
  | set k' e₁ w =>
    obtain ⟨rfl, rfl⟩ := Prod.mk.inj (Option.some.inj hc)
    have hset : st.set k' e₁ w = st.replace k' e₁ w := by
      unfold Store.set
      rw [he]
    show Consumes st k' e₁.cacheId e ((st.set k' e₁ w).map .update id)
    rw [hset]
    exact consumes_replace hx he w
  | replace k' e₁ w =>
    obtain ⟨rfl, rfl⟩ := Prod.mk.inj (Option.some.inj hc)
    exact consumes_replace hx he w
  | append k' x' new w =>
    obtain ⟨rfl, rfl⟩ := Prod.mk.inj (Option.some.inj hc)
    exact consumes_append hx he new w
  | remove k' x' =>
    obtain ⟨rfl, rfl⟩ := Prod.mk.inj (Option.some.inj hc)
    exact consumes_remove hx he
  | delta k' x' v new =>
    obtain ⟨rfl, rfl⟩ := Prod.mk.inj (Option.some.inj hc)
    exact consumes_delta hx he v new
  | _ => exact nomatch hc

/-! ## Runs -/

/-- The key and the cache id that an operation is conditional on. -/
def Op.condition (s : CacheMgr) : Op → Option (Key × Nat)
  | .updateFlags g k x _ => some ((g, k), x)
  | .update .add _ _ _ => none
  | .update _ _ p _ => some ((s.item p).ident, (s.item p).cacheId)
  | .remove g k x => some ((g, k), x)
  | .delta _ g k _ _ x => some ((g, k), x)
  | _ => none

/-- A step in which the counter of ids does not wrap around; it does so when 2^64 ids
have been issued. -/
def Sys.IdStep (env : Env) (x : Sys) (l : Op × Outcome) (y : Sys) : Prop :=
  x.Step env l y ∧ x.mgr.lastCacheId ≤ y.mgr.lastCacheId

/-- The operation found the key linked, was conditional on the id and succeeded. -/
def Wins (env : Env) (x : Sys) (l : Op × Outcome) (k : Key) (id : Nat) : Prop :=
  l.1.condition x.mgr = some (k, id) ∧ ((abs env x.mgr).entry k).isSome ∧ l.2.succeeded = true

/-- The ids of the linked items. -/
structure DistinctIds (s : CacheMgr) : Prop where
  issued : ∀ p, s.cacheHashMap.Mem p → (s.item p).cacheId ≠ 0 ∧ (s.item p).cacheId ≤ s.lastCacheId
  distinct : ∀ p q, s.cacheHashMap.Mem p → s.cacheHashMap.Mem q →
    (s.item p).cacheId = (s.item q).cacheId → p = q

variable {env : Env} {x y : Sys} {l : Op × Outcome} {t : List (Sys × (Op × Outcome))}

namespace CasLemmas

theorem condition_of_acts {s : CacheMgr} {op : Op} {a : Action} (h : Acts env s op a) :
    a.condition = op.condition s := by
  cases h <;> rfl

theorem idStep_act (hw : env.refWidth = .unbounded) (hx : ∃ lost, SysInv env lost x)
    (h : x.IdStep env l y) : (∃ lost, SysInv env lost y) ∧
      ∃ a, a.condition = l.1.condition x.mgr ∧ (abs env x.mgr).act a = (l.2, abs env y.mgr) := by
  obtain ⟨hy, a, hacts, hact⟩ := SysInv.act hx ⟨.inl hw, h.1⟩
  exact ⟨hy, a, condition_of_acts hacts, hact⟩

/-- The versions along a run. -/
structure Later (env : Env) (x y : Sys) : Prop where
  sys : ∃ lost, SysInv env lost y
  ids : (abs env y.mgr).IdsOk
  evolves : (abs env x.mgr).Evolves (abs env y.mgr)

theorem Later.refl (hx : ∃ lost, SysInv env lost x) (hi : (abs env x.mgr).IdsOk) :
    Later env x x := ⟨hx, hi, evolves_sub (.refl _)⟩

theorem Later.step {x₀ : Sys} (hw : env.refWidth = .unbounded) (h : Later env x₀ x)
    (hs : x.IdStep env l y) : Later env x₀ y := by
  obtain ⟨hy, a, -, hact⟩ := idStep_act hw h.sys hs
  have hlast : (abs env x.mgr).lastCacheId ≤ ((abs env x.mgr).act a).2.lastCacheId := by
    rw [hact]
    exact hs.2
  obtain ⟨hids, hev⟩ := evolves_act h.ids hlast
  rw [hact] at hids hev
  exact ⟨hy, hids, Evolves.trans h.evolves hev⟩

theorem Later.run {x₀ : Sys} (hw : env.refWidth = .unbounded) (h : Later env x₀ x)
    (hr : Run (Sys.IdStep env) x t y) : Later env x₀ y :=
  hr.invariant (I := Later env x₀) (fun _ _ _ hl hs => Later.step hw hl hs) h

theorem idsOk_start {lastTime limit itemSizeMax itemSizeMin : Nat} {factor : Rat} :
    (abs env (Sys.start env lastTime limit itemSizeMax itemSizeMin factor).mgr).IdsOk := by
  rw [abs_start]
  exact ⟨nofun, nofun, nofun, by decide⟩

theorem distinctIds_of_idsOk (hx : ∃ lost, SysInv env lost x) (hi : (abs env x.mgr).IdsOk) :
    DistinctIds x.mgr := by
  obtain ⟨lost, hx⟩ := hx
  obtain ⟨L, hL⟩ := hx.inv
  have hent : ∀ p, x.mgr.cacheHashMap.Mem p → (abs env x.mgr).entry (x.mgr.item p).ident =
      some ((x.mgr.item p).entry p) :=
    fun p hp => abs_entry_of_linked hL ((mem_hashMap hL p).mp hp)
  refine ⟨fun p hp => ?_, fun p q hp hq he => ?_⟩
  · have h1 := hi.pos (hent p hp)
    exact ⟨Nat.pos_iff_ne_zero.mp h1, hi.issued (hent p hp)⟩
  · have hk := hi.distinct (hent p hp) (hent q hq) he
    exact hL.inj ((mem_hashMap hL p).mp hp) ((mem_hashMap hL q).mp hq) hk

/-- The operation that won has taken the id out of use. -/
theorem wins_consumes {k : Key} {id : Nat} (hw : env.refWidth = .unbounded)
    (hx : ∃ lost, SysInv env lost x) (hi : (abs env x.mgr).IdsOk) (hs : x.IdStep env l y)
    (hid : id ≠ 0) (h : Wins env x l k id) :
    id ≤ (abs env y.mgr).lastCacheId ∧
      ∀ e, (abs env y.mgr).entry k = some e → e.cacheId ≠ id := by
  obtain ⟨hcond, hfound, hsucc⟩ := h
  obtain ⟨e, he⟩ := Option.isSome_iff_exists.mp hfound
  obtain ⟨-, a, hac, hact⟩ := idStep_act hw hx hs
  obtain ⟨hex, hnew⟩ := act_consumes (hac.trans hcond) hid he (by rw [hact]; exact hsucc)
  rw [hact] at hnew
  have hissued := hi.issued he
  refine ⟨by rw [← hex]; exact hissued.trans hs.2, fun e' he' heq => ?_⟩
  obtain ⟨h1, h2⟩ := hnew e' he'
  have hle : (abs env x.mgr).lastCacheId ≤ (abs env x.mgr).nextId := by
    rw [← h2]
    exact hs.2
  have := (nextId_eq hi.bound hle).1
  omega

end CasLemmas

/-- In every run the linked items have distinct ids, an id of a key stands for one
content, and of all operations conditional on one id of a key at most one wins. -/
theorem cas_safety {lastTime limit itemSizeMax itemSizeMin : Nat} {factor : Rat}
    (hw : env.refWidth = .unbounded)
    (h : Run (Sys.IdStep env) (Sys.start env lastTime limit itemSizeMax itemSizeMin factor) t x) :
    DistinctIds x.mgr ∧
    (∀ t' y, Run (Sys.IdStep env) x t' y → ∀ k e e', (abs env x.mgr).entry k = some e →
      (abs env y.mgr).entry k = some e' → e.cacheId = e'.cacheId →
      e.data = e'.data ∧ e.flags = e'.flags ∧ e.ext = e'.ext) ∧
    (∀ l y t' z l' z', x.IdStep env l y → Run (Sys.IdStep env) y t' z → z.IdStep env l' z' →
      ∀ k id, id ≠ 0 → Wins env x l k id → ¬ Wins env z l' k id) := by
  have hx : Later env x x := by
    have hstart := Later.run hw (Later.refl ⟨_, sysInv_start⟩ idsOk_start) h
    exact Later.refl hstart.sys hstart.ids
  refine ⟨distinctIds_of_idsOk hx.sys hx.ids, fun t' y hrun k e e' he he' hid => ?_,
    fun l y t' z l' z' hs hrun hs' k id hne hwin hwin' => ?_⟩
  · obtain ⟨e₀, he₀, hc⟩ := (Later.run hw hx hrun).evolves.entry he' (hid ▸ hx.ids.issued he)
    obtain rfl := Option.some.inj (he.symm.trans he₀)
    simp only [Entry.content, Prod.mk.injEq] at hc
    exact hc.2
  · -- the second winner would have found the id again
    obtain ⟨hle, hgone⟩ := wins_consumes hw hx.sys hx.ids hs hne hwin
    have hy := Later.step hw hx hs
    have hz := Later.run hw (Later.refl hy.sys hy.ids) hrun
    obtain ⟨hcond, hfound, hsucc⟩ := hwin'
    obtain ⟨e', he'⟩ := Option.isSome_iff_exists.mp hfound
    obtain ⟨-, a, hac, hact⟩ := idStep_act hw hz.sys hs'
    obtain ⟨hex, -⟩ := act_consumes (hac.trans hcond) hne he' (by rw [hact]; exact hsucc)
    obtain ⟨e, he, hc⟩ := hz.evolves.entry he' (by rw [hex]; exact hle)
    have heid : e.cacheId = e'.cacheId := congrArg Prod.fst hc
    exact hgone e he (heid.trans hex)

/-- A concrete run in which the counter of ids never decreases. -/
theorem Sys.idRun_execAll {ops : List Op} (h : x.Allowed env ops)
    (hid : ∀ z ∈ x.trace env ops, z.1.mgr.lastCacheId ≤ (z.1.exec env z.2.1).2.mgr.lastCacheId) :
    Run (Sys.IdStep env) x (x.trace env ops) (x.execAll env ops) := by
  have hrun := (Sys.run_execAll h).restrict
    (P := fun x l => x.mgr.lastCacheId ≤ (x.exec env l.1).2.mgr.lastCacheId) hid
  refine hrun.mono fun z l z' hz => ⟨hz.2, ?_⟩
  have hle := hz.1
  rw [hz.2.2] at hle
  exact hle

/-- An item is stored under the id 1, and `update_flags` asks for that id and wins:
a `remove` that asks for the same id afterwards does not. -/
theorem cas_safety_race :
    let env := Env.colliding .unbounded
    let x := (Sys.small .unbounded).execAll env
      [.alloc .zeros 1 1 0 0 2 0, .fill 0 ⟨[107], [55, 56], [], 0⟩, .update .set .zeros 0 0,
        .releaseReference 0]
    let y := x.execAll env [.updateFlags 1 [107] 1 9]
    DistinctIds x.mgr ∧ Wins env x (.updateFlags 1 [107] 1 9, .base (true, 2)) (1, [107]) 1 ∧
      ¬ Wins env y (.remove 1 [107] 1, .remove .mismatch) (1, [107]) 1 := by
  intro env x y
  have hrun : Run (Sys.IdStep env) (Sys.small .unbounded) _ x :=
    Sys.idRun_execAll (by decide +kernel) (by decide +kernel)
  have hwin : Wins env x (.updateFlags 1 [107] 1 9, .base (true, 2)) (1, [107]) 1 := by
    have hfound : ((abs env x.mgr).entry (1, [107])).isSome = true := by decide +kernel
    exact ⟨by rw [Op.condition], hfound, by rw [Outcome.succeeded]⟩
  have hfirst : x.IdStep env (.updateFlags 1 [107] 1 9, .base (true, 2)) y :=
    ⟨Sys.step_execAll trivial (by decide +kernel), by decide +kernel⟩
  have hsecond : y.IdStep env (.remove 1 [107] 1, .remove .mismatch)
      (y.execAll env [.remove 1 [107] 1]) :=
    ⟨Sys.step_execAll trivial (by decide +kernel), by decide +kernel⟩
  obtain ⟨hids, -, hrace⟩ := cas_safety rfl hrun
  exact ⟨hids, hwin, hrace _ _ _ _ _ _ hfirst (.nil y) hsecond _ _ (by decide) hwin⟩

end Xixi
