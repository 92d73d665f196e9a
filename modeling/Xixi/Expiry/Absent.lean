import Xixi.Cas
import Xixi.Counter

/-!
# Expired entries (`do_get` and its callers)

Between its expire time and the sweep an entry is still linked. `get` looks at the expire time and
unlinks such an entry; all other operations take it for a live one.

1. `Outcome.reply`, `visible`: what an operation shows, cache ids apart.
2. `SameAnswer`: an operation shows the same in two states.
3. `Sys.unlinked`: the state in which the entry has been unlinked first.
4. `sameAnswer_iff`: with which operations an expired entry behaves as absent.
-/

namespace Xixi

open Xixi.Lists StepLemmas RefinementLemmas OperationLemmas SystemLemmas CounterLemmas Lib

/-! ## What an operation shows -/

/-- The reason that a client is told; for the two operations that return a bool and a cache id, it
is the one that their caller takes from these. -/
def Outcome.reason : Outcome → Option Reason
  | .get r => some r.2
  | .item r => some r.2
  | .update r => some r.1
  | .remove r => some r
  | .delta r => some r.1
  | .base (ok, cacheId) =>
    some (if ok then .success else if cacheId = 0 then .notFound else .mismatch)
  | _ => none

/-- The expiration that is left, or the new number. -/
def Outcome.number : Outcome → Int
  | .get (some (_, left), _) => left
  | .delta (.success, _, value) => value
  | _ => 0

def CacheItem.contents (it : CacheItem) : Bytes × Nat × Bytes := (it.data, it.flags, it.ext)

/-- Reason, contents of the returned item, and number. -/
def Outcome.reply (s : CacheMgr) (r : Outcome) : Option Reason × Option (Bytes × Nat × Bytes) × Int :=
  (r.reason, r.handed.map fun p => (s.item p).contents, r.number)

def Entry.Unexpired (e : Entry) (now : Nat) : Prop := e.expireTime = 0 ∨ now < e.expireTime

instance (e : Entry) (now : Nat) : Decidable (e.Unexpired now) :=
  inferInstanceAs (Decidable (_ ∨ _))

/-- The entries that have not expired. -/
def Store.visible (st : Store) (k : Key) : Option (Bytes × Nat × Bytes × Nat) :=
  ((st.entry k).filter fun e => e.Unexpired st.currTime).map fun e =>
    (e.data, e.flags, e.ext, e.expireTime)

/-- The operation shows the same in both states, and the same entries can be seen after it. -/
def SameAnswer (env : Env) (op : Op) (x x' : Sys) : Prop :=
  (x.exec env op).1.reply (x.exec env op).2.mgr = (x'.exec env op).1.reply (x'.exec env op).2.mgr ∧
    (abs env (x.exec env op).2.mgr).visible = (abs env (x'.exec env op).2.mgr).visible

/-- The state after the item has been unlinked. -/
def Sys.unlinked (env : Env) (x : Sys) (p : Ptr) : Sys :=
  { x with mgr := x.mgr.doUnlink env p .expired }

/-- The operation is on this key. -/
def Op.On (x : Sys) (k : Key) : Op → Prop
  | .get g key _ _ => (g, key) = k
  | .getTouch g key _ _ => (g, key) = k
  | .updateFlags g key _ _ => (g, key) = k
  | .updateExpiration g key _ _ => (g, key) = k
  | .update _ _ p _ => (x.mgr.item p).ident = k
  | .loadFromFileLink _ p _ => (x.mgr.item p).ident = k
  | .remove g key _ => (g, key) = k
  | .delta _ g key _ _ _ => (g, key) = k
  | _ => False

/-- `get` looks at the expire time; `set` overwrites an entry with the cache id that is asked for as
it would add one; `load_from_file` finds in the expired entry what it has loaded itself, and that
expires at once. -/
def Op.Forgets (env : Env) (x : Sys) (e : Entry) : Op → Prop
  | .get .. => True
  | .update .set _ p _ => (x.mgr.item p).cacheId = 0 ∨ (x.mgr.item p).cacheId = e.cacheId
  | .loadFromFileLink _ p w => (abs env x.mgr).watchOk w = true ∧
      (x.mgr.item p).contents = (e.data, e.flags, e.ext) ∧
      ¬ ((x.mgr.item p).entry p).Unexpired x.mgr.currTime
  | _ => False

theorem SameAnswer.reason {env : Env} {op : Op} {x x' : Sys} (h : SameAnswer env op x x') :
    (x.exec env op).1.reason = (x'.exec env op).1.reason := congrArg Prod.fst h.1

namespace AbsentLemmas

variable {env : Env} {lost : Ptr → Nat} {x : Sys} {st : Store} {k : Key} {e : Entry} {p q : Ptr}
  {a : Action} {op : Op}

/-! ## Operations that need an entry -/

/-- The action answers that the key is not found if it is not stored. -/
def Needs (k : Key) : Action → Prop
  | .getTouch k' _ _ => k' = k
  | .updateFlags k' _ _ => k' = k
  | .updateExpiration k' _ _ => k' = k
  | .replace k' _ _ => k' = k
  | .append k' _ _ _ => k' = k
  | .remove k' _ => k' = k
  | .delta k' _ _ _ => k' = k
  | _ => False

theorem reason_absent (h : st.entry k = none) (ha : Needs k a) :
    (st.act a).1.reason = some .notFound := by
  cases a with
  | getTouch k' w t =>
    obtain rfl : k' = k := ha
    rw [Store.act, Store.getTouch, h]
    rfl
  | updateFlags k' i fl =>
    obtain rfl : k' = k := ha
    rw [Store.act, Store.updateFlags, h]
    rfl
  | updateExpiration k' i t =>
    obtain rfl : k' = k := ha
    rw [Store.act, Store.updateExpiration, h]
    rfl
  | replace k' e w =>
    obtain rfl : k' = k := ha
    rw [Store.act, Store.replace, h]
    rfl
  | append k' i new w =>
    obtain rfl : k' = k := ha
    simp only [Store.act, Store.append, h]
    rfl
  | remove k' i =>
    obtain rfl : k' = k := ha
    rw [Store.act, Store.remove, h]
    rfl
  | delta k' i v new =>
    obtain rfl : k' = k := ha
    simp only [Store.act, Store.delta, h]
    rfl
  | _ => exact ha.elim

/-- A stored key is found, be it expired or not. -/
theorem reason_present (h : st.entry k = some e) (hid : e.cacheId ≠ 0) (ha : Needs k a) :
    (st.act a).1.reason ≠ some .notFound := by
  cases a with
  | getTouch k' w t =>
    obtain rfl : k' = k := ha
    rw [Store.act, Store.getTouch, h]
    dsimp only
    split
    · rintro ⟨⟩
    · rintro ⟨⟩
  | updateFlags k' i fl =>
    obtain rfl : k' = k := ha
    rw [Store.act, Store.updateFlags, h]
    dsimp only
    split
    · rintro ⟨⟩
    · show some (if false then Reason.success else if e.cacheId = 0 then .notFound else .mismatch) ≠ _
      rw [if_neg Bool.false_ne_true, if_neg hid]
      rintro ⟨⟩
  | updateExpiration k' i t =>
    obtain rfl : k' = k := ha
    rw [Store.act, Store.updateExpiration, h]
    dsimp only
    split
    · rintro ⟨⟩
    · rintro ⟨⟩
  | replace k' e' w =>
    obtain rfl : k' = k := ha
    rw [Store.act, Store.replace, h]
    dsimp only
    split
    · split
      · rintro ⟨⟩
      · rintro ⟨⟩
    · rintro ⟨⟩
  | append k' i new w =>
    obtain rfl : k' = k := ha
    rw [Store.act]
    by_cases hi : i = 0 ∨ i = e.cacheId
    · rw [Store.append_match h hi]
      cases new with
      | none => rintro ⟨⟩
      | some e' =>
        dsimp only
        split
        · rintro ⟨⟩
        · rintro ⟨⟩
    · rw [Store.append_mismatch h hi]
      rintro ⟨⟩
  | remove k' i =>
    obtain rfl : k' = k := ha
    rw [Store.act, Store.remove, h]
    dsimp only
    split
    · rintro ⟨⟩
    · rintro ⟨⟩
  | delta k' i v new =>
    obtain rfl : k' = k := ha
    rw [Store.act]
    by_cases hi : i = 0 ∨ i = e.cacheId
    · by_cases hlen : (formatInt64 v).length = e.data.length
      · rw [Store.delta_inPlace h hi hlen]
        rintro ⟨⟩
      · rw [Store.delta_realloc h hi hlen]
        cases new with
        | none => rintro ⟨⟩
        | some e' => rintro ⟨⟩
    · rw [Store.delta_mismatch h hi]
      rintro ⟨⟩
  | _ => exact ha.elim

/-! ## The ids of entries -/

/-- No entry has the cache id 0. -/
def IdsPos (st : Store) : Prop := ∀ k e, st.entry k = some e → e.cacheId ≠ 0

theorem nextId_ne_zero (st : Store) : st.nextId ≠ 0 := by
  unfold Store.nextId
  split
  · exact Nat.one_ne_zero
  · next h => exact h

theorem idsPos_act (h : IdsPos st) (a : Action) : IdsPos (st.act a).2 := by
  have hsub {st₁ : Store} (hs : st.Sub st₁) : IdsPos st₁ := by
    intro k e he
    obtain ⟨e', he', hc⟩ := hs.entry he
    have hid : e'.cacheId = e.cacheId := congrArg Prod.fst hc
    rw [← hid]
    exact h k e' he'
  rcases act_cases st a with hs | ⟨st₁, k, e, hs, hlink⟩
  · exact hsub hs
  · rw [hlink]
    intro k' e' he'
    rw [Store.entry_link] at he'
    by_cases hk : k' = k
    · rw [hk, Function.update_self] at he'
      rw [← Option.some.inj he']
      exact nextId_ne_zero st₁
    · rw [Function.update_of_ne hk] at he'
      exact hsub hs k' e' he'

/-! ## The state without the entry -/

/-- The item of an entry can be unlinked first. -/
theorem sysInv_unlinked (hx : SysInv env lost x) (he : (abs env x.mgr).entry k = some e) :
    SysInv env lost (x.unlinked env e.ptr) ∧
      abs env (x.unlinked env e.ptr).mgr = (abs env x.mgr).unlink k .expired := by
  obtain ⟨L, hL⟩ := hx.inv
  obtain ⟨p, hp, hk, rfl⟩ := (abs_entry_iff hL).mp he
  obtain ⟨L', hL', -, habs⟩ := hL.unlink hp .expired
  rw [hk] at habs
  refine ⟨⟨⟨L', hL'⟩, fun q hq => ?_⟩, habs⟩
  have hprep := hx.prepared q hq
  -- an item in preparation is another one
  have hqp : q ≠ p := fun h => hprep.absent k _ he h.symm
  have hitem : (x.mgr.doUnlink env p .expired).item q = x.mgr.item q :=
    CacheMgr.item_unlink_of_ne env x.mgr .expired hqp
  refine ⟨hprep.out, ?_, ?_, fun hf => ?_⟩
  · intro k' e' he'
    have he' : (abs env (x.mgr.doUnlink env p .expired)).entry k' = some e' := he'
    rw [habs, Store.entry_unlink] at he'
    by_cases hk' : k' = k
    · rw [hk', Function.update_self] at he'
      exact nomatch he'
    · rw [Function.update_of_ne hk'] at he'
      exact hprep.absent k' e' he'
  · show ((x.mgr.doUnlink env p .expired).item q).keyLength < 2 ^ 16
    rw [hitem]
    exact hprep.keyLength
  · show (x.mgr.doUnlink env p .expired).cacheHashMap.hashValue q =
      env.hash32 ((x.mgr.doUnlink env p .expired).item q).key
        ((x.mgr.doUnlink env p .expired).item q).groupId
    rw [hitem, CacheMgr.hashValue_unlink]
    exact hprep.hash hf

/-! ## The operations -/

variable {x' : Sys} {a' : Action}

/-- In `x` the key is stored, in `x'` it is not, and the operation is an action in both. -/
structure Compared (env : Env) (k : Key) (e : Entry) (op : Op) (x x' : Sys) (a a' : Action) :
    Prop where
  act : (abs env x.mgr).act a = ((x.exec env op).1, abs env (x.exec env op).2.mgr)
  act' : ((abs env x.mgr).unlink k .expired).act a' =
    ((x'.exec env op).1, abs env (x'.exec env op).2.mgr)
  entry : (abs env x.mgr).entry k = some e
  cacheId : e.cacheId ≠ 0
  expired : ¬ e.Unexpired x.mgr.currTime

theorem unlink_absent (st : Store) (k : Key) (t : NotifyType) : (st.unlink k t).entry k = none := by
  rw [Store.entry_unlink, Function.update_self]

theorem Compared.reason (h : Compared env k e op x x' a a') (hs : SameAnswer env op x x') :
    ((abs env x.mgr).act a).1.reason =
      (((abs env x.mgr).unlink k .expired).act a').1.reason := by
  rw [h.act, h.act']
  exact hs.reason

/-- The expired entry is found. -/
theorem not_same_of_needs (h : Compared env k e op x x' a a') (ha : Needs k a) (ha' : Needs k a') :
    ¬ SameAnswer env op x x' := by
  intro hs
  have hreason := h.reason hs
  rw [reason_absent (unlink_absent ..) ha'] at hreason
  exact reason_present h.entry h.cacheId ha hreason

theorem not_same_add {e₁ : Entry} {w : Nat}
    (h : Compared env k e op x x' (.add k e₁ w) (.add k e₁ w)) : ¬ SameAnswer env op x x' := by
  intro hs
  have hreason := h.reason hs
  rw [Store.act, Store.add, h.entry, Store.act, Store.add, unlink_absent] at hreason
  dsimp only at hreason
  split at hreason
  · cases hreason
  · cases hreason

/-- `get` unlinks the expired entry itself. -/
theorem same_get {w : Nat} (h : Compared env k e op x x' (.get k w) (.get k w)) :
    SameAnswer env op x x' := by
  have hact := h.act
  have hact' := h.act'
  rw [Store.act, Store.get, h.entry] at hact
  rw [Store.act, Store.get, unlink_absent] at hact'
  have hexpired : ¬ (e.expireTime = 0 ∨ (abs env x.mgr).currTime < e.expireTime) := h.expired
  dsimp only at hact hact'
  rw [if_neg hexpired] at hact
  obtain ⟨hr, hst⟩ := Prod.mk.inj hact
  obtain ⟨hr', hst'⟩ := Prod.mk.inj hact'
  refine ⟨?_, ?_⟩
  · rw [← hr, ← hr']
    rfl
  · rw [← hst, ← hst']

theorem watchOk_unlink (st : Store) (k : Key) (t : NotifyType) (w : Nat) :
    (st.unlink k t).watchOk w = st.watchOk w := by
  rw [Store.watchOk, Store.live_unlink, Store.watchOk]

/-- What can be seen depends on the entries and the clock. -/
theorem visible_congr {st st' : Store} {k : Key} (he : st.entry k = st'.entry k)
    (ht : st.currTime = st'.currTime) : st.visible k = st'.visible k := by
  rw [Store.visible, Store.visible, he, ht]

theorem visible_of_not {st : Store} {k : Key} (h : ∀ e, st.entry k = some e →
    ¬ e.Unexpired st.currTime) : st.visible k = none := by
  unfold Store.visible
  cases hk : st.entry k with
  | none => rfl
  | some e => rw [Option.filter_some, if_neg (by simpa using h e hk), Option.map_none]

theorem visible_of {st : Store} {k : Key} {e : Entry} (he : st.entry k = some e)
    (h : e.Unexpired st.currTime) : st.visible k = some (e.data, e.flags, e.ext, e.expireTime) := by
  rw [Store.visible, he, Option.filter_some, if_pos (decide_eq_true h), Option.map_some]

theorem visible_unlink {t : NotifyType} (h : ∀ e, st.entry k = some e →
    ¬ e.Unexpired st.currTime) : (st.unlink k t).visible = st.visible := by
  funext k'
  by_cases hk : k' = k
  · rw [hk, visible_of_not h, visible_of_not fun e he => ?_]
    rw [unlink_absent] at he
    exact nomatch he
  · refine visible_congr ?_ (Store.currTime_unlink ..)
    rw [Store.entry_unlink, Function.update_of_ne hk]

theorem expired_of_entry (h : Compared env k e op x x' a a') :
    ∀ e', (abs env x.mgr).entry k = some e' → ¬ e'.Unexpired (abs env x.mgr).currTime := by
  intro e' he'
  rw [h.entry] at he'
  rw [← Option.some.inj he']
  exact h.expired

/-- An entry with the cache id that is asked for is overwritten as if there was none. -/
theorem same_set_iff {e₁ : Entry} {w : Nat}
    (h : Compared env k e op x x' (.set k e₁ w) (.set k e₁ w)) :
    SameAnswer env op x x' ↔ e₁.cacheId = 0 ∨ e₁.cacheId = e.cacheId := by
  have hact := h.act
  have hact' := h.act'
  have hset : (abs env x.mgr).set k e₁ w = (abs env x.mgr).replace k e₁ w := by
    rw [Store.set, h.entry]
  have hset' : ((abs env x.mgr).unlink k .expired).set k e₁ w =
      ((abs env x.mgr).unlink k .expired).add k e₁ w := by
    rw [Store.set, unlink_absent]
  rw [Store.act, hset, Store.replace, h.entry] at hact
  rw [Store.act, hset', Store.add, unlink_absent] at hact'
  dsimp only at hact hact'
  rw [watchOk_unlink] at hact'
  by_cases hid : e₁.cacheId = 0 ∨ e₁.cacheId = e.cacheId
  · refine iff_of_true ?_ hid
    rw [if_pos hid] at hact
    by_cases hw : (abs env x.mgr).watchOk w = true
    · rw [if_pos hw] at hact hact'
      obtain ⟨hr, hst⟩ := Prod.mk.inj hact
      obtain ⟨hr', hst'⟩ := Prod.mk.inj hact'
      refine ⟨?_, ?_⟩
      · rw [← hr, ← hr']
        rfl
      · rw [← hst, ← hst']
        funext k'
        refine visible_congr ?_ ?_
        · simp only [id, Store.entry_link, Store.entry_unlink, Store.nextId_unlink]
        · show ((abs env x.mgr).unlink k .dataUpdated).currTime =
            ((abs env x.mgr).unlink k .expired).currTime
          rw [Store.currTime_unlink, Store.currTime_unlink]
    · rw [if_neg hw] at hact hact'
      obtain ⟨hr, hst⟩ := Prod.mk.inj hact
      obtain ⟨hr', hst'⟩ := Prod.mk.inj hact'
      refine ⟨?_, ?_⟩
      · rw [← hr, ← hr']
        rfl
      · rw [← hst, ← hst']
        exact (visible_unlink (expired_of_entry h)).symm
  · refine iff_of_false (fun hs => ?_) hid
    rw [if_neg hid] at hact
    have hr := (Prod.mk.inj hact).1
    have hreason := hs.reason
    split at hact'
    · rw [← hr, ← (Prod.mk.inj hact').1] at hreason
      cases hreason
    · rw [← hr, ← (Prod.mk.inj hact').1] at hreason
      cases hreason

/-- The item of an entry holds what the entry says. -/
theorem contents_of_entry {s : CacheMgr} {held : Ptr → Nat} (h : Inv env held s)
    (he : (abs env s).entry k = some e) : (s.item e.ptr).contents = (e.data, e.flags, e.ext) := by
  obtain ⟨L, hL⟩ := h
  obtain ⟨p, -, -, rfl⟩ := (abs_entry_iff hL).mp he
  rfl

/-- `load_from_file` takes the expired entry for what it was to load. -/
theorem same_load_iff {e₁ : Entry} {w : Nat} {held held' : Ptr → Nat}
    (h : Compared env k e op x x' (.loadFromFileLink k e₁ w) (.loadFromFileLink k e₁ w))
    (hy : Inv env held (x.exec env op).2.mgr) (hy' : Inv env held' (x'.exec env op).2.mgr) :
    SameAnswer env op x x' ↔ (abs env x.mgr).watchOk w = true ∧
      (e₁.data, e₁.flags, e₁.ext) = (e.data, e.flags, e.ext) ∧ ¬ e₁.Unexpired x.mgr.currTime := by
  have hact := h.act
  have hact' := h.act'
  rw [Store.act, Store.loadFromFileLink, h.entry] at hact
  rw [Store.act, Store.loadFromFileLink, unlink_absent] at hact'
  dsimp only at hact hact'
  rw [watchOk_unlink] at hact'
  obtain ⟨hr, hst⟩ := Prod.mk.inj hact
  by_cases hw : (abs env x.mgr).watchOk w = true
  · rw [if_pos hw] at hact'
    obtain ⟨hr', hst'⟩ := Prod.mk.inj hact'
    obtain ⟨o, ho⟩ : ∃ o, e₁.addWatchIf w = { e₁ with watch := o } := by
      unfold Entry.addWatchIf
      split
      · exact ⟨_, rfl⟩
      · exact ⟨e₁.watch, rfl⟩
    have hentry : (abs env (x.exec env op).2.mgr).entry k = some e := by
      rw [← hst]
      exact h.entry
    have hentry' : (abs env (x'.exec env op).2.mgr).entry k =
        some { e₁ with watch := o, cacheId := (abs env x.mgr).nextId } := by
      rw [← hst', ho]
      show ((((abs env x.mgr).unlink k .expired).link k { e₁ with watch := o }).entry) k = _
      rw [Store.entry_link, Function.update_self, Store.nextId_unlink]
    have hreply : (x.exec env op).1.reply (x.exec env op).2.mgr =
        (x'.exec env op).1.reply (x'.exec env op).2.mgr ↔
          (e₁.data, e₁.flags, e₁.ext) = (e.data, e.flags, e.ext) := by
      rw [← hr, ← hr']
      show (some Reason.success, some (((x.exec env op).2.mgr.item e.ptr).contents), (0 : Int)) =
        (some Reason.success, some (((x'.exec env op).2.mgr.item e₁.ptr).contents), 0) ↔ _
      rw [contents_of_entry hy hentry]
      have hcontents : ((x'.exec env op).2.mgr.item e₁.ptr).contents =
          (e₁.data, e₁.flags, e₁.ext) :=
        contents_of_entry (e := { e₁ with watch := o, cacheId := (abs env x.mgr).nextId }) hy' hentry'
      rw [hcontents]
      constructor
      · intro heq
        exact (Option.some.inj (congrArg (fun r => r.2.1) heq)).symm
      · intro heq
        rw [heq]
    have hvisible : (abs env (x.exec env op).2.mgr).visible =
        (abs env (x'.exec env op).2.mgr).visible ↔ ¬ e₁.Unexpired x.mgr.currTime := by
      have hbefore : (abs env (x.exec env op).2.mgr).visible k = none := by
        rw [← hst]
        exact visible_of_not (expired_of_entry h)
      have htime : (abs env (x'.exec env op).2.mgr).currTime = x.mgr.currTime := by
        rw [← hst']
        exact Store.currTime_unlink ..
      constructor
      · intro heq hun
        have hafter := visible_of hentry' (htime.symm ▸ hun)
        rw [← heq, hbefore] at hafter
        cases hafter
      · intro hun
        funext k'
        by_cases hk : k' = k
        · rw [hk, hbefore, visible_of_not fun e' he' => ?_]
          rw [hentry'] at he'
          rw [htime, ← Option.some.inj he']
          exact hun
        · refine visible_congr ?_ ?_
          · rw [← hst, ← hst', id, id, Store.entry_link, Function.update_of_ne hk, Store.entry_unlink,
              Function.update_of_ne hk]
          · rw [htime, ← hst]
            rfl
    rw [SameAnswer, hreply, hvisible]
    exact (and_iff_right hw).symm
  · refine iff_of_false (fun hs => ?_) fun hc => hw hc.1
    rw [if_neg hw] at hact'
    have hreason := hs.reason
    rw [← hr, ← (Prod.mk.inj hact').1] at hreason
    cases hreason

/-- In every reachable state no entry has the cache id 0. -/
theorem idsPos_run {lastTime limit itemSizeMax itemSizeMin : Nat} {factor : Rat}
    {t : List (Sys × (Op × Outcome))}
    (h : Run (Sys.RoomStep env) (Sys.start env lastTime limit itemSizeMax itemSizeMin factor) t x) :
    (∃ lost, SysInv env lost x) ∧ IdsPos (abs env x.mgr) := by
  refine h.invariant (I := fun x => (∃ lost, SysInv env lost x) ∧ IdsPos (abs env x.mgr))
    (fun x l y hI hs => ?_) ⟨⟨_, sysInv_start⟩, ?_⟩
  · obtain ⟨hy, a, -, hact⟩ := SysInv.act hI.1 hs
    have hst : ((abs env x.mgr).act a).2 = abs env y.mgr := congrArg Prod.snd hact
    exact ⟨hy, hst ▸ idsPos_act hI.2 a⟩
  · rw [abs_start]
    exact nofun

end AbsentLemmas

open AbsentLemmas

variable {env : Env} {x : Sys} {k : Key} {e : Entry} {op : Op}
  {lastTime limit itemSizeMax itemSizeMin : Nat} {factor : Rat} {t : List (Sys × (Op × Outcome))}

/-- With these operations, and no others, an expired entry behaves as if it was not there. -/
theorem sameAnswer_iff
    (h : Run (Sys.RoomStep env) (Sys.start env lastTime limit itemSizeMax itemSizeMin factor) t x)
    (hroom : x.Roomy env) (he : (abs env x.mgr).entry k = some e)
    (hexpired : 0 < e.expireTime ∧ e.expireTime ≤ x.mgr.currTime) (hp : x.Permitted op)
    (hon : op.On x k) :
    SameAnswer env op x (x.unlinked env e.ptr) ↔ op.Forgets env x e := by
  obtain ⟨⟨lost, hx⟩, hpos⟩ := idsPos_run h
  have hr := room_of_roomy hx hroom
  obtain ⟨hx', habs⟩ := sysInv_unlinked hx he
  obtain ⟨a, hsim, hy⟩ := hx.step hr hp
  have hp' : (x.unlinked env e.ptr).Permitted op := by cases op <;> exact hp
  obtain ⟨a', hsim', hy'⟩ := hx'.step hr hp'
  have hact' := hsim'.act
  rw [habs] at hact'
  have hcompared : Compared env k e op x (x.unlinked env e.ptr) a a' := by
    refine ⟨hsim.act, hact', he, hpos k e he, fun hun => ?_⟩
    rcases hun with hzero | hlt
    · omega
    · omega
  -- a request item is another one
  have hitem {p : Ptr} (hst : x.stage p ≠ .passed) :
      (x.unlinked env e.ptr).mgr.item p = x.mgr.item p :=
    CacheMgr.item_unlink_of_ne env x.mgr .expired fun hpe =>
      (hx.prepared p hst).absent k e he hpe.symm
  have hacts := hsim.acts
  have hacts' := hsim'.acts
  cases op with
  | get g key w b =>
    cases hacts with
    | get => cases hacts' with
      | get =>
        obtain rfl : (g, key) = k := hon
        exact iff_of_true (same_get hcompared) trivial
  | getTouch g key w i =>
    cases hacts with
    | getTouch => cases hacts' with
      | getTouch => exact iff_of_false (not_same_of_needs hcompared hon hon) nofun
  | updateFlags g key i fl =>
    cases hacts with
    | updateFlags => cases hacts' with
      | updateFlags => exact iff_of_false (not_same_of_needs hcompared hon hon) nofun
  | updateExpiration g key i t =>
    cases hacts with
    | updateExpiration => cases hacts' with
      | updateExpiration => exact iff_of_false (not_same_of_needs hcompared hon hon) nofun
  | remove g key i =>
    cases hacts with
    | remove => cases hacts' with
      | remove => exact iff_of_false (not_same_of_needs hcompared hon hon) nofun
  | delta o g key incr d i =>
    cases hacts with
    | delta => cases hacts' with
      | delta => exact iff_of_false (not_same_of_needs hcompared hon hon) nofun
  | loadFromFileLink o p w =>
    have hp' : x.stage p = .filled := hp
    have hsame := hitem (p := p) (by rw [hp']; exact nofun)
    cases hacts with
    | loadFromFileLink => cases hacts' with
      | loadFromFileLink =>
        rw [hsame] at hcompared
        obtain rfl : (x.mgr.item p).ident = k := hon
        exact same_load_iff hcompared hsim.inv hsim'.inv
  | update verb o p w =>
    have hp' : x.stage p = .filled := hp
    have hsame := hitem (p := p) (by rw [hp']; exact nofun)
    have hident : (x.mgr.item p).ident = k := hon
    have hident' : ((x.unlinked env e.ptr).mgr.item p).ident = k := hsame ▸ hon
    cases verb with
    | add =>
      cases hacts with
      | add => cases hacts' with
        | add =>
          rw [hsame, hident] at hcompared
          exact iff_of_false (not_same_add hcompared) nofun
    | set =>
      cases hacts with
      | set => cases hacts' with
        | set =>
          rw [hsame, hident] at hcompared
          exact same_set_iff hcompared
    | replace =>
      cases hacts with
      | replace => cases hacts' with
        | replace => exact iff_of_false (not_same_of_needs hcompared hident hident') nofun
    | append =>
      cases hacts with
      | append => cases hacts' with
        | append => exact iff_of_false (not_same_of_needs hcompared hident hident') nofun
    | prepend =>
      cases hacts with
      | prepend => cases hacts' with
        | prepend => exact iff_of_false (not_same_of_needs hcompared hident hident') nofun
  | _ => exact hon.elim

/-- An item that is to expire after 5 seconds is stored under the key "k", and 9 seconds go by. -/
def pastOps : List Op :=
  [.alloc .zeros 1 1 0 5 1 0, .fill 0 ⟨[107], [53], [], 0⟩, .update .set .zeros 0 0,
    .setCurrentTime 9]

/-- `get` does not see the expired item. -/
theorem sameAnswer_get :
    let env := Env.colliding .uint16
    let x := (Sys.small .uint16).execAll env pastOps
    ∃ e, (abs env x.mgr).entry (1, [107]) = some e ∧
      SameAnswer env (.get 1 [107] 0 false) x (x.unlinked env e.ptr) := by
  intro env x
  have hrun : Run (Sys.RoomStep env) (Sys.small .uint16) _ x :=
    Sys.roomRun_execAll (by decide +kernel) (by decide +kernel)
  have htime : ((abs env x.mgr).entry (1, [107])).map Entry.expireTime = some 13 := by decide +kernel
  have hnow : x.mgr.currTime = 17 := by decide +kernel
  obtain ⟨e, he, hexpire⟩ := Option.map_eq_some_iff.mp htime
  have hp : x.Permitted (.get 1 [107] 0 false) := trivial
  refine ⟨e, he, (sameAnswer_iff hrun (by decide +kernel) he ⟨?_, ?_⟩ hp rfl).mpr trivial⟩
  · rw [hexpire]
    decide
  · rw [hexpire, hnow]
    decide

/-- `remove` does, and tells that it has removed it. -/
theorem not_sameAnswer_remove :
    let env := Env.colliding .uint16
    let x := (Sys.small .uint16).execAll env pastOps
    (∃ t, Run (Sys.RoomStep env) (Sys.small .uint16) t x) ∧
      (abs env x.mgr).visible (1, [107]) = none ∧
      ∃ e, (abs env x.mgr).entry (1, [107]) = some e ∧
        ¬ SameAnswer env (.remove 1 [107] 0) x (x.unlinked env e.ptr) := by
  intro env x
  have hptr : ((abs env x.mgr).entry (1, [107])).map Entry.ptr = some 0 := by decide +kernel
  obtain ⟨e, he, hzero⟩ := Option.map_eq_some_iff.mp hptr
  refine ⟨⟨_, Sys.roomRun_execAll (by decide +kernel) (by decide +kernel)⟩, by decide +kernel, e, he,
    fun hs => ?_⟩
  rw [hzero] at hs
  have hfound : (x.exec env (.remove 1 [107] 0)).1.reason = some .success := by decide +kernel
  have hnot : ((x.unlinked env 0).exec env (.remove 1 [107] 0)).1.reason = some .notFound := by
    decide +kernel
  have hreason := hs.reason
  rw [hfound, hnot] at hreason
  exact nomatch hreason

end Xixi
