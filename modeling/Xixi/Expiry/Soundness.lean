import Xixi.Expiry.Sweep

/-!
# Nothing expires before its time

An expire time of 0 means "never", and a sweep that met an item with it would take it for one
that is long past. It is the last expire list that keeps such items apart: no sweep goes through
it. Every operation puts an item that never expires there but for `get_touch`, which sets the
expire time of an item and leaves it in its list.

1. `CacheMgr.Sheltered`: every item in use that never expires is in the last list.
2. `Op.Shelters`: the operation is no `get_touch` that takes the expire time from an entry of
   another list.
3. `Op.Disturbs`: the operation succeeds in removing or replacing an entry or in giving it another
   expire time. `Op.FindsWatch`: it is no `get_touch` that fails after it has done so.
4. `expiry_sound`: along every run of sheltering operations, only what is past its expire time is
   unlinked by the sweep and by `get`, and an entry that nobody disturbs stays until then.
-/

namespace Xixi

open Xixi.Lists StepLemmas RefinementLemmas SystemLemmas FailureLemmas ExpiryLemmas CacheMgr Lib

/-- An item that never expires is in the last list, through which no sweep goes. -/
def CacheMgr.Sheltered (s : CacheMgr) : Prop :=
  ∀ q, 0 < (s.item q).refCount → (s.item q).expireTime = 0 → (s.item q).expirationId = 33

/-- `get_touch` takes the expire time from an entry only if the entry is in the last list. -/
def Op.Shelters (env : Env) (s : CacheMgr) : Op → Prop
  | .getTouch g k _ x => ∀ v ∈ (s.view env).entry (g, k), realtime s.currTime x = 0 → v.2 = 33
  | _ => True

instance (env : Env) (s : CacheMgr) : (op : Op) → Decidable (op.Shelters env s)
  | .getTouch g k _ x => inferInstanceAs
      (Decidable (∀ v ∈ (s.view env).entry (g, k), realtime s.currTime x = 0 → v.2 = 33))
  | .alloc .. | .fill .. | .get .. | .updateFlags .. | .updateExpiration .. | .update ..
  | .loadFromFileLink .. | .remove .. | .delta .. | .flush .. | .checkExpired
  | .releaseReference .. | .createWatch .. | .checkWatchAndSetCallback ..
  | .checkWatchAndClearCallback .. | .setCurrentTime .. | .connections .. => .isTrue trivial

def Sys.ShelteredStep (env : Env) (x : Sys) (l : Op × Outcome) (y : Sys) : Prop :=
  l.1.Shelters env x.mgr ∧ x.RoomStep env l y

/-- The operations that unlink what has expired. -/
def Op.expires : Op → Bool
  | .get .. | .checkExpired => true
  | _ => false

/-- The key and the expire time that the operation gives to its entry. -/
def Op.retimes (s : CacheMgr) : Op → Option (Key × Nat)
  | .getTouch g k _ x => some ((g, k), realtime s.currTime x)
  | .updateExpiration g k _ x => some ((g, k), realtime s.currTime x)
  | .update .set _ p _ => some ((s.item p).ident, (s.item p).expireTime)
  | _ => none

/-- The operation, with this outcome, has removed or replaced the entry of a key or given it another
expire time, or it flushes the group. -/
def Op.Disturbs (s : CacheMgr) (k : Key) (r : Outcome) : Op → Prop
  | .getTouch g k' _ _ | .updateExpiration g k' _ _ | .remove g k' _ =>
    (g, k') = k ∧ r.succeeded = true
  | .update .set _ p _ | .update .replace _ p _ => (s.item p).ident = k ∧ r.succeeded = true
  | .flush g => g = k.1
  | _ => False

instance (s : CacheMgr) (k : Key) (r : Outcome) : (op : Op) → Decidable (op.Disturbs s k r)
  | .getTouch g k' _ _ | .updateExpiration g k' _ _ | .remove g k' _ =>
    inferInstanceAs (Decidable ((g, k') = k ∧ r.succeeded = true))
  | .update .set _ p _ | .update .replace _ p _ =>
    inferInstanceAs (Decidable ((s.item p).ident = k ∧ r.succeeded = true))
  | .flush g => inferInstanceAs (Decidable (g = k.1))
  | .alloc .. | .fill .. | .get .. | .updateFlags .. | .update .add .. | .update .append ..
  | .update .prepend .. | .loadFromFileLink .. | .delta .. | .checkExpired | .releaseReference ..
  | .createWatch .. | .checkWatchAndSetCallback .. | .checkWatchAndClearCallback ..
  | .setCurrentTime .. | .connections .. => .isFalse id

/-- A `get_touch` of the key asks for no watch or for a valid one. If it asks for another one, it
fails, but has set the expire time before. -/
def Op.FindsWatch (s : CacheMgr) (k : Key) : Op → Prop
  | .getTouch g k' w _ => (g, k') = k → w = 0 ∨ s.isValidWatchId w = true
  | _ => True

instance (s : CacheMgr) (k : Key) : (op : Op) → Decidable (op.FindsWatch s k)
  | .getTouch g k' w _ =>
    inferInstanceAs (Decidable ((g, k') = k → w = 0 ∨ s.isValidWatchId w = true))
  | .alloc .. | .fill .. | .get .. | .updateFlags .. | .updateExpiration .. | .update ..
  | .loadFromFileLink .. | .remove .. | .delta .. | .flush .. | .checkExpired
  | .releaseReference .. | .createWatch .. | .checkWatchAndSetCallback ..
  | .checkWatchAndClearCallback .. | .setCurrentTime .. | .connections .. => .isTrue trivial

namespace ExpiryLemmas

variable {env : Env} {held : Ptr → Nat} {L : ListId → List Ptr} {s s' : CacheMgr} {A : Filed}
  {x y : Sys} {op : Op} {r : Outcome} {p : Ptr}

/-! ## The lists -/

theorem sheltered_of_files (h : s.Sheltered) (hf : Files A s s') (hok : s'.ok = true)
    (hA : ∀ p i, A p i 0 → i = 33) : s'.Sheltered := by
  intro q hq h0
  rcases hf.kept hok q hq with ⟨hq', hi, ht⟩ | hat
  · rw [hi]
    exact h q hq' (ht ▸ h0)
  · rw [Filed.At, h0] at hat
    exact hA q _ hat

theorem sheltered_step (hx : ∃ lost, SysInv env lost x) (hs : x.mgr.Sheltered)
    (h : x.ShelteredStep env (op, r) y) : y.mgr.Sheltered := by
  obtain ⟨hshelters, h⟩ := h
  obtain ⟨held, L, held', L', hL, hL', hroom, hready, hexec⟩ := SysInv.core hx h
  have hmgr : y.mgr = (x.mgr.exec env op).2 := (congrArg Prod.snd hexec).symm
  by_cases hsweep : op = .checkExpired
  · subst hsweep
    have hf : Files (Rebucketed x.mgr.currTime) x.mgr y.mgr := hmgr ▸ files_checkExpired x.mgr
    exact sheltered_of_files hs hf hL'.ok fun _ _ ⟨_, hlt⟩ => absurd hlt (Nat.not_lt_zero _)
  by_cases htouch : ∃ g k w t, op = .getTouch g k w t
  · obtain ⟨g, k, w, t, rfl⟩ := htouch
    obtain ⟨s₁, hs₁, hf⟩ := files_getTouch (A := Fresh x.mgr.currTime) hL g k w t
    have hf' : Files (Fresh x.mgr.currTime) s₁ y.mgr := hmgr ▸ hf
    refine sheltered_of_files ?_ hf' hL'.ok fun _ _ hfresh => hfresh
    rcases hs₁ with rfl | ⟨p, hp, rfl⟩
    · exact hs
    · intro q hq h0
      by_cases hqp : q = p
      · subst hqp
        rw [item_modify_self] at h0 ⊢
        exact hshelters (_, _) (by simp only [view, hp]; rfl) h0
      · rw [item_modify_of_ne _ _ hqp] at hq h0 ⊢
        exact hs q hq h0
  · have hf := files_exec (A := Fresh x.mgr.currTime) hL hroom hready
      (fun g k w t he => htouch ⟨g, k, w, t, he⟩) hsweep (fun _ _ _ => rfl) fun _ _ _ _ _ _ _ _ => rfl
    rw [← hmgr] at hf
    exact sheltered_of_files hs hf hL'.ok fun _ _ hfresh => hfresh

theorem sheltered_start {lastTime limit itemSizeMax itemSizeMin : Nat} {factor : Rat} :
    (Sys.start env lastTime limit itemSizeMax itemSizeMin factor).mgr.Sheltered := by
  intro q hq
  obtain ⟨m, i, f, he⟩ := init_eq env (CacheMgr.new lastTime) limit itemSizeMax itemSizeMin factor
  have hitem : (Sys.start env lastTime limit itemSizeMax itemSizeMin factor).mgr.item q =
      (CacheMgr.new lastTime).item q := by
    rw [Sys.start, he]
  rw [hitem] at hq
  exact absurd hq (Nat.lt_irrefl 0)

theorem sheltered_run {t : List (Sys × (Op × Outcome))} (h : Run (Sys.ShelteredStep env) x t y)
    (hx : (∃ lost, SysInv env lost x) ∧ x.mgr.Sheltered) :
    (∃ lost, SysInv env lost y) ∧ y.mgr.Sheltered :=
  h.invariant (I := fun x => (∃ lost, SysInv env lost x) ∧ x.mgr.Sheltered)
    (fun _ _ _ hx hs => ⟨(SysInv.act hx.1 hs.2).1, sheltered_step hx.1 hx.2 hs⟩) hx

/-- A sweep leaves what is not due. -/
theorem entry_swept {k : Key} {e : Entry} (hx : ∃ lost, SysInv env lost x)
    (h : x.RoomStep env (.checkExpired, r) y) (he : (abs env x.mgr).entry k = some e) :
    (abs env y.mgr).entry k = some e ∨ e.expireTime ≤ x.mgr.currTime := by
  obtain ⟨-, a, hacts, hact⟩ := SysInv.act hx h
  have hst : ((abs env x.mgr).act a).2 = abs env y.mgr := congrArg Prod.snd hact
  rw [← hst]
  cases hacts with
  | checkExpiredNot => exact .inl he
  | @checkExpired ks _ hkeys =>
    by_cases hk : k ∈ ks
    · obtain ⟨e', he', hle⟩ := hkeys k hk
      obtain rfl := Option.some.inj (he.symm.trans he')
      exact .inr hle
    · refine .inl ?_
      show (Store.unlinkAll _ _ _).entry k = _
      rw [Store.entry_unlinkAll, if_neg hk]
      exact he

/-- A sweep leaves what is in the last list. -/
theorem entry_lasting {k : Key} {e : Entry} (hx : ∃ lost, SysInv env lost x)
    (h : x.RoomStep env (.checkExpired, r) y) (he : (abs env x.mgr).entry k = some e)
    (hlast : (x.mgr.item e.ptr).expirationId = 33) : (abs env y.mgr).entry k = some e := by
  obtain ⟨held, L, -, -, hL, -, -, -, hexec⟩ := SysInv.core hx h
  have hmgr : y.mgr = x.mgr.checkExpired env := (congrArg Prod.snd hexec).symm
  by_cases hnew : x.mgr.currTime ≠ x.mgr.lastCheckExpiredTime
  · obtain ⟨L', hswept⟩ := checkExpired_items hL hnew
    obtain ⟨p, hl, hid, rfl⟩ := (abs_entry_iff hL).mp he
    have hlist : (x.mgr.item p).expirationId = 33 := hlast
    have hsame := hswept.untouched p fun hd => absurd hd.2.1 (by
      show ¬ (x.mgr.item p).expirationId < 33
      omega)
    have hitem : (x.mgr.checkExpired env).item p = x.mgr.item p := hsame.item
    rw [hmgr]
    refine (abs_entry_iff hswept.core).mpr ⟨p, hsame.linked.mpr hl, ?_, ?_⟩
    · rw [hitem]
      exact hid
    · rw [hitem]
  · rw [hmgr, checkExpired, if_neg hnew]
    exact he

/-- A sweep leaves what never expires. -/
theorem entry_sheltered {k : Key} {e : Entry} (hx : ∃ lost, SysInv env lost x)
    (hs : x.mgr.Sheltered) (h : x.RoomStep env (.checkExpired, r) y)
    (he : (abs env x.mgr).entry k = some e) (h0 : e.expireTime = 0) :
    (abs env y.mgr).entry k = some e := by
  refine entry_lasting hx h he ?_
  obtain ⟨held, L, -, -, hL, -⟩ := SysInv.core hx h
  obtain ⟨p, hl, -, rfl⟩ := (abs_entry_iff hL).mp he
  exact hs p (hL.pos_of_linked hl) h0

/-! ## The entry of a key -/

/-- The key has an entry with this expire time. -/
def Keeps (st : Store) (k : Key) (t : Nat) : Prop := ∃ e, st.entry k = some e ∧ e.expireTime = t

variable {st : Store} {k k' : Key} {t : Nat}

theorem keeps_put {e : Entry} (h : k' ≠ k → Keeps st k t) (he : k' = k → e.expireTime = t) :
    Keeps (st.put k' (some e)) k t := by
  by_cases hk : k' = k
  · subst hk
    exact ⟨e, by rw [Store.entry_put, Function.update_self], he rfl⟩
  · obtain ⟨e', he', ht⟩ := h hk
    exact ⟨e', by rw [Store.entry_put, Function.update_of_ne (Ne.symm hk)]; exact he', ht⟩

theorem keeps_link {e : Entry} (h : k' ≠ k → Keeps st k t) (he : k' = k → e.expireTime = t) :
    Keeps (st.link k' e) k t := by
  refine keeps_put (e := { e with cacheId := st.nextId }) ?_ he
  exact h

theorem keeps_unlink (h : Keeps st k t) (n : NotifyType) (hk : k' ≠ k) :
    Keeps (st.unlink k' n) k t := by
  obtain ⟨e, he, ht⟩ := h
  exact ⟨e, by rw [Store.entry_unlink, Function.update_of_ne (Ne.symm hk)]; exact he, ht⟩

/-- An entry is replaced by one with the same expire time. -/
theorem keeps_replace {e old : Entry} (h : Keeps st k t) (hold : st.entry k' = some old)
    (he : e.expireTime = old.expireTime) (n : NotifyType) :
    Keeps ((st.unlink k' n).link k' e) k t := by
  refine keeps_link (fun hk => keeps_unlink h n hk) fun hk => ?_
  obtain ⟨e', he', ht⟩ := h
  subst hk
  obtain rfl := Option.some.inj (hold.symm.trans he')
  exact he.trans ht

/-- The end of `get` and of the operations that only touch an entry. -/
theorem keeps_touch {e old : Entry} (h : Keeps st k t) (hold : st.entry k' = some old)
    (he : e.expireTime = old.expireTime) : Keeps (st.put k' (some e)) k t := by
  refine keeps_put (fun _ => h) fun hk => ?_
  obtain ⟨e', he', ht⟩ := h
  subst hk
  obtain rfl := Option.some.inj (hold.symm.trans he')
  exact he.trans ht

theorem keeps_get (h : Keeps st k t) (hlive : t = 0 ∨ st.currTime < t) (w : Nat) :
    Keeps (st.get k' w).2 k t := by
  unfold Store.get
  split
  · exact h
  · next e he =>
    split
    · split
      · exact keeps_touch h he (Entry.expireTime_addWatchIf e w)
      · exact h
    · next hdue =>
      refine keeps_unlink h .expired fun hk => ?_
      obtain ⟨e', he', ht⟩ := h
      subst hk
      obtain rfl := Option.some.inj (he.symm.trans he')
      exact hdue (ht ▸ hlive)

theorem keeps_getTouch (h : Keeps st k t) (hk : k' ≠ k) (w t' : Nat) :
    Keeps (st.getTouch k' w t').2 k t := by
  unfold Store.getTouch
  split
  · exact h
  · split
    · exact keeps_put (fun _ => h) fun he => absurd he hk
    · exact keeps_put (fun _ => h) fun he => absurd he hk

theorem keeps_updateFlags (h : Keeps st k t) (x fl : Nat) :
    Keeps (st.updateFlags k' x fl).2 k t := by
  unfold Store.updateFlags
  split
  · exact h
  · next e he =>
    split
    · exact keeps_touch (e := { e with
        flags := fl
        watch := e.watch.map fun ws => ws.keep st.live
        cacheId := st.nextId }) h he rfl
    · exact h

theorem keeps_updateExpiration (h : Keeps st k t) (hk : k' ≠ k) (x t' : Nat) :
    Keeps (st.updateExpiration k' x t').2 k t := by
  unfold Store.updateExpiration
  split
  · exact h
  · split
    · exact keeps_put (fun _ => h) fun he => absurd he hk
    · exact h

/-- `add` does nothing under a key that has an entry. -/
theorem keeps_add (h : Keeps st k t) (e : Entry) (w : Nat) : Keeps (st.add k' e w).2 k t := by
  unfold Store.add
  split
  · next hnone =>
    split
    · refine keeps_link (fun _ => h) fun hk => ?_
      obtain ⟨e', he', -⟩ := h
      subst hk
      exact nomatch hnone.symm.trans he'
    · exact h
  · exact h

theorem keeps_replaceOp (h : Keeps st k t) (hk : k' ≠ k) (e : Entry) (w : Nat) :
    Keeps (st.replace k' e w).2 k t := by
  unfold Store.replace
  split
  · exact h
  · split
    · split
      · exact keeps_link (fun _ => keeps_unlink h .dataUpdated hk) fun he => absurd he hk
      · exact h
    · exact h

theorem keeps_append {new : Option Entry} (h : Keeps st k t) (x w : Nat)
    (hnew : ∀ e old, new = some e → st.entry k' = some old → e.expireTime = old.expireTime) :
    Keeps (st.append k' x new w).2 k t := by
  unfold Store.append
  split
  · exact h
  · next old hold =>
    split
    · exact h
    · split
      · exact h
      · next e =>
        split
        · exact keeps_replace h hold (hnew e old rfl hold) .dataUpdated
        · exact h

theorem keeps_delta {new : Option Entry} {v : Int} {buf : Bytes} (h : Keeps st k t) (x : Nat)
    (hnew : ∀ e old, new = some e → st.entry k' = some old → e.expireTime = old.expireTime) :
    Keeps (st.delta k' x v buf new).2 k t := by
  unfold Store.delta
  split
  · exact h
  · next old hold =>
    split
    · split
      · split
        · exact h
        · next e => exact keeps_replace h hold (hnew e old rfl hold) .dataUpdated
      · exact keeps_touch (e := { old with data := buf, cacheId := st.nextId }) h hold rfl
    · exact h

theorem keeps_loadFromFileLink (h : Keeps st k t) (e : Entry) (w : Nat) :
    Keeps (st.loadFromFileLink k' e w).2 k t := by
  have hadd : Keeps (st.add k' e w).2 k t := keeps_add h e w
  unfold Store.add at hadd
  unfold Store.loadFromFileLink
  split
  · next hnone =>
    rw [hnone] at hadd
    split
    · next hw =>
      rw [if_pos hw] at hadd
      exact hadd
    · exact h
  · exact h

theorem keeps_remove (h : Keeps st k t) (hk : k' ≠ k) (x : Nat) : Keeps (st.remove k' x).2 k t := by
  unfold Store.remove
  split
  · exact h
  · split
    · exact keeps_unlink h .deleted hk
    · exact h

/-- An operation that fails keeps an entry and its expire time, but for a `get_touch` that does not
find its watch. -/
theorem keeps_failed {a : Action} (hacts : Acts env s op a)
    (h : Keeps (abs env s) k t) (hwatch : op.FindsWatch s k) (hlive : t = 0 ∨ s.currTime < t)
    (hfail : ((abs env s).act a).1.failed = true) : Keeps ((abs env s).act a).2 k t := by
  rcases act_failed hacts hfail with heq | ⟨k', w, -, rfl, -⟩ | ⟨k', w, t', e, rfl, he, hnot, heq⟩
  · rw [heq]
    exact h
  · exact keeps_get h hlive w
  · rw [heq]
    refine keeps_put (fun _ => h) fun hk => ?_
    cases hacts
    rw [Store.watchOk, live_eq, Bool.or_eq_false_iff] at hnot
    rcases hwatch hk with hzero | hvalid
    · rw [hzero] at hnot
      exact absurd hnot.1 (by decide)
    · exact absurd (hvalid.symm.trans hnot.2) (by decide)

/-- Every operation but the sweep keeps an entry and its expire time, if it does not disturb
the key. -/
theorem keeps_act {a : Action} (hacts : Acts env s op a) (hsweep : op ≠ .checkExpired)
    (h : Keeps (abs env s) k t) (hquiet : ¬ op.Disturbs s k ((abs env s).act a).1)
    (hwatch : op.FindsWatch s k) (hlive : t = 0 ∨ s.currTime < t) :
    Keeps ((abs env s).act a).2 k t := by
  cases hfail : ((abs env s).act a).1.failed with
  | true => exact keeps_failed hacts h hwatch hlive hfail
  | false =>
    cases hacts with
    | get => exact keeps_get h hlive _
    | getTouch =>
      exact keeps_getTouch h (fun hk => hquiet ⟨hk, Bool.not_inj hfail⟩) _ _
    | updateFlags => exact keeps_updateFlags h _ _
    | updateExpiration =>
      exact keeps_updateExpiration h (fun hk => hquiet ⟨hk, Bool.not_inj hfail⟩) _ _
    | add => exact keeps_add h _ _
    | @set _ p w =>
      show Keeps ((abs env s).set _ _ w).2 k t
      unfold Store.set
      split
      · exact keeps_add h _ _
      · exact keeps_replaceOp h (fun hk => hquiet ⟨hk, Bool.not_inj hfail⟩) _ _
    | replace => exact keeps_replaceOp h (fun hk => hquiet ⟨hk, Bool.not_inj hfail⟩) _ _
    | append hnew => exact keeps_append h _ _ fun e old he hold => (hnew e old he hold).expireTime
    | prepend hnew => exact keeps_append h _ _ fun e old he hold => (hnew e old he hold).expireTime
    | loadFromFileLink => exact keeps_loadFromFileLink h _ _
    | remove => exact keeps_remove h (fun hk => hquiet ⟨hk, Bool.not_inj hfail⟩) _
    | delta hnew => exact keeps_delta h _ fun e old he hold => ((hnew old hold).2 e he).expireTime
    | flush _ hkeys =>
      obtain ⟨e, he, ht⟩ := h
      refine ⟨e, ?_, ht⟩
      show (Store.unlinkAll _ _ _).entry k = _
      rw [Store.entry_unlinkAll, if_neg fun hk => hquiet ((hkeys k).mp hk).1.symm]
      exact he
    | checkExpired => exact absurd rfl hsweep
    | checkExpiredNot => exact absurd rfl hsweep
    | alloc | fill | releaseReference | createWatchNot | checkWatchAndSetCallbackNot
    | checkWatchAndClearCallbackNot | connections => exact h
    | createWatch | checkWatchAndSetCallback | checkWatchAndClearCallback => exact h
    | setCurrentTime => exact h

theorem keeps_step (hx : ∃ lost, SysInv env lost x) (hs : x.mgr.Sheltered)
    (h : x.RoomStep env (op, r) y) (hk : Keeps (abs env x.mgr) k t)
    (hquiet : ¬ op.Disturbs x.mgr k r) (hwatch : op.FindsWatch x.mgr k)
    (hlive : t = 0 ∨ x.mgr.currTime < t) : Keeps (abs env y.mgr) k t := by
  by_cases hsweep : op = .checkExpired
  · subst hsweep
    obtain ⟨e, he, ht⟩ := hk
    rcases entry_swept hx h he with he' | hdue
    · exact ⟨e, he', ht⟩
    · have h0 : e.expireTime = 0 := by omega
      exact ⟨e, entry_sheltered hx hs h he h0, ht⟩
  · obtain ⟨-, a, hacts, hact⟩ := SysInv.act hx h
    have hst : ((abs env x.mgr).act a).2 = abs env y.mgr := congrArg Prod.snd hact
    have hout : ((abs env x.mgr).act a).1 = r := congrArg Prod.fst hact
    rw [← hst]
    exact keeps_act hacts hsweep hk (hout ▸ hquiet) hwatch hlive

/-- What `get` and the sweep unlink is past its expire time. -/
theorem expires_past {e : Entry} (hx : ∃ lost, SysInv env lost x) (hs : x.mgr.Sheltered)
    (h : x.RoomStep env (op, r) y) (hop : op.expires = true)
    (he : (abs env x.mgr).entry k = some e) (hgone : (abs env y.mgr).entry k = none) :
    0 < e.expireTime ∧ e.expireTime ≤ x.mgr.currTime := by
  by_contra hnot
  have hquiet : ¬ op.Disturbs x.mgr k r ∧ op.FindsWatch x.mgr k := by
    cases op with
    | get | checkExpired => exact ⟨id, trivial⟩
    | _ => exact nomatch hop
  obtain ⟨e', he', -⟩ := keeps_step hx hs h ⟨e, he, rfl⟩ hquiet.1 hquiet.2 (by omega)
  exact nomatch hgone.symm.trans he'

theorem keeps_put_self {e : Entry} (he : e.expireTime = t) : Keeps (st.put k (some e)) k t :=
  keeps_put (fun hk => absurd rfl hk) fun _ => he

theorem keeps_link_self {e : Entry} (he : e.expireTime = t) : Keeps (st.link k e) k t :=
  keeps_link (fun hk => absurd rfl hk) fun _ => he

theorem getTouch_succeeded {w : Nat} (h : (st.getTouch k w t).1.2 = .success) :
    Keeps (st.getTouch k w t).2 k t := by
  unfold Store.getTouch at h ⊢
  split at h
  · exact nomatch h
  · split at h
    · next hw =>
      simp only [hw, if_true]
      exact keeps_put_self (Entry.expireTime_addWatchIf _ w)
    · exact nomatch h

theorem updateExpiration_succeeded {x : Nat} (h : (st.updateExpiration k x t).1.1 = true) :
    Keeps (st.updateExpiration k x t).2 k t := by
  unfold Store.updateExpiration at h ⊢
  split at h
  · exact nomatch h
  · split at h
    · next hx =>
      simp only [hx, if_true]
      exact keeps_put_self rfl
    · exact nomatch h

theorem set_succeeded {e : Entry} {w : Nat} (h : (st.set k e w).1.1 = .success) :
    Keeps (st.set k e w).2 k e.expireTime := by
  unfold Store.set at h ⊢
  split at h
  · next hnone =>
    unfold Store.add at h ⊢
    simp only [hnone] at h ⊢
    split at h
    · next hw =>
      rw [if_pos hw]
      exact keeps_link_self (Entry.expireTime_addWatchIf e w)
    · exact nomatch h
  · next old hold =>
    unfold Store.replace at h ⊢
    simp only [hold] at h ⊢
    split at h
    · next hx =>
      split at h
      · next hw =>
        rw [if_pos hx, if_pos hw]
        exact keeps_link_self (Entry.expireTime_addWatchIf e w)
      · exact nomatch h
    · exact nomatch h

/-- The entry has the expire time that the operation gives to it. -/
theorem keeps_retimes (hx : ∃ lost, SysInv env lost x) (h : x.RoomStep env (op, r) y)
    (hop : op.retimes x.mgr = some (k, t)) (hr : r.succeeded = true) :
    Keeps (abs env y.mgr) k t := by
  obtain ⟨-, a, hacts, hact⟩ := SysInv.act hx h
  have hst : ((abs env x.mgr).act a).2 = abs env y.mgr := congrArg Prod.snd hact
  have hout : ((abs env x.mgr).act a).1 = r := congrArg Prod.fst hact
  rw [← hst]
  rw [← hout] at hr
  cases hacts with
  | getTouch =>
    cases hop
    exact getTouch_succeeded (eq_of_beq hr)
  | updateExpiration =>
    cases hop
    exact updateExpiration_succeeded hr
  | set =>
    cases hop
    exact set_succeeded (eq_of_beq hr)
  | _ => exact nomatch hop

/-! ## The request item -/

theorem stage_of_subject {stage : Ptr → Stage} (hp : stage p ≠ .passed)
    (hsub : op.subject ≠ some p) : Sys.nextStage stage op r p ≠ .passed := by
  have hpassed (q : Ptr) (hq : op.subject = some q) : Function.update stage q .passed p ≠ .passed := by
    rw [Function.update_of_ne (OperationLemmas.ne_of_subject hsub hq)]
    exact hp
  cases op with
  | alloc o g kl fl e ds es =>
    cases r with
    | alloc n =>
      cases n with
      | none => exact hp
      | some n =>
        show Function.update stage n .allocated p ≠ .passed
        by_cases hn : p = n
        · rw [hn, Function.update_self]
          exact nofun
        · rw [Function.update_of_ne hn]
          exact hp
    | _ => exact hp
  | fill q c =>
    show Function.update stage q .filled p ≠ .passed
    rw [Function.update_of_ne (OperationLemmas.ne_of_subject hsub rfl)]
    exact hp
  | update verb o q w => exact hpassed q rfl
  | loadFromFileLink o q w => exact hpassed q rfl
  | releaseReference q => exact hpassed q rfl
  | _ => exact hp

/-- An item in preparation stays as it is while others do their work. -/
theorem item_prepared (hx : ∃ lost, SysInv env lost x) (h : x.RoomStep env (op, r) y)
    (hp : x.stage p ≠ .passed) (hsub : op.subject ≠ some p) :
    y.stage p ≠ .passed ∧ y.mgr.item p = x.mgr.item p := by
  obtain ⟨lost, hx⟩ := hx
  obtain ⟨hroom, hperm, hexec⟩ := h
  obtain ⟨a, hsim, -⟩ := hx.step (room_of_roomy hx hroom) hperm
  have hy : y = (x.exec env op).2 := (congrArg Prod.snd hexec).symm
  rw [hy]
  have hprep := hx.prepared p hp
  have hslot := hsim.slot p hprep.absent (Nat.lt_of_lt_of_le hprep.out (Nat.le_add_right ..)) hsub
  refine ⟨?_, congrArg Prod.fst hslot⟩
  rw [stage_exec]
  exact stage_of_subject hp hsub

/-- An item in preparation keeps its expire time until it is passed on. -/
theorem expireTime_prepared (hx : ∃ lost, SysInv env lost x) (h : x.RoomStep env (op, r) y)
    (hp : x.stage p ≠ .passed) (hfill : op.subject = some p → ∃ c, op = .fill p c) :
    y.stage p ≠ .passed ∧ (y.mgr.item p).expireTime = (x.mgr.item p).expireTime := by
  by_cases hsub : op.subject = some p
  · obtain ⟨c, rfl⟩ := hfill hsub
    have hy : y = (x.exec env (.fill p c)).2 := (congrArg Prod.snd h.2.2).symm
    rw [hy]
    refine ⟨?_, ?_⟩
    · show Function.update x.stage p .filled p ≠ .passed
      rw [Function.update_self]
      exact nofun
    · exact congrArg (·.2.2) (congrFun (congrArg Prod.snd (filing_fill env x.mgr p c)) p)
  · obtain ⟨hstage, hitem⟩ := item_prepared hx h hp hsub
    exact ⟨hstage, congrArg CacheItem.expireTime hitem⟩

/-- An item that has just been allocated. -/
theorem fresh_alloc {o : Malloc} {g kl fl e ds es : Nat} (hx : ∃ lost, SysInv env lost x)
    (h : x.RoomStep env (.alloc o g kl fl e ds es, .alloc (some p)) y) :
    y.stage p ≠ .passed ∧
      FreshItem (y.mgr.item p) g kl fl (realtime x.mgr.currTime e) ds es := by
  obtain ⟨held, L, -, -, hL, -, -, -, hexec⟩ := SysInv.core hx h
  have hy : y = (x.exec env (.alloc o g kl fl e ds es)).2 := (congrArg Prod.snd h.2.2).symm
  refine ⟨?_, ?_⟩
  · have hr : (x.mgr.exec env (.alloc o g kl fl e ds es)).1 = .alloc (some p) :=
      congrArg Prod.fst hexec
    rw [hy, stage_exec, hr]
    show Function.update x.stage p .allocated p ≠ .passed
    rw [Function.update_self]
    exact nofun
  · cases hd : x.mgr.doAlloc env o g kl fl (realtime x.mgr.currTime e) ds es with
    | mk n s' =>
      have hmap : (Outcome.alloc n, s') = (.alloc (some p), y.mgr) := by
        rw [← hexec]
        exact (congrArg (Prod.map Outcome.alloc id) hd).symm
      obtain ⟨hn, rfl⟩ := Prod.mk.inj hmap
      obtain rfl := Outcome.alloc.inj hn
      exact (hL.doAlloc_some hd).fresh

end ExpiryLemmas

/-- A step before the expire time `t` of the entry of `k` that does not disturb it. -/
def Sys.LeavingStep (env : Env) (k : Key) (t : Nat) (x : Sys) (l : Op × Outcome) (y : Sys) : Prop :=
  ¬ l.1.Disturbs x.mgr k l.2 ∧ l.1.FindsWatch x.mgr k ∧ (t = 0 ∨ x.mgr.currTime < t) ∧
    x.ShelteredStep env l y

/-- A step in which the item is not passed on; its holder may fill it. -/
def Sys.PreparingStep (env : Env) (p : Ptr) (x : Sys) (l : Op × Outcome) (y : Sys) : Prop :=
  (l.1.subject = some p → ∃ c, l.1 = .fill p c) ∧ x.ShelteredStep env l y

variable {env : Env} {lastTime limit itemSizeMax itemSizeMin : Nat} {factor : Rat} {x : Sys}
  {tr : List (Sys × (Op × Outcome))}

/-- In every run without a `get_touch` that takes the expire time from an entry outside the last
list: what the sweep and `get` unlink is past its expire time, an entry that has got an expire
time from `get_touch`, `update_expiration` or `set` stays until then (or for ever) if nobody
disturbs it, and what `set` gives is what was asked for when its item was allocated. -/
theorem expiry_sound (hrun : Run (Sys.ShelteredStep env)
      (Sys.start env lastTime limit itemSizeMax itemSizeMin factor) tr x) :
    (∀ op r y k e, x.RoomStep env (op, r) y → op.expires = true →
      (abs env x.mgr).entry k = some e → (abs env y.mgr).entry k = none →
      0 < e.expireTime ∧ e.expireTime ≤ x.mgr.currTime) ∧
    (∀ op r y k t tr' z, x.ShelteredStep env (op, r) y → op.retimes x.mgr = some (k, t) →
      r.succeeded = true → Run (Sys.LeavingStep env k t) y tr' z →
      ∃ e, (abs env z.mgr).entry k = some e ∧ e.expireTime = t) ∧
    (∀ o g kl fl e ds es p y tr' z,
      x.ShelteredStep env (.alloc o g kl fl e ds es, .alloc (some p)) y →
      Run (Sys.PreparingStep env p) y tr' z →
      (z.mgr.item p).expireTime = realtime x.mgr.currTime e) := by
  obtain ⟨hx, hs⟩ := sheltered_run hrun ⟨⟨_, sysInv_start⟩, sheltered_start⟩
  refine ⟨fun op r y k e h hop he hgone => expires_past hx hs h hop he hgone, ?_, ?_⟩
  · intro op r y k t tr' z h hop hr hrun'
    have hy : Keeps (abs env y.mgr) k t := keeps_retimes hx h.2 hop hr
    refine (hrun'.invariant (I := fun y => ((∃ lost, SysInv env lost y) ∧ y.mgr.Sheltered) ∧
      Keeps (abs env y.mgr) k t) ?_ ⟨sheltered_run (.single h) ⟨hx, hs⟩, hy⟩).2
    rintro u l v ⟨⟨hu, hsu⟩, hk⟩ ⟨hquiet, hwatch, hlive, hstep⟩
    exact ⟨sheltered_run (.single hstep) ⟨hu, hsu⟩,
      keeps_step hu hsu hstep.2 hk hquiet hwatch hlive⟩
  · intro o g kl fl e ds es p y tr' z h hrun'
    obtain ⟨hstage, hfresh⟩ := fresh_alloc hx h.2
    refine (hrun'.invariant (I := fun y => (∃ lost, SysInv env lost y) ∧ y.stage p ≠ .passed ∧
      (y.mgr.item p).expireTime = realtime x.mgr.currTime e) ?_
      ⟨(SysInv.act hx h.2).1, hstage, hfresh.expireTime⟩).2.2
    rintro u l v ⟨hu, hst, htime⟩ ⟨hfill, -, hstep⟩
    obtain ⟨hst', htime'⟩ := expireTime_prepared hu hstep hst hfill
    exact ⟨(SysInv.act hu hstep).1, hst', htime'.trans htime⟩

/-- The key `k` is stored with the value `5`, for a minute. -/
def minuteOps : List Op :=
  [.alloc .zeros 1 1 0 60 1 0, .fill 0 ⟨[107], [53], [], 0⟩, .update .set .zeros 0 0,
    .releaseReference 0]

/-- An entry that is stored for a minute is still there after a `remove` with another cache id, ten
seconds and a sweep. -/
theorem expiry_sound_small :
    let env := Env.colliding .uint16
    let x := (Sys.small .uint16).execAll env (minuteOps.take 2)
    let y := x.execAll env [.update .set .zeros 0 0]
    let z := y.execAll env
      [.releaseReference 0, .remove 1 [107] 99, .setCurrentTime 10, .checkExpired]
    z.mgr.lastCheckExpiredTime = 18 ∧
      ∃ e, (abs env z.mgr).entry (1, [107]) = some e ∧ e.expireTime = 68 := by
  intro env x y z
  have hreach : Run (Sys.ShelteredStep env) (Sys.small .uint16) _ x :=
    (Sys.roomRun_execAll (by decide +kernel) (by decide +kernel)).restrict
      (P := fun (x : Sys) (l : Op × Outcome) => l.1.Shelters env x.mgr) (by decide +kernel)
  have hstep : x.ShelteredStep env (.update .set .zeros 0 0, .update (.success, some 1)) y :=
    ⟨trivial, by decide +kernel, Sys.step_execAll (by decide +kernel) (by decide +kernel)⟩
  have hop : (Op.update .set .zeros 0 0).retimes x.mgr = some ((1, [107]), 68) := by decide +kernel
  have hafter : Run (Sys.LeavingStep env (1, [107]) 68) y _ z :=
    ((((Sys.roomRun_execAll (by decide +kernel) (by decide +kernel)).restrict
      (P := fun (x : Sys) (l : Op × Outcome) => l.1.Shelters env x.mgr)
      (by decide +kernel)).restrict
      (P := fun (x : Sys) (_ : Op × Outcome) => 68 = 0 ∨ x.mgr.currTime < 68)
      (by decide +kernel)).restrict
      (P := fun (x : Sys) (l : Op × Outcome) => l.1.FindsWatch x.mgr (1, [107]))
      (by decide +kernel)).restrict
      (P := fun (x : Sys) (l : Op × Outcome) => ¬ l.1.Disturbs x.mgr (1, [107]) l.2)
      (by decide +kernel)
  have hlast : z.mgr.lastCheckExpiredTime = 18 := by decide +kernel
  clear_value x y z
  exact ⟨hlast, (expiry_sound hreach).2.1 _ _ _ _ _ _ _ hstep hop rfl hafter⟩

/-- An entry is stored for a minute; `get_touch` asks for it to stay for ever, and the next sweep
unlinks it. Or `get_touch` asks for two seconds and a watch that is not there: it fails, and ten
seconds later `get` unlinks the entry. -/
theorem expiry_touched_small :
    (let env := Env.colliding .uint16
     let x := (Sys.small .uint16).execAll env (minuteOps ++ [.getTouch 1 [107] 0 0])
     let y := x.execAll env [.checkExpired]
     (∃ tr, Run (Sys.RoomStep env) (Sys.small .uint16) tr x) ∧
       x.RoomStep env (.checkExpired, .done) y ∧
       ((abs env x.mgr).entry (1, [107])).map Entry.expireTime = some 0 ∧
       (abs env y.mgr).entry (1, [107]) = none) ∧
    let env := Env.colliding .uint16
    let x := (Sys.small .uint16).execAll env minuteOps
    let y := x.execAll env [.getTouch 1 [107] 7 2]
    let z := y.execAll env [.setCurrentTime 10, .get 1 [107] 0 false]
    (∃ tr, Run (Sys.RoomStep env) (Sys.small .uint16) tr x) ∧
      x.RoomStep env (.getTouch 1 [107] 7 2, .item (none, .watchNotFound)) y ∧
      (∃ tr, Run (Sys.RoomStep env) y tr z) ∧
      ((abs env x.mgr).entry (1, [107])).map Entry.expireTime = some 68 ∧ z.mgr.currTime = 18 ∧
      (abs env z.mgr).entry (1, [107]) = none := by
  constructor
  · intro env x y
    have hreach : Run (Sys.RoomStep env) (Sys.small .uint16) _ x :=
      Sys.roomRun_execAll (by decide +kernel) (by decide +kernel)
    refine ⟨⟨_, hreach⟩, ⟨by decide +kernel, Sys.step_execAll trivial (by decide +kernel)⟩, ?_, ?_⟩
    · decide +kernel
    · have hnone : ((abs env y.mgr).entry (1, [107])).isNone = true := by decide +kernel
      exact Option.isNone_iff_eq_none.mp hnone
  · intro env x y z
    have hreach : Run (Sys.RoomStep env) (Sys.small .uint16) _ x :=
      Sys.roomRun_execAll (by decide +kernel) (by decide +kernel)
    have hlater : Run (Sys.RoomStep env) y _ z :=
      Sys.roomRun_execAll (by decide +kernel) (by decide +kernel)
    have hfailed : x.RoomStep env (.getTouch 1 [107] 7 2, .item (none, .watchNotFound)) y :=
      ⟨by decide +kernel, Sys.step_execAll trivial (by decide +kernel)⟩
    have hnone : ((abs env z.mgr).entry (1, [107])).isNone = true := by decide +kernel
    exact ⟨⟨_, hreach⟩, hfailed, ⟨_, hlater⟩, by decide +kernel, by decide +kernel,
      Option.isNone_iff_eq_none.mp hnone⟩

end Xixi
