import Xixi.Filing

/-!
# Failed operations

1. `CacheMgr.view`: what there is to be seen of the entries, their expire lists and the
   watches.
2. `act_failed`: an action of the store that reports a failure changes nothing, but `get` may
   unlink an expired entry, and `get_touch` with an unknown watch leaves the new expire time.
3. `failed_iff`: what a failed operation leaves behind, from the allocation of its request
   item to the release of it.
-/

namespace Xixi

open Lib SystemLemmas

/-- The operation reports that it has failed. -/
def Outcome.failed : Outcome → Bool
  | .get r => r.2 != .success
  | .item r => r.2 != .success
  | .base r => !r.1
  | .update r => r.1 != .success
  | .remove r => r != .success
  | .delta r => r.1 != .success
  | .done | .alloc _ | .flush _ | .watchId _ | .check _ => false

/-- The entries, each with the number of its expire list, and the watches. -/
@[ext]
structure View where
  entry : Key → Option (Entry × Nat)
  watchMap : Nat → Option CacheWatch

def CacheMgr.view (env : Env) (s : CacheMgr) : View where
  entry := fun k => (s.find k.1 k.2 (env.hash32 k.2 k.1)).map fun p =>
    ((s.item p).entry p, (s.item p).expirationId)
  watchMap := s.watchMap

/-- `get` finds the entry expired, and it is gone afterwards. -/
def Expires (env : Env) (s : CacheMgr) (op : Op) (s' : CacheMgr) : Prop :=
  ∃ g k w b e, op = .get g k w b ∧ (abs env s).entry (g, k) = some e ∧ 0 < e.expireTime ∧
    e.expireTime ≤ s.currTime ∧ (s'.view env).entry = Function.update (s.view env).entry (g, k) none ∧
    abs env s' = (abs env s).unlink (g, k) .expired

/-- `get_touch` finds an entry but not the watch, and the expire time it asks for is another
one than the entry has. -/
def Retimes (env : Env) (s : CacheMgr) (op : Op) : Prop :=
  ∃ g k w x e, op = .getTouch g k w x ∧ (abs env s).entry (g, k) = some e ∧
    (abs env s).watchOk w = false ∧ CacheMgr.realtime s.currTime x ≠ e.expireTime

/-! ## In the store -/

namespace FailureLemmas

variable {st : Store}

theorem add_failed {k : Key} {e : Entry} {w : Nat} (h : (st.add k e w).1.1 ≠ .success) :
    (st.add k e w).2 = st := by
  unfold Store.add at h ⊢
  split at h
  · split at h
    · exact absurd rfl h
    · next hw => rw [if_neg hw]
  · rfl

theorem replace_failed {k : Key} {e : Entry} {w : Nat} (h : (st.replace k e w).1.1 ≠ .success) :
    (st.replace k e w).2 = st := by
  unfold Store.replace at h ⊢
  split at h
  · rfl
  · split at h
    · next hx =>
      rw [if_pos hx]
      split at h
      · exact absurd rfl h
      · next hw => rw [if_neg hw]
    · next hx => rw [if_neg hx]

theorem append_failed {k : Key} {x : Nat} {new : Option Entry} {w : Nat}
    (h : (st.append k x new w).1.1 ≠ .success) : (st.append k x new w).2 = st := by
  unfold Store.append at h ⊢
  split at h
  · rfl
  · split at h
    · next hx => rw [if_pos hx]
    · next hx =>
      rw [if_neg hx]
      split at h
      · rfl
      · split at h
        · exact absurd rfl h
        · next hw => rw [if_neg hw]

theorem delta_failed {k : Key} {x : Nat} {v : Int} {buf : Bytes} {new : Option Entry}
    (h : (st.delta k x v buf new).1.1 ≠ .success) : (st.delta k x v buf new).2 = st := by
  unfold Store.delta at h ⊢
  split at h
  · rfl
  · split at h
    · next hx =>
      rw [if_pos hx]
      split at h
      · next hl =>
        rw [if_pos hl]
        split at h
        · rfl
        · exact absurd rfl h
      · exact absurd rfl h
    · next hx => rw [if_neg hx]

theorem loadFromFileLink_failed {k : Key} {e : Entry} {w : Nat}
    (h : (st.loadFromFileLink k e w).1.2 ≠ .success) : (st.loadFromFileLink k e w).2 = st := by
  unfold Store.loadFromFileLink at h ⊢
  split at h
  · split at h
    · exact absurd rfl h
    · next hw => rw [if_neg hw]
  · rfl

theorem remove_failed {k : Key} {x : Nat} (h : (st.remove k x).1 ≠ .success) :
    (st.remove k x).2 = st := by
  unfold Store.remove at h ⊢
  split at h
  · rfl
  · split at h
    · exact absurd rfl h
    · next hx => rw [if_neg hx]

theorem updateFlags_failed {k : Key} {x fl : Nat} (h : (st.updateFlags k x fl).1.1 = false) :
    (st.updateFlags k x fl).2 = st := by
  unfold Store.updateFlags at h ⊢
  split at h
  · rfl
  · split at h
    · exact nomatch h
    · next hx => rw [if_neg hx]

theorem updateExpiration_failed {k : Key} {x t : Nat}
    (h : (st.updateExpiration k x t).1.1 = false) : (st.updateExpiration k x t).2 = st := by
  unfold Store.updateExpiration at h ⊢
  split at h
  · rfl
  · split at h
    · exact nomatch h
    · next hx => rw [if_neg hx]

theorem get_failed {k : Key} {w : Nat} (h : (st.get k w).1.2 ≠ .success) :
    (st.get k w).2 = st ∨ ∃ e, st.entry k = some e ∧ 0 < e.expireTime ∧
      e.expireTime ≤ st.currTime ∧ (st.get k w).2 = st.unlink k .expired := by
  unfold Store.get at h ⊢
  split at h
  · exact .inl rfl
  · next e he =>
    split at h
    · next hx =>
      rw [if_pos hx]
      split at h
      · exact absurd rfl h
      · next hw => rw [if_neg hw]; exact .inl rfl
    · next hx =>
      rw [if_neg hx]
      exact .inr ⟨e, he, by omega, by omega, rfl⟩

theorem getTouch_failed {k : Key} {w t : Nat} (h : (st.getTouch k w t).1.2 ≠ .success) :
    st.entry k = none ∧ (st.getTouch k w t).2 = st ∨ ∃ e, st.entry k = some e ∧
      st.watchOk w = false ∧ (st.getTouch k w t).2 = st.put k (some { e with expireTime := t }) := by
  unfold Store.getTouch at h ⊢
  split at h
  · next he => exact .inl ⟨he, rfl⟩
  · next e he =>
    split at h
    · exact absurd rfl h
    · next hw =>
      rw [if_neg hw]
      exact .inr ⟨e, he, Bool.eq_false_iff.mpr hw, rfl⟩

/-- What an action that fails leaves of the store. -/
theorem act_failed {env : Env} {s : CacheMgr} {op : Op} {a : Action} (hacts : Acts env s op a)
    (h : (st.act a).1.failed = true) :
    (st.act a).2 = st ∨
      (∃ k w e, a = .get k w ∧ st.entry k = some e ∧ 0 < e.expireTime ∧
        e.expireTime ≤ st.currTime ∧ (st.act a).2 = st.unlink k .expired) ∨
      ∃ k w t e, a = .getTouch k w t ∧ st.entry k = some e ∧ st.watchOk w = false ∧
        (st.act a).2 = st.put k (some { e with expireTime := t }) := by
  cases a with
  | silent r => exact .inl rfl
  | get k w =>
    have hf : (st.get k w).1.2 ≠ .success := by simpa [Store.act, Outcome.failed] using h
    rcases get_failed hf with heq | ⟨e, he, hpos, hle, heq⟩
    · exact .inl heq
    · exact .inr (.inl ⟨k, w, e, rfl, he, hpos, hle, heq⟩)
  | getTouch k w t =>
    have hf : (st.getTouch k w t).1.2 ≠ .success := by simpa [Store.act, Outcome.failed] using h
    rcases getTouch_failed hf with ⟨-, heq⟩ | ⟨e, he, hw, heq⟩
    · exact .inl heq
    · exact .inr (.inr ⟨k, w, t, e, rfl, he, hw, heq⟩)
  | updateFlags k x fl =>
    exact .inl (updateFlags_failed (by simpa [Store.act, Outcome.failed] using h))
  | updateExpiration k x t =>
    exact .inl (updateExpiration_failed (by simpa [Store.act, Outcome.failed] using h))
  | add k e w => exact .inl (add_failed (by simpa [Store.act, Outcome.failed] using h))
  | set k e w =>
    have hf : (st.set k e w).1.1 ≠ .success := by simpa [Store.act, Outcome.failed] using h
    refine .inl ?_
    show (st.set k e w).2 = st
    unfold Store.set at hf ⊢
    split at hf
    · exact add_failed hf
    · exact replace_failed hf
  | replace k e w => exact .inl (replace_failed (by simpa [Store.act, Outcome.failed] using h))
  | append k x new w => exact .inl (append_failed (by simpa [Store.act, Outcome.failed] using h))
  | loadFromFileLink k e w =>
    exact .inl (loadFromFileLink_failed (by simpa [Store.act, Outcome.failed] using h))
  | remove k x => exact .inl (remove_failed (by simpa [Store.act, Outcome.failed] using h))
  | delta k x v new => exact .inl (delta_failed (by simpa [Store.act, Outcome.failed] using h))
  | flush r ks => exact nomatch h
  | checkExpired gone ks => exact nomatch h
  | watch r w q => cases hacts <;> exact nomatch h
  | clock t => exact nomatch h

/-! ## In the manager -/

variable {env : Env} {x y z : Sys} {lost : Ptr → Nat} {op : Op} {r : Outcome}

theorem updatedList_notifyWatch (watch : CacheWatch) (alive : Sink → Bool) (x : Nat)
    (t : NotifyType) : (watch.notifyWatch alive x t).1.updatedList = watch.updatedList ++ [x] :=
  congrArg Prod.fst (StepLemmas.pend_notifyWatch watch alive x t)

/-- A notification is never taken back. -/
theorem updatedList_notifyAll (ns : List (Nat × Note)) {v : Watches} {w : Nat} {watch : CacheWatch}
    (h : v.watchMap w = some watch) : ∃ watch', (v.notifyAll ns).watchMap w = some watch' ∧
      watch.updatedList.length ≤ watch'.updatedList.length := by
  induction ns generalizing v watch with
  | nil => exact ⟨watch, h, le_rfl⟩
  | cons n ns ih =>
    cases hn : v.watchMap n.1 with
    | none =>
      refine ih (v := v.notify n.1 n.2) ?_
      rw [Watches.notify_none hn n.2]
      exact h
    | some watch₁ =>
      have hv := Watches.notify_some hn n.2
      by_cases hw : w = n.1
      · subst hw
        obtain rfl := Option.some.inj (hn.symm.trans h)
        have hself : (v.notify n.1 n.2).watchMap n.1 =
            some (watch₁.notifyWatch v.sinkAlive n.2.1 n.2.2).1 := by
          rw [hv]
          exact Function.update_self ..
        obtain ⟨watch', hwatch', hle⟩ := ih hself
        rw [updatedList_notifyWatch, List.length_append] at hle
        exact ⟨watch', hwatch', (Nat.le_add_right ..).trans hle⟩
      · refine ih (v := v.notify n.1 n.2) ?_
        rw [hv]
        exact (Function.update_of_ne hw ..).trans h

/-- Watches whose queues are no longer than before have not been notified. -/
theorem watchMap_notifyAll (ns : List (Nat × Note)) {v : Watches}
    (h : ∀ w watch', (v.notifyAll ns).watchMap w = some watch' → ∀ watch, v.watchMap w = some watch →
      watch'.updatedList.length ≤ watch.updatedList.length) :
    (v.notifyAll ns).watchMap = v.watchMap := by
  induction ns generalizing v with
  | nil => rfl
  | cons n ns ih =>
    cases hn : v.watchMap n.1 with
    | none =>
      have hv : v.notifyAll (n :: ns) = v.notifyAll ns :=
        congrArg (Watches.notifyAll · ns) (Watches.notify_none hn n.2)
      rw [hv] at h ⊢
      exact ih h
    | some watch =>
      have hself : (v.notify n.1 n.2).watchMap n.1 =
          some (watch.notifyWatch v.sinkAlive n.2.1 n.2.2).1 := by
        rw [Watches.notify_some hn n.2]
        exact Function.update_self ..
      obtain ⟨watch', hwatch', hle⟩ := updatedList_notifyAll ns hself
      have hle' := h n.1 watch' hwatch' watch hn
      rw [updatedList_notifyWatch, List.length_append, List.length_singleton] at hle
      omega

/-- An operation that leaves the store alone leaves the watches alone. -/
theorem watchMap_of_abs {s s' : CacheMgr} (h : Tells s s') (habs : abs env s' = abs env s) :
    s'.watchMap = s.watchMap := by
  obtain ⟨ns, hns⟩ := h.watches
  have hmap : s'.watchMap = (s.watches.notifyAll ns).watchMap := congrArg Watches.watchMap hns
  rw [hmap]
  refine watchMap_notifyAll ns fun w watch' hw' watch hw => ?_
  have hpend := congrFun (congrArg Store.pending habs) w
  have hlen : watch'.updatedList = watch.updatedList := by
    have hs' : s'.watchMap w = some watch' := by rw [hmap]; exact hw'
    have hs : s.watchMap w = some watch := hw
    simp only [abs, hs', hs, Option.map_some, Option.some.injEq, Prod.mk.injEq] at hpend
    exact hpend.1
  rw [hlen]

section View

variable {held held' : Ptr → Nat} {L L' : ListId → List Ptr} {s s' : CacheMgr}

/-- An entry that is the same in the store is in the same list, if its item is. -/
theorem view_entry (h : Core env held L s) (h' : Core env held' L' s')
    (hlist : ∀ p, Linked L p → Linked L' p → (s'.item p).expirationId = (s.item p).expirationId)
    {k : Key} (hk : (abs env s').entry k = (abs env s).entry k) :
    (s'.view env).entry k = (s.view env).entry k := by
  have hs : (abs env s).entry k =
      (s.find k.1 k.2 (env.hash32 k.2 k.1)).map fun p => (s.item p).entry p := rfl
  have hs' : (abs env s').entry k =
      (s'.find k.1 k.2 (env.hash32 k.2 k.1)).map fun p => (s'.item p).entry p := rfl
  rw [hs, hs'] at hk
  simp only [CacheMgr.view]
  cases hf : s.find k.1 k.2 (env.hash32 k.2 k.1) with
  | none =>
    rw [hf, Option.map_none, Option.map_eq_none_iff] at hk
    rw [hk]
    rfl
  | some p =>
    rw [hf, Option.map_some, Option.map_eq_some_iff] at hk
    obtain ⟨q, hq, he⟩ := hk
    obtain rfl : q = p := congrArg Entry.ptr he
    have hl := ((h.find_iff k.1 k.2).mp hf).1
    have hl' := ((h'.find_iff k.1 k.2).mp hq).1
    rw [hq, Option.map_some, Option.map_some, he, hlist q hl hl']

/-- No linked item is filed anew. -/
theorem list_of_files (h : Core env held L s) (h' : Core env held' L' s')
    (hf : Files (Unused s) s s') (p : Ptr) (hp : Linked L p) (hp' : Linked L' p) :
    (s'.item p).expirationId = (s.item p).expirationId := by
  rcases hf.kept h'.ok p (h'.pos_of_linked hp') with ⟨-, hi, -⟩ | hunused
  · exact hi
  · have hpos := h.pos_of_linked hp
    have hzero : (s.item p).refCount = 0 := hunused
    omega

end View

/-- A failed operation, other than `get_touch`, is none of those that set a list. -/
theorem files_failed {held : Ptr → Nat} {L : ListId → List Ptr} {s : CacheMgr}
    (h : Core env held L s) (hroom : Room env held) (hready : Ready env held s op)
    (htouch : ∀ g k w x, op ≠ .getTouch g k w x) (hsweep : op ≠ .checkExpired)
    (hfail : (s.exec env op).1.succeeded = false) : Files (Unused s) s (s.exec env op).2 :=
  files_exec h hroom hready htouch hsweep (fun _ _ hz => hz)
    fun _ _ _ _ _ hs => nomatch hfail.symm.trans hs

theorem not_special_of_failed (h : (x.mgr.exec env op).1.failed = true) : op.special = false := by
  cases op with
  | checkExpired => exact nomatch h
  | createWatch g x => exact nomatch h
  | checkWatchAndSetCallback sp g w ack x => exact nomatch h
  | checkWatchAndClearCallback sp w => exact nomatch h
  | setCurrentTime tt => exact nomatch h
  | connections alive => exact nomatch h
  | alloc | fill | get | getTouch | updateFlags | updateExpiration | update | loadFromFileLink
  | remove | delta | flush | releaseReference => rfl

theorem not_succeeded_of_failed (h : r.failed = true) : r.succeeded = false := by
  cases r <;> simp_all [Outcome.failed, Outcome.succeeded]

end FailureLemmas

/-- The operations around the one that fails: the request item is allocated, filled and
released. -/
def Op.quiet : Op → Bool
  | .alloc .. | .fill .. | .releaseReference _ => true
  | _ => false

namespace FailureLemmas

variable {env : Env} {x y z : Sys} {op : Op} {r : Outcome}

/-- A step that leaves the store and the lists alone. -/
theorem view_of_abs (hx : ∃ lost, SysInv env lost x) (h : x.RoomStep env (op, r) y)
    (htouch : ∀ g k w x, op ≠ .getTouch g k w x) (hspecial : op.special = false)
    (hfail : r.succeeded = false) (habs : abs env y.mgr = abs env x.mgr) :
    y.mgr.view env = x.mgr.view env := by
  obtain ⟨held, L, held', L', hL, hL', hroom, hready, hexec⟩ := SysInv.core hx h
  have hsweep : op ≠ .checkExpired := by
    rintro rfl
    exact nomatch hspecial
  have hr : (x.mgr.exec env op).1.succeeded = false := by rw [hexec]; exact hfail
  have hf := files_failed hL hroom hready htouch hsweep hr
  have ht := tells_exec env x.mgr hspecial
  rw [hexec] at hf ht
  refine View.ext (funext fun k => view_entry hL hL' (list_of_files hL hL' hf) ?_)
    (watchMap_of_abs ht habs)
  rw [habs]

theorem quiet_step (hx : ∃ lost, SysInv env lost x) (h : x.RoomStep env (op, r) y)
    (hq : op.quiet = true) : abs env y.mgr = abs env x.mgr ∧ y.mgr.view env = x.mgr.view env := by
  obtain ⟨-, a, hacts, hact⟩ := SysInv.act hx h
  obtain ⟨held, L, held', L', -, -, -, -, hexec⟩ := SysInv.core hx h
  have habs : abs env y.mgr = abs env x.mgr := by
    cases hacts with
    | alloc | fill | releaseReference => exact (congrArg Prod.snd hact).symm
    | _ => exact nomatch hq
  have hr : (x.mgr.exec env op).1.succeeded = false := by
    cases op with
    | alloc | fill | releaseReference => rfl
    | _ => exact nomatch hq
  refine ⟨habs, view_of_abs hx h ?_ ?_ (by rw [hexec] at hr; exact hr) habs⟩
  · rintro g k w x rfl
    exact nomatch hq
  · cases op with
    | alloc | fill | releaseReference => rfl
    | _ => exact nomatch hq

theorem quiet_run {t : List (Sys × (Op × Outcome))} (hx : ∃ lost, SysInv env lost x)
    (h : Run (Sys.RoomStep env) x t y) (hq : ∀ u ∈ t, u.2.1.quiet = true) :
    abs env y.mgr = abs env x.mgr ∧ y.mgr.view env = x.mgr.view env := by
  have hstep := h.restrict (P := fun (_ : Sys) (l : Op × Outcome) => l.1.quiet = true) hq
  refine (hstep.invariant (I := fun y => (∃ lost, SysInv env lost y) ∧
    abs env y.mgr = abs env x.mgr ∧ y.mgr.view env = x.mgr.view env) ?_ ⟨hx, rfl, rfl⟩).2
  rintro u ⟨op, r⟩ v ⟨hu, habs, hview⟩ ⟨hquiet, hs⟩
  obtain ⟨habs', hview'⟩ := quiet_step hu hs hquiet
  exact ⟨(SysInv.act hu hs).1, habs'.trans habs, hview'.trans hview⟩

theorem map_view (env : Env) (s : CacheMgr) (k : Key) :
    ((s.view env).entry k).map Prod.fst = (abs env s).entry k := by
  simp only [CacheMgr.view, abs, Option.map_map]
  rfl

/-- A failed `get` may unlink an expired entry; the other entries keep their lists. -/
theorem expires_of_unlink {g w : Nat} {k : Bytes} {b : Bool} {e : Entry}
    (hx : ∃ lost, SysInv env lost x) (h : x.RoomStep env (.get g k w b, r) y)
    (hfail : r.succeeded = false) (he : (abs env x.mgr).entry (g, k) = some e)
    (hpos : 0 < e.expireTime) (hle : e.expireTime ≤ x.mgr.currTime)
    (habs : abs env y.mgr = (abs env x.mgr).unlink (g, k) .expired) :
    Expires env x.mgr (.get g k w b) y.mgr := by
  obtain ⟨held, L, held', L', hL, hL', hroom, hready, hexec⟩ := SysInv.core hx h
  have hr : (x.mgr.exec env (.get g k w b)).1.succeeded = false := by rw [hexec]; exact hfail
  have hf := files_failed hL hroom hready nofun nofun hr
  rw [hexec] at hf
  refine ⟨g, k, w, b, e, rfl, he, hpos, hle, funext fun k' => ?_, habs⟩
  by_cases hk : k' = (g, k)
  · subst hk
    have hnone : (abs env y.mgr).entry (g, k) = none := by
      rw [habs, Store.entry_unlink, Function.update_self]
    rw [← map_view, Option.map_eq_none_iff] at hnone
    rw [hnone, Function.update_self]
  · rw [Function.update_of_ne hk]
    refine view_entry hL hL' (list_of_files hL hL' hf) ?_
    rw [habs, Store.entry_unlink, Function.update_of_ne hk]

/-- `get_touch` moves no item to another list. -/
theorem view_getTouch {g w t : Nat} {k : Bytes} (hx : ∃ lost, SysInv env lost x)
    (h : x.RoomStep env (.getTouch g k w t, r) y) (habs : abs env y.mgr = abs env x.mgr) :
    y.mgr.view env = x.mgr.view env := by
  obtain ⟨held, L, held', L', hL, hL', hroom, hready, hexec⟩ := SysInv.core hx h
  have hmgr : y.mgr = (x.mgr.getTouch env g k w t).2 := (congrArg Prod.snd hexec).symm
  obtain ⟨s₁, hs₁, hf⟩ := CacheMgr.files_getTouch (A := Unused x.mgr) hL g k w t
  rw [← hmgr] at hf
  have hkeep (p : Ptr) : (s₁.item p).refCount = (x.mgr.item p).refCount ∧
      (s₁.item p).expirationId = (x.mgr.item p).expirationId := by
    rcases hs₁ with rfl | ⟨q, -, rfl⟩
    · exact ⟨rfl, rfl⟩
    · by_cases hp : p = q
      · subst hp
        rw [CacheMgr.item_modify_self]
        exact ⟨rfl, rfl⟩
      · rw [CacheMgr.item_modify_of_ne _ _ hp]
        exact ⟨rfl, rfl⟩
  have hlist (p : Ptr) (hp : Linked L p) (hp' : Linked L' p) :
      (y.mgr.item p).expirationId = (x.mgr.item p).expirationId := by
    rcases hf.kept hL'.ok p (hL'.pos_of_linked hp') with ⟨-, hi, -⟩ | hunused
    · exact hi.trans (hkeep p).2
    · have hpos := hL.pos_of_linked hp
      have hzero : (x.mgr.item p).refCount = 0 := hunused
      omega
  have haside := CacheMgr.aside_getTouch env x.mgr g k w t
  rw [← hmgr] at haside
  refine View.ext (funext fun k' => view_entry hL hL' hlist ?_)
    (congrArg (fun v => v.1.watchMap) haside)
  rw [habs]

/-- What a failed operation does. -/
theorem failed_step (hx : ∃ lost, SysInv env lost x) (h : x.RoomStep env (op, r) y)
    (hfail : r.failed = true) :
    y.mgr.view env = x.mgr.view env ∧ ¬ Retimes env x.mgr op ∨
      Expires env x.mgr op y.mgr ∧ ¬ Retimes env x.mgr op ∨
      y.mgr.view env ≠ x.mgr.view env ∧ Retimes env x.mgr op := by
  obtain ⟨-, a, hacts, hact⟩ := SysInv.act hx h
  have hsucc := not_succeeded_of_failed hfail
  obtain ⟨held, L, held', L', -, -, -, -, hexec⟩ := SysInv.core hx h
  have hspecial : op.special = false :=
    @not_special_of_failed env x op (by rw [hexec]; exact hfail)
  have hst : ((abs env x.mgr).act a).2 = abs env y.mgr := congrArg Prod.snd hact
  by_cases htouch : ∃ g k w t, op = .getTouch g k w t
  · obtain ⟨g, k, w, t, rfl⟩ := htouch
    cases hacts
    have hf : ((abs env x.mgr).getTouch (g, k) w (CacheMgr.realtime x.mgr.currTime t)).1.2 ≠
        .success := by
      have hr : ((abs env x.mgr).act (.getTouch (g, k) w
          (CacheMgr.realtime x.mgr.currTime t))).1 = r := congrArg Prod.fst hact
      rw [← hr] at hfail
      simpa [Store.act, Outcome.failed] using hfail
    rcases getTouch_failed hf with ⟨he, heq⟩ | ⟨e, he, hw, heq⟩
    · refine .inl ⟨view_getTouch hx h (hst.symm.trans heq), ?_⟩
      rintro ⟨_, _, _, _, e, ⟨⟩, he', -⟩
      cases he.symm.trans he'
    · have habs : abs env y.mgr = (abs env x.mgr).put (g, k)
          (some { e with expireTime := CacheMgr.realtime x.mgr.currTime t }) := hst.symm.trans heq
      by_cases hsame : CacheMgr.realtime x.mgr.currTime t = e.expireTime
      · rw [hsame, Store.put_self he] at habs
        refine .inl ⟨view_getTouch hx h habs, ?_⟩
        rintro ⟨_, _, _, _, e', ⟨⟩, he', -, hne⟩
        obtain rfl := Option.some.inj (he.symm.trans he')
        exact hne hsame
      · refine .inr (.inr ⟨fun hview => ?_, g, k, w, t, e, rfl, he, hw, hsame⟩)
        have hentry := congrArg (fun v => (View.entry v (g, k)).map Prod.fst) hview
        rw [map_view, map_view, habs, he, Store.entry_put, Function.update_self] at hentry
        exact hsame (congrArg Entry.expireTime (Option.some.inj hentry))
  · have hnot : ¬ Retimes env x.mgr op := by
      rintro ⟨g, k, w, t, e, rfl, -⟩
      exact htouch ⟨g, k, w, t, rfl⟩
    have hf : ((abs env x.mgr).act a).1.failed = true := by rw [hact]; exact hfail
    rcases act_failed hacts hf with heq | ⟨k, w, e, rfl, he, hpos, hle, heq⟩ |
      ⟨k, w, t, e, rfl, -⟩
    · refine .inl ⟨view_of_abs hx h (fun g k w t he => htouch ⟨g, k, w, t, he⟩) hspecial hsucc ?_, hnot⟩
      exact hst.symm.trans heq
    · cases hacts
      exact .inr (.inl ⟨expires_of_unlink hx h hsucc he hpos hle (hst.symm.trans heq), hnot⟩)
    · cases hacts
      exact absurd ⟨_, _, _, _, rfl⟩ htouch

theorem expires_congr {s₀ s s₁ s₂ : CacheMgr} (h : Expires env s op s₁)
    (habs : abs env s = abs env s₀) (hview : s.view env = s₀.view env)
    (habs' : abs env s₂ = abs env s₁) (hview' : s₂.view env = s₁.view env) :
    Expires env s₀ op s₂ := by
  obtain ⟨g, k, w, b, e, hop, he, hpos, hle, hentry, hunlink⟩ := h
  have hnow : s.currTime = s₀.currTime := congrArg Store.currTime habs
  refine ⟨g, k, w, b, e, hop, habs ▸ he, hpos, hnow ▸ hle, ?_, ?_⟩
  · rw [hview', hentry, hview]
  · rw [habs', hunlink, habs]

end FailureLemmas

open FailureLemmas

variable {env : Env} {lastTime limit itemSizeMax itemSizeMin : Nat} {factor : Rat}
  {x₀ x y z : Sys} {t t₁ t₂ : List (Sys × (Op × Outcome))} {op : Op} {r : Outcome}

/-- A failed operation, from the allocation of its request item to the release of it, leaves
every entry, its expire list and every watch as they were, but for an expired entry that
`get` unlinks: unless it is a `get_touch` that finds the entry, but not the watch, and asks
for another expire time. -/
theorem failed_iff
    (hreach : Run (Sys.RoomStep env) (Sys.start env lastTime limit itemSizeMax itemSizeMin factor) t x₀)
    (hbefore : Run (Sys.RoomStep env) x₀ t₁ x) (hquiet₁ : ∀ u ∈ t₁, u.2.1.quiet = true)
    (hstep : x.RoomStep env (op, r) y) (hfail : r.failed = true)
    (hafter : Run (Sys.RoomStep env) y t₂ z) (hquiet₂ : ∀ u ∈ t₂, u.2.1.quiet = true) :
    z.mgr.view env = x₀.mgr.view env ∨ Expires env x₀.mgr op z.mgr ↔ ¬ Retimes env x.mgr op := by
  have hx₀ := SysInv.roomRun hreach ⟨_, sysInv_start⟩
  have hx := SysInv.roomRun hbefore hx₀
  have hy := (SysInv.act hx hstep).1
  obtain ⟨habs₁, hview₁⟩ := quiet_run hx₀ hbefore hquiet₁
  obtain ⟨habs₂, hview₂⟩ := quiet_run hy hafter hquiet₂
  rcases failed_step hx hstep hfail with ⟨hview, hnot⟩ | ⟨hexp, hnot⟩ | ⟨hview, hretimes⟩
  · exact iff_of_true (.inl (hview₂.trans (hview.trans hview₁))) hnot
  · exact iff_of_true (.inr (expires_congr hexp habs₁ hview₁ habs₂ hview₂)) hnot
  · refine iff_of_false ?_ (not_not.mpr hretimes)
    rintro (hsame | ⟨g, k, w, b, e, rfl, -⟩)
    · exact hview (hview₂.symm.trans (hsame.trans hview₁.symm))
    · obtain ⟨_, _, _, _, _, hop, -⟩ := hretimes
      exact nomatch hop

/-- The key `k` is stored with the value `5`; it does not expire. -/
def storedOps : List Op :=
  [.alloc .zeros 1 1 0 0 1 0, .fill 0 ⟨[107], [53], [], 0⟩, .update .add .zeros 0 0,
    .releaseReference 0]

/-- `add` finds the key, and the request item is released. -/
theorem failed_add_small :
    let env := Env.colliding .uint16
    let x := (Sys.small .uint16).execAll env storedOps
    let x₁ := x.execAll env [.alloc .zeros 1 1 0 0 1 0, .fill 1 ⟨[107], [54], [], 0⟩]
    let y := x₁.execAll env [.update .add .zeros 1 0]
    let z := y.execAll env [.releaseReference 1]
    (x₁.exec env (.update .add .zeros 1 0)).1 = .update (.exists, none) ∧
      z.mgr.view env = x.mgr.view env := by
  intro env x x₁ y z
  have hr : (x₁.exec env (.update .add .zeros 1 0)).1 = .update (.exists, none) := by
    decide +kernel
  have hreach : Run (Sys.RoomStep env) (Sys.small .uint16) _ x :=
    Sys.roomRun_execAll (by decide +kernel) (by decide +kernel)
  have hbefore : Run (Sys.RoomStep env) x _ x₁ :=
    Sys.roomRun_execAll (by decide +kernel) (by decide +kernel)
  have hstep : x₁.RoomStep env (.update .add .zeros 1 0, .update (.exists, none)) y :=
    ⟨by decide +kernel, Sys.step_execAll (by decide +kernel) hr⟩
  have hafter : Run (Sys.RoomStep env) y _ z :=
    Sys.roomRun_execAll (by decide +kernel) (by decide +kernel)
  have hquiet₁ : ∀ u ∈ x.trace env [.alloc .zeros 1 1 0 0 1 0, .fill 1 ⟨[107], [54], [], 0⟩],
      u.2.1.quiet = true := by decide +kernel
  have hquiet₂ : ∀ u ∈ y.trace env [.releaseReference 1], u.2.1.quiet = true := by decide +kernel
  clear_value x x₁ y z
  have hiff := failed_iff hreach hbefore hquiet₁ hstep rfl hafter hquiet₂
  refine ⟨hr, ?_⟩
  rcases hiff.mpr (by rintro ⟨_, _, _, _, _, hop, -⟩; exact nomatch hop) with h | h
  · exact h
  · obtain ⟨_, _, _, _, _, hop, -⟩ := h
    exact nomatch hop

/-- `get_touch` with an unknown watch reports `WATCH_NOT_FOUND`, and the entry that did not
expire expires after a minute. -/
theorem failed_getTouch_small :
    let env := Env.colliding .uint16
    let x := (Sys.small .uint16).execAll env storedOps
    let y := x.execAll env [.getTouch 1 [107] 9 60]
    (∃ t, Run (Sys.RoomStep env) (Sys.small .uint16) t x) ∧
      x.RoomStep env (.getTouch 1 [107] 9 60, .item (none, .watchNotFound)) y ∧
      ((abs env x.mgr).entry (1, [107])).map Entry.expireTime = some 0 ∧
      ((abs env y.mgr).entry (1, [107])).map Entry.expireTime = some 68 ∧
      ¬ (y.mgr.view env = x.mgr.view env ∨ Expires env x.mgr (.getTouch 1 [107] 9 60) y.mgr) := by
  intro env x y
  have hreach : Run (Sys.RoomStep env) (Sys.small .uint16) _ x :=
    Sys.roomRun_execAll (by decide +kernel) (by decide +kernel)
  have hx : ((abs env x.mgr).entry (1, [107])).map Entry.expireTime = some 0 := by decide +kernel
  have hy : ((abs env y.mgr).entry (1, [107])).map Entry.expireTime = some 68 := by decide +kernel
  refine ⟨⟨_, hreach⟩, ⟨by decide +kernel, Sys.step_execAll trivial (by decide +kernel)⟩, hx, hy, ?_⟩
  rintro (hview | ⟨_, _, _, _, _, hop, -⟩)
  · rw [← map_view, hview, map_view, hx] at hy
    exact absurd hy (by decide)
  · exact nomatch hop

end Xixi
