import Xixi.Effects

/-!
# How long a watch lives

`create_watch` and `check_watch_and_set_callback` set the time at which `expire_watchs` drops the
watch. The sum of the clock and the interval becomes 0 when it does not fit 32 bits. For an item
that means that it does not expire, but a watch with the time 0 is dropped by the next
`expire_watchs`. A check replaces the time, whether the new one is later or earlier.

1. `Op.promise`: the watch and the interval of a creation or of a successful check.
2. `elapsed`: the seconds that pass in a run. The clock itself is a 32-bit number.
3. `Renewed w v t`: no check of the watch shortens what is left of the interval `v`.
4. `deadline_exec`, `clock_exec`: what an operation does to the time of a watch and to the clock.
5. `watch_kept`: a watch is not dropped before its interval has passed, if the time fits 32 bits
   and checks do not shorten it.
-/

namespace Xixi

open Lib CacheMgr

/-- The watch that is created or successfully checked, and `max_next_check_interval`. -/
def Op.promise : Op → Outcome → Option (Nat × Nat)
  | .createWatch _ v, .watchId w => if w = 0 then none else some (w, v)
  | .checkWatchAndSetCallback _ _ w _ v, .check (some _) => some (w, v)
  | _, _ => none

/-- The seconds by which the operation moves the clock on. -/
def CacheMgr.tick (s : CacheMgr) : Op → Nat
  | .setCurrentTime tt => if s.lastTime < tt then min (tt - s.lastTime) 10 else 0
  | _ => 0

/-- The seconds that pass in a run. -/
def elapsed (t : List (Sys × (Op × Outcome))) : Nat := (t.map fun a => a.1.mgr.tick a.2.1).sum

/-- A new time that is set for the watch in the run fits 32 bits, and it is not earlier than `v`
seconds after the start of the run. -/
def Renewed (w v : Nat) (t : List (Sys × (Op × Outcome))) : Prop :=
  ∀ t₁ a t₂ v', t = t₁ ++ a :: t₂ → a.2.1.promise a.2.2 = some (w, v') →
    v ≤ elapsed t₁ + v' ∧ a.1.mgr.currTime + v' < 2 ^ 32

/-- The time at which the watch expires. -/
def CacheMgr.deadline (s : CacheMgr) (w : Nat) : Option Nat :=
  (s.watchMap w).map CacheWatch.expireTime

variable {env : Env} {s s' : CacheMgr} {op : Op} {w v : Nat}

namespace WatchLifeLemmas

/-! ## What an operation does to the deadline -/

theorem expireTime_notifyWatch (watch : CacheWatch) (alive : Sink → Bool) (x : Nat)
    (type : NotifyType) : (watch.notifyWatch alive x type).1.expireTime = watch.expireTime := by
  unfold CacheWatch.notifyWatch
  dsimp only
  split
  · rfl
  · rfl

theorem expireTime_checkAndSetCallback (watch : CacheWatch) (alive : Sink → Bool) (sp : Sink)
    (ack d : Nat) : (watch.checkAndSetCallback alive sp ack d).1.expireTime = d := by
  unfold CacheWatch.checkAndSetCallback
  dsimp only
  split
  · rfl
  · split
    · split <;> rfl
    · split <;> rfl

theorem expireTime_checkAndClearCallback (watch : CacheWatch) (alive : Sink → Bool) (sp : Sink) :
    (watch.checkAndClearCallback alive sp).1.expireTime = watch.expireTime := by
  unfold CacheWatch.checkAndClearCallback
  split
  · split <;> rfl
  · rfl

/-- The deadlines after one watch has changed. -/
theorem deadline_update (m : Nat → Option CacheWatch) (u : Nat) (watch : CacheWatch) (w : Nat) :
    (Function.update m u (some watch) w).map CacheWatch.expireTime =
      if w = u then some watch.expireTime else (m w).map CacheWatch.expireTime := by
  by_cases hw : w = u
  · subst hw
    rw [Function.update_self, if_pos rfl, Option.map_some]
  · rw [Function.update_of_ne hw, if_neg hw]

/-- A notification leaves the deadlines. -/
theorem deadline_notifyAll (x : Watches) (ns : List (Nat × Note)) (w : Nat) :
    ((x.notifyAll ns).watchMap w).map CacheWatch.expireTime =
      (x.watchMap w).map CacheWatch.expireTime := by
  refine Watches.notifyAll_induct (I := fun y => (y.watchMap w).map CacheWatch.expireTime =
    (x.watchMap w).map CacheWatch.expireTime) (fun y u n hy => ?_) rfl
  rw [← hy]
  cases hu : y.watchMap u with
  | none => rw [Watches.notify_none hu]
  | some watch =>
    rw [Watches.notify_some hu, deadline_update, expireTime_notifyWatch]
    split
    · next hw => rw [hw, hu, Option.map_some]
    · rfl

theorem deadline_tells (h : Tells s s') : s'.deadline w = s.deadline w := by
  obtain ⟨ns, hns⟩ := h.watches
  have hmap : s'.watchMap = (s.watches.notifyAll ns).watchMap := congrArg Watches.watchMap hns
  rw [CacheMgr.deadline, hmap]
  exact deadline_notifyAll _ _ _

theorem currTime_tells (h : Tells s s') : s'.currTime = s.currTime := congrArg Prod.fst h.times

/-- The sweep drops the watches that have expired and no others. -/
theorem deadline_checkExpired (env : Env) (s : CacheMgr) (w : Nat) :
    (s.checkExpired env).deadline w = s.deadline w ∨
      (s.checkExpired env).deadline w = (s.deadline w).filter fun d => !decide (d ≤ s.currTime) := by
  rcases watches_checkExpired env s with h | ⟨ns, h⟩
  · have hmap : (s.checkExpired env).watchMap = s.watchMap := congrArg Watches.watchMap h
    exact .inl (by rw [CacheMgr.deadline, hmap, CacheMgr.deadline])
  · have hmap : (s.checkExpired env).watchMap =
        ((s.expireWatchs s.currTime).watches.notifyAll ns).watchMap := congrArg Watches.watchMap h
    refine .inr ?_
    rw [CacheMgr.deadline, hmap, deadline_notifyAll, CacheMgr.deadline]
    show ((s.watchMap w).filter fun watch => !watch.isExpired s.currTime).map _ = _
    cases s.watchMap w with
    | none => rfl
    | some watch =>
      rw [Option.map_some, Option.filter_some, Option.filter_some]
      unfold CacheWatch.isExpired
      split
      · rfl
      · rfl

theorem currTime_expireItems (env : Env) (s : CacheMgr) (now : Nat) :
    (s.expireItems env now).currTime = s.currTime := by
  have hlist (s : CacheMgr) (i : Nat) : (expireList env now s i).currTime = s.currTime := by
    unfold expireList
    split
    · exact (currTime_tells (tells_expireLoop env _ now i _ _)).trans rfl
    · rfl
  have hfold (is : List Nat) (s : CacheMgr) :
      (is.foldl (expireList env now) s).currTime = s.currTime := by
    induction is generalizing s with
    | nil => rfl
    | cons i is ih => exact (ih _).trans (hlist s i)
  exact hfold _ s

theorem currTime_freeFlushedItems (env : Env) (s : CacheMgr) :
    (s.freeFlushedItems env).currTime = s.currTime :=
  congrArg (fun a => a.2.1) (aside_freeFlushedItems env s)

theorem currTime_checkExpired (env : Env) (s : CacheMgr) :
    (s.checkExpired env).currTime = s.currTime := by
  unfold CacheMgr.checkExpired
  split
  · dsimp only
    rw [currTime_freeFlushedItems, currTime_expireItems]
    rfl
  · rfl

theorem deadline_createWatch {g d : Nat} (h : (s.createWatch g v).2.deadline w = some d) :
    s.deadline w = some d ∨
      (s.createWatch g v).1 = w ∧ w ≠ 0 ∧ d = realtime s.currTime v := by
  unfold CacheMgr.createWatch CacheMgr.getWatchId at h ⊢
  cases hid : getWatchIdLoop s.watchMap 100 s.lastWatchId with
  | mk u last =>
    rw [hid] at h
    dsimp only at h ⊢
    split at h
    · next hu =>
      have h : (Function.update s.watchMap u (some (.new u (realtime s.currTime v))) w).map
          CacheWatch.expireTime = some d := h
      rw [deadline_update] at h
      split at h
      · next hw =>
        rw [if_pos hu, hw]
        exact .inr ⟨rfl, hu, (Option.some.inj h).symm⟩
      · exact .inl h
    · exact .inl h

end WatchLifeLemmas

open WatchLifeLemmas

/-- A time is set by the creation of the watch and by a successful check only. -/
theorem deadline_exec {d : Nat} (h : (s.exec env op).2.deadline w = some d) :
    s.deadline w = some d ∨
      ∃ v, op.promise (s.exec env op).1 = some (w, v) ∧ d = realtime s.currTime v := by
  cases op with
  | checkExpired =>
    have h : (s.checkExpired env).deadline w = some d := h
    rcases deadline_checkExpired env s w with he | he
    · exact .inl (he ▸ h)
    · rw [he] at h
      exact .inl (Option.filter_eq_some_iff.mp h).1
  | createWatch g v =>
    rcases deadline_createWatch (show (s.createWatch g v).2.deadline w = some d from h) with
      hd | ⟨hid, h0, hd⟩
    · exact .inl hd
    · refine .inr ⟨v, ?_, hd⟩
      show (Op.createWatch g v).promise (.watchId (s.createWatch g v).1) = some (w, v)
      rw [hid]
      exact if_neg h0
  | checkWatchAndSetCallback sp g u ack v =>
    have hexec : s.exec env (.checkWatchAndSetCallback sp g u ack v) =
      (s.checkWatchAndSetCallback sp g u ack v).map .check id := rfl
    rw [hexec] at h ⊢
    unfold CacheMgr.checkWatchAndSetCallback at h ⊢
    cases hu : s.watchMap u with
    | none =>
      rw [hu] at h
      exact .inl h
    | some watch =>
      rw [hu] at h
      have h : (Function.update s.watchMap u (some (watch.checkAndSetCallback s.sinkAlive sp ack
          (realtime s.currTime v)).1) w).map CacheWatch.expireTime = some d := h
      rw [deadline_update, expireTime_checkAndSetCallback] at h
      split at h
      · next hw => exact .inr ⟨v, by rw [hw]; rfl, (Option.some.inj h).symm⟩
      · exact .inl h
  | checkWatchAndClearCallback sp u =>
    have hexec : s.exec env (.checkWatchAndClearCallback sp u) =
      (s.checkWatchAndClearCallback sp u).map .check id := rfl
    rw [hexec] at h
    unfold CacheMgr.checkWatchAndClearCallback at h
    refine .inl ?_
    cases hu : s.watchMap u with
    | none =>
      rw [hu] at h
      exact h
    | some watch =>
      rw [hu] at h
      have h : (Function.update s.watchMap u
          (some (watch.checkAndClearCallback s.sinkAlive sp).1) w).map CacheWatch.expireTime =
          some d := h
      rw [deadline_update, expireTime_checkAndClearCallback] at h
      split at h
      · next hw =>
        rw [CacheMgr.deadline, hw, hu]
        exact h
      · exact h
  | setCurrentTime tt => exact .inl h
  | connections alive => exact .inl h
  | _ => exact .inl ((deadline_tells (tells_exec env s rfl)).symm.trans h)

/-- The creation and the successful check set the time. -/
theorem deadline_promise (h : op.promise (s.exec env op).1 = some (w, v)) :
    (s.exec env op).2.deadline w = some (realtime s.currTime v) := by
  cases op with
  | createWatch g x =>
    have h : (Op.createWatch g x).promise (.watchId (s.createWatch g x).1) = some (w, v) := h
    show (s.createWatch g x).2.deadline w = some (realtime s.currTime v)
    unfold CacheMgr.createWatch CacheMgr.getWatchId at h ⊢
    cases hid : getWatchIdLoop s.watchMap 100 s.lastWatchId with
    | mk u last =>
      rw [hid] at h
      dsimp only at h ⊢
      split at h
      · next hu =>
        rw [Op.promise, if_neg hu] at h
        obtain ⟨rfl, rfl⟩ := Prod.mk.inj (Option.some.inj h)
        rw [if_pos hu]
        exact (deadline_update s.watchMap u _ u).trans (if_pos rfl)
      · exact nomatch h
  | checkWatchAndSetCallback sp g u ack x =>
    have h : (Op.checkWatchAndSetCallback sp g u ack x).promise
      (.check (s.checkWatchAndSetCallback sp g u ack x).1) = some (w, v) := h
    show (s.checkWatchAndSetCallback sp g u ack x).2.deadline w = some (realtime s.currTime v)
    unfold CacheMgr.checkWatchAndSetCallback at h ⊢
    cases hu : s.watchMap u with
    | none =>
      rw [hu] at h
      exact nomatch h
    | some watch =>
      rw [hu] at h
      obtain ⟨rfl, rfl⟩ := Prod.mk.inj (Option.some.inj h)
      show (Function.update s.watchMap u (some (watch.checkAndSetCallback s.sinkAlive sp ack
        (realtime s.currTime x)).1) u).map CacheWatch.expireTime = _
      rw [deadline_update, if_pos rfl, expireTime_checkAndSetCallback]
  | _ => exact nomatch h

/-- The clock counts the seconds modulo 2^32. -/
theorem clock_exec (env : Env) (s : CacheMgr) (op : Op) :
    (s.exec env op).2.currTime = s.currTime ∧ s.tick op = 0 ∨
      (s.exec env op).2.currTime = (s.currTime + s.tick op) % 2 ^ 32 := by
  cases op with
  | checkExpired => exact .inl ⟨currTime_checkExpired env s, rfl⟩
  | createWatch g v =>
    refine .inl ⟨?_, rfl⟩
    show (s.createWatch g v).2.currTime = s.currTime
    unfold CacheMgr.createWatch CacheMgr.getWatchId
    dsimp only
    split <;> rfl
  | checkWatchAndSetCallback sp g u ack v =>
    refine .inl ⟨?_, rfl⟩
    show (s.checkWatchAndSetCallback sp g u ack v).2.currTime = s.currTime
    unfold CacheMgr.checkWatchAndSetCallback
    split <;> rfl
  | checkWatchAndClearCallback sp u =>
    refine .inl ⟨?_, rfl⟩
    show (s.checkWatchAndClearCallback sp u).2.currTime = s.currTime
    unfold CacheMgr.checkWatchAndClearCallback
    split <;> rfl
  | setCurrentTime tt =>
    show (s.setCurrentTime tt).currTime = s.currTime ∧ _ ∨ (s.setCurrentTime tt).currTime = _
    simp only [CacheMgr.setCurrentTime, CacheMgr.tick]
    split
    · exact .inr rfl
    · exact .inl ⟨rfl, rfl⟩
  | connections alive => exact .inl ⟨rfl, rfl⟩
  | _ => exact .inl ⟨currTime_tells (tells_exec env s rfl), rfl⟩

/-! ## Runs -/

/-- Of the interval `v` the seconds `e` have passed, and the deadline leaves time for the rest. -/
def Leaves (v e now d : Nat) : Prop := v ≤ e ∨ now + v ≤ d + e ∧ d < 2 ^ 32

namespace WatchLifeLemmas

theorem leaves_realtime {v' e now : Nat} (hle : v ≤ e + v') (hfit : now + v' < 2 ^ 32) :
    Leaves v e now (realtime now v') := by
  unfold realtime
  split
  · next h0 =>
    rw [h0] at hle
    exact .inl hle
  · rw [if_pos (by omega)]
    exact .inr ⟨by omega, by omega⟩

/-- Until the interval is over, the clock does not reach 2^32. -/
theorem leaves_tick {e now d k : Nat} (h : Leaves v e now d) :
    Leaves v (e + k) ((now + k) % 2 ^ 32) d := by
  rcases h with h | ⟨h, hd⟩
  · exact .inl (Nat.le_add_right_of_le h)
  · by_cases hv : v ≤ e + k
    · exact .inl hv
    · have hlt : now + k < 2 ^ 32 := by omega
      rw [Nat.mod_eq_of_lt hlt]
      exact .inr ⟨by omega, hd⟩

/-- What one operation leaves of the interval. -/
theorem leaves_exec {e : Nat} (h : ∀ d, s.deadline w = some d → Leaves v e s.currTime d)
    (hnew : ∀ v', op.promise (s.exec env op).1 = some (w, v') →
      v ≤ e + v' ∧ s.currTime + v' < 2 ^ 32) :
    ∀ d, (s.exec env op).2.deadline w = some d →
      Leaves v (e + s.tick op) (s.exec env op).2.currTime d := by
  intro d hd
  have hbefore : Leaves v e s.currTime d := by
    rcases deadline_exec hd with hd | ⟨v', hp, rfl⟩
    · exact h d hd
    · exact leaves_realtime (hnew v' hp).1 (hnew v' hp).2
  rcases clock_exec env s op with ⟨hc, hk⟩ | hc
  · rw [hc, hk]
    exact hbefore
  · rw [hc]
    exact leaves_tick hbefore

theorem elapsed_concat (t : List (Sys × (Op × Outcome))) (a : Sys × (Op × Outcome)) :
    elapsed (t ++ [a]) = elapsed t + a.1.mgr.tick a.2.1 := by
  rw [elapsed, List.map_append, List.sum_append, List.map_singleton, List.sum_singleton, elapsed]

theorem Renewed.of_concat {t : List (Sys × (Op × Outcome))} {a : Sys × (Op × Outcome)}
    (h : Renewed w v (t ++ [a])) : Renewed w v t := by
  intro t₁ b t₂ v' ht hp
  exact h t₁ b (t₂ ++ [a]) v' (by rw [ht, List.append_assoc, List.cons_append]) hp

/-- What a run leaves of the interval: induction on the run. -/
theorem leaves_run {y z : Sys} {t : List (Sys × (Op × Outcome))}
    (h : Run (Sys.Step env) y t z) (hrenew : Renewed w v t)
    (h0 : ∀ d, y.mgr.deadline w = some d → Leaves v 0 y.mgr.currTime d) :
    ∀ d, z.mgr.deadline w = some d → Leaves v (elapsed t) z.mgr.currTime d := by
  induction h with
  | nil => exact h0
  | @snoc z z' t l run last ih =>
    obtain ⟨-, hexec⟩ := last
    have hr : (z.mgr.exec env l.1).1 = l.2 := congrArg Prod.fst hexec
    have hm : (z.mgr.exec env l.1).2 = z'.mgr := congrArg (fun x => x.2.mgr) hexec
    rw [elapsed_concat, ← hm]
    refine leaves_exec (ih (Renewed.of_concat hrenew)) fun v' hp => ?_
    rw [hr] at hp
    exact hrenew t (z, l) [] v' rfl hp

theorem tick_promise {r : Outcome} (h : op.promise r = some (w, v)) : s.tick op = 0 := by
  cases op with
  | setCurrentTime tt => exact nomatch h
  | _ => rfl

theorem deadline_eq_none : s.deadline w = none ↔ s.watchMap w = none := Option.map_eq_none_iff

end WatchLifeLemmas

/-- A watch is created or successfully checked with the interval `v`, and the time fits 32 bits.
When `expire_watchs` drops the watch, `v` seconds have passed, whatever else has happened, if no
check has shortened the interval. -/
theorem watch_kept {x y z z' : Sys} {l : Op × Outcome} {t : List (Sys × (Op × Outcome))}
    {r : Outcome} (hs : x.Step env l y) (hp : l.1.promise l.2 = some (w, v))
    (hfit : x.mgr.currTime + v < 2 ^ 32) (hrun : Run (Sys.Step env) y t z)
    (hrenew : Renewed w v t) (hsweep : z.Step env (.checkExpired, r) z')
    (hlive : z.mgr.watchMap w ≠ none) (hgone : z'.mgr.watchMap w = none) : v ≤ elapsed t := by
  have hstart : ∀ d, y.mgr.deadline w = some d → Leaves v 0 y.mgr.currTime d := by
    intro d hd
    have hr : (x.mgr.exec env l.1).1 = l.2 := congrArg Prod.fst hs.2
    have hm : (x.mgr.exec env l.1).2 = y.mgr := congrArg (fun x => x.2.mgr) hs.2
    rw [← hr] at hp
    have htick : x.mgr.tick l.1 = 0 := tick_promise hp
    have hset := deadline_promise hp
    rw [hm, hd] at hset
    obtain rfl := Option.some.inj hset
    have hleaves : Leaves v 0 x.mgr.currTime (realtime x.mgr.currTime v) :=
      leaves_realtime (Nat.le_add_left _ _) hfit
    rcases clock_exec env x.mgr l.1 with ⟨hc, -⟩ | hc
    · rwa [← hm, hc]
    · have htime := leaves_tick (k := 0) hleaves
      rwa [← hm, hc, htick]
  have hmgr : z.mgr.checkExpired env = z'.mgr := congrArg (fun x => x.2.mgr) hsweep.2
  obtain ⟨d, hd⟩ := Option.ne_none_iff_exists'.mp (mt deadline_eq_none.mp hlive)
  have hleft := leaves_run hrun hrenew hstart d hd
  -- the sweep drops the watch, so the clock has come to the deadline
  have hnone := deadline_eq_none.mpr hgone
  rw [← hmgr] at hnone
  have hdue : d ≤ z.mgr.currTime := by
    rcases deadline_checkExpired env z.mgr w with he | he
    · rw [he, hd] at hnone
      exact nomatch hnone
    · rw [he, hd, Option.filter_some] at hnone
      by_contra hlt
      simp [hlt] at hnone
  rcases hleft with hle | ⟨hle, -⟩
  · exact hle
  · omega

/-- Created with the interval 10, dropped when the clock has moved on by 10. -/
theorem watch_kept_small :
    let env := Env.colliding .uint16
    let y := (Sys.small .uint16).execAll env [.createWatch 1 10]
    let z := y.execAll env [.setCurrentTime 30]
    z.mgr.watchMap 1 ≠ none ∧ (z.execAll env [.checkExpired]).mgr.watchMap 1 = none ∧
      10 ≤ elapsed (y.trace env [.setCurrentTime 30]) := by
  intro env y z
  have hlive : z.mgr.watchMap 1 ≠ none := by decide +kernel
  have hgone : (z.execAll env [.checkExpired]).mgr.watchMap 1 = none := by decide +kernel
  have hcreate : (Sys.small .uint16).Step env (.createWatch 1 10, .watchId 1) y :=
    Sys.step_execAll trivial (by decide +kernel)
  have hsweep : z.Step env (.checkExpired, .done) (z.execAll env [.checkExpired]) :=
    Sys.step_execAll trivial rfl
  have hrun : Run (Sys.Step env) y (y.trace env [.setCurrentTime 30]) z :=
    Sys.run_execAll ⟨trivial, trivial⟩
  refine ⟨hlive, hgone, watch_kept hcreate rfl (by decide +kernel) hrun ?_ hsweep hlive hgone⟩
  intro t₁ a t₂ v' ht hp
  have ha : a ∈ y.trace env [.setCurrentTime 30] := by
    rw [ht]
    exact List.mem_append_right _ List.mem_cons_self
  rw [List.mem_singleton.mp ha] at hp
  exact nomatch hp

/-- Created with the interval 2^32 - 1, dropped at once. -/
theorem not_kept_overflow :
    let env := Env.colliding .uint16
    let y := (Sys.small .uint16).execAll env [.createWatch 1 (2 ^ 32 - 1)]
    let z := y.execAll env [.checkExpired]
    (Sys.small .uint16).Step env (.createWatch 1 (2 ^ 32 - 1), .watchId 1) y ∧
      (Op.createWatch 1 (2 ^ 32 - 1)).promise (.watchId 1) = some (1, 2 ^ 32 - 1) ∧
      y.Step env (.checkExpired, .done) z ∧ y.mgr.watchMap 1 ≠ none ∧
      z.mgr.watchMap 1 = none ∧ ¬ 2 ^ 32 - 1 ≤ elapsed (y.trace env []) := by
  intro env y z
  exact ⟨Sys.step_execAll trivial (by decide +kernel), rfl, Sys.step_execAll trivial rfl,
    by decide +kernel, by decide +kernel, by decide⟩

end Xixi
