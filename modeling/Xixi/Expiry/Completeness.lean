import Xixi.Expiry.Soundness

/-!
# What is past its time is gone after a sweep

A sweep goes through the expire lists whose `expire_check_time_` has come. So every item has to
be in a list that is looked at no later than the item expires, or at the next sweep.
`get_expiration_id` chooses such a list for the moment at which it is called, and the sweep itself
moves items to such a list. It is not asked for when an item is linked some time after it was
allocated, nor by `get_touch`.

1. `CacheMgr.Covers`: the list is looked at in time.
2. `Op.Timely`: the operation links or re-times an item only in a list that covers it, and the
   clock does not wrap.
3. `sweep_complete`: along every run of such operations, no entry that is past its expire time is
   left after a sweep.
-/

namespace Xixi

open Xixi.Lists StepLemmas RefinementLemmas SystemLemmas FailureLemmas ExpiryLemmas CacheMgr Lib

/-- The item that the operation links, if it is the request item. -/
def Op.links : Op → Outcome → Option Ptr
  | .update .add _ p _, .update (.success, _) => some p
  | .update .set _ p _, .update (.success, _) => some p
  | .update .replace _ p _, .update (.success, _) => some p
  | .loadFromFileLink _ p _, .item (some q, _) => if q = p then some p else none
  | _, _ => none

/-- The list `i` is looked at when an item with the expire time `t` expires, or at the next
sweep. -/
def CacheMgr.Covers (s : CacheMgr) (i t : Nat) : Prop :=
  i < 33 ∧ s.expireCheckTime i ≤ max t (s.lastCheckExpiredTime + 1)

instance (s : CacheMgr) (i t : Nat) : Decidable (s.Covers i t) := inferInstanceAs (Decidable (_ ∧ _))

/-- The item never expires, or it is in a list that covers it. -/
def CacheMgr.Placed (s : CacheMgr) (i t : Nat) : Prop := t = 0 ∨ s.Covers i t

instance (s : CacheMgr) (i t : Nat) : Decidable (s.Placed i t) := inferInstanceAs (Decidable (_ ∨ _))

/-- An item that is linked or re-timed is in a list that covers it, and the clock does not
wrap. -/
def Op.Timely (env : Env) (s : CacheMgr) (r : Outcome) (op : Op) : Prop :=
  (∀ p ∈ op.links r, s.Placed (s.item p).expirationId (s.item p).expireTime) ∧
    match op with
    | .getTouch g k _ x => ∀ v ∈ (s.view env).entry (g, k), s.Placed v.2 (realtime s.currTime x)
    | .setCurrentTime tt => s.currTime + min (tt - s.lastTime) 10 < 2 ^ 32
    | _ => True

instance (env : Env) (s : CacheMgr) (r : Outcome) : (op : Op) → Decidable (op.Timely env s r)
  | .getTouch g k _ x => inferInstanceAs (Decidable (_ ∧
      ∀ v ∈ (s.view env).entry (g, k), s.Placed v.2 (realtime s.currTime x)))
  | .setCurrentTime tt => inferInstanceAs (Decidable (_ ∧
      s.currTime + min (tt - s.lastTime) 10 < 2 ^ 32))
  | .alloc .. | .fill .. | .get .. | .updateFlags .. | .updateExpiration .. | .update ..
  | .loadFromFileLink .. | .remove .. | .delta .. | .flush .. | .checkExpired
  | .releaseReference .. | .createWatch .. | .checkWatchAndSetCallback ..
  | .checkWatchAndClearCallback .. | .connections .. => inferInstanceAs (Decidable (_ ∧ True))

def Sys.TimelyStep (env : Env) (x : Sys) (l : Op × Outcome) (y : Sys) : Prop :=
  l.1.Timely env x.mgr l.2 ∧ x.RoomStep env l y

/-- What the operations keep up. -/
structure CacheMgr.Scheduled (env : Env) (s : CacheMgr) : Prop where
  clock : s.lastCheckExpiredTime ≤ s.currTime
  period : ∀ j < 33, s.expireCheckTime j ≤ s.lastCheckExpiredTime + expirationTime j
  placed : ∀ q, ¬ (abs env s).Absent q → s.Placed (s.item q).expirationId (s.item q).expireTime

namespace ExpiryLemmas

variable {env : Env} {held : Ptr → Nat} {L : ListId → List Ptr} {s s' : CacheMgr} {x y : Sys}
  {op : Op} {r : Outcome} {p q : Ptr}

/-! ## The choice of the list -/

theorem period_getExpirationIdLoop {d : Nat} (n i : Nat) (h : expirationTime (i - 1) ≤ d) :
    expirationTime (getExpirationIdLoop d n i - 1) ≤ d := by
  induction n generalizing i with
  | zero => exact h
  | succ n ih =>
    unfold getExpirationIdLoop
    split
    · exact h
    · next hle => exact ih (i + 1) (Nat.not_lt.mp hle)

theorem realtime_le (now e : Nat) : realtime now e ≤ now + e := by
  unfold realtime
  split
  · omega
  · split <;> omega

/-- The list that `get_expiration_id` chooses covers the item at the time of the choice. -/
theorem placed_fresh (hclock : s.lastCheckExpiredTime ≤ s.currTime)
    (hperiod : ∀ j < 33, s.expireCheckTime j ≤ s.lastCheckExpiredTime + expirationTime j) (t : Nat) :
    s.Placed (getExpirationId s.currTime t) t := by
  by_cases h0 : t = 0
  · exact .inl h0
  refine .inr ?_
  unfold getExpirationId
  rw [if_neg h0]
  split
  · next hlt =>
    obtain ⟨d, hd⟩ : ∃ d, t - s.currTime = d := ⟨_, rfl⟩
    rw [hd]
    have hle := getExpirationIdLoop_le d 32 1
    have hfit := period_getExpirationIdLoop (d := d) 32 1 (hd ▸ Nat.sub_pos_of_lt hlt)
    have hcheck := hperiod (getExpirationIdLoop d 32 1 - 1) (by omega)
    exact ⟨by omega, le_max_of_le_left (by omega)⟩
  · have hcheck := hperiod 0 (by omega)
    have hone : expirationTime 0 = 1 := rfl
    exact ⟨by omega, le_max_of_le_right (by omega)⟩

/-! ## What is linked -/

/-- `append` and `prepend` take no reference to the request item. -/
theorem refCount_addWatchIf {v : CacheItem × Nat} {w : Nat}
    (h : v = s.slot p ∨ v = (s.addWatchIf p w).slot p) : v.1.refCount = (s.item p).refCount := by
  rcases h with rfl | rfl
  · rfl
  · exact congrArg Prod.fst (congrFun (congrArg Prod.snd (filing_addWatchIf s p w)) p)

/-- An item in use that is linked by an operation is its request item. -/
theorem links_of_linked (hx : ∃ lost, SysInv env lost x) (h : x.RoomStep env (op, r) y)
    (hu : 0 < (x.mgr.item q).refCount) (hq : (abs env x.mgr).Absent q)
    (hlinked : ¬ (abs env y.mgr).Absent q) : op.links r = some q := by
  obtain ⟨held, L, -, -, hL, -, hroom, hready, hexec⟩ := SysInv.core hx h
  obtain ⟨a, hsim⟩ := exec_refines ⟨L, hL⟩ hroom hready
  have hacts := hsim.acts
  have hinv := hsim.inv
  have hact := hsim.act
  rw [hexec] at hinv hact
  have hst : ((abs env x.mgr).act a).2 = abs env y.mgr := congrArg Prod.snd hact
  -- the count of the item tells that it is not linked
  have hcount (hc : op.consumed ≠ some q)
      (hc' : (y.mgr.item q).refCount = (x.mgr.item q).refCount) : op.links r = some q :=
    absurd (absent_of_refCount ⟨L, hL⟩ hinv hq (le_heldAfter hc) hc') hlinked
  have hsame (he : ((abs env x.mgr).act a).2 = abs env x.mgr) : op.links r = some q := by
    rw [← hst, he] at hlinked
    exact absurd hq hlinked
  by_cases hsub : op.subject = some q
  · cases op with
    | fill p c =>
      cases hacts
      exact hsame rfl
    | releaseReference p =>
      cases hacts
      exact hsame rfl
    | update verb o p w =>
      obtain rfl : p = q := Option.some.inj hsub
      obtain ⟨v, rfl⟩ : ∃ v, r = .update v := ⟨_, (congrArg Prod.fst hexec).symm⟩
      by_cases hv : v.1 = .success
      · obtain ⟨_, n⟩ := v
        obtain rfl : _ = Reason.success := hv
        cases verb with
        | add | set | replace => rfl
        | append =>
          have hslot := slot_append (o := o) hL hroom hq hu hready w
          rw [show (x.mgr.append env o p w).2 = y.mgr from congrArg Prod.snd hexec] at hslot
          exact hcount (by rintro ⟨⟩) (refCount_addWatchIf hslot)
        | prepend =>
          have hslot := slot_prepend (o := o) hL hroom hq hu hready w
          rw [show (x.mgr.prepend env o p w).2 = y.mgr from congrArg Prod.snd hexec] at hslot
          exact hcount (by rintro ⟨⟩) (refCount_addWatchIf hslot)
      · have hfail : ((abs env x.mgr).act a).1.failed = true := by
          rw [hact]
          simpa [Outcome.failed] using hv
        rcases act_failed hacts hfail with heq | ⟨_, _, _, rfl, -⟩ | ⟨_, _, _, _, rfl, -⟩
        · exact hsame heq
        · cases hacts
        · cases hacts
    | loadFromFileLink o p w =>
      obtain rfl : p = q := Option.some.inj hsub
      cases hacts
      have hout : Outcome.item ((abs env x.mgr).loadFromFileLink _ _ w).1 = r :=
        congrArg Prod.fst hact
      have hsame' : ((abs env x.mgr).loadFromFileLink _ _ w).2 = abs env x.mgr → _ := hsame
      unfold Store.loadFromFileLink at hout hsame'
      split at hout
      · split at hout
        · rw [← hout]
          exact if_pos rfl
        · next hnone hw =>
          simp only [hnone, hw] at hsame'
          exact hsame' rfl
      · next hsome =>
        rw [hsome] at hsame'
        exact hsame' rfl
    | _ => cases hsub
  · refine hcount (consumed_of_subject hsub) ?_
    have hheld : 0 < held q := by
      have hcount := hL.refCount q
      rw [linkCount_of_not ((absent_iff hL).mp hq)] at hcount
      omega
    have hslot := hsim.slot q hq hheld hsub
    rw [hexec] at hslot
    exact congrArg (fun v => v.1.refCount) hslot

/-! ## Steps -/

theorem times_exec (env : Env) (s : CacheMgr) (hsweep : op ≠ .checkExpired)
    (htick : ∀ tt, op ≠ .setCurrentTime tt) : (s.exec env op).2.times = s.times := by
  cases op with
  | checkExpired => exact absurd rfl hsweep
  | setCurrentTime tt => exact absurd rfl (htick tt)
  | createWatch g x =>
    show (s.createWatch g x).2.times = s.times
    unfold createWatch
    dsimp only
    split <;> rfl
  | checkWatchAndSetCallback sp g w ack x =>
    show (s.checkWatchAndSetCallback sp g w ack x).2.times = s.times
    unfold checkWatchAndSetCallback
    split <;> rfl
  | checkWatchAndClearCallback sp w =>
    show (s.checkWatchAndClearCallback sp w).2.times = s.times
    unfold checkWatchAndClearCallback
    split <;> rfl
  | connections alive => rfl
  | _ => exact (tells_exec env s rfl).times

theorem placed_congr {i t : Nat} (hcheck : s'.expireCheckTime = s.expireCheckTime)
    (hlast : s'.lastCheckExpiredTime = s.lastCheckExpiredTime) (h : s.Placed i t) :
    s'.Placed i t := by
  unfold Placed Covers
  rw [hcheck, hlast]
  exact h

/-- The items that are linked after a step, if the times are as before. -/
theorem placed_step {A : Filed} {s₁ : CacheMgr} (hx : ∃ lost, SysInv env lost x)
    (h : x.RoomStep env (op, r) y) (hlinks : ∀ p ∈ op.links r,
      x.mgr.Placed (x.mgr.item p).expirationId (x.mgr.item p).expireTime)
    (hs₁ : ∀ q, (s₁.item q).refCount = (x.mgr.item q).refCount)
    (hplaced : ∀ q, ¬ (abs env x.mgr).Absent q →
      x.mgr.Placed (s₁.item q).expirationId (s₁.item q).expireTime)
    (hrest : ∀ q, (abs env x.mgr).Absent q → s₁.item q = x.mgr.item q)
    (hf : Files A s₁ y.mgr) (hA : ∀ q i t, A q i t → x.mgr.Placed i t) :
    ∀ q, ¬ (abs env y.mgr).Absent q →
      x.mgr.Placed (y.mgr.item q).expirationId (y.mgr.item q).expireTime := by
  obtain ⟨held, L, held', L', hL, hL', -⟩ := SysInv.core hx h
  intro q hq
  have hl' : Linked L' q := not_not.mp fun hn => hq ((absent_iff hL').mpr hn)
  rcases hf.kept hL'.ok q (hL'.pos_of_linked hl') with ⟨hu, hi, ht⟩ | hat
  · rw [hi, ht]
    by_cases habsent : (abs env x.mgr).Absent q
    · rw [hrest q habsent]
      exact hlinks q (links_of_linked hx h (hs₁ q ▸ hu) habsent hq)
    · exact hplaced q habsent
  · exact hA q _ _ hat

theorem placed_getTouch {g w t : Nat} {k : Bytes} (hx : ∃ lost, SysInv env lost x)
    (hs : x.mgr.Scheduled env) (h : x.RoomStep env (.getTouch g k w t, r) y)
    (hop : ∀ v ∈ (x.mgr.view env).entry (g, k), x.mgr.Placed v.2 (realtime x.mgr.currTime t)) :
    ∀ q, ¬ (abs env y.mgr).Absent q →
      x.mgr.Placed (y.mgr.item q).expirationId (y.mgr.item q).expireTime := by
  obtain ⟨held, L, -, -, hL, -, -, -, hexec⟩ := SysInv.core hx h
  have hmgr : (x.mgr.getTouch env g k w t).2 = y.mgr := congrArg Prod.snd hexec
  obtain ⟨s₁, hs₁, hf⟩ := files_getTouch (A := Fresh x.mgr.currTime) hL g k w t
  rw [hmgr] at hf
  have hA : ∀ (q : Ptr) (i t : Nat), Fresh x.mgr.currTime q i t → x.mgr.Placed i t := by
    rintro q i t rfl
    exact placed_fresh hs.clock hs.period t
  rcases hs₁ with rfl | ⟨p, hp, rfl⟩
  · exact placed_step hx h nofun (fun _ => rfl) hs.placed (fun _ _ => rfl) hf hA
  · refine placed_step hx h nofun (fun q => ?_) (fun q hq => ?_) (fun q hq => ?_) hf hA
    · by_cases hqp : q = p
      · subst hqp
        rw [item_modify_self]
      · rw [item_modify_of_ne _ _ hqp]
    · by_cases hqp : q = p
      · subst hqp
        rw [item_modify_self]
        exact hop (_, _) (by simp only [view, hp]; rfl)
      · rw [item_modify_of_ne _ _ hqp]
        exact hs.placed q hq
    · have hqp : q ≠ p := FrameLemmas.find_ne (k := (g, k)) hq hp
      exact item_modify_of_ne _ _ hqp

theorem placed_exec (hx : ∃ lost, SysInv env lost x) (hs : x.mgr.Scheduled env)
    (h : x.TimelyStep env (op, r) y) (hsweep : op ≠ .checkExpired) :
    ∀ q, ¬ (abs env y.mgr).Absent q →
      x.mgr.Placed (y.mgr.item q).expirationId (y.mgr.item q).expireTime := by
  obtain ⟨⟨hlinks, hop⟩, h⟩ := h
  by_cases htouch : ∃ g k w t, op = .getTouch g k w t
  · obtain ⟨g, k, w, t, rfl⟩ := htouch
    exact placed_getTouch hx hs h hop
  · obtain ⟨held, L, -, -, hL, -, hroom, hready, hexec⟩ := SysInv.core hx h
    have hf := files_exec (A := Fresh x.mgr.currTime) hL hroom hready
      (fun g k w t he => htouch ⟨g, k, w, t, he⟩) hsweep (fun _ _ _ => rfl) fun _ _ _ _ _ _ _ _ => rfl
    rw [hexec] at hf
    refine placed_step hx h hlinks (fun _ => rfl) hs.placed (fun _ _ => rfl) hf ?_
    rintro q i t rfl
    exact placed_fresh hs.clock hs.period t

theorem scheduled_step (hx : ∃ lost, SysInv env lost x) (hs : x.mgr.Scheduled env)
    (h : x.TimelyStep env (op, r) y) (hsweep : op ≠ .checkExpired) : y.mgr.Scheduled env := by
  have hplaced := placed_exec hx hs h hsweep
  obtain ⟨⟨-, hop⟩, h⟩ := h
  obtain ⟨-, -, -, -, -, -, -, -, hexec⟩ := SysInv.core hx h
  have hmgr : (x.mgr.exec env op).2 = y.mgr := congrArg Prod.snd hexec
  have htimes : y.mgr.expireCheckTime = x.mgr.expireCheckTime ∧
      y.mgr.lastCheckExpiredTime = x.mgr.lastCheckExpiredTime ∧
      x.mgr.currTime ≤ y.mgr.currTime := by
    by_cases htick : ∃ tt, op = .setCurrentTime tt
    · obtain ⟨tt, rfl⟩ := htick
      rw [← hmgr]
      refine ⟨rfl, rfl, ?_⟩
      show _ ≤ (x.mgr.setCurrentTime tt).currTime
      unfold setCurrentTime
      dsimp only
      split
      · rw [Nat.mod_eq_of_lt hop]
        omega
      · exact Nat.le_refl _
    · have ht := times_exec env x.mgr hsweep fun tt he => htick ⟨tt, he⟩
      rw [hmgr] at ht
      exact ⟨congrArg (·.2.1) ht, congrArg (·.2.2) ht, Nat.le_of_eq (congrArg Prod.fst ht).symm⟩
  obtain ⟨hcheck, hlast, hclock⟩ := htimes
  refine ⟨?_, ?_, fun q hq => placed_congr hcheck hlast (hplaced q hq)⟩
  · rw [hlast]
    exact hs.clock.trans hclock
  · rw [hcheck, hlast]
    exact hs.period

/-- The sweep keeps the lists in order, and leaves nothing that is past its time. -/
theorem scheduled_sweep (hx : ∃ lost, SysInv env lost x) (hs : x.mgr.Scheduled env)
    (h : x.RoomStep env (.checkExpired, r) y) :
    y.mgr.Scheduled env ∧ (x.mgr.currTime ≠ x.mgr.lastCheckExpiredTime →
      ∀ q, ¬ (abs env y.mgr).Absent q → (y.mgr.item q).expireTime = 0 ∨
        x.mgr.currTime < (y.mgr.item q).expireTime) := by
  obtain ⟨held, L, -, -, hL, -, -, -, hexec⟩ := SysInv.core hx h
  have hmgr : x.mgr.checkExpired env = y.mgr := congrArg Prod.snd hexec
  by_cases hnew : x.mgr.currTime ≠ x.mgr.lastCheckExpiredTime
  · obtain ⟨L', hswept⟩ := checkExpired_items hL hnew
    rw [hmgr] at hswept
    have hclock : x.mgr.lastCheckExpiredTime < x.mgr.currTime :=
      Nat.lt_of_le_of_ne hs.clock (Ne.symm hnew)
    have hlast : y.mgr.lastCheckExpiredTime = x.mgr.currTime := hswept.lastCheckExpiredTime
    have hcurr : y.mgr.currTime = x.mgr.currTime := hswept.currTime
    have hcheck (j : Nat) : y.mgr.expireCheckTime j = if j < 33 ∧ x.mgr.expireCheckTime j ≤
        x.mgr.currTime then realtime x.mgr.currTime (expirationTime j)
        else x.mgr.expireCheckTime j := hswept.expireCheckTime j
    have hperiod (j : Nat) (hj : j < 33) :
        y.mgr.expireCheckTime j ≤ x.mgr.currTime + expirationTime j := by
      rw [hcheck]
      split
      · exact realtime_le ..
      · have := hs.period j hj
        omega
    have hafter (q : Ptr) (hq : ¬ (abs env y.mgr).Absent q) : (y.mgr.item q).expireTime = 0 ∨
        x.mgr.currTime < (y.mgr.item q).expireTime ∧ (y.mgr.item q).expirationId < 33 ∧
          y.mgr.expireCheckTime (y.mgr.item q).expirationId ≤ (y.mgr.item q).expireTime := by
      have hl' : Linked L' q := not_not.mp fun hn => hq ((absent_iff hswept.core).mpr hn)
      by_cases hd : Linked L q ∧ x.mgr.Due x.mgr.currTime 33 q
      · -- the item has been visited, and is in a list whose period fits
        obtain ⟨hlinked, htime, hlist, hfit⟩ := hswept.visited q hd.1 hd.2
        have hlt := hlinked.mp hl'
        have ht := htime hl'
        have hle : (y.mgr.item q).expirationId ≤ (x.mgr.item q).expirationId := hlist hl'
        have hfit' := hfit hl'
        have hid := hd.2.1
        have hp := hperiod (y.mgr.item q).expirationId (by omega)
        rw [ht]
        exact .inr ⟨hlt, by omega, by omega⟩
      · -- the list of the item was not due
        obtain ⟨hlinked, hitem⟩ := hswept.untouched q hd
        have hl : Linked L q := hlinked.mp hl'
        rw [hitem]
        rcases hs.placed q fun ha => (absent_iff hL).mp ha hl with h0 | ⟨hid, hcov⟩
        · exact .inl h0
        · have hdue : ¬ x.mgr.expireCheckTime (x.mgr.item q).expirationId ≤ x.mgr.currTime :=
            fun hc => hd ⟨hl, hid, hc⟩
          have hsame := hcheck (x.mgr.item q).expirationId
          rw [if_neg fun hc => hdue hc.2] at hsame
          refine .inr ⟨?_, hid, ?_⟩
          · show x.mgr.currTime < (x.mgr.item q).expireTime
            omega
          · show y.mgr.expireCheckTime (x.mgr.item q).expirationId ≤ (x.mgr.item q).expireTime
            omega
    refine ⟨⟨?_, ?_, fun q hq => ?_⟩, fun _ q hq => (hafter q hq).imp_right And.left⟩
    · rw [hlast, hcurr]
    · rw [hlast]
      exact hperiod
    · exact (hafter q hq).imp_right fun ⟨_, hid, hle⟩ => ⟨hid, le_max_of_le_left hle⟩
  · rw [checkExpired, if_neg hnew] at hmgr
    exact ⟨hmgr ▸ hs, fun hn => absurd hn hnew⟩

theorem scheduled_start {lastTime limit itemSizeMax itemSizeMin : Nat} {factor : Rat} :
    (Sys.start env lastTime limit itemSizeMax itemSizeMin factor).mgr.Scheduled env := by
  have habs : abs env (Sys.start env lastTime limit itemSizeMax itemSizeMin factor).mgr =
      ⟨fun _ => none, fun _ => none, 0, 8⟩ := abs_start
  obtain ⟨m, i, f, he⟩ := init_eq env (CacheMgr.new lastTime) limit itemSizeMax itemSizeMin factor
  refine ⟨?_, fun j _ => ?_, fun q hq => absurd ?_ hq⟩
  · rw [Sys.start, he]
    exact Nat.zero_le _
  · rw [Sys.start, he]
    exact Nat.zero_le _
  · intro k e hk
    rw [habs] at hk
    cases hk

theorem scheduled_run {t : List (Sys × (Op × Outcome))} (h : Run (Sys.TimelyStep env) x t y)
    (hx : (∃ lost, SysInv env lost x) ∧ x.mgr.Scheduled env) :
    (∃ lost, SysInv env lost y) ∧ y.mgr.Scheduled env := by
  refine h.invariant (I := fun x => (∃ lost, SysInv env lost x) ∧ x.mgr.Scheduled env) ?_ hx
  rintro u ⟨op, r⟩ v ⟨hu, hs⟩ hstep
  refine ⟨(SysInv.act hu hstep.2).1, ?_⟩
  by_cases hsweep : op = .checkExpired
  · subst hsweep
    exact (scheduled_sweep hu hs hstep.2).1
  · exact scheduled_step hu hs hstep hsweep

end ExpiryLemmas

variable {env : Env} {lastTime limit itemSizeMax itemSizeMin : Nat} {factor : Rat} {x y : Sys}
  {tr : List (Sys × (Op × Outcome))} {r : Outcome}

/-- In every run in which an item is linked or re-timed by `get_touch` only in a list that covers
it and the clock does not wrap: when `check_expired` has run at a new time, no entry is past its
expire time. -/
theorem sweep_complete (hrun : Run (Sys.TimelyStep env)
      (Sys.start env lastTime limit itemSizeMax itemSizeMin factor) tr x)
    (hstep : x.RoomStep env (.checkExpired, r) y)
    (hnew : x.mgr.currTime ≠ x.mgr.lastCheckExpiredTime) :
    ∀ k e, (abs env y.mgr).entry k = some e →
      ¬ (0 < e.expireTime ∧ e.expireTime ≤ x.mgr.currTime) := by
  obtain ⟨hx, hs⟩ := scheduled_run hrun ⟨⟨_, sysInv_start⟩, scheduled_start⟩
  obtain ⟨-, hdone⟩ := scheduled_sweep hx hs hstep
  obtain ⟨-, -, held', L', -, hL', -⟩ := SysInv.core hx hstep
  intro k e he
  obtain ⟨p, hl, -, rfl⟩ := (abs_entry_iff hL').mp he
  rintro ⟨hpos, hle⟩
  have hpos' : 0 < (y.mgr.item p).expireTime := hpos
  have hle' : (y.mgr.item p).expireTime ≤ x.mgr.currTime := hle
  rcases hdone hnew p fun ha => (absent_iff hL').mp ha hl with h0 | hlt
  · omega
  · omega

/-- The key `k` is stored with the value `5`, for five seconds. -/
def secondsOps : List Op :=
  [.alloc .zeros 1 1 0 5 1 0, .fill 0 ⟨[107], [53], [], 0⟩, .update .set .zeros 0 0,
    .releaseReference 0, .setCurrentTime 10]

/-- An entry that is stored for five seconds is gone when a sweep has run ten seconds later. -/
theorem sweep_complete_small :
    let env := Env.colliding .uint16
    let x := (Sys.small .uint16).execAll env secondsOps
    let y := x.execAll env [.checkExpired]
    x.mgr.currTime = 18 ∧ ((abs env x.mgr).entry (1, [107])).map Entry.expireTime = some 13 ∧
      ∀ k e, (abs env y.mgr).entry k = some e →
        ¬ (0 < e.expireTime ∧ e.expireTime ≤ x.mgr.currTime) := by
  intro env x y
  have hnow : x.mgr.currTime = 18 := by decide +kernel
  have hbefore : ((abs env x.mgr).entry (1, [107])).map Entry.expireTime = some 13 := by
    decide +kernel
  have hreach : Run (Sys.TimelyStep env) (Sys.small .uint16) _ x :=
    (Sys.roomRun_execAll (by decide +kernel) (by decide +kernel)).restrict
      (P := fun (x : Sys) (l : Op × Outcome) => l.1.Timely env x.mgr l.2) (by decide +kernel)
  have hstep : x.RoomStep env (.checkExpired, .done) y :=
    ⟨by decide +kernel, Sys.step_execAll trivial (by decide +kernel)⟩
  have hnew : x.mgr.currTime ≠ x.mgr.lastCheckExpiredTime := by decide +kernel
  clear_value x y
  exact ⟨hnow, hbefore, sweep_complete hreach hstep hnew⟩

/-- An item is allocated for four seconds and linked after three of them; meanwhile its list has
been looked at. -/
def lateOps : List Op :=
  [.alloc .zeros 1 1 0 4 1 0, .fill 0 ⟨[107], [53], [], 0⟩, .setCurrentTime 3, .checkExpired,
    .update .set .zeros 0 0, .releaseReference 0, .setCurrentTime 4]

/-- The sweep at the time at which the item expires leaves it. -/
theorem sweep_late_small :
    let env := Env.colliding .uint16
    let x := (Sys.small .uint16).execAll env lateOps
    let y := x.execAll env [.checkExpired]
    (∃ tr, Run (Sys.RoomStep env) (Sys.small .uint16) tr x) ∧
      x.RoomStep env (.checkExpired, .done) y ∧
      x.mgr.currTime ≠ x.mgr.lastCheckExpiredTime ∧ y.mgr.lastCheckExpiredTime = 12 ∧
      ((abs env y.mgr).entry (1, [107])).map Entry.expireTime = some 12 := by
  intro env x y
  have hreach : Run (Sys.RoomStep env) (Sys.small .uint16) _ x :=
    Sys.roomRun_execAll (by decide +kernel) (by decide +kernel)
  refine ⟨⟨_, hreach⟩, ⟨by decide +kernel, Sys.step_execAll trivial (by decide +kernel)⟩, ?_, ?_, ?_⟩
  · decide +kernel
  · decide +kernel
  · decide +kernel

end Xixi
