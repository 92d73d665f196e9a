import Xixi.Delivery
import Xixi.System

/-!
# What the operations do to the watches and to the clock

The operations reach the watches only through `notify_watch`, and no operation but a sweep and
the clock touches the times that `check_expired` works with. Both are read off the primitives.

1. `Watches`, `Watches.notifyAll`: the watches under a list of calls of `notify_watch`.
2. `aside_*`: the primitives that touch neither the watches nor the times.
3. `Tells s s'`: the watches have been notified, nothing else of these fields has changed.
4. `tells_exec`: every operation that is not about a watch tells.
-/

namespace Xixi

/-- The watches of the manager, the calls made to connections, and which of these are alive. -/
structure Watches where
  watchMap : Nat → Option CacheWatch
  sinkCalls : List (Sink × Nat)
  sinkAlive : Sink → Bool

namespace Watches

/-- `notify_watch` on the watch `w`, if there is one. -/
def notify (x : Watches) (w : Nat) (n : Note) : Watches :=
  match x.watchMap w with
  | some watch =>
    let (watch', sink) := watch.notifyWatch x.sinkAlive n.1 n.2
    { x with
      watchMap := Function.update x.watchMap w (some watch')
      sinkCalls := x.sinkCalls ++ (sink.map fun p => (p, watch.watchId)).toList }
  | none => x

theorem notify_some {x : Watches} {w : Nat} {watch : CacheWatch} (h : x.watchMap w = some watch)
    (n : Note) :
    x.notify w n = { x with
      watchMap := Function.update x.watchMap w (some (watch.notifyWatch x.sinkAlive n.1 n.2).1)
      sinkCalls := x.sinkCalls ++ ((watch.notifyWatch x.sinkAlive n.1 n.2).2.map
        fun p => (p, watch.watchId)).toList } := by
  unfold notify
  rw [h]

theorem notify_none {x : Watches} {w : Nat} (h : x.watchMap w = none) (n : Note) :
    x.notify w n = x := by
  unfold notify
  rw [h]

def notifyAll (x : Watches) (ns : List (Nat × Note)) : Watches :=
  ns.foldl (fun x n => x.notify n.1 n.2) x

/-- What every notification keeps holds after all of them. -/
theorem notifyAll_induct {I : Watches → Prop} {x : Watches} {ns : List (Nat × Note)}
    (keep : ∀ x w n, I x → I (x.notify w n)) (h : I x) : I (x.notifyAll ns) := by
  induction ns generalizing x with
  | nil => exact h
  | cons n ns ih => exact ih (keep x n.1 n.2 h)

end Watches

namespace CacheMgr

def watches (s : CacheMgr) : Watches := ⟨s.watchMap, s.sinkCalls, s.sinkAlive⟩

/-- The times that `check_expired` works with. -/
def times (s : CacheMgr) : Nat × (Nat → Nat) × Nat :=
  (s.currTime, s.expireCheckTime, s.lastCheckExpiredTime)

def aside (s : CacheMgr) : Watches × Nat × (Nat → Nat) × Nat := (s.watches, s.times)

variable (env : Env) (s : CacheMgr) (o : Malloc) (p q : Ptr)

/-! ## Primitives that touch neither -/

@[simp] theorem aside_modify (f : CacheItem → CacheItem) : (s.modify p f).aside = s.aside := rfl

@[simp] theorem aside_stat (c : StatCall) : (s.stat c).aside = s.aside := rfl

@[simp] theorem aside_getCacheId : s.getCacheId.2.aside = s.aside := rfl

@[simp] theorem aside_copyInto (first second ext : Bytes) :
    (s.copyInto p q first second ext).aside = s.aside := rfl

@[simp] theorem aside_moveExpire (i j : Nat) : (s.moveExpire p i j).aside = s.aside := rfl

@[simp] theorem aside_fill (c : Contents) : (s.fill env p c).aside = s.aside := rfl

@[simp] theorem aside_doLink : (s.doLink env o p).aside = s.aside := rfl

@[simp] theorem aside_freeItem : (s.freeItem p).aside = s.aside := by
  unfold freeItem
  dsimp only
  split <;> rfl

@[simp] theorem aside_release : (s.doReleaseReference env p).aside = s.aside := by
  unfold doReleaseReference
  dsimp only
  split
  · rw [aside_freeItem]
    rfl
  · rfl

@[simp] theorem aside_addWatchIf (w : Nat) : (s.addWatchIf p w).aside = s.aside := by
  unfold addWatchIf
  split <;> rfl

@[simp] theorem aside_doGet (g : Nat) (k : Bytes) (h : Nat) :
    (s.doGet env g k h).2.aside = s.aside := by
  unfold doGet
  split <;> rfl

@[simp] theorem aside_doGetOf : (s.doGetOf env p).2.aside = s.aside := aside_doGet ..

@[simp] theorem aside_doGetTouch (g : Nat) (k : Bytes) (h x : Nat) :
    (s.doGetTouch env g k h x).2.aside = s.aside := by
  unfold doGetTouch
  split <;> rfl

@[simp] theorem aside_checkWatchAdd (w : Nat) (f g : Nat → Nat → Nat → StatCall)
    (m : Nat → Nat → StatCall) : (s.checkWatchAdd env p w f g m).2.aside = s.aside := by
  unfold checkWatchAdd
  split
  · split <;> rfl
  · rfl

@[simp] theorem aside_checkWatchReplace (w : Nat) (f g : Nat → Nat → Nat → StatCall)
    (m : Nat → Nat → StatCall) : (s.checkWatchReplace env p q w f g m).2.aside = s.aside := by
  unfold checkWatchReplace
  split
  · split <;> rfl
  · rfl

@[simp] theorem aside_getClassId (n : Nat) : (s.getClassId n).2.aside = s.aside := by
  unfold getClassId
  dsimp only
  split
  · split <;> rfl
  · split <;> rfl

@[simp] theorem aside_doAlloc (g kl fl et ds es : Nat) :
    (s.doAlloc env o g kl fl et ds es).2.aside = s.aside := by
  have hid := aside_getClassId s (calcItemSize env kl ds es)
  unfold doAlloc
  dsimp only
  split
  · exact hid
  · split
    · exact hid
    · split
      · split
        · exact hid
        · exact hid
      · exact hid

@[simp] theorem aside_detach : (s.detach env p).aside = s.aside := rfl

end CacheMgr

/-! ## Notifications -/

/-- The watches have been notified of something; the times are unchanged. -/
structure Tells (s s' : CacheMgr) : Prop where
  watches : ∃ ns, s'.watches = s.watches.notifyAll ns
  times : s'.times = s.times

namespace Tells

variable {s s' s'' : CacheMgr}

theorem of_aside (h : s'.aside = s.aside) : Tells s s' :=
  ⟨⟨[], congrArg Prod.fst h⟩, congrArg Prod.snd h⟩

theorem refl (s : CacheMgr) : Tells s s := of_aside rfl

theorem trans (h : Tells s s') (h' : Tells s' s'') : Tells s s'' := by
  obtain ⟨ns, hns⟩ := h.watches
  obtain ⟨ns', hns'⟩ := h'.watches
  refine ⟨⟨ns ++ ns', ?_⟩, h'.times.trans h.times⟩
  rw [hns', hns, Watches.notifyAll, Watches.notifyAll, Watches.notifyAll, List.foldl_append]

/-- Something that touches neither comes first. -/
theorem congr (h : Tells s' s'') (hs : s'.aside = s.aside) : Tells s s'' := (of_aside hs).trans h

/-- Something that touches neither comes last. -/
theorem followed (h : Tells s s') (hs : s''.aside = s'.aside) : Tells s s'' :=
  h.trans (of_aside hs)

end Tells

namespace CacheMgr

variable (env : Env) (s : CacheMgr) (o : Malloc) (p q : Ptr)

theorem tells_notifyIds (x : Nat) (t : NotifyType) (ids : List Nat) :
    Tells s (s.notifyIds x t ids) := by
  induction ids generalizing s with
  | nil => exact .refl s
  | cons w ws ih =>
    unfold notifyIds
    split
    · next watch hw =>
      refine Tells.trans ⟨⟨[(w, x, t)], ?_⟩, ?_⟩ (ih _)
      · exact (Watches.notify_some (x := s.watches) hw (x, t)).symm
      · rfl
    · exact ih s

theorem tells_notifyWatch (t : NotifyType) : Tells s (s.notifyWatch p t) := by
  unfold notifyWatch
  split
  · exact .refl s
  · exact (tells_notifyIds s _ t _).followed rfl

/-- `if (it->watch_item != NULL) { notify_watch(it, type); }` -/
theorem tells_notifyIf (t : NotifyType) :
    Tells s (if (s.item p).watchItem.isSome then s.notifyWatch p t else s) := by
  split
  · exact tells_notifyWatch s p t
  · exact .refl s

theorem tells_dropWatch (t : NotifyType) : Tells s (s.dropWatch p t) := by
  unfold dropWatch
  split
  · exact (tells_notifyWatch s p t).followed rfl
  · exact .refl s

theorem tells_doUnlink (t : NotifyType) : Tells s (s.doUnlink env p t) :=
  ((tells_dropWatch (s.detach env p) p t).congr (aside_detach env s p)).followed (aside_release ..)

theorem tells_doReplace (n : Ptr) : Tells s (s.doReplace env o p n) :=
  (tells_doUnlink env s p .dataUpdated).followed (aside_doLink ..)

/-! ## Operations -/

theorem tells_get (g : Nat) (k : Bytes) (w : Nat) (b : Bool) : Tells s (s.get env g k w b).2 := by
  have hget : Tells s (s.doGetExpiration env g k (env.hash32 k g)).2 := by
    unfold doGetExpiration
    split
    · dsimp only
      split
      · exact .of_aside rfl
      · split
        · exact .of_aside rfl
        · exact tells_doUnlink env s _ .expired
    · exact .refl s
  unfold CacheMgr.get
  split
  · next hd =>
    rw [hd] at hget
    split
    · split
      · exact hget.followed rfl
      · exact hget.followed (aside_release ..)
    · split
      · exact hget.followed rfl
      · exact hget.followed rfl
  · next hd =>
    rw [hd] at hget
    exact hget.followed rfl

theorem aside_getTouch (g : Nat) (k : Bytes) (w x : Nat) :
    (s.getTouch env g k w x).2.aside = s.aside := by
  have hget := aside_doGetTouch env s g k (env.hash32 k g) x
  unfold getTouch
  split
  · next hd =>
    rw [hd] at hget
    split
    · split
      · exact hget
      · exact (aside_release ..).trans hget
    · exact hget
  · next hd =>
    rw [hd] at hget
    exact hget

theorem tells_updateFlags (g : Nat) (k : Bytes) (x fl : Nat) :
    Tells s (s.updateFlags env g k x fl).2 := by
  have hget := aside_doGet env s g k (env.hash32 k g)
  unfold updateFlags
  split
  · next p s₁ hd =>
    rw [hd] at hget
    split
    · have hn := (tells_notifyIf _ p .baseInfoUpdated).congr
        (aside_modify s₁ p fun it => { it with flags := fl })
      refine (hn.congr hget).followed ?_
      rw [aside_release, aside_stat, aside_modify, aside_getCacheId]
    · exact .of_aside hget
  · next hd =>
    rw [hd] at hget
    exact .of_aside hget

theorem aside_updateExpiration (g : Nat) (k : Bytes) (x y : Nat) :
    (s.updateExpiration env g k x y).2.aside = s.aside := by
  have hget := aside_doGet env s g k (env.hash32 k g)
  unfold updateExpiration
  split
  · next s₁ hd =>
    rw [hd] at hget
    split
    · rw [aside_release, aside_stat, aside_modify]
      split
      · exact hget
      · exact hget
    · exact hget
  · next hd =>
    rw [hd] at hget
    exact hget

theorem tells_remove (g : Nat) (k : Bytes) (x : Nat) : Tells s (s.remove env g k x).2 := by
  have hget := aside_doGet env s g k (env.hash32 k g)
  unfold CacheMgr.remove
  split
  · next s₁ hd =>
    rw [hd] at hget
    split
    · refine ((tells_doUnlink env _ _ .deleted).congr ?_).followed (aside_release ..)
      rw [aside_stat]
      exact hget
    · refine .of_aside ?_
      rw [aside_release, aside_stat]
      exact hget
  · next hd =>
    rw [hd] at hget
    exact .of_aside hget

theorem tells_add (w : Nat) : Tells s (s.add env o p w).2 := by
  have hget := aside_doGetOf env s p
  unfold CacheMgr.add
  split
  · next s₁ hd =>
    have hw := aside_checkWatchAdd env s₁ p w .addSuccess .addSuccessWatch .addWatchMiss
    rw [hd] at hget
    split
    · next hc =>
      rw [hc] at hw
      exact .of_aside ((aside_doLink ..).trans (hw.trans hget))
    · next hc =>
      rw [hc] at hw
      exact .of_aside (hw.trans hget)
  · next hd =>
    rw [hd] at hget
    refine .of_aside ?_
    rw [aside_stat, aside_release]
    exact hget

/-- The end of `set` and of `replace`, once the old item has been found. -/
theorem tells_replaced (r t w : Nat) (f g : Nat → Nat → Nat → StatCall) (m : Nat → Nat → StatCall) :
    Tells s (match s.checkWatchReplace env p t w f g m with
      | (true, s) =>
        let s := s.doReplace env o r p
        let s := s.addWatchIf p w
        ((Reason.success, some (s.item p).cacheId), s.doReleaseReference env r)
      | (false, s) => ((.watchNotFound, none), s.doReleaseReference env r)).2 := by
  have hw := aside_checkWatchReplace env s p t w f g m
  split
  · next s₁ hc =>
    rw [hc] at hw
    refine ((tells_doReplace env s₁ o r p).congr hw).followed ?_
    rw [aside_release, aside_addWatchIf]
  · next hc =>
    rw [hc] at hw
    exact .of_aside ((aside_release ..).trans hw)

theorem tells_replace (w : Nat) : Tells s (s.replace env o p w).2 := by
  have hget := aside_doGetOf env s p
  unfold CacheMgr.replace
  split
  · next hd =>
    rw [hd] at hget
    exact .of_aside hget
  · next s₁ hd =>
    rw [hd] at hget
    split
    · exact (tells_replaced ..).congr hget
    · refine .of_aside ?_
      rw [aside_release, aside_stat]
      exact hget

theorem tells_set (w : Nat) : Tells s (s.set env o p w).2 := by
  have hget := aside_doGetOf env s p
  unfold CacheMgr.set
  split
  · next s₁ hd =>
    rw [hd] at hget
    split
    · exact (tells_replaced ..).congr hget
    · refine .of_aside ?_
      rw [aside_release, aside_stat]
      exact hget
  · next s₁ hd =>
    have hw := aside_checkWatchAdd env s₁ p w .setSuccess .setSuccessWatch .setWatchMiss
    rw [hd] at hget
    split
    · next hc =>
      rw [hc] at hw
      exact .of_aside ((aside_doLink ..).trans (hw.trans hget))
    · next hc =>
      rw [hc] at hw
      exact .of_aside (hw.trans hget)

theorem tells_append (w : Nat) : Tells s (s.append env o p w).2 := by
  have hget := aside_doGetOf env s p
  unfold CacheMgr.append
  split
  · next old s₁ hd =>
    rw [hd] at hget
    split
    · exact .of_aside hget
    · have hal := aside_doAlloc env s₁ o (s₁.item p).groupId (s₁.item p).keyLength
        (s₁.item old).flags (s₁.item old).expireTime
        (((s₁.item p).dataSize + (s₁.item old).dataSize) % 2 ^ 32) (s₁.item old).extSize
      split
      · next n s₂ ha =>
        rw [ha] at hal
        dsimp only
        have hw := aside_checkWatchReplace env (s₂.copyInto n p (s₂.item old).data (s₂.item p).data
          (s₂.item old).ext) p old w .appendSuccess .appendSuccessWatch .appendWatchMiss
        rw [aside_copyInto] at hw
        split
        · next s₃ hc =>
          rw [hc] at hw
          refine ((tells_doReplace env s₃ o old n).congr (hw.trans (hal.trans hget))).followed ?_
          rw [aside_release, aside_release, aside_addWatchIf]
        · next hc =>
          rw [hc] at hw
          refine .of_aside ?_
          rw [aside_release, aside_release]
          exact hw.trans (hal.trans hget)
      · next ha =>
        rw [ha] at hal
        refine .of_aside ?_
        rw [aside_release, aside_stat]
        exact hal.trans hget
  · next hd =>
    rw [hd] at hget
    exact .of_aside hget

theorem tells_prepend (w : Nat) : Tells s (s.prepend env o p w).2 := by
  have hget := aside_doGetOf env s p
  unfold CacheMgr.prepend
  split
  · next old s₁ hd =>
    rw [hd] at hget
    split
    · exact .of_aside hget
    · have hal := aside_doAlloc env s₁ o (s₁.item p).groupId (s₁.item p).keyLength
        (s₁.item old).flags (s₁.item old).expireTime
        (((s₁.item p).dataSize + (s₁.item old).dataSize) % 2 ^ 32) (s₁.item old).extSize
      split
      · next n s₂ ha =>
        rw [ha] at hal
        dsimp only
        have hw := aside_checkWatchReplace env (s₂.copyInto n p (s₂.item p).data (s₂.item old).data
          (s₂.item old).ext) p old w .prependSuccess .prependSuccessWatch .prependWatchMiss
        rw [aside_copyInto] at hw
        split
        · next s₃ hc =>
          rw [hc] at hw
          have ha := (aside_addWatchIf s₃ p w).trans (hw.trans (hal.trans hget))
          refine ((tells_doReplace env (s₃.addWatchIf p w) o old n).congr ha).followed ?_
          rw [aside_release, aside_release]
        · next hc =>
          rw [hc] at hw
          refine .of_aside ?_
          rw [aside_release, aside_release]
          exact hw.trans (hal.trans hget)
      · next ha =>
        rw [ha] at hal
        refine .of_aside ?_
        rw [aside_release, aside_stat]
        exact hal.trans hget
  · next hd =>
    rw [hd] at hget
    exact .of_aside hget

theorem tells_delta (g : Nat) (k : Bytes) (incr : Bool) (d : Int) (x : Nat) :
    Tells s (s.delta env o g k incr d x).2 := by
  have hget := aside_doGet env s g k (env.hash32 k g)
  unfold CacheMgr.delta
  split
  · next hd =>
    rw [hd] at hget
    exact .of_aside hget
  · next p s₁ hd =>
    rw [hd] at hget
    split
    · dsimp only
      generalize deltaValue (s₁.item p) incr d = value
      split
      · have hal := aside_doAlloc env s₁ o (s₁.item p).groupId (s₁.item p).keyLength
          (s₁.item p).flags (s₁.item p).expireTime (formatInt64 value).length (s₁.item p).extSize
        split
        · next ha =>
          rw [ha] at hal
          exact .of_aside ((aside_release ..).trans (hal.trans hget))
        · next n s₂ ha =>
          rw [ha] at hal
          have hc := aside_copyInto s₂ n p (formatInt64 value) [] (s₂.item p).ext
          refine ((tells_doReplace env _ o p n).congr (hc.trans (hal.trans hget))).followed ?_
          rw [aside_release, aside_stat, aside_release]
      · refine .of_aside ?_
        rw [aside_release, aside_stat, aside_modify, aside_modify, aside_getCacheId]
        exact hget
    · refine .of_aside ?_
      rw [aside_release, aside_stat]
      exact hget

theorem aside_loadFromFileLink (w : Nat) :
    (s.loadFromFileLink env o p w).2.aside = s.aside := by
  have hget := aside_doGetOf env s p
  unfold CacheMgr.loadFromFileLink
  split
  · next s₁ hd =>
    have hw := aside_checkWatchAdd env s₁ p w .addSuccess .addSuccessWatch .addWatchMiss
    rw [hd] at hget
    split
    · next hc =>
      rw [hc] at hw
      exact (aside_doLink ..).trans (hw.trans hget)
    · next hc =>
      rw [hc] at hw
      exact (aside_release ..).trans (hw.trans hget)
  · next hd =>
    rw [hd] at hget
    exact (aside_release ..).trans hget

/-! ## Sweeps -/

theorem tells_flushLoop (g n : Nat) (r : Nat × Nat × CacheMgr) (it : Option Ptr) :
    Tells r.2.2 (flushLoop env g n it r).2.2 := by
  induction n generalizing it r with
  | zero => cases it <;> exact .of_aside rfl
  | succ n ih =>
    cases it with
    | none => exact .of_aside rfl
    | some p =>
      unfold flushLoop
      dsimp only
      split
      · exact (tells_doUnlink env r.2.2 p .flushed).trans
          (ih (_, _, r.2.2.doUnlink env p .flushed) _)
      · exact ih _ _

theorem tells_flush (g : Nat) : Tells s (s.flush env g).2 := by
  have hfold : ∀ (is : List Nat) (r : Nat × Nat × CacheMgr),
      Tells r.2.2 (is.foldl (flushList env g) r).2.2 := by
    intro is
    induction is with
    | nil => exact fun r => .refl _
    | cons i is ih => exact fun r => (tells_flushLoop env g _ r _).trans (ih _)
  have h := hfold (List.range 34) (0, 0, s)
  unfold CacheMgr.flush
  generalize (List.range 34).foldl (flushList env g) (0, 0, s) = r at h ⊢
  exact h.followed (aside_stat ..)

/-- A sweep of one list tells; its own times are set before. -/
theorem tells_expireLoop (now i n : Nat) (it : Option Ptr) :
    Tells s (expireLoop env now i n it s) := by
  induction n generalizing it s with
  | zero => cases it <;> exact .of_aside rfl
  | succ n ih =>
    cases it with
    | none => exact .of_aside rfl
    | some p =>
      unfold expireLoop
      dsimp only
      split
      · exact (tells_doUnlink env s p .expired).trans (ih _ _)
      · split
        · exact (ih _ _).congr (aside_moveExpire ..)
        · exact ih _ _

theorem aside_freeFlushedItems : (s.freeFlushedItems env).aside = s.aside := by
  have hloop : ∀ (n : Nat) (it : Option Ptr) (s : CacheMgr),
      (freeFlushedLoop env n it s).aside = s.aside := by
    intro n
    induction n with
    | zero => intro it s; cases it <;> rfl
    | succ n ih =>
      intro it s
      cases it with
      | none => rfl
      | some p =>
        unfold freeFlushedLoop
        rw [ih, aside_release]
        rfl
  exact hloop ..

theorem watches_expireItems (now : Nat) :
    ∃ ns, (s.expireItems env now).watches = s.watches.notifyAll ns := by
  have hlist : ∀ (s : CacheMgr) (i : Nat),
      ∃ ns, (expireList env now s i).watches = s.watches.notifyAll ns := by
    intro s i
    unfold expireList
    split
    · exact (tells_expireLoop env _ now i _ _).watches
    · exact ⟨[], rfl⟩
  have hfold : ∀ (is : List Nat) (s : CacheMgr),
      ∃ ns, (is.foldl (expireList env now) s).watches = s.watches.notifyAll ns := by
    intro is
    induction is with
    | nil => exact fun s => ⟨[], rfl⟩
    | cons i is ih =>
      intro s
      obtain ⟨ns, hns⟩ := hlist s i
      obtain ⟨ns', hns'⟩ := ih (expireList env now s i)
      refine ⟨ns ++ ns', ?_⟩
      rw [List.foldl_cons, hns', hns, Watches.notifyAll, Watches.notifyAll, Watches.notifyAll,
        List.foldl_append]
  exact hfold ..

end CacheMgr

/-! ## Every operation -/

/-- The operation is about a watch, the connections, the clock or the sweep. -/
def Op.special : Op → Bool
  | .checkExpired => true
  | .createWatch .. => true
  | .checkWatchAndSetCallback .. => true
  | .checkWatchAndClearCallback .. => true
  | .setCurrentTime _ => true
  | .connections _ => true
  | _ => false

open CacheMgr in
/-- Every other operation only notifies watches, and does not touch the times. -/
theorem tells_exec (env : Env) (s : CacheMgr) {op : Op} (h : op.special = false) :
    Tells s (s.exec env op).2 := by
  cases op with
  | alloc o g kl fl x ds es => exact .of_aside (aside_doAlloc ..)
  | fill p c => exact .of_aside (aside_fill ..)
  | get g k w b => exact tells_get ..
  | getTouch g k w x => exact .of_aside (aside_getTouch ..)
  | updateFlags g k x fl => exact tells_updateFlags ..
  | updateExpiration g k x y => exact .of_aside (aside_updateExpiration ..)
  | update verb o p w =>
    cases verb with
    | add => exact tells_add ..
    | set => exact tells_set ..
    | replace => exact tells_replace ..
    | append => exact tells_append ..
    | prepend => exact tells_prepend ..
  | loadFromFileLink o p w => exact .of_aside (aside_loadFromFileLink ..)
  | remove g k x => exact tells_remove ..
  | delta o g k incr d x => exact tells_delta ..
  | flush g =>
    have hexec : s.exec env (.flush g) = (s.flush env g).map .flush id := rfl
    rw [hexec, Prod.map_snd, id_eq]
    exact tells_flush env s g
  | releaseReference p => exact .of_aside (aside_release ..)
  | checkExpired => exact nomatch h
  | createWatch g x => exact nomatch h
  | checkWatchAndSetCallback sp g w ack x => exact nomatch h
  | checkWatchAndClearCallback sp w => exact nomatch h
  | setCurrentTime tt => exact nomatch h
  | connections alive => exact nomatch h

/-- The sweep notifies, once the expired watches are gone. -/
theorem watches_checkExpired (env : Env) (s : CacheMgr) :
    (s.checkExpired env).watches = s.watches ∨
      ∃ ns, (s.checkExpired env).watches = (s.expireWatchs s.currTime).watches.notifyAll ns := by
  unfold CacheMgr.checkExpired
  split
  · have h := CacheMgr.watches_expireItems env
      ({ s with lastCheckExpiredTime := s.currTime }.expireWatchs s.currTime) s.currTime
    obtain ⟨ns, hns⟩ := h
    exact .inr ⟨ns, (congrArg Prod.fst (CacheMgr.aside_freeFlushedItems env _)).trans hns⟩
  · exact .inl rfl

end Xixi
