import Xixi.Operation

/-!
# What an operation leaves of the manager

Whatever the state is, an operation only appends calls to `stats` and leaves `class_id_max_`
(`logged_exec`). No invariant is needed for that.
-/

namespace Xixi

/-- `s'` has the class table of `s`, and the calls of `s` come first in it. -/
structure CacheMgr.Logged (s s' : CacheMgr) : Prop where
  classIdMax : s'.classIdMax = s.classIdMax
  stats : s.stats <+: s'.stats

namespace CacheMgr.Logged

variable {env : Env} {s₀ s s' : CacheMgr} {o : Malloc} {p q : Ptr} {g w n : Nat} {k : Bytes}

theorem refl : s.Logged s := ⟨rfl, List.prefix_rfl⟩

theorem of_eq (h : s₀.Logged s) (hc : s'.classIdMax = s.classIdMax) (hs : s'.stats = s.stats) :
    s₀.Logged s' :=
  ⟨hc.trans h.classIdMax, hs ▸ h.stats⟩

theorem of_call (h : s₀.Logged s) (c : StatCall) (hc : s'.classIdMax = s.classIdMax)
    (hs : s'.stats = s.stats ++ [c]) : s₀.Logged s' :=
  ⟨hc.trans h.classIdMax, hs ▸ h.stats.trans (List.prefix_append _ _)⟩

theorem ite {c : Prop} [Decidable c] (h : s₀.Logged s) (h' : s₀.Logged s') :
    s₀.Logged (if c then s else s') := by
  split
  · exact h
  · exact h'

/-- The state that a function returns beside its value. -/
theorem out {α : Type} {r : α × CacheMgr} {a : α} (h : s₀.Logged r.2) (e : r = (a, s)) :
    s₀.Logged s := by
  subst e
  exact h

/-! ## Small steps -/

@[grind ←]
theorem stat (c : StatCall) (h : s₀.Logged s) : s₀.Logged (s.stat c) :=
  h.of_call c rfl rfl

@[grind ←]
theorem modify (f : CacheItem → CacheItem) (h : s₀.Logged s) : s₀.Logged (s.modify p f) :=
  h.of_eq rfl rfl

@[grind ←]
theorem assert (b : Bool) (h : s₀.Logged s) : s₀.Logged (s.assert b) :=
  h.of_eq rfl rfl

@[grind ←]
theorem addReference (h : s₀.Logged s) : s₀.Logged (s.addReference env p) := h.modify _

theorem getCacheId (h : s₀.Logged s) : s₀.Logged s.getCacheId.2 :=
  h.of_eq rfl rfl

theorem getClassId (h : s₀.Logged s) : s₀.Logged (s.getClassId n).2 := by
  refine h.of_eq ?_ ?_ <;> grind [CacheMgr.getClassId]

theorem doAlloc {kl fl e d x : Nat} (h : s₀.Logged s) :
    s₀.Logged (s.doAlloc env o g kl fl e d x).2 := by
  have hid := h.getClassId (n := CacheMgr.calcItemSize env kl d x)
  unfold CacheMgr.doAlloc
  generalize s.getClassId (CacheMgr.calcItemSize env kl d x) = r at hid ⊢
  obtain ⟨id, s⟩ := r
  dsimp only at hid ⊢
  split
  · exact hid
  · split
    · exact hid.of_eq rfl rfl
    · split
      · split
        · exact hid.of_eq rfl rfl
        · exact hid
      · exact hid

@[grind ←]
theorem freeItem (h : s₀.Logged s) : s₀.Logged (s.freeItem p) := by
  refine h.of_eq ?_ ?_ <;> grind [CacheMgr.freeItem, CacheMgr.modify, CacheMgr.assert]

@[grind ←]
theorem doReleaseReference (h : s₀.Logged s) : s₀.Logged (s.doReleaseReference env p) := by
  unfold CacheMgr.doReleaseReference
  grind

theorem notifyIds {id : Nat} {type : NotifyType} (ws : List Nat) (h : s₀.Logged s) :
    s₀.Logged (s.notifyIds id type ws) := by
  induction ws generalizing s with
  | nil => exact h
  | cons w ws ih =>
    unfold CacheMgr.notifyIds
    split
    · exact ih (h.of_eq rfl rfl)
    · exact ih h

theorem notifyWatch {type : NotifyType} (h : s₀.Logged s) : s₀.Logged (s.notifyWatch p type) := by
  unfold CacheMgr.notifyWatch
  split
  · exact h
  · exact (h.notifyIds _).modify _

/-! ## Linking and unlinking -/

@[grind ←]
theorem doLink (h : s₀.Logged s) : s₀.Logged (s.doLink env o p) :=
  h.of_call (.itemLink (s.item p).groupId (s.item p).classId (s.totalSize env p))
    rfl rfl

theorem detach (h : s₀.Logged s) : s₀.Logged (s.detach env p) :=
  h.of_call (.itemUnlink (s.item p).groupId (s.item p).classId (s.totalSize env p))
    rfl rfl

theorem dropWatch {type : NotifyType} (h : s₀.Logged s) : s₀.Logged (s.dropWatch p type) := by
  unfold CacheMgr.dropWatch
  split
  · exact h.notifyWatch.modify _
  · exact h

@[grind ←]
theorem doUnlink {type : NotifyType} (h : s₀.Logged s) : s₀.Logged (s.doUnlink env p type) :=
  h.detach.dropWatch.doReleaseReference

theorem doReplace (h : s₀.Logged s) : s₀.Logged (s.doReplace env o p q) := h.doUnlink.doLink

theorem moveExpire {i j : Nat} (h : s₀.Logged s) : s₀.Logged (s.moveExpire p i j) :=
  h.of_eq rfl rfl

theorem addWatchIf (h : s₀.Logged s) : s₀.Logged (s.addWatchIf p w) := by
  unfold CacheMgr.addWatchIf
  grind

theorem copyInto {a b e : Bytes} (h : s₀.Logged s) : s₀.Logged (s.copyInto p q a b e) :=
  h.of_eq rfl rfl

/-! ## Looking up -/

@[grind ←]
theorem doGet (h : s₀.Logged s) : s₀.Logged (s.doGet env g k n).2 := by
  unfold CacheMgr.doGet
  grind

@[grind ←]
theorem doGetOf (h : s₀.Logged s) : s₀.Logged (s.doGetOf env p).2 := h.doGet

@[grind ←]
theorem doGetExpiration (h : s₀.Logged s) : s₀.Logged (s.doGetExpiration env g k n).2 := by
  unfold CacheMgr.doGetExpiration
  grind

@[grind ←]
theorem doGetTouch {x : Nat} (h : s₀.Logged s) : s₀.Logged (s.doGetTouch env g k n x).2 := by
  unfold CacheMgr.doGetTouch
  grind

@[grind ←]
theorem checkWatchAdd {c c' : Nat → Nat → Nat → StatCall} {m : Nat → Nat → StatCall}
    (h : s₀.Logged s) : s₀.Logged (s.checkWatchAdd env p w c c' m).2 := by
  unfold CacheMgr.checkWatchAdd
  grind

theorem checkWatchReplace {c c' : Nat → Nat → Nat → StatCall} {m : Nat → Nat → StatCall}
    (h : s₀.Logged s) : s₀.Logged (s.checkWatchReplace env p q w c c' m).2 := by
  unfold CacheMgr.checkWatchReplace
  grind

/-! ## The operations -/

theorem get {b : Bool} (h : s₀.Logged s) : s₀.Logged (s.get env g k w b).2 := by
  unfold CacheMgr.get
  grind

theorem getTouch {x : Nat} (h : s₀.Logged s) : s₀.Logged (s.getTouch env g k w x).2 := by
  unfold CacheMgr.getTouch
  grind

theorem updateFlags {x fl : Nat} (h : s₀.Logged s) :
    s₀.Logged (s.updateFlags env g k x fl).2 := by
  unfold CacheMgr.updateFlags
  split
  · next p s₁ e =>
    have h₁ := out h.doGet e
    split
    · exact ((((h₁.modify _).notifyWatch.ite (h₁.modify _)).getCacheId.modify _).stat
        _).doReleaseReference
    · exact h₁.stat _
  · next s₁ e => exact (out h.doGet e).stat _

theorem updateExpiration {x y : Nat} (h : s₀.Logged s) :
    s₀.Logged (s.updateExpiration env g k x y).2 := by
  unfold CacheMgr.updateExpiration
  split
  · next p s₁ e =>
    have h₁ := out h.doGet e
    split
    · exact (((h₁.moveExpire.ite h₁).modify _).stat _).doReleaseReference
    · exact h₁.stat _
  · next s₁ e => exact (out h.doGet e).stat _

theorem add (h : s₀.Logged s) : s₀.Logged (s.add env o p w).2 := by
  unfold CacheMgr.add
  split
  · next s₁ e =>
    have h₁ := out h.doGetOf e
    split
    · next s₂ e₂ => exact (out h₁.checkWatchAdd e₂).doLink
    · next s₂ e₂ => exact out h₁.checkWatchAdd e₂
  · next old s₁ e => exact (out h.doGetOf e).doReleaseReference.stat _

theorem set (h : s₀.Logged s) : s₀.Logged (s.set env o p w).2 := by
  unfold CacheMgr.set
  split
  · next old s₁ e =>
    have h₁ := out h.doGetOf e
    split
    · split
      · next s₂ e₂ =>
        exact (out h₁.checkWatchReplace e₂).doReplace.addWatchIf.doReleaseReference
      · next s₂ e₂ => exact (out h₁.checkWatchReplace e₂).doReleaseReference
    · exact (h₁.stat _).doReleaseReference
  · next s₁ e =>
    have h₁ := out h.doGetOf e
    split
    · next s₂ e₂ => exact (out h₁.checkWatchAdd e₂).doLink
    · next s₂ e₂ => exact out h₁.checkWatchAdd e₂

theorem replace (h : s₀.Logged s) : s₀.Logged (s.replace env o p w).2 := by
  unfold CacheMgr.replace
  split
  · next s₁ e => exact (out h.doGetOf e).stat _
  · next old s₁ e =>
    have h₁ := out h.doGetOf e
    split
    · split
      · next s₂ e₂ =>
        exact (out h₁.checkWatchReplace e₂).doReplace.addWatchIf.doReleaseReference
      · next s₂ e₂ => exact (out h₁.checkWatchReplace e₂).doReleaseReference
    · exact (h₁.stat _).doReleaseReference

theorem append (h : s₀.Logged s) : s₀.Logged (s.append env o p w).2 := by
  unfold CacheMgr.append
  split
  · next old s₁ e =>
    have h₁ := out h.doGetOf e
    split
    · exact h₁.stat _
    · split
      · next n s₂ e₂ =>
        dsimp only
        split
        · next s₃ e₃ =>
          exact (out (out h₁.doAlloc e₂).copyInto.checkWatchReplace
            e₃).doReplace.addWatchIf.doReleaseReference.doReleaseReference
        · next s₃ e₃ =>
          exact (out (out h₁.doAlloc e₂).copyInto.checkWatchReplace
            e₃).doReleaseReference.doReleaseReference
      · next s₂ e₂ => exact ((out h₁.doAlloc e₂).stat _).doReleaseReference
  · next s₁ e => exact (out h.doGetOf e).stat _

theorem prepend (h : s₀.Logged s) : s₀.Logged (s.prepend env o p w).2 := by
  unfold CacheMgr.prepend
  split
  · next old s₁ e =>
    have h₁ := out h.doGetOf e
    split
    · exact h₁.stat _
    · split
      · next n s₂ e₂ =>
        dsimp only
        split
        · next s₃ e₃ =>
          exact (out (out h₁.doAlloc e₂).copyInto.checkWatchReplace
            e₃).addWatchIf.doReplace.doReleaseReference.doReleaseReference
        · next s₃ e₃ =>
          exact (out (out h₁.doAlloc e₂).copyInto.checkWatchReplace
            e₃).doReleaseReference.doReleaseReference
      · next s₂ e₂ => exact ((out h₁.doAlloc e₂).stat _).doReleaseReference
  · next s₁ e => exact (out h.doGetOf e).stat _

theorem update {verb : Verb} (h : s₀.Logged s) : s₀.Logged (s.update env o p w verb).2 := by
  cases verb with
  | add => exact h.add
  | set => exact h.set
  | replace => exact h.replace
  | append => exact h.append
  | prepend => exact h.prepend

theorem loadFromFileLink (h : s₀.Logged s) : s₀.Logged (s.loadFromFileLink env o p w).2 := by
  unfold CacheMgr.loadFromFileLink
  grind

theorem remove {x : Nat} (h : s₀.Logged s) : s₀.Logged (s.remove env g k x).2 := by
  unfold CacheMgr.remove
  grind

theorem delta {incr : Bool} {d : Int} {x : Nat} (h : s₀.Logged s) :
    s₀.Logged (s.delta env o g k incr d x).2 := by
  unfold CacheMgr.delta
  split
  · next s₁ e => exact (out h.doGet e).stat _
  · next p s₁ e =>
    have h₁ := out h.doGet e
    split
    · dsimp only
      split
      · split
        · next s₂ e₂ => exact (out h₁.doAlloc e₂).doReleaseReference
        · next n s₂ e₂ =>
          exact ((out h₁.doAlloc e₂).copyInto.doReplace.doReleaseReference.stat
            _).doReleaseReference
      · exact (((h₁.getCacheId.modify _).modify _).stat _).doReleaseReference
    · exact (h₁.stat _).doReleaseReference

theorem flushLoop (n : Nat) {it : Option Ptr} {r : Nat × Nat × CacheMgr}
    (h : s₀.Logged r.2.2) : s₀.Logged (CacheMgr.flushLoop env g n it r).2.2 := by
  induction n generalizing it r with
  | zero =>
    cases it with
    | none => exact h
    | some p => exact h.assert _
  | succ n ih =>
    cases it with
    | none => exact h
    | some p =>
      obtain ⟨count, size, s⟩ := r
      unfold CacheMgr.flushLoop
      dsimp only
      split
      · exact ih h.doUnlink
      · exact ih h

theorem flush (h : s₀.Logged s) : s₀.Logged (s.flush env g).2 := by
  have hlists : ∀ (is : List Nat) (r : Nat × Nat × CacheMgr), s₀.Logged r.2.2 →
      s₀.Logged (is.foldl (CacheMgr.flushList env g) r).2.2 := by
    intro is
    induction is with
    | nil => exact fun r hr => hr
    | cons i is ih => exact fun r hr => ih _ (flushLoop _ hr)
  have hall := hlists (List.range 34) (0, 0, s) h
  unfold CacheMgr.flush
  generalize (List.range 34).foldl (CacheMgr.flushList env g) (0, 0, s) = r at hall ⊢
  exact hall.stat _

theorem expireLoop {now i : Nat} (n : Nat) {it : Option Ptr} (h : s₀.Logged s) :
    s₀.Logged (CacheMgr.expireLoop env now i n it s) := by
  induction n generalizing it s with
  | zero =>
    cases it with
    | none => exact h
    | some p => exact h.assert _
  | succ n ih =>
    cases it with
    | none => exact h
    | some p =>
      unfold CacheMgr.expireLoop
      dsimp only
      split
      · exact ih h.doUnlink
      · split
        · exact ih h.moveExpire
        · exact ih h

theorem expireList {now i : Nat} (h : s₀.Logged s) : s₀.Logged (s.expireList env now i) := by
  unfold CacheMgr.expireList
  split
  · exact expireLoop _ (h.of_eq rfl rfl)
  · exact h

theorem expireItems {now : Nat} (h : s₀.Logged s) : s₀.Logged (s.expireItems env now) := by
  have hlists : ∀ (is : List Nat) (s : CacheMgr), s₀.Logged s →
      s₀.Logged (is.foldl (CacheMgr.expireList env now) s) := by
    intro is
    induction is with
    | nil => exact fun s hs => hs
    | cons i is ih => exact fun s hs => ih _ hs.expireList
  exact hlists (List.range 33) s h

theorem freeFlushedLoop (n : Nat) {it : Option Ptr} (h : s₀.Logged s) :
    s₀.Logged (CacheMgr.freeFlushedLoop env n it s) := by
  induction n generalizing it s with
  | zero =>
    cases it with
    | none => exact h
    | some p => exact h.assert _
  | succ n ih =>
    cases it with
    | none => exact h
    | some p => exact ih (doReleaseReference (h.of_eq rfl rfl))

theorem checkExpired (h : s₀.Logged s) : s₀.Logged (s.checkExpired env) := by
  unfold CacheMgr.checkExpired
  split
  · exact freeFlushedLoop _ (expireItems (h.of_eq rfl rfl))
  · exact h

theorem createWatch {x : Nat} (h : s₀.Logged s) : s₀.Logged (s.createWatch g x).2 := by
  unfold CacheMgr.createWatch
  dsimp only
  split
  · exact h.of_call (.createWatch g) rfl rfl
  · exact h.of_eq rfl rfl

theorem checkWatchAndSetCallback {sp : Sink} {ack x : Nat} (h : s₀.Logged s) :
    s₀.Logged (s.checkWatchAndSetCallback sp g w ack x).2 := by
  unfold CacheMgr.checkWatchAndSetCallback
  split
  · exact h.of_call (.checkWatch g) rfl rfl
  · exact h.stat _

theorem checkWatchAndClearCallback {sp : Sink} (h : s₀.Logged s) :
    s₀.Logged (s.checkWatchAndClearCallback sp w).2 := by
  unfold CacheMgr.checkWatchAndClearCallback
  split
  · exact h.of_eq rfl rfl
  · exact h

end CacheMgr.Logged

/-- Every operation appends to the calls and leaves the class table. -/
theorem logged_exec (env : Env) (s : CacheMgr) (op : Op) : s.Logged (s.exec env op).2 := by
  have h : s.Logged s := .refl
  cases op with
  | alloc => exact h.doAlloc
  | fill => exact h.of_eq rfl rfl
  | get => exact h.get
  | getTouch => exact h.getTouch
  | updateFlags => exact h.updateFlags
  | updateExpiration => exact h.updateExpiration
  | update => exact h.update
  | loadFromFileLink => exact h.loadFromFileLink
  | remove => exact h.remove
  | delta => exact h.delta
  | flush g =>
    have hflush : s.Logged (s.flush env g).2 := h.flush
    simp only [CacheMgr.exec, Prod.map_snd, id_eq]
    exact hflush
  | checkExpired => exact h.checkExpired
  | releaseReference => exact h.doReleaseReference
  | createWatch => exact h.createWatch
  | checkWatchAndSetCallback => exact h.checkWatchAndSetCallback
  | checkWatchAndClearCallback => exact h.checkWatchAndClearCallback
  | setCurrentTime => exact h.of_eq rfl rfl
  | connections => exact h.of_eq rfl rfl

end Xixi
