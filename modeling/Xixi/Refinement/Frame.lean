import Xixi.Refinement.Sweep

/-!
# What the operations leave alone

An item that a caller has allocated and has not passed on yet is not linked, and
no operation on another key or item changes it: the caller may fill it and link it
later, whatever the other threads do in between.

1. `slot_get`, `slot_getTouch`, `slot_updateFlags`, `slot_updateExpiration`,
   `slot_remove`, `slot_delta`: operations on a key.
2. `slot_add`, `slot_set`, `slot_replaceOp`, `slot_append`, `slot_prepend`,
   `slot_loadFromFileLink`: operations on a request item.
-/

namespace Xixi

open Xixi.Lists StepLemmas RefinementLemmas CacheMgr

variable {env : Env} {held : Ptr → Nat} {L : ListId → List Ptr} {s : CacheMgr} {p q : Ptr}
  {k : Key} {o : Malloc}

namespace FrameLemmas

theorem find_ne (hq : (abs env s).Absent q)
    (hf : s.find k.1 k.2 (env.hash32 k.2 k.1) = some p) : q ≠ p := by
  intro he
  refine hq k ((s.item p).entry p) ?_ he.symm
  simp only [abs, hf, Option.map_some]

theorem slot_checkWatchAdd (env : Env) (s : CacheMgr) (w : Nat) (f g : Nat → Nat → Nat → StatCall)
    (m : Nat → Nat → StatCall) (h : q ≠ p) :
    (s.checkWatchAdd env p w f g m).2.slot q = s.slot q := by
  unfold checkWatchAdd
  split
  · split
    · exact slot_modify s (fun it => it.addWatch w) h
    · rfl
  · rfl

theorem slot_checkWatchReplace (env : Env) (s : CacheMgr) (p q r : Ptr) (w : Nat)
    (f g : Nat → Nat → Nat → StatCall) (m : Nat → Nat → StatCall) : (s.checkWatchReplace env p r w f g m).2.slot q = s.slot q := by
  unfold checkWatchReplace
  split
  · split <;> rfl
  · rfl

theorem slot_notifyWatch (env : Env) (s : CacheMgr) (t : NotifyType) (h : q ≠ p) :
    (s.notifyWatch p t).slot q = s.slot q := by
  cases hw : (s.item p).watchItem with
  | none => simp only [notifyWatch, hw]
  | some ws =>
    obtain ⟨s₁, he, hs₁, -⟩ := notifyWatch_spec env hw t
    rw [he, slot_modify _ _ h, hs₁]
    rfl

theorem slot_getCacheId (s : CacheMgr) : s.getCacheId.2.slot q = s.slot q := rfl

end FrameLemmas

open FrameLemmas

/-! ## Operations on a key -/

theorem slot_get (hq : (abs env s).Absent q) (k : Key) (w : Nat) (b : Bool) :
    (s.get env k.1 k.2 w b).2.slot q = s.slot q := by
  unfold CacheMgr.get doGetExpiration
  cases hf : s.find k.1 k.2 (env.hash32 k.2 k.1) with
  | none => rfl
  | some p =>
    have hne := find_ne hq hf
    by_cases h0 : (s.item p).expireTime = 0
    · simp only [h0, if_true]
      split_ifs <;> simp only [slot_stat, slot_release, slot_modify, slot_addReference, ne_eq, hne,
        not_false_eq_true]
    · by_cases hlt : s.currTime < (s.item p).expireTime
      · simp only [h0, hlt, if_true, if_false]
        split_ifs <;> simp only [slot_stat, slot_release, slot_modify, slot_addReference, ne_eq, hne,
          not_false_eq_true]
      · simp only [h0, hlt, if_false, slot_stat, slot_unlink env s _ hne]

theorem slot_getTouch (hq : (abs env s).Absent q) (k : Key) (w x : Nat) :
    (s.getTouch env k.1 k.2 w x).2.slot q = s.slot q := by
  unfold getTouch doGetTouch
  cases hf : s.find k.1 k.2 (env.hash32 k.2 k.1) with
  | none => rfl
  | some p =>
    have hne := find_ne hq hf
    dsimp only
    split_ifs <;> simp only [slot_stat, slot_release, slot_modify, slot_addReference, ne_eq, hne,
      not_false_eq_true]

theorem slot_updateFlags (hq : (abs env s).Absent q) (k : Key) (x fl : Nat) :
    (s.updateFlags env k.1 k.2 x fl).2.slot q = s.slot q := by
  unfold updateFlags doGet
  cases hf : s.find k.1 k.2 (env.hash32 k.2 k.1) with
  | none => rfl
  | some p =>
    have hne := find_ne hq hf
    dsimp only
    split_ifs <;> simp only [slot_stat, slot_release _ _ hne, slot_modify _ _ hne,
      slot_getCacheId, slot_notifyWatch env _ _ hne, slot_addReference _ _ hne]

theorem slot_updateExpiration (hq : (abs env s).Absent q) (k : Key) (x y : Nat) :
    (s.updateExpiration env k.1 k.2 x y).2.slot q = s.slot q := by
  unfold updateExpiration doGet
  cases hf : s.find k.1 k.2 (env.hash32 k.2 k.1) with
  | none => rfl
  | some p =>
    have hne := find_ne hq hf
    dsimp only
    split_ifs <;> simp only [slot_stat, slot_release _ _ hne, slot_modify _ _ hne,
      slot_moveExpire _ _ _ hne, slot_addReference _ _ hne]

theorem slot_removeOp (hq : (abs env s).Absent q) (k : Key) (x : Nat) :
    (s.remove env k.1 k.2 x).2.slot q = s.slot q := by
  unfold CacheMgr.remove doGet
  cases hf : s.find k.1 k.2 (env.hash32 k.2 k.1) with
  | none => rfl
  | some p =>
    have hne := find_ne hq hf
    dsimp only
    split_ifs <;> simp only [slot_stat, slot_release _ _ hne, slot_unlink _ _ _ hne,
      slot_addReference _ _ hne]

theorem slot_delta (h : Core env held L s) (hroom : Room env held) (hq : (abs env s).Absent q)
    (hu : 0 < (s.item q).refCount) (k : Key) (incr : Bool) (d : Int) (x : Nat) :
    (s.delta env o k.1 k.2 incr d x).2.slot q = s.slot q := by
  unfold CacheMgr.delta doGet
  cases hf : s.find k.1 k.2 (env.hash32 k.2 k.1) with
  | none => rfl
  | some p =>
    have hne := find_ne hq hf
    obtain ⟨s₁, hs₁, h₁, -⟩ := take h hroom ((h.find_iff k.1 k.2).mp hf).1
    have hslot : s₁.slot q = s.slot q := hs₁ ▸ slot_addReference env s hne
    have hu₁ : 0 < (s₁.item q).refCount := by
      rw [show s₁.item q = s.item q from congrArg Prod.fst hslot]
      exact hu
    simp only [hs₁]
    by_cases hx : x = 0 ∨ x = (s₁.item p).cacheId
    · rw [if_pos hx]
      generalize formatInt64 (deltaValue (s₁.item p) incr d) = buf
      by_cases hlen : buf.length ≠ (s₁.item p).dataSize
      · rw [if_pos hlen]
        have hal := slot_doAlloc o (s₁.item p).groupId (s₁.item p).keyLength (s₁.item p).flags
          (s₁.item p).expireTime buf.length (s₁.item p).extSize h₁ hu₁
        cases hd : s₁.doAlloc env o (s₁.item p).groupId (s₁.item p).keyLength (s₁.item p).flags
          (s₁.item p).expireTime buf.length (s₁.item p).extSize with
        | mk r s₂ =>
          rw [hd] at hal
          cases r with
          | none =>
            simp only [slot_release _ _ hne]
            exact hal.trans hslot
          | some n =>
            have hqn := (h₁.doAlloc_some hd).idle
            have hnn : q ≠ n := by
              intro he
              rw [← he] at hqn
              omega
            simp only [slot_stat, slot_release _ _ hne, slot_release _ _ hnn,
              slot_replace _ _ _ hne hnn, slot_copyInto _ _ _ _ _ hnn]
            exact hal.trans hslot
      · rw [if_neg hlen]
        simp only [slot_stat, slot_release _ _ hne, slot_modify _ _ hne]
        exact hslot
    · rw [if_neg hx]
      simp only [slot_stat, slot_release _ _ hne]
      exact hslot

/-! ## Operations on a request item -/

namespace FrameLemmas

theorem find_of_ne (hq : (abs env s).Absent q) (hr : Request env held s p) {r : Ptr}
    (hf : s.find (s.item p).groupId (s.item p).key (s.cacheHashMap.hashValue p) = some r) : q ≠ r := by
  rw [hr.hash] at hf
  exact find_ne (k := (s.item p).ident) hq hf

end FrameLemmas

theorem slot_add (hq : (abs env s).Absent q) (hr : Request env held s p) (hne : q ≠ p) (w : Nat) :
    (s.add env o p w).2.slot q = s.slot q := by
  unfold CacheMgr.add doGetOf doGet
  cases hf : s.find (s.item p).groupId (s.item p).key (s.cacheHashMap.hashValue p) with
  | none =>
    have hc := slot_checkWatchAdd env s w .addSuccess .addSuccessWatch .addWatchMiss hne
    dsimp only
    split
    · next s₁ hs₁ =>
      rw [hs₁] at hc
      exact (slot_link env s₁ o hne).trans hc
    · next s₁ hs₁ =>
      rw [hs₁] at hc
      exact hc
  | some r =>
    have hnr := find_of_ne hq hr hf
    simp only [slot_stat, slot_release _ _ hnr, slot_addReference _ _ hnr]

theorem slot_loadFromFileLink (hq : (abs env s).Absent q) (hr : Request env held s p) (hne : q ≠ p)
    (w : Nat) : (s.loadFromFileLink env o p w).2.slot q = s.slot q := by
  unfold CacheMgr.loadFromFileLink doGetOf doGet
  cases hf : s.find (s.item p).groupId (s.item p).key (s.cacheHashMap.hashValue p) with
  | none =>
    have hc := slot_checkWatchAdd env s w .addSuccess .addSuccessWatch .addWatchMiss hne
    dsimp only
    split
    · next s₁ hs₁ =>
      rw [hs₁] at hc
      exact (slot_link env s₁ o hne).trans hc
    · next s₁ hs₁ =>
      rw [hs₁] at hc
      exact (slot_release env s₁ hne).trans hc
  | some r =>
    have hnr := find_of_ne hq hr hf
    simp only [slot_release _ _ hne, slot_addReference _ _ hnr]

namespace FrameLemmas

/-- The end of `set` and of `replace`. -/
theorem slot_replaced {s₁ : CacheMgr} {r : Ptr} {f g : Nat → Nat → Nat → StatCall}
    {m : Nat → Nat → StatCall} {t : Ptr} {w : Nat} (hne : q ≠ p) (hnr : q ≠ r) :
    (match s₁.checkWatchReplace env p t w f g m with
      | (true, s) =>
        let s := s.doReplace env o r p
        let s := s.addWatchIf p w
        ((Reason.success, some (s.item p).cacheId), s.doReleaseReference env r)
      | (false, s) => ((.watchNotFound, none), s.doReleaseReference env r)).2.slot q =
      s₁.slot q := by
  have hc := slot_checkWatchReplace env s₁ p q t w f g m
  split
  · next s₂ hs₂ =>
    rw [hs₂] at hc
    simp only [slot_release _ _ hnr, slot_addWatchIf _ _ hne, slot_replace _ _ _ hnr hne]
    exact hc
  · next s₂ hs₂ =>
    rw [hs₂] at hc
    simp only [slot_release _ _ hnr]
    exact hc

end FrameLemmas

theorem slot_set (hq : (abs env s).Absent q) (hr : Request env held s p) (hne : q ≠ p) (w : Nat) :
    (s.set env o p w).2.slot q = s.slot q := by
  unfold CacheMgr.set doGetOf doGet
  cases hf : s.find (s.item p).groupId (s.item p).key (s.cacheHashMap.hashValue p) with
  | none =>
    have hc := slot_checkWatchAdd env s w .setSuccess .setSuccessWatch .setWatchMiss hne
    dsimp only
    split
    · next s₁ hs₁ =>
      rw [hs₁] at hc
      exact (slot_link env s₁ o hne).trans hc
    · next s₁ hs₁ =>
      rw [hs₁] at hc
      exact hc
  | some r =>
    have hnr := find_of_ne hq hr hf
    dsimp only
    split
    · exact (slot_replaced hne hnr).trans (slot_addReference env s hnr)
    · simp only [slot_stat, slot_release _ _ hnr, slot_addReference _ _ hnr]

theorem slot_replaceOp (hq : (abs env s).Absent q) (hr : Request env held s p) (hne : q ≠ p)
    (w : Nat) : (s.replace env o p w).2.slot q = s.slot q := by
  unfold CacheMgr.replace doGetOf doGet
  cases hf : s.find (s.item p).groupId (s.item p).key (s.cacheHashMap.hashValue p) with
  | none => rfl
  | some r =>
    have hnr := find_of_ne hq hr hf
    dsimp only
    split
    · exact (slot_replaced hne hnr).trans (slot_addReference env s hnr)
    · simp only [slot_stat, slot_release _ _ hnr, slot_addReference _ _ hnr]

namespace FrameLemmas

theorem slot_addWatchIf_congr {s s' : CacheMgr} (h : s'.slot q = s.slot q) (w : Nat) :
    (s'.addWatchIf p w).slot q = (s.addWatchIf p w).slot q := by
  by_cases hq : q = p
  · subst hq
    have hitem : s'.item q = s.item q := congrArg Prod.fst h
    have hhash : s'.cacheHashMap.hashValue q = s.cacheHashMap.hashValue q := congrArg Prod.snd h
    unfold addWatchIf
    split
    · refine Prod.ext ?_ hhash
      simp only [slot, item_modify_self, hitem]
    · exact h
  · rw [slot_addWatchIf _ _ hq, slot_addWatchIf _ _ hq, h]

/-- The part of `append` and of `prepend` from `do_alloc` on: the request item may get the
watch. -/
theorem slot_appended {s₁ : CacheMgr} {r : Ptr} {g kl fl et ds es w : Nat}
    (h₁ : Core env held L s₁) (hu : 0 < (s₁.item q).refCount) (hnr : q ≠ r)
    (first second ext : CacheMgr → Bytes) (fin : CacheMgr → Ptr → CacheMgr)
    (hfin : ∀ s' n, fin s' n = (s'.doReplace env o r n).addWatchIf p w ∨
      fin s' n = (s'.addWatchIf p w).doReplace env o r n)
    {f h : Nat → Nat → Nat → StatCall} {m : Nat → Nat → StatCall} {oom : CacheMgr → StatCall} :
    let s' := (match s₁.doAlloc env o g kl fl et ds es with
      | (some newIt, s) =>
        let s := s.copyInto newIt p (first s) (second s) (ext s)
        match s.checkWatchReplace env p r w f h m with
        | (true, s) =>
          let s := fin s newIt
          let id := (s.item newIt).cacheId
          let s := s.doReleaseReference env newIt
          ((Reason.success, some id), s.doReleaseReference env r)
        | (false, s) =>
          let s := s.doReleaseReference env newIt
          ((.watchNotFound, none), s.doReleaseReference env r)
      | (none, s) => ((.outOfMemory, none), (s.stat (oom s)).doReleaseReference env r)).2
    s'.slot q = s₁.slot q ∨ s'.slot q = (s₁.addWatchIf p w).slot q := by
  have hal := slot_doAlloc o g kl fl et ds es h₁ hu
  cases hd : s₁.doAlloc env o g kl fl et ds es with
  | mk x s₂ =>
    rw [hd] at hal
    cases x with
    | none =>
      simp only [slot_release _ _ hnr, slot_stat]
      exact .inl hal
    | some n =>
      have hidle := (h₁.doAlloc_some hd).idle
      have hnn : q ≠ n := by
        intro he
        rw [← he] at hidle
        omega
      have hc := slot_checkWatchReplace env (s₂.copyInto n p (first s₂) (second s₂) (ext s₂)) p q
        r w f h m
      rw [slot_copyInto _ _ _ _ _ hnn] at hc
      dsimp only
      split
      · next s₃ hs₃ =>
        rw [hs₃] at hc
        simp only [slot_release _ _ hnr, slot_release _ _ hnn]
        refine .inr ?_
        rcases hfin s₃ n with he | he
        · rw [he]
          exact slot_addWatchIf_congr ((slot_replace _ _ _ hnr hnn).trans (hc.trans hal)) w
        · rw [he, slot_replace _ _ _ hnr hnn]
          exact slot_addWatchIf_congr (hc.trans hal) w
      · next s₃ hs₃ =>
        rw [hs₃] at hc
        simp only [slot_release _ _ hnr, slot_release _ _ hnn]
        exact .inl (hc.trans hal)

/-- What comes after `do_get` in `append` and `prepend`. -/
theorem slot_found {s₁ : CacheMgr} {r : Ptr} {w : Nat} {v : CacheItem × Nat}
    (hs₁ : s.addReference env r = s₁) (hnr : q ≠ r)
    (h : v = s₁.slot q ∨ v = (s₁.addWatchIf p w).slot q) :
    v = s.slot q ∨ v = (s.addWatchIf p w).slot q := by
  have hslot : s₁.slot q = s.slot q := hs₁ ▸ slot_addReference env s hnr
  exact h.imp (·.trans hslot) (·.trans (slot_addWatchIf_congr hslot w))

end FrameLemmas

theorem slot_append (h : Core env held L s) (hroom : Room env held) (hq : (abs env s).Absent q)
    (hu : 0 < (s.item q).refCount) (hr : Request env held s p) (w : Nat) :
    (s.append env o p w).2.slot q = s.slot q ∨
      (s.append env o p w).2.slot q = (s.addWatchIf p w).slot q := by
  unfold CacheMgr.append doGetOf doGet
  cases hf : s.find (s.item p).groupId (s.item p).key (s.cacheHashMap.hashValue p) with
  | none => exact .inl rfl
  | some r =>
    have hnr := find_of_ne hq hr hf
    rw [hr.hash] at hf
    obtain ⟨s₁, hs₁, h₁, -⟩ := take h hroom ((h.find_iff _ _).mp hf).1
    have hu₁ : 0 < (s₁.item q).refCount := by
      rw [← hs₁, addReference, item_modify_of_ne s _ hnr]
      exact hu
    simp only [hs₁]
    refine slot_found hs₁ hnr ?_
    split
    · exact .inl rfl
    · exact slot_appended h₁ hu₁ hnr
        (fun s => (s.item r).data) (fun s => (s.item p).data) (fun s => (s.item r).ext)
        (fun s' n => (s'.doReplace env o r n).addWatchIf p w) fun _ _ => .inl rfl

theorem slot_prepend (h : Core env held L s) (hroom : Room env held) (hq : (abs env s).Absent q)
    (hu : 0 < (s.item q).refCount) (hr : Request env held s p) (w : Nat) :
    (s.prepend env o p w).2.slot q = s.slot q ∨
      (s.prepend env o p w).2.slot q = (s.addWatchIf p w).slot q := by
  unfold CacheMgr.prepend doGetOf doGet
  cases hf : s.find (s.item p).groupId (s.item p).key (s.cacheHashMap.hashValue p) with
  | none => exact .inl rfl
  | some r =>
    have hnr := find_of_ne hq hr hf
    rw [hr.hash] at hf
    obtain ⟨s₁, hs₁, h₁, -⟩ := take h hroom ((h.find_iff _ _).mp hf).1
    have hu₁ : 0 < (s₁.item q).refCount := by
      rw [← hs₁, addReference, item_modify_of_ne s _ hnr]
      exact hu
    simp only [hs₁]
    refine slot_found hs₁ hnr ?_
    split
    · exact .inl rfl
    · exact slot_appended h₁ hu₁ hnr
        (fun s => (s.item p).data) (fun s => (s.item r).data) (fun s => (s.item r).ext)
        (fun s' n => (s'.addWatchIf p w).doReplace env o r n) fun _ _ => .inr rfl

end Xixi
