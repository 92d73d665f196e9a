import Xixi.Lib.Compose
import Xixi.Peer.Discipline
import Xixi.Peer.References
import Xixi.Structure

/-!
# The server

One manager, any number of connections, and the thread that keeps the time and sweeps. A connection
may be interrupted between any two of its calls, so a step is one call, one reference that is given
back, or one deed of the thread.

1. `Server.Step`: the steps. What a connection does is one of its runs, up to some call.
2. `Shared x H`: what the connections have in their hands is what the manager has given out, and an
   item in preparation is in the hands of one connection only.
3. `server_of_run`: after every run the store is structured and what a connection refers to has not
   been reused; every operation was permitted when its turn came.
-/

namespace Xixi
open Lib PeerCache

/-- What happens for no connection. -/
inductive House
  | setCurrentTime (tt : Nat)
  | checkExpired
  | connections (alive : Sink → Bool)

def House.op : House → Op
  | .setCurrentTime tt => .setCurrentTime tt
  | .checkExpired => .checkExpired
  | .connections alive => .connections alive

namespace PeerCache

def Call.outcome : (k : Call) → k.Ret → Outcome
  | .get .., r => .get r
  | .getTouch .., r => .item r
  | .updateFlags .., r | .updateExpiration .., r => .base r
  | .allocItem .., r => .alloc r
  | .update .., r => .update r
  | .remove .., r => .remove r
  | .delta .., r => .delta r
  | .flush .., r => .flush r
  | .createWatch .., r => .watchId r
  | .checkWatchAndSetCallback .., r | .checkWatchAndClearCallback .., r => .check r
  | .fill .., _ | .itemSizeOk .., _ | .stats .., _ | .login .., _ => .done

/-- The operation of the peer `sp`, when `malloc` does this. `item_size_ok`, the statistics and the
authentication are not operations on the store. -/
def Call.op (sp : Sink) (o : Malloc) : Call → Option Op
  | .get g k w b => some (.get g k w b)
  | .getTouch g k w x => some (.getTouch g k w x)
  | .updateFlags g k id fl => some (.updateFlags g k id fl)
  | .updateExpiration g k id x => some (.updateExpiration g k id x)
  | .allocItem g kl fl x ds es => some (.alloc o g kl fl x ds es)
  | .fill p c => some (.fill p c)
  | .update verb p w => some (.update verb o p w)
  | .remove g k id => some (.remove g k id)
  | .delta g k incr d id => some (.delta o g k incr d id)
  | .flush g => some (.flush g)
  | .createWatch g x => some (.createWatch g x)
  | .checkWatchAndSetCallback g w a x => some (.checkWatchAndSetCallback sp g w a x)
  | .checkWatchAndClearCallback w => some (.checkWatchAndClearCallback sp w)
  | .itemSizeOk .. | .stats .. | .login .. => none

namespace Deed

def op (sp : Sink) (o : Malloc) : Deed → Option Op
  | .call k _ => k.op sp o
  | .release p => some (.releaseReference p)

def outcome : Deed → Outcome
  | .call k ret => k.outcome ret
  | .release _ => .done

/-- What becomes of the references. -/
def out : Deed → (Ptr → Nat) → Ptr → Nat
  | .call k ret, held => bumpOpt held (k.item ret)
  | .release p, held => drop held p

/-- How far an item in preparation gets. -/
def effect : Deed → Option (Ptr × Stage)
  | .call (.allocItem ..) r => (show Option Ptr from r).map fun p => (p, .allocated)
  | .call (.fill p _) _ => some (p, .filled)
  | .call (.update _ p _) _ => some (p, .passed)
  | .release p => some (p, .passed)
  | _ => none

end Deed
end PeerCache

namespace Server

/-- A deed of the peer `sp`. -/
inductive Does (env : Env) (x : Sys) (sp : Sink) : Deed → Sys → Prop
  | op {d : Deed} {op : Op} {y : Sys} (o : Malloc) (hop : d.op sp o = some op)
      (hexec : x.exec env op = (d.outcome, y)) : Does env x sp d y
  | itemSizeOk {kl ds es : Nat} :
      Does env x sp (.call (.itemSizeOk kl ds es) (x.mgr.itemSizeOk env kl ds es).1)
        { x with mgr := (x.mgr.itemSizeOk env kl ds es).2 }
  | stats {op cl g : Nat} {result : Bytes} (calls : List StatCall) :
      Does env x sp (.call (.stats op cl g) result) { x with mgr := { x.mgr with stats := calls } }
  | login {base64 : Bytes} : Does env x sp (.call (.login base64) ()) x

def Step (env : Env) (x : Sys) : (Sink × Deed) ⊕ House → Sys → Prop
  | .inl (sp, d), y => Does env x sp d y
  | .inr h, y => (x.exec env h.op).2 = y

/-- These are the deeds of a connection, up to some call: there is a manager, and there are bytes and
a socket, with which it does so. -/
def Speaks (ds : List Deed) : Prop :=
  ∃ (β : Type) (B : Backend β) (b : β) (data socket : Bytes)
    (t : List (Conn (β × List Deed) × PeerCache.Action)) (c : Conn (β × List Deed)),
    Run (Conn.Step B.recorded) (.start (b, []) data socket) t c ∧ ds <+: c.mgr.2

/-- `owned` has an entry for every reference that somebody holds. -/
structure Ledger (held : Ptr → Nat) (out : Sink → Ptr → Nat) (owned : List (Sink × Ptr)) :
    Prop where
  held : ∀ p, held p = owned.countP fun z => z.2 = p
  out : ∀ i p, out i p = owned.count (i, p)

/-- What the peers have in their hands. -/
structure Shared (env : Env) (x : Sys) (H : Sink → Hands) : Prop where
  sys : ∃ lost, SysInv env lost x
  owned : ∃ owned, Ledger x.out (fun i => (H i).out) owned
  stage : ∀ i p, (H i).stage p ≠ .passed → x.stage p = (H i).stage p
  alone : ∀ i p, (H i).stage p ≠ .passed → ∀ j ≠ i, (H j).out p = 0
  has : ∀ i p, (H i).stage p ≠ .passed → 0 < (H i).out p

end Server

variable {env : Env} {x y : Sys} {H : Sink → Hands} {i j : Sink} {d : Deed} {o : Malloc} {op : Op}
  {p q : Ptr} {h : Hands}

namespace ServerLemmas
open Server

/-! ### Deeds and operations -/

theorem speaks_disciplined {ds : List Deed} (h : Speaks ds) : Disciplined ds := by
  obtain ⟨β, B, b, data, socket, t, c, hrun, rest, hds⟩ := h
  have hd := (Conn.behaves_of_run B hrun).1
  rw [Disciplined, ← hds] at hd
  exact (admitted_append.mp hd).1

theorem stage_after (h : Hands) (d : Deed) :
    (h.after d).stage = d.effect.elim h.stage fun e => Function.update h.stage e.1 e.2 := by
  cases d with
  | release p => rfl
  | call k ret =>
    cases k with
    | allocItem =>
      obtain _ | p := (show Option Ptr from ret)
      · rfl
      · rfl
    | _ => rfl

theorem nextStage_op (hop : d.op i o = some op) (stage : Ptr → Stage) :
    Sys.nextStage stage op d.outcome =
      d.effect.elim stage fun e => Function.update stage e.1 e.2 := by
  cases d with
  | release p =>
    cases hop
    rfl
  | call k ret =>
    cases k with
    | allocItem =>
      cases hop
      obtain _ | p := (show Option Ptr from ret)
      · rfl
      · rfl
    | itemSizeOk | stats | login => cases hop
    | _ =>
      cases hop
      rfl

theorem out_after (h : Hands) (d : Deed) : (h.after d).out = d.out h.out := by
  cases d <;> rfl

theorem out_op (hop : d.op i o = some op) (out : Ptr → Nat) :
    bumpOpt (dropOpt out op.consumed) d.outcome.handed = d.out out := by
  cases d with
  | release p =>
    cases hop
    rfl
  | call k ret =>
    cases k with
    | itemSizeOk | stats | login => cases hop
    | _ =>
      cases hop
      rfl

/-- An item in preparation is in the hands of whoever prepares it. -/
theorem has_after (hown : ∀ p, h.stage p ≠ .passed → 0 < h.out p) (hok : h.Allows d)
    (hp : (h.after d).stage p ≠ .passed) : 0 < (h.after d).out p := by
  rw [stage_after] at hp
  rw [out_after]
  have hbump (o : Option Ptr) : h.out p ≤ bumpOpt h.out o p := SystemLemmas.le_bumpOpt h.out o p
  cases d with
  | release q =>
    have hne : p ≠ q := fun he => hp (by rw [he]; exact Function.update_self ..)
    have hstage : h.stage p ≠ .passed := fun hx => hp ((Function.update_of_ne hne ..).trans hx)
    show 0 < drop h.out q p
    rw [drop, Function.update_of_ne hne]
    exact hown p hstage
  | call k ret =>
    show 0 < bumpOpt h.out (k.item ret) p
    cases k with
    | allocItem =>
      obtain ⟨_ | q, rfl⟩ : ∃ r : Option Ptr, r = ret := ⟨ret, rfl⟩
      · exact hown p hp
      · rcases eq_or_ne p q with rfl | hne
        · show 0 < bump h.out p p
          rw [bump, Function.update_self]
          exact Nat.succ_pos _
        · have hstage : h.stage p ≠ .passed := fun hx => hp ((Function.update_of_ne hne ..).trans hx)
          exact Nat.lt_of_lt_of_le (hown p hstage) (hbump (some q))
    | fill q =>
      rcases eq_or_ne p q with rfl | hne
      · exact hown p hok
      · exact hown p fun hx => hp ((Function.update_of_ne hne ..).trans hx)
    | update verb q =>
      have hne : p ≠ q := fun he => hp (by rw [he]; exact Function.update_self ..)
      exact hown p fun hx => hp ((Function.update_of_ne hne ..).trans hx)
    | _ => exact Nat.lt_of_lt_of_le (hown p hp) (hbump _)

/-! ### Permitted operations -/

theorem out_le (hs : Shared env x H) (i : Sink) (p : Ptr) : (H i).out p ≤ x.out p := by
  obtain ⟨owned, h⟩ := hs.owned
  rw [h.held, h.out]
  refine List.countP_mono_left fun z _ hz => ?_
  rw [beq_iff_eq.mp hz]
  exact decide_eq_true rfl

theorem permitted_of_allows (hs : Shared env x H) (hok : (H i).Allows d)
    (hop : d.op i o = some op) : x.Permitted op := by
  cases d with
  | release p =>
    cases hop
    exact Nat.lt_of_lt_of_le hok (out_le hs i p)
  | call k ret =>
    cases k with
    | allocItem | delta =>
      cases hop
      exact hok
    | fill p =>
      cases hop
      exact (hs.stage i p hok).trans_ne hok
    | update verb p =>
      cases hop
      have hfilled : (H i).stage p = .filled := hok
      have hx := hs.stage i p (by rw [hfilled]; rintro ⟨⟩)
      exact hx.trans hfilled
    | itemSizeOk | stats | login => cases hop
    | _ =>
      cases hop
      exact trivial

/-- An item that is allocated was in nobody's hands. -/
theorem out_of_alloc {lost : Ptr → Nat} {g kl fl et ds es : Nat} (hx : SysInv env lost x)
    (hr : (x.exec env (.alloc o g kl fl et ds es)).1 = .alloc (some p)) : x.out p = 0 := by
  obtain ⟨L, hL⟩ := hx.inv
  rcases hd : x.mgr.doAlloc env o g kl fl (CacheMgr.realtime x.mgr.currTime et) ds es with ⟨r, s'⟩
  have hexec : (x.exec env (.alloc o g kl fl et ds es)).1 = .alloc r := by
    show ((x.mgr.doAlloc env o g kl fl (CacheMgr.realtime x.mgr.currTime et) ds es).map
      Outcome.alloc id).1 = _
    rw [hd]
    rfl
  obtain rfl : r = some p := Outcome.alloc.inj (hexec.symm.trans hr)
  have hidle := (hL.doAlloc_some hd).idle
  have hcount := hL.refCount p
  rw [hidle] at hcount
  exact (Nat.add_eq_zero_iff.mp (Nat.add_eq_zero_iff.mp hcount.symm).2).1

/-- An item that a lookup returns has been passed on. -/
theorem stage_of_found {lost : Ptr → Nat} {k : Key} {e : Entry} (hx : SysInv env lost x)
    (he : (abs env x.mgr).entry k = some e) : x.stage e.ptr = .passed := by
  by_contra hp
  exact (hx.prepared e.ptr hp).absent k e he rfl

theorem found_of_get {st st' : Store} {k : Key} {w t : Nat} {reason : Reason}
    (h : st.get k w = ((some (p, t), reason), st')) : ∃ e, st.entry k = some e ∧ e.ptr = p := by
  unfold Store.get at h
  split at h
  · cases h
  next e he =>
    split at h
    · split at h
      · cases h
        exact ⟨e, he, rfl⟩
      · cases h
    · cases h

theorem found_of_getTouch {st st' : Store} {k : Key} {w t : Nat} {reason : Reason}
    (h : st.getTouch k w t = ((some p, reason), st')) : ∃ e, st.entry k = some e ∧ e.ptr = p := by
  unfold Store.getTouch at h
  split at h
  · cases h
  next e he =>
    split at h
    · cases h
      exact ⟨e, he, rfl⟩
    · cases h

/-- What a call hands out was not in preparation, unless it is what the call begins to prepare. -/
theorem stage_of_handed {lost : Ptr → Nat} {k : Call} {ret : k.Ret} (hx : SysInv env lost x)
    (hroom : Room env (total x.out lost)) (hop : k.op i o = some op)
    (hexec : (x.exec env op).1 = k.outcome ret) (hp : k.item ret = some p) :
    x.out p = 0 ∨ x.stage p = .passed := by
  cases k with
  | allocItem =>
    cases hop
    obtain rfl : ret = some p := hp
    exact .inl (out_of_alloc hx hexec)
  | get g key w b =>
    cases hop
    obtain ⟨a, hsim, -⟩ := hx.step hroom (show x.Permitted (.get g key w b) from trivial)
    obtain ⟨⟨_ | ⟨q, t⟩, reason⟩, rfl⟩ : ∃ r : Option (Ptr × Nat) × Reason, r = ret := ⟨ret, rfl⟩
    · cases hp
    obtain rfl : q = p := Option.some.inj hp
    have hact := congrArg Prod.fst hsim.act
    cases hsim.acts
    have hget : ((abs env x.mgr).get (g, key) w).1 = (some (q, t), reason) :=
      Outcome.get.inj (hact.trans hexec)
    obtain ⟨e, he, rfl⟩ := found_of_get (Prod.ext hget rfl)
    exact .inr (stage_of_found hx he)
  | getTouch g key w t =>
    cases hop
    obtain ⟨a, hsim, -⟩ := hx.step hroom
      (show x.Permitted (.getTouch g key w t) from trivial)
    obtain ⟨⟨_ | q, reason⟩, rfl⟩ : ∃ r : Option Ptr × Reason, r = ret := ⟨ret, rfl⟩
    · cases hp
    obtain rfl : q = p := Option.some.inj hp
    have hact := congrArg Prod.fst hsim.act
    cases hsim.acts
    have hget : ((abs env x.mgr).getTouch (g, key) w (CacheMgr.realtime x.mgr.currTime t)).1 =
        (some q, reason) := Outcome.item.inj (hact.trans hexec)
    obtain ⟨e, he, rfl⟩ := found_of_getTouch (Prod.ext hget rfl)
    exact .inr (stage_of_found hx he)
  | _ => cases hp

/-- Nobody else prepares an item that is handed out. -/
theorem handed_alone (hs : Shared env x H) (h : x.out p = 0 ∨ x.stage p = .passed) (j : Sink) :
    (H j).stage p = .passed := by
  by_contra hj
  rcases h with h | h
  · exact absurd (hs.has j p hj) (Nat.not_lt_of_le ((out_le hs j p).trans h.le))
  · exact hj ((hs.stage j p hj).symm.trans h)

/-- Nobody else prepares an item whose preparation goes on or ends. -/
theorem effect_alone (hs : Shared env x H) (hok : (H i).Allows d)
    (hnew : ∀ k ret, d = .call k ret → k.item ret = some p → x.out p = 0 ∨ x.stage p = .passed)
    {st : Stage} (he : d.effect = some (p, st)) (hj : j ≠ i) :
    (H j).stage p = .passed := by
  -- what `i` has in its hands, no other prepares
  have hmine (hpos : 0 < (H i).out p) : (H j).stage p = .passed := by
    by_contra hother
    exact absurd (hs.alone j p hother i hj.symm) (Nat.ne_of_gt hpos)
  cases d with
  | release q =>
    cases he
    exact hmine hok
  | call k ret =>
    cases k with
    | allocItem g kl fl t ds es =>
      obtain ⟨_ | q, rfl⟩ : ∃ r : Option Ptr, r = ret := ⟨ret, rfl⟩
      · cases he
      · cases he
        exact handed_alone hs (hnew _ _ rfl rfl) j
    | fill q =>
      cases he
      exact hmine (hs.has i p hok)
    | update verb q =>
      cases he
      have hfilled : (H i).stage p = .filled := hok
      exact hmine (hs.has i p (by rw [hfilled]; rintro ⟨⟩))
    | _ => cases he

/-- An item that is being prepared now is in no other hands. -/
theorem effect_out (hs : Shared env x H) (hok : (H i).Allows d)
    (hnew : ∀ g kl fl t ds es, d = .call (.allocItem g kl fl t ds es) (some p) → x.out p = 0)
    {st : Stage} (he : d.effect = some (p, st)) (hst : st ≠ .passed) (hj : j ≠ i) :
    (H j).out p = 0 := by
  cases d with
  | release q =>
    cases he
    exact absurd rfl hst
  | call k ret =>
    cases k with
    | allocItem g kl fl t ds es =>
      obtain ⟨_ | q, rfl⟩ : ∃ r : Option Ptr, r = ret := ⟨ret, rfl⟩
      · cases he
      · cases he
        exact Nat.le_zero.mp ((out_le hs j p).trans (hnew _ _ _ _ _ _ rfl).le)
    | fill q =>
      cases he
      exact hs.alone i p hok j hj
    | update verb q =>
      cases he
      exact absurd rfl hst
    | _ => cases he

/-! ### Who holds what -/

section Ledger

variable {held : Ptr → Nat} {out : Sink → Ptr → Nat} {owned : List (Sink × Ptr)}

theorem count_pair_cons (h : (j, p) ≠ (i, q)) :
    ((i, q) :: owned).count (j, p) = owned.count (j, p) :=
  List.count_cons_of_ne h.symm

theorem ledger_bump (h : Ledger held out owned) (i : Sink) (q : Ptr) :
    Ledger (bump held q) (Function.update out i (bump (out i) q)) ((i, q) :: owned) := by
  refine ⟨fun p => ?_, fun j p => ?_⟩
  · rw [List.countP_cons, bump]
    rcases eq_or_ne p q with rfl | hne
    · rw [Function.update_self, h.held, if_pos (decide_eq_true rfl)]
    · rw [Function.update_of_ne hne, h.held, if_neg (by simpa using hne.symm), Nat.add_zero]
  · rcases eq_or_ne j i with rfl | hj
    · rw [Function.update_self, bump]
      rcases eq_or_ne p q with rfl | hne
      · rw [Function.update_self, List.count_cons_self, h.out]
      · rw [Function.update_of_ne hne, h.out, count_pair_cons fun he => hne (congrArg Prod.snd he)]
    · rw [Function.update_of_ne hj, h.out, count_pair_cons fun he => hj (congrArg Prod.fst he)]

theorem ledger_drop (h : Ledger held out owned) (hpos : 0 < out i q) :
    Ledger (drop held q) (Function.update out i (drop (out i) q)) (owned.erase (i, q)) := by
  have hmem : (i, q) ∈ owned := by
    rw [← List.count_pos_iff, ← h.out]
    exact hpos
  have hperm := List.perm_cons_erase hmem
  refine ⟨fun p => ?_, fun j p => ?_⟩
  · have hp := h.held p
    rw [hperm.countP_eq, List.countP_cons] at hp
    rw [drop]
    rcases eq_or_ne p q with rfl | hne
    · rw [if_pos (decide_eq_true rfl)] at hp
      rw [Function.update_self, hp, Nat.add_sub_cancel]
    · rw [if_neg (by simpa using hne.symm), Nat.add_zero] at hp
      rw [Function.update_of_ne hne, hp]
  · have hp := h.out j p
    rw [hperm.count_eq] at hp
    rcases eq_or_ne j i with rfl | hj
    · rw [Function.update_self, drop]
      rcases eq_or_ne p q with rfl | hne
      · rw [List.count_cons_self] at hp
        rw [Function.update_self, hp, Nat.add_sub_cancel]
      · rw [count_pair_cons fun he => hne (congrArg Prod.snd he)] at hp
        rw [Function.update_of_ne hne, hp]
    · rw [count_pair_cons fun he => hj (congrArg Prod.fst he)] at hp
      rw [Function.update_of_ne hj, hp]

/-- The references of everybody, after a deed of `i`. -/
theorem ledger_after (h : Ledger held (fun j => (H j).out) owned) (hok : (H i).Allows d) :
    ∃ owned', Ledger (d.out held) (fun j => (Function.update H i ((H i).after d) j).out) owned' := by
  have hout : (fun j => (Function.update H i ((H i).after d) j).out) =
      Function.update (fun j => (H j).out) i (d.out (H i).out) := by
    funext j
    rcases eq_or_ne j i with rfl | hj
    · rw [Function.update_self, Function.update_self, out_after]
    · rw [Function.update_of_ne hj, Function.update_of_ne hj]
  rw [hout]
  cases d with
  | release q => exact ⟨_, ledger_drop h hok⟩
  | call k ret =>
    show ∃ owned', Ledger (bumpOpt held (k.item ret)) (Function.update (fun j => (H j).out) i
      (bumpOpt (H i).out (k.item ret))) owned'
    cases k.item ret with
    | none => exact ⟨owned, by rwa [show bumpOpt (H i).out none = (H i).out from rfl,
        Function.update_eq_self i fun j => (H j).out]⟩
    | some q => exact ⟨_, ledger_bump h i q⟩

end Ledger

/-! ### The steps -/

theorem out_exec {r : Outcome} (h : x.exec env op = (r, y)) :
    y.out = bumpOpt (dropOpt x.out op.consumed) r.handed := by
  cases h
  rfl

theorem stage_exec {r : Outcome} (h : x.exec env op = (r, y)) :
    y.stage = Sys.nextStage x.stage op r := by
  cases h
  rfl

/-- A deed that is an operation. -/
theorem shared_op (hs : Shared env x H) (hroom : x.Roomy env) (hok : (H i).Allows d)
    (hop : d.op i o = some op) (hexec : x.exec env op = (d.outcome, y)) :
    Shared env y (Function.update H i ((H i).after d)) := by
  have hperm := permitted_of_allows hs hok hop
  obtain ⟨lost, hx⟩ := hs.sys
  have hroom' := room_of_roomy hx hroom
  have hnew : ∀ p k ret, d = .call k ret → k.item ret = some p → x.out p = 0 ∨ x.stage p = .passed :=
    fun p k ret hd hp => by
      cases hd
      exact stage_of_handed hx hroom' hop (congrArg Prod.fst hexec) hp
  have hfresh : ∀ p g kl fl t ds es, d = .call (.allocItem g kl fl t ds es) (some p) → x.out p = 0 :=
    fun p g kl fl t ds es hd => by
      cases hd
      cases hop
      exact out_of_alloc hx (congrArg Prod.fst hexec)
  have hout : y.out = d.out x.out := (out_exec hexec).trans (out_op hop x.out)
  have hstage := (stage_exec hexec).trans (nextStage_op hop x.stage)
  -- `i` gets at most what nobody else prepares
  have hothers : ∀ p, ∀ j ≠ i, (H j).stage p ≠ .passed → d.out (H i).out p = 0 := by
    intro p j hj hp
    have hnone := hs.alone j p hp i hj.symm
    cases d with
    | release q =>
      show drop (H i).out q p = 0
      refine Nat.le_zero.mp (le_trans ?_ hnone.le)
      rw [drop]
      rcases eq_or_ne p q with rfl | hne
      · rw [Function.update_self]
        exact Nat.sub_le _ _
      · rw [Function.update_of_ne hne]
    | call k ret =>
      show bumpOpt (H i).out (k.item ret) p = 0
      cases hitem : k.item ret with
      | none => exact hnone
      | some q =>
        rcases eq_or_ne p q with rfl | hne
        · exact absurd (handed_alone hs (hnew p k ret rfl hitem) j) hp
        · exact (Function.update_of_ne hne ..).trans hnone
  refine ⟨?_, ?_, fun j p hp => ?_, fun j p hp k hk => ?_, fun j p hp => ?_⟩
  · obtain ⟨a, -, hy⟩ := hx.step hroom' hperm
    rw [hexec] at hy
    exact ⟨_, hy⟩
  · obtain ⟨owned, hledger⟩ := hs.owned
    rw [hout]
    exact ledger_after hledger hok
  · rw [hstage]
    rcases eq_or_ne j i with rfl | hj
    · rw [Function.update_self, stage_after] at hp ⊢
      cases he : d.effect with
      | none =>
        rw [he] at hp
        exact hs.stage j p hp
      | some e =>
        rw [he] at hp
        show Function.update x.stage e.1 e.2 p = Function.update (H j).stage e.1 e.2 p
        rcases eq_or_ne p e.1 with rfl | hne
        · rw [Function.update_self, Function.update_self]
        · rw [Function.update_of_ne hne, Function.update_of_ne hne]
          exact hs.stage j p fun hx => hp ((Function.update_of_ne hne ..).trans hx)
    · rw [Function.update_of_ne hj] at hp ⊢
      cases he : d.effect with
      | none => exact hs.stage j p hp
      | some e =>
        show Function.update x.stage e.1 e.2 p = (H j).stage p
        rcases eq_or_ne p e.1 with rfl | hne
        · exact absurd (effect_alone hs hok (fun k ret => hnew e.1 k ret) he hj) hp
        · rw [Function.update_of_ne hne]
          exact hs.stage j p hp
  · rcases eq_or_ne j i with rfl | hj
    · rw [Function.update_self, stage_after] at hp
      rw [Function.update_of_ne hk]
      cases he : d.effect with
      | none =>
        rw [he] at hp
        exact hs.alone j p hp k hk
      | some e =>
        rw [he] at hp
        rcases eq_or_ne p e.1 with rfl | hne
        · have hst : e.2 ≠ .passed := fun hx => hp ((Function.update_self ..).trans hx)
          exact effect_out hs hok (hfresh e.1) he hst hk
        · exact hs.alone j p (fun hx => hp ((Function.update_of_ne hne ..).trans hx)) k hk
    · rw [Function.update_of_ne hj] at hp
      rcases eq_or_ne k i with rfl | hki
      · rw [Function.update_self, out_after]
        exact hothers p j hj hp
      · rw [Function.update_of_ne hki]
        exact hs.alone j p hp k hk
  · rcases eq_or_ne j i with rfl | hj
    · rw [Function.update_self] at hp ⊢
      exact has_after (hs.has j) hok hp
    · rw [Function.update_of_ne hj] at hp ⊢
      exact hs.has j p hp

/-- Neither the size class that was found last nor the statistics matter. -/
theorem shared_aside (hs : Shared env x H) (c : Nat) (calls : List StatCall) :
    Shared env { x with mgr := { x.mgr with lastClassId := c, stats := calls } } H := by
  obtain ⟨lost, hx⟩ := hs.sys
  refine ⟨⟨lost, hx.inv, fun p hp => ?_⟩, hs.owned, hs.stage, hs.alone, hs.has⟩
  have hprep := hx.prepared p hp
  exact ⟨hprep.out, hprep.absent, hprep.keyLength, hprep.hash⟩

theorem shared_does (hs : Shared env x H) (hroom : x.Roomy env) (hok : (H i).Allows d)
    (h : Does env x i d y) : Shared env y (Function.update H i ((H i).after d)) := by
  -- a deed that is no operation leaves the hands alone
  have haside {k : Call} {ret : k.Ret} {z : Sys} (hz : Shared env z H) (hk : k.Serves)
      (hret : k.item ret = none) :
      Shared env z (Function.update H i ((H i).after (.call k ret))) := by
    rw [DisciplineLemmas.after_none hk hret, Function.update_eq_self]
    exact hz
  cases h with
  | op o hop hexec => exact shared_op hs hroom hok hop hexec
  | @itemSizeOk kl ds es =>
    obtain ⟨c, hc⟩ := StepLemmas.getClassId_snd x.mgr (CacheMgr.calcItemSize env kl ds es)
    have hmgr : (x.mgr.itemSizeOk env kl ds es).2 = { x.mgr with lastClassId := c } := hc
    rw [hmgr]
    exact haside (shared_aside hs c x.mgr.stats) trivial rfl
  | stats calls => exact haside (shared_aside hs x.mgr.lastClassId calls) trivial rfl
  | login => exact haside hs trivial rfl

theorem shared_house (hs : Shared env x H) (hroom : x.Roomy env) (h : House) :
    Shared env (x.exec env h.op).2 H := by
  obtain ⟨lost, hx⟩ := hs.sys
  have hperm : x.Permitted h.op := by cases h <;> exact trivial
  obtain ⟨a, -, hy⟩ := hx.step (room_of_roomy hx hroom) hperm
  have hout : (x.exec env h.op).2.out = x.out := by cases h <;> rfl
  have hstage : (x.exec env h.op).2.stage = x.stage := by cases h <;> rfl
  exact ⟨⟨_, hy⟩, hout ▸ hs.owned, fun i p hp => hstage ▸ hs.stage i p hp, hs.alone, hs.has⟩

theorem shared_start {lastTime limit itemSizeMax itemSizeMin : Nat} {factor : Rat} :
    Shared env (Sys.start env lastTime limit itemSizeMax itemSizeMin factor)
      fun _ => Hands.empty :=
  ⟨⟨_, sysInv_start⟩, ⟨[], fun _ => rfl, fun _ _ => rfl⟩, fun _ _ hp => absurd rfl hp,
    fun _ _ hp => absurd rfl hp, fun _ _ hp => absurd rfl hp⟩

end ServerLemmas

/-! ## One connection -/

namespace ServerLemmas
open Server

/-- A deed in front of a run. -/
theorem run_cons {sp : Sink} {z : Sys} {ds : List Deed} {t : List (Sys × ((Sink × Deed) ⊕ House))}
    (hd : Does env x sp d y) (hrun : Run (Server.Step env) y t z)
    (hpart : ∀ i, part i t = if i = sp then ds else []) :
    ∃ t', Run (Server.Step env) x t' z ∧ ∀ i, part i t' = if i = sp then d :: ds else [] := by
  have hfirst : Run (Server.Step env) x [(x, .inl (sp, d))] y := .single hd
  refine ⟨_, hfirst.trans hrun, fun i => ?_⟩
  rw [part_append, hpart]
  rcases eq_or_ne i sp with rfl | hi
  · rw [part_self, if_pos rfl, if_pos rfl]
    rfl
  · rw [part_of_ne hi.symm, if_neg hi, if_neg hi]
    rfl

section Connection

variable {sp : Sink} {oracle : Nat → Malloc}
  {stats : CacheMgr → Nat → Nat → Nat → Bytes × CacheMgr} {login : Bytes → CacheMgr → CacheMgr}
  (hstats : ∀ s op cl g, ∃ calls, (stats s op cl g).2 = { s with stats := calls })
  (hlogin : ∀ base64 s, login base64 s = s)
include hstats hlogin

/-- What the manager does for a call is a step of the server. -/
theorem does_of_exec (x : Sys) (n : Nat) (k : Call) :
    ∃ y, Does env x sp (.call k ((cacheMgrBackend env sp oracle stats login).exec (x.mgr, n) k).1) y ∧
      y.mgr = ((cacheMgrBackend env sp oracle stats login).exec (x.mgr, n) k).2.1 := by
  -- a call that is an operation
  have hdo {op : Op} (hop : k.op sp (oracle n) = some op)
      (hret : (x.mgr.exec env op).1 =
        k.outcome ((cacheMgrBackend env sp oracle stats login).exec (x.mgr, n) k).1)
      (hmgr : (x.mgr.exec env op).2 =
        ((cacheMgrBackend env sp oracle stats login).exec (x.mgr, n) k).2.1) :
      ∃ y, Does env x sp
        (.call k ((cacheMgrBackend env sp oracle stats login).exec (x.mgr, n) k).1) y ∧
        y.mgr = ((cacheMgrBackend env sp oracle stats login).exec (x.mgr, n) k).2.1 :=
    ⟨(x.exec env op).2, .op (oracle n) hop (Prod.ext hret rfl), hmgr⟩
  cases k with
  | itemSizeOk kl ds es => exact ⟨_, .itemSizeOk, rfl⟩
  | stats op cl g =>
    obtain ⟨calls, hcalls⟩ := hstats x.mgr op cl g
    exact ⟨_, .stats calls, hcalls.symm⟩
  | login base64 => exact ⟨x, .login, (hlogin base64 x.mgr).symm⟩
  | flush g =>
    -- the loops of `flush` are not to be unfolded
    refine hdo rfl ?_ ?_
    · simp only [cacheMgrBackend, CacheMgr.exec, Call.outcome]
      generalize x.mgr.flush env g = r
      rfl
    · simp only [cacheMgrBackend, CacheMgr.exec]
      generalize x.mgr.flush env g = r
      rfl
  | get | getTouch | updateFlags | updateExpiration | allocItem | fill | update | remove | delta
  | createWatch | checkWatchAndSetCallback | checkWatchAndClearCallback =>
    refine hdo rfl ?_ ?_
    · rfl
    · rfl

/-- What the manager does for a connection is a run of the server. -/
theorem run_of_performs {n : Nat} {ds : List Deed} {b : CacheMgr × Nat}
    (h : (cacheMgrBackend env sp oracle stats login).Performs (x.mgr, n) ds b) :
    ∃ t y, Run (Server.Step env) x t y ∧ y.mgr = b.1 ∧
      ∀ i, part i t = if i = sp then ds else [] := by
  let B := cacheMgrBackend env sp oracle stats login
  induction ds generalizing x n with
  | nil =>
    obtain rfl : b = (x.mgr, n) := h
    exact ⟨[], x, .nil x, rfl, fun i => (ite_self _).symm⟩
  | cons d ds ih =>
    have hstep : ∃ y n', Does env x sp d y ∧ B.Performs (y.mgr, n') ds b := by
      cases d with
      | call k ret =>
        obtain ⟨rfl, hrest⟩ := h
        have hdoes : ∃ y, Does env x sp (.call k (B.exec (x.mgr, n) k).1) y ∧
            y.mgr = (B.exec (x.mgr, n) k).2.1 := does_of_exec hstats hlogin x n k
        obtain ⟨y, hy, hmgr⟩ := hdoes
        refine ⟨y, (B.exec (x.mgr, n) k).2.2, hy, ?_⟩
        rw [hmgr]
        exact hrest
      | release p =>
        refine ⟨(x.exec env (.releaseReference p)).2, n, .op (oracle n) rfl (Prod.ext rfl rfl), ?_⟩
        exact h
    obtain ⟨y, n', hd, hrest⟩ := hstep
    obtain ⟨t, z, hrun, hmgr, hpart⟩ := ih hrest
    obtain ⟨t', hrun', hpart'⟩ := run_cons hd hrun hpart
    exact ⟨t', z, hrun', hmgr, hpart'⟩

end Connection
end ServerLemmas

open Server ServerLemmas

/-- **The server.** Whatever the connections are sent, however their calls interleave and whatever
the clock and the sweep do in between: each operation was permitted when its turn came, the store is
structured, and an item that a connection holds is in use. -/
theorem server_of_run {lastTime limit itemSizeMax itemSizeMin : Nat} {factor : Rat}
    {t : List (Sys × ((Sink × Deed) ⊕ House))}
    (hrun : Run (Server.Step env) (Sys.start env lastTime limit itemSizeMax itemSizeMin factor) t y)
    (hroom : ∀ z ∈ t, z.1.Roomy env) (hspeaks : ∀ i, Speaks (part i t)) :
    (∀ z ∈ t, ∀ i d o op, z.2 = .inl (i, d) → d.op i o = some op → z.1.Permitted op) ∧
      Structured env y.mgr ∧
      ∀ i p, 0 < (known Hands.after .empty t i).out p →
        0 < (y.mgr.item p).refCount ∧ ∀ c, ¬ y.mgr.lists.Mem (.freeCache c) p := by
  have hrun' := hrun.restrict (P := fun (x : Sys) (_ : (Sink × Deed) ⊕ House) => x.Roomy env) hroom
  have hok (i : Sink) : Admitted Hands.Allows Hands.after .empty (part i t) :=
    speaks_disciplined (hspeaks i)
  have hown : ∀ x i d y H, Shared env x H → (H i).Allows d →
      (x.Roomy env ∧ Server.Step env x (.inl (i, d)) y) →
      Shared env y (Function.update H i ((H i).after d)) :=
    fun x i d y H hs hd h => shared_does hs h.1 hd h.2
  have henv : ∀ x h y H, Shared env x H → (x.Roomy env ∧ Server.Step env x (.inr h) y) →
      Shared env y H := by
    rintro x h y H hs ⟨hr, rfl⟩
    exact shared_house hs hr h
  have hend := hrun'.composes hown henv shared_start hok
  obtain ⟨lost, hy⟩ := hend.sys
  obtain ⟨L, hL⟩ := hy.inv
  refine ⟨fun z hz i d o op hl hop => ?_, StructureLemmas.structured_of_core hL, fun i p hp => ?_⟩
  · obtain ⟨H, hs, hallows⟩ := hrun'.composes_before hown henv shared_start hok z hz
    exact permitted_of_allows hs (hallows i d hl) hop
  · have hcount := hL.refCount p
    have hpos : 0 < y.out p := Nat.lt_of_lt_of_le hp (out_le hend i p)
    have hused : 0 < (y.mgr.item p).refCount := by
      rw [hcount]
      exact Nat.lt_of_lt_of_le hpos ((Nat.le_add_right _ _).trans (Nat.le_add_left _ _))
    exact ⟨hused, fun c hm => (hL.used hused).2.1 c ((Lists.mem_iff hL.rep _ p).mp hm)⟩

/-- A manager whose counts do not overflow, as the peer `sp` sees it. -/
def wideBackend (sp : Sink) : Backend (CacheMgr × Nat) :=
  cacheMgrBackend (.colliding .unbounded) sp (fun _ => .zeros) (fun s _ _ _ => ([], s)) fun _ s => s

/-- One connection after the other. -/
theorem run_of_two {x : Sys} {n : Nat} {data socket data' socket' : Bytes}
    {a b : Conn ((CacheMgr × Nat) × List Deed)}
    {u u' : List (Conn ((CacheMgr × Nat) × List Deed) × PeerCache.Action)}
    (ha : Run (Conn.Step (wideBackend 7).recorded) (.start ((x.mgr, n), []) data socket) u a)
    (hb : Run (Conn.Step (wideBackend 8).recorded) (.start (a.mgr.1, []) data' socket') u' b) :
    ∃ t y, Run (Server.Step (.colliding .unbounded)) x t y ∧ y.mgr = b.mgr.1.1 ∧
      part 7 t = a.mgr.2 ∧ part 8 t = b.mgr.2 ∧ ∀ i, Speaks (part i t) := by
  have hstats (s : CacheMgr) (_ _ _ : Nat) : ∃ calls, s = { s with stats := calls } := ⟨s.stats, rfl⟩
  obtain ⟨t, y, ht, hy, hpart⟩ := run_of_performs hstats (fun _ _ => rfl)
    (Conn.behaves_of_run (wideBackend 7) ha).2
  have hperf := (Conn.behaves_of_run (wideBackend 8) hb).2
  have hmgr : a.mgr.1 = (y.mgr, a.mgr.1.2) := Prod.ext hy.symm rfl
  rw [hmgr] at hperf
  obtain ⟨t', z, ht', hz, hpart'⟩ := run_of_performs hstats (fun _ _ => rfl) hperf
  have hparts (i : Sink) : part i (t ++ t') =
      (if i = 7 then a.mgr.2 else []) ++ if i = 8 then b.mgr.2 else [] := by
    rw [part_append, hpart, hpart']
  refine ⟨t ++ t', z, ht.trans ht', hz, (hparts 7).trans (List.append_nil _), hparts 8, fun i => ?_⟩
  rw [hparts]
  rcases eq_or_ne i 7 with rfl | h7
  · rw [if_pos rfl, if_neg (by decide), List.append_nil]
    exact ⟨_, _, _, _, _, _, _, ha, List.prefix_rfl⟩
  · rw [if_neg h7, List.nil_append]
    rcases eq_or_ne i 8 with rfl | h8
    · exact ⟨_, _, _, _, _, _, _, hb, List.prefix_rfl⟩
    · rw [if_neg h8]
      exact ⟨_, _, _, _, _, _, _, hb, List.nil_prefix⟩

/-- `GET` of the key of `setRequest`. -/
def getRequest : PeerCache.Request := ⟨.get 0 0 1, [107], rfl⟩

/-- The first six iterations of a connection through which an entry is set. -/
def setter : Conn ((CacheMgr × Nat) × List Deed) :=
  (List.replicate 6 (.turn 0)).foldl (Conn.next (wideBackend 7).recorded)
    (.start (((Sys.small .unbounded).mgr, 0), []) Conn.setRequest.encode [])

/-- The first five of another one, through which it is got. -/
def getter : Conn ((CacheMgr × Nat) × List Deed) :=
  (List.replicate 5 (.turn 0)).foldl (Conn.next (wideBackend 8).recorded)
    (.start (setter.mgr.1, []) getRequest.encode [])

/-- The item stays in use as long as the second connection holds it. -/
theorem server_of_two :
    getter.cacheItems = [0] ∧ ∃ t y,
      Run (Server.Step (.colliding .unbounded)) (Sys.small .unbounded) t y ∧
      part 7 t = setter.mgr.2 ∧ part 8 t = getter.mgr.2 ∧ y.mgr = getter.mgr.1.1 ∧
      Structured (.colliding .unbounded) y.mgr ∧ 0 < (y.mgr.item 0).refCount := by
  have hset : Admitted (fun (c : Conn ((CacheMgr × Nat) × List Deed)) a => c.Permitted a)
      (Conn.next (wideBackend 7).recorded)
      (.start (((Sys.small .unbounded).mgr, 0), []) Conn.setRequest.encode [])
      (List.replicate 6 (.turn 0)) := by
    decide +kernel
  have hget : Admitted (fun (c : Conn ((CacheMgr × Nat) × List Deed)) a => c.Permitted a)
      (Conn.next (wideBackend 8).recorded) (.start (setter.mgr.1, []) getRequest.encode [])
      (List.replicate 5 (.turn 0)) := by
    decide +kernel
  have hitems : getter.cacheItems = [0] := by decide +kernel
  have hheld : 0 < (getter.mgr.2.foldl Hands.after .empty).out 0 := by decide +kernel
  obtain ⟨t, y, hrun, hmgr, hset', hget', hspeaks⟩ := run_of_two hset.run_trace hget.run_trace
  obtain ⟨-, hstructured, huse⟩ := server_of_run hrun (fun _ _ => .inl rfl) hspeaks
  refine ⟨hitems, t, y, hrun, hset', hget', hmgr, hstructured, (huse 8 0 ?_).1⟩
  rw [known, hget']
  exact hheld

end Xixi
