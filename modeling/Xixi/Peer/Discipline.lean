import Xixi.Peer.Connection
import Xixi.Peer.Traffic

/-!
# What a peer does with the manager

The manager relies on its callers: keys are shorter than 65536 bytes, an item is filled before it is
passed on, it is passed on once, and a reference is released by someone who holds it.

1. `Deed`: a call with what it returned, or a reference that is given back.
2. `Hands`: the references a caller holds, and the items it is preparing. `Hands.Allows` is what the
   manager relies on, as far as one caller can tell.
3. `Conn.Deals c c'`: the deeds between two states are allowed, and lead from what the fields of the
   one say about the hands to what the fields of the other say.
4. `behaves_of_run`: the deeds of every connection are allowed, whatever the socket, the timer
   and the manager do.
-/

namespace Xixi.PeerCache
open Lib

inductive Deed
  | call (k : Call) (ret : k.Ret)
  | release (p : Ptr)

/-- The backend with a record of the deeds. -/
def Backend.recorded {β : Type} (B : Backend β) : Backend (β × List Deed) where
  exec s k := ((B.exec s.1 k).1, (B.exec s.1 k).2, s.2 ++ [.call k (B.exec s.1 k).1])
  item s p := B.item s.1 p
  releaseReference s p := (B.releaseReference s.1 p, s.2 ++ [.release p])

/-- From the one state to the other the backend has done this, and has returned what is recorded. -/
def Backend.Performs {β : Type} (B : Backend β) : β → List Deed → β → Prop
  | b, [], b' => b' = b
  | b, .call k ret :: ds, b' => (B.exec b k).1 = ret ∧ B.Performs (B.exec b k).2 ds b'
  | b, .release p :: ds, b' => B.Performs (B.releaseReference b p) ds b'

structure Hands where
  out : Ptr → Nat
  stage : Ptr → Stage

/-- What a call makes of the items in preparation. -/
def Call.nextStage (stage : Ptr → Stage) : (k : Call) → k.Ret → Ptr → Stage
  | .allocItem .., r => (show Option Ptr from r).elim stage fun p =>
      Function.update stage p .allocated
  | .fill p _, _ => Function.update stage p .filled
  | .update _ p _, _ => Function.update stage p .passed
  | .get .., _ | .getTouch .., _ | .updateFlags .., _ | .updateExpiration .., _ | .itemSizeOk .., _
  | .remove .., _ | .delta .., _ | .flush .., _ | .stats .., _ | .createWatch .., _
  | .checkWatchAndSetCallback .., _ | .checkWatchAndClearCallback .., _ | .login .., _ => stage

namespace Hands

def empty : Hands := ⟨fun _ => 0, fun _ => .passed⟩

def after (h : Hands) : Deed → Hands
  | .call k ret => ⟨bumpOpt h.out (k.item ret), k.nextStage h.stage ret⟩
  | .release p => ⟨drop h.out p, Function.update h.stage p .passed⟩

def Allows (h : Hands) : Deed → Prop
  | .call (.allocItem _ keyLength _ _ _ _) _ => keyLength < 2 ^ 16
  | .call (.fill p _) _ => h.stage p ≠ .passed
  | .call (.update _ p _) _ => h.stage p = .filled
  | .call (.delta _ key _ _ _) _ => key.length < 2 ^ 16
  | .release p => 0 < h.out p
  | _ => True

/-- The references of the list, and an item that has been allocated. -/
def holding (l : List Ptr) (o : Option Ptr) : Hands :=
  ⟨fun p => l.count p, fun p => if o = some p then .allocated else .passed⟩

end Hands

/-- The deeds of a caller that starts with empty hands. -/
def Disciplined (ds : List Deed) : Prop := Admitted Hands.Allows Hands.after .empty ds

/-- The calls that neither begin nor end the preparation of an item. -/
def Call.Serves : Call → Prop
  | .allocItem .. | .fill .. | .update .. => False
  | .delta _ key _ _ _ => key.length < 2 ^ 16
  | _ => True

namespace DisciplineLemmas

theorem performs_append {β : Type} {B : Backend β} {b b' b'' : β} {ds ds' : List Deed}
    (h : B.Performs b ds b') (h' : B.Performs b' ds' b'') : B.Performs b (ds ++ ds') b'' := by
  induction ds generalizing b with
  | nil =>
    obtain rfl : b' = b := h
    exact h'
  | cons d ds ih =>
    cases d with
    | call k ret => exact ⟨h.1, ih h.2⟩
    | release p => exact ih (b := B.releaseReference b p) h

variable {h : Hands} {k : Call} {ret : k.Ret} {l : List Ptr} {o : Option Ptr}
  {it p : Ptr}

theorem allows_serves (hk : k.Serves) : h.Allows (.call k ret) := by
  cases k with
  | allocItem | fill | update => cases hk
  | delta => exact hk
  | _ => exact trivial

theorem nextStage_serves (hk : k.Serves) (stage : Ptr → Stage) :
    k.nextStage stage ret = stage := by
  cases k with
  | allocItem | fill | update => cases hk
  | _ => rfl

/-- A call that returns no item leaves the hands alone. -/
theorem after_none (hk : k.Serves) (hret : k.item ret = none) : h.after (.call k ret) = h := by
  show Hands.mk (bumpOpt h.out (k.item ret)) (k.nextStage h.stage ret) = h
  rw [nextStage_serves hk, hret]
  rfl

theorem bump_count (l : List Ptr) (it : Ptr) :
    bump (fun p => l.count p) it = fun p => (l ++ [it]).count p := by
  funext p
  rw [bump, List.count_append, List.count_singleton]
  rcases eq_or_ne p it with rfl | hp
  · rw [Function.update_self, beq_self_eq_true, if_pos rfl]
  · rw [Function.update_of_ne hp, if_neg (by simpa using hp.symm), Nat.add_zero]

theorem drop_count (l : List Ptr) (it : Ptr) :
    drop (fun p => (l ++ [it]).count p) it = fun p => l.count p := by
  funext p
  rw [drop, List.count_append, List.count_singleton, beq_self_eq_true, if_pos rfl,
    Nat.add_sub_cancel]
  rcases eq_or_ne p it with rfl | hp
  · rw [Function.update_self]
  · rw [Function.update_of_ne hp, List.count_append, List.count_singleton,
      if_neg (by simpa using hp.symm), Nat.add_zero]

/-- A call that returns an item. -/
theorem after_some (hk : k.Serves) (hret : k.item ret = some it) :
    (Hands.holding l o).after (.call k ret) = .holding (l ++ [it]) o := by
  have hout : bumpOpt (Hands.holding l o).out (k.item ret) = (Hands.holding (l ++ [it]) o).out := by
    rw [hret]
    exact bump_count l it
  have hstage : k.nextStage (Hands.holding l o).stage ret = (Hands.holding (l ++ [it]) o).stage :=
    nextStage_serves hk _
  rw [Hands.after, hout, hstage]

theorem stage_holding_of_ne (h : ∀ q, o = some q → p ≠ q) :
    (Hands.holding l o).stage p = .passed :=
  if_neg fun ho => h p ho rfl

theorem after_alloc (g kl fl x ds es : Nat) :
    (Hands.holding l none).after (.call (.allocItem g kl fl x ds es) (some it)) =
      .holding (l ++ [it]) (some it) := by
  have hout : bump (Hands.holding l none).out it = (Hands.holding (l ++ [it]) (some it)).out :=
    bump_count l it
  have hstage : Function.update (Hands.holding l none).stage it .allocated =
      (Hands.holding (l ++ [it]) (some it)).stage := by
    funext p
    rcases eq_or_ne p it with rfl | hp
    · rw [Function.update_self]
      exact (if_pos rfl).symm
    · rw [Function.update_of_ne hp, stage_holding_of_ne (fun q hq => by cases hq),
        stage_holding_of_ne fun q hq => Option.some.inj hq ▸ hp]
  show Hands.mk (bump (Hands.holding l none).out it)
    (Function.update (Hands.holding l none).stage it .allocated) = _
  rw [hout, hstage]

/-- The item that has been prepared, passed on or not, is released. -/
theorem after_release (hout : h.out = fun p => (l ++ [it]).count p)
    (hstage : ∀ p ≠ it, h.stage p = .passed) : h.after (.release it) = .holding l none := by
  have hpassed : Function.update h.stage it .passed = (Hands.holding l none).stage := by
    funext p
    rw [stage_holding_of_ne fun q hq => by cases hq]
    rcases eq_or_ne p it with rfl | hp
    · rw [Function.update_self]
    · rw [Function.update_of_ne hp, hstage p hp]
  rw [Hands.after, hpassed, hout, drop_count]
  rfl

end DisciplineLemmas

namespace Conn

/-- The item of the update that is being read. -/
def preparing {β : Type} (c : Conn β) : Option Ptr :=
  if c.state = .readBodyExtras then c.cacheItem else none

/-- What the fields say about the hands. -/
def hands {β : Type} (c : Conn β) : Hands :=
  .holding (c.cacheItems ++ c.preparing.toList) c.preparing

/-- In the middle of an update the item is there. -/
structure Poised {β : Type} (c : Conn β) : Prop where
  next : c.nextState ≠ .readBodyExtras
  item : c.state = .readBodyExtras → c.cacheItem ≠ none
  update : c.state = .readBodyExtras →
    ∃ op id g fl x w kl dl, c.readPdu = some (.update op id g fl x w kl dl)

variable {β : Type} (B : Backend β) (c c' : Conn (β × List Deed))

def Deals : Prop :=
  ∃ ds, c'.mgr.2 = c.mgr.2 ++ ds ∧ B.Performs c.mgr.1 ds c'.mgr.1 ∧
    Admitted Hands.Allows Hands.after c.hands ds ∧ ds.foldl Hands.after c.hands = c'.hands

structure Proceeds : Prop where
  deals : c.Deals B c'
  poised : c'.Poised

namespace DealLemmas
open DisciplineLemmas

variable {B c c'} {c₁ : Conn (β × List Deed)} {it : Ptr} {k : Call} {ret : k.Ret}

/-- `c'` is `c` but for some calls that leave the hands alone. -/
structure Idles (B : Backend β) (c c' : Conn (β × List Deed)) : Prop where
  deals : ∃ ds, c'.mgr.2 = c.mgr.2 ++ ds ∧ B.Performs c.mgr.1 ds c'.mgr.1 ∧
    Admitted Hands.Allows Hands.after c.hands ds ∧ ds.foldl Hands.after c.hands = c.hands
  items : c'.cacheItems = c.cacheItems

theorem preparing_of_not (h : c.state ≠ .readBodyExtras) : c.preparing = none := if_neg h

theorem hands_of_not (h : c.state ≠ .readBodyExtras) : c.hands = .holding c.cacheItems none := by
  rw [hands, preparing_of_not h, Option.toList_none, List.append_nil]

theorem hands_of_extras (h : c.state = .readBodyExtras) (hit : c.cacheItem = some it) :
    c.hands = .holding (c.cacheItems ++ [it]) (some it) := by
  have hprep : c.preparing = some it := (if_pos h).trans hit
  rw [hands, hprep]
  rfl

theorem poised_of_not (hs : c.state ≠ .readBodyExtras) (hn : c.nextState ≠ .readBodyExtras) :
    c.Poised := ⟨hn, fun h => absurd h hs, fun h => absurd h hs⟩

theorem idles_self : Idles B c c := ⟨⟨[], (List.append_nil _).symm, rfl, trivial, rfl⟩, rfl⟩

theorem deeds_call (hcall : c.call B.recorded k = (ret, c₁)) :
    c₁.mgr.2 = c.mgr.2 ++ [.call k ret] ∧ B.Performs c.mgr.1 [.call k ret] c₁.mgr.1 ∧
      c₁.cacheItems = c.cacheItems := by
  cases hcall
  exact ⟨rfl, ⟨rfl, rfl⟩, rfl⟩

theorem rest_call (hcall : c.call B.recorded k = (ret, c₁)) :
    c₁.nextState = c.nextState ∧ c₁.readPdu = c.readPdu := by
  cases hcall
  exact ⟨rfl, rfl⟩

theorem Idles.call (h : Idles B c c₁) (hcall : c₁.call B.recorded k = (ret, c')) (hk : k.Serves)
    (hret : k.item ret = none) : Idles B c c' := by
  obtain ⟨ds, hds, hperf, hok, hafter⟩ := h.deals
  obtain ⟨hdeed, hcalled, hitems⟩ := deeds_call hcall
  refine ⟨⟨ds ++ [.call k ret], ?_, performs_append hperf hcalled, ?_, ?_⟩,
    hitems.trans h.items⟩
  · rw [hdeed, hds, List.append_assoc]
  · exact admitted_append.mpr ⟨hok, allows_serves hk, trivial⟩
  · rw [List.foldl_append, hafter]
    exact after_none hk hret

theorem idles_call (hcall : c.call B.recorded k = (ret, c')) (hk : k.Serves)
    (hret : k.item ret = none) : Idles B c c' := idles_self.call hcall hk hret

/-! ### The kinds of steps -/

section Rest

variable (hs : c.state ≠ .readBodyExtras) (hs' : c'.state ≠ .readBodyExtras)
  (hn' : c'.nextState ≠ .readBodyExtras)
include hs hs' hn'

/-- Some calls, and then something that has to do with the response only. -/
theorem proceeds_idle (h : Idles B c c₁) (hmgr : c'.mgr = c₁.mgr)
    (hitems : c'.cacheItems = c₁.cacheItems) : c.Proceeds B c' := by
  obtain ⟨ds, hds, hperf, hok, hafter⟩ := h.deals
  refine ⟨⟨ds, hmgr ▸ hds, hmgr ▸ hperf, hok, ?_⟩, poised_of_not hs' hn'⟩
  rw [hafter, hands_of_not hs, hands_of_not hs', hitems, h.items]

/-- An item that the response refers to. -/
theorem proceeds_keep (hcall : c.call B.recorded k = (ret, c₁)) (hk : k.Serves)
    (hret : k.item ret = some it) (hmgr : c'.mgr = c₁.mgr)
    (hitems : c'.cacheItems = c₁.cacheItems ++ [it]) : c.Proceeds B c' := by
  obtain ⟨hdeed, hcalled, hsame⟩ := deeds_call hcall
  refine ⟨⟨[.call k ret], hmgr ▸ hdeed, hmgr ▸ hcalled, ⟨allows_serves hk, trivial⟩, ?_⟩,
    poised_of_not hs' hn'⟩
  rw [hands_of_not hs, hands_of_not hs', hitems, hsame]
  exact after_some hk hret

/-- An item that is looked at and released. -/
theorem proceeds_look (hcall : c.call B.recorded k = (ret, c₁)) (hk : k.Serves)
    (hret : k.item ret = some it) (hmgr : c'.mgr = B.recorded.releaseReference c₁.mgr it)
    (hitems : c'.cacheItems = c₁.cacheItems) : c.Proceeds B c' := by
  obtain ⟨hdeed, hcalled, hsame⟩ := deeds_call hcall
  have hheld : c.hands.after (.call k ret) = .holding (c.cacheItems ++ [it]) none := by
    rw [hands_of_not hs]
    exact after_some hk hret
  have hreleased : B.Performs c₁.mgr.1 [.release it] c'.mgr.1 := by
    rw [hmgr]
    rfl
  refine ⟨⟨[.call k ret, .release it], ?_, performs_append hcalled hreleased,
    ⟨allows_serves hk, ?_, trivial⟩, ?_⟩, poised_of_not hs' hn'⟩
  · rw [hmgr]
    show c₁.mgr.2 ++ [.release it] = _
    rw [hdeed, List.append_assoc]
    rfl
  · rw [hheld]
    exact List.count_pos_iff.mpr (List.mem_append_right _ (List.mem_singleton_self it))
  · show (c.hands.after (.call k ret)).after (.release it) = _
    rw [hheld, hands_of_not hs', hitems, hsame]
    exact after_release rfl fun p _ => stage_holding_of_ne fun q hq => by cases hq

end Rest

/-- An item is allocated for an update. -/
theorem proceeds_alloc {g kl fl x ds es : Nat} (hs : c.state ≠ .readBodyExtras)
    (hkl : kl < 2 ^ 16)
    (hcall : c.call B.recorded (.allocItem g kl fl x ds es) = (some it, c₁))
    (hmgr : c'.mgr = c₁.mgr) (hitems : c'.cacheItems = c₁.cacheItems)
    (hitem : c'.cacheItem = some it) (hs' : c'.state = .readBodyExtras)
    (hn' : c'.nextState ≠ .readBodyExtras)
    (hpdu : ∃ op id g fl x w kl dl, c'.readPdu = some (.update op id g fl x w kl dl)) :
    c.Proceeds B c' := by
  obtain ⟨hdeed, hcalled, hsame⟩ := deeds_call hcall
  refine ⟨⟨[.call (.allocItem g kl fl x ds es) (some it)], hmgr ▸ hdeed, hmgr ▸ hcalled,
    ⟨hkl, trivial⟩, ?_⟩, hn', fun _ => ?_, fun _ => hpdu⟩
  · rw [hands_of_not hs, hands_of_extras hs' hitem, hitems, hsame]
    exact after_alloc ..
  · rw [hitem]
    exact Option.some_ne_none it

/-- The item of an update is filled, the operation runs on it or not, and it is released. -/
theorem proceeds_update (hs : c.state = .readBodyExtras) (hit : c.cacheItem = some it)
    {contents : Contents} {ds : List Deed}
    (hds : ds = [] ∨ ∃ verb w ret, ds = [.call (.update verb it w) ret])
    (hmgr : c'.mgr.2 = c.mgr.2 ++ (.call (.fill it contents) () :: (ds ++ [.release it])))
    (hperf : B.Performs c.mgr.1 (.call (.fill it contents) () :: (ds ++ [.release it])) c'.mgr.1)
    (hitems : c'.cacheItems = c.cacheItems) (hs' : c'.state ≠ .readBodyExtras)
    (hn' : c'.nextState ≠ .readBodyExtras) : c.Proceeds B c' := by
  let h₁ : Hands := c.hands.after (.call (.fill it contents) ())
  have hhands := hands_of_extras hs hit
  have hout : h₁.out = fun p => (c.cacheItems ++ [it]).count p := congrArg Hands.out hhands
  have hfilled : h₁.stage it = .filled := Function.update_self ..
  have hpassed : ∀ p ≠ it, h₁.stage p = .passed := fun p hp => by
    refine (Function.update_of_ne hp ..).trans ?_
    rw [hhands]
    exact stage_holding_of_ne fun q hq => Option.some.inj hq ▸ hp
  have hallocated : c.hands.stage it = .allocated := by
    rw [hhands]
    exact if_pos rfl
  have hpos : 0 < h₁.out it := by
    rw [hout]
    exact List.count_pos_iff.mpr (List.mem_append_right _ (List.mem_singleton_self it))
  have hfill : c.hands.Allows (.call (.fill it contents) ()) := by
    show c.hands.stage it ≠ .passed
    rw [hallocated]
    rintro ⟨⟩
  refine ⟨⟨_, hmgr, hperf, ?_, ?_⟩, poised_of_not hs' hn'⟩
  · refine ⟨hfill, ?_⟩
    obtain rfl | ⟨verb, w, ret, rfl⟩ := hds
    · exact ⟨hpos, trivial⟩
    · exact ⟨hfilled, hpos, trivial⟩
  · rw [hands_of_not hs', hitems]
    obtain rfl | ⟨verb, w, ret, rfl⟩ := hds
    · exact after_release hout hpassed
    · refine after_release (h := h₁.after (.call (.update verb it w) ret)) hout fun p hp => ?_
      exact (Function.update_of_ne hp ..).trans (hpassed p hp)

/-- Nothing that has to do with the manager. -/
theorem proceeds_same (h : c.Poised) (hmgr : c'.mgr = c.mgr) (hitems : c'.cacheItems = c.cacheItems)
    (hitem : c'.cacheItem = c.cacheItem) (hstate : c'.state = c.state)
    (hnext : c'.nextState = c.nextState) (hpdu : c'.readPdu = c.readPdu) : c.Proceeds B c' := by
  refine ⟨⟨[], ?_, congrArg Prod.fst hmgr, trivial, ?_⟩, hnext ▸ h.next, fun hx => ?_, fun hx => ?_⟩
  · rw [hmgr, List.append_nil]
  · rw [List.foldl_nil, hands, hands, preparing, preparing, hitems, hitem, hstate]
  · exact hitem ▸ h.item (hstate ▸ hx)
  · exact hpdu ▸ h.update (hstate ▸ hx)

/-- What is received and consumed in between does not matter. -/
theorem proceeds_congr {c'' : Conn (β × List Deed)} (h : c.Proceeds B c') (hmgr : c''.mgr = c'.mgr)
    (hitems : c''.cacheItems = c'.cacheItems) (hitem : c''.cacheItem = c'.cacheItem)
    (hstate : c''.state = c'.state) (hnext : c''.nextState = c'.nextState)
    (hpdu : c''.readPdu = c'.readPdu) : c.Proceeds B c'' := by
  obtain ⟨ds, hds, hperf, hok, hafter⟩ := h.deals
  have hsame := proceeds_same (B := B) h.poised hmgr hitems hitem hstate hnext hpdu
  refine ⟨⟨ds, hmgr ▸ hds, hmgr ▸ hperf, hok, hafter.trans ?_⟩, hsame.poised⟩
  rw [hands, hands, preparing, preparing, hitems, hitem, hstate]

/-- A step from a state that differs in what is received only. -/
theorem proceeds_from (h : c₁.Proceeds B c') (hmgr : c₁.mgr = c.mgr)
    (hitems : c₁.cacheItems = c.cacheItems) (hs₁ : c₁.state ≠ .readBodyExtras)
    (hs : c.state ≠ .readBodyExtras) : c.Proceeds B c' := by
  obtain ⟨ds, hds, hperf, hok, hafter⟩ := h.deals
  have hhands : c.hands = c₁.hands := by rw [hands_of_not hs, hands_of_not hs₁, hitems]
  exact ⟨⟨ds, hmgr ▸ hds, hmgr ▸ hperf, hhands ▸ hok, hhands ▸ hafter⟩, h.poised⟩

/-- `cache_items_` is released, all of it. -/
theorem deeds_releases (s : β × List Deed) (l : List Ptr) :
    (l.foldl B.recorded.releaseReference s).2 = s.2 ++ l.map .release ∧
      B.Performs s.1 (l.map .release) (l.foldl B.recorded.releaseReference s).1 := by
  induction l generalizing s with
  | nil => exact ⟨(List.append_nil _).symm, rfl⟩
  | cons p l ih =>
    obtain ⟨hdeeds, hperf⟩ := ih (B.recorded.releaseReference s p)
    exact ⟨hdeeds.trans (List.append_assoc _ _ _), hperf⟩

theorem admitted_releases {h : Hands} {l : List Ptr} (hl : ∀ p, l.count p ≤ h.out p) :
    Admitted Hands.Allows Hands.after h (l.map .release) := by
  induction l generalizing h with
  | nil => exact trivial
  | cons p l ih =>
    refine ⟨Nat.lt_of_lt_of_le (List.count_pos_iff.mpr List.mem_cons_self) (hl p),
      ih fun q => ?_⟩
    have hq := hl q
    show l.count q ≤ drop h.out p q
    rw [drop]
    rcases eq_or_ne q p with rfl | hne
    · rw [List.count_cons_self] at hq
      rw [Function.update_self]
      exact Nat.le_sub_one_of_lt hq
    · rw [List.count_cons_of_ne hne.symm] at hq
      rwa [Function.update_of_ne hne]

/-- Everything that is held is released. -/
theorem after_releases (l : List Ptr) :
    (l.map Deed.release).foldl Hands.after (.holding l none) = .holding [] none := by
  induction l with
  | nil => rfl
  | cons p l ih =>
    have hrest : (Hands.holding (p :: l) none).after (.release p) = .holding l none := by
      refine after_release (funext fun q => ?_) fun q _ => stage_holding_of_ne fun r hr => by cases hr
      exact (List.perm_append_singleton p l).symm.count_eq q
    rw [List.map_cons, List.foldl_cons, hrest, ih]

/-! ### The handlers -/

section Handlers

variable (hs : c.state ≠ .readBodyExtras)
include hs

theorem proceeds_writeRes (h : Idles B c c₁) (r : Res) : c.Proceeds B (c₁.writeRes r) :=
  proceeds_idle hs (by rintro ⟨⟩) (by rintro ⟨⟩) h rfl rfl

theorem proceeds_writeError (h : Idles B c c₁) (r : Res) (n : Nat) :
    c.Proceeds B (c₁.writeError r n true) := by
  unfold writeError
  rw [if_pos rfl]
  dsimp only
  split
  · exact proceeds_idle hs (by rintro ⟨⟩) (by rintro ⟨⟩) h rfl rfl
  · exact proceeds_idle hs (by rintro ⟨⟩) (by rintro ⟨⟩) h rfl rfl

theorem proceeds_unknownCommand (h : Idles B c c₁) : c.Proceeds B c₁.unknownCommand :=
  proceeds_idle hs (by rintro ⟨⟩) (by rintro ⟨⟩) h rfl rfl

/-- A call that is answered whatever it returns. -/
theorem proceeds_answer (hk : k.Serves) (hitem : ∀ ret, k.item ret = none) (res : k.Ret → Res) :
    c.Proceeds B ((c.call B.recorded k).2.writeRes (res (c.call B.recorded k).1)) :=
  proceeds_writeRes hs (idles_call (Prod.eta _).symm hk (hitem _)) _

theorem proceeds_get (g w : UInt32) (key : Bytes) :
    c.Proceeds B (c.processGetReqPduExtras B.recorded g w key) := by
  rw [processGetReqPduExtras]
  rcases hcall : c.call B.recorded (.get g.toNat key w.toNat false) with
    ⟨⟨_ | ⟨it, x⟩, reason⟩, c₁⟩
  · exact proceeds_writeError hs (idles_call hcall trivial rfl) _ _
  · exact proceeds_keep hs (by rintro ⟨⟩) (by rintro ⟨⟩) hcall trivial rfl rfl rfl

theorem proceeds_getTouch (g w x : UInt32) (key : Bytes) :
    c.Proceeds B (c.processGetTouchReqPduExtras B.recorded g w x key) := by
  rw [processGetTouchReqPduExtras]
  rcases hcall : c.call B.recorded (.getTouch g.toNat key w.toNat x.toNat) with
    ⟨⟨_ | it, reason⟩, c₁⟩
  · exact proceeds_writeError hs (idles_call hcall trivial rfl) _ _
  · exact proceeds_keep hs (by rintro ⟨⟩) (by rintro ⟨⟩) hcall trivial rfl rfl rfl

theorem proceeds_getBase (g : UInt32) (key : Bytes) :
    c.Proceeds B (c.processGetBaseReqPduExtras B.recorded g key) := by
  rw [processGetBaseReqPduExtras]
  rcases hcall : c.call B.recorded (.get g.toNat key 0 true) with ⟨⟨_ | ⟨it, x⟩, reason⟩, c₁⟩
  · exact proceeds_writeError hs (idles_call hcall trivial rfl) _ _
  · exact proceeds_look hs (by rintro ⟨⟩) (by rintro ⟨⟩) hcall trivial rfl rfl rfl

theorem proceeds_delete (pdu : Pdu) (id : UInt64) (g : UInt32) (key : Bytes) :
    c.Proceeds B (c.processDeleteReqPduExtras B.recorded pdu id g key) := by
  rw [processDeleteReqPduExtras]
  rcases hcall : c.call B.recorded (.remove g.toNat key id.toNat) with ⟨reason, c₁⟩
  have h := idles_call hcall trivial rfl
  have herror (reason : Reason) : c.Proceeds B (c₁.writeError (.error reason) 0 true) :=
    proceeds_writeError hs h _ _
  cases reason with
  | success => exact proceeds_writeRes hs h _
  | _ => exact herror _

theorem proceeds_delta (pdu : Pdu) (op : UInt8) (id : UInt64) (g : UInt32) (d : Int64)
    {key : Bytes} (hkey : key.length < 2 ^ 16) :
    c.Proceeds B (c.processDeltaReqPduExtras B.recorded pdu op id g d key) := by
  rw [processDeltaReqPduExtras]
  rcases hcall : c.call B.recorded (.delta g.toNat key (Pdu.incr op) d.toInt id.toNat) with
    ⟨⟨reason, id', value⟩, c₁⟩
  have h := idles_call hcall hkey rfl
  have herror (reason : Reason) : c.Proceeds B (c₁.writeError (.error reason) 0 true) :=
    proceeds_writeError hs h _ _
  cases reason with
  | success => exact proceeds_writeRes hs h _
  | _ => exact herror _

theorem proceeds_checkWatch (hn : c.nextState ≠ .readBodyExtras) (g w x a : UInt32) :
    c.Proceeds B (c.processCheckWatchReqPduFixed B.recorded g w x a) := by
  rw [processCheckWatchReqPduFixed]
  rcases hcall : c.call B.recorded (.checkWatchAndSetCallback g.toNat w.toNat a.toNat x.toNat) with
    ⟨_ | out, c₁⟩
  · exact proceeds_writeError hs (idles_call hcall trivial rfl) _ _
  · have h := idles_call hcall trivial rfl
    dsimp only
    split
    · exact proceeds_writeRes hs h _
    · have hnext : c₁.nextState = c.nextState := (rest_call hcall).1
      exact proceeds_idle hs (by rintro ⟨⟩) (hnext ▸ hn) h rfl rfl

theorem proceeds_updateFixed (hn : c.nextState ≠ .readBodyExtras) (pdu : Pdu) (g fl x : UInt32)
    (kl : UInt16) (dl : UInt32)
    (hpdu : ∃ op id g fl x w kl dl, c.readPdu = some (.update op id g fl x w kl dl)) :
    c.Proceeds B (c.processUpdateReqPduFixed B.recorded pdu g fl x kl dl) := by
  rw [processUpdateReqPduFixed]
  rcases halloc : c.call B.recorded (.allocItem g.toNat kl.toNat fl.toNat x.toNat dl.toNat 0) with
    ⟨_ | it, c₁⟩
  · -- the allocation has failed, and the hands are as they were
    obtain ⟨hdeed, hcalled, hsame⟩ := deeds_call halloc
    have h₁ : Idles B c c₁ := ⟨⟨_, hdeed, hcalled, ⟨kl.toNat_lt, trivial⟩, rfl⟩, hsame⟩
    have herror {c₂ : Conn (β × List Deed)} (h₂ : Idles B c c₂) (r : Res) (n : Nat) :
        c.Proceeds B ({ c₂ with cacheItem := none }.writeError r n true) := by
      have hgone : Idles B c { c₂ with cacheItem := none } := ⟨h₂.deals, h₂.items⟩
      exact proceeds_writeError hs hgone r n
    dsimp only
    rcases hok : c₁.call B.recorded (.itemSizeOk kl.toNat dl.toNat 0) with ⟨_ | _, c₂⟩
    · exact herror (h₁.call hok trivial rfl) _ _
    · exact herror (h₁.call hok trivial rfl) _ _
  · have hrest := rest_call halloc
    exact proceeds_alloc hs kl.toNat_lt halloc rfl rfl rfl rfl (hrest.1 ▸ hn) (hrest.2 ▸ hpdu)

omit hs in
/-- A handler that needs the key. -/
theorem proceeds_withKey (h : c.Poised) {length : Nat} {data : Bytes}
    {handler : Bytes → Conn (β × List Deed)}
    (hh : ∀ key : Bytes, key.length ≤ length → c.Proceeds B (handler key)) :
    c.Proceeds B ((c.withKey length data handler).2.consume (c.withKey length data handler).1) := by
  unfold withKey
  split
  · exact proceeds_same h rfl rfl rfl rfl rfl rfl
  · exact proceeds_congr (hh _ (List.length_take_le _ _)) rfl rfl rfl rfl rfl rfl

end Handlers

theorem proceeds_fixed (hs : c.state ≠ .readBodyExtras) (hn : c.nextState ≠ .readBodyExtras)
    {pdu : Pdu} (hpdu : c.readPdu = some pdu) :
    c.Proceeds B (c.processPduFixed B.recorded pdu) := by
  have hawait (n : Nat) : c.Proceeds B (c.awaitExtras2 n) :=
    proceeds_idle hs (by rintro ⟨⟩) hn idles_self rfl rfl
  cases pdu with
  | get | getTouch | getBase | updateFlags | updateExpiration | delete | delta | auth =>
    exact hawait _
  | update op id g fl x w kl dl =>
    exact proceeds_updateFixed hs hn _ g fl x kl dl ⟨_, _, _, _, _, _, _, _, hpdu⟩
  | flush g =>
    exact proceeds_answer hs (k := .flush g.toNat) trivial (fun _ => rfl) fun ret =>
      .flush ret.1 ret.2
  | stats op cl g =>
    exact proceeds_answer hs (k := .stats op.toNat cl.toNat g.toNat) trivial (fun _ => rfl)
      fun ret => .stats ret
  | createWatch g x =>
    exact proceeds_answer hs (k := .createWatch g.toNat x.toNat) trivial (fun _ => rfl) fun ret =>
      .createWatch ret
  | checkWatch g w t x a => exact proceeds_checkWatch hs hn g w x a
  | hello => exact proceeds_unknownCommand hs idles_self

theorem proceeds_extras2 (h : c.Poised) (hs : c.state ≠ .readBodyExtras) (data : Bytes)
    (pdu : Option Pdu) :
    c.Proceeds B ((c.processPduExtras2 B.recorded data pdu).2.consume
      (c.processPduExtras2 B.recorded data pdu).1) := by
  have hunknown : c.Proceeds B (c.unknownCommand.consume 0) :=
    proceeds_congr (proceeds_unknownCommand hs idles_self) rfl rfl rfl rfl rfl rfl
  rcases pdu with _ | pdu
  · exact hunknown
  cases pdu with
  | get g w kl => exact proceeds_withKey h fun key _ => proceeds_get hs g w key
  | getTouch g w x kl => exact proceeds_withKey h fun key _ => proceeds_getTouch hs g w x key
  | getBase g kl => exact proceeds_withKey h fun key _ => proceeds_getBase hs g key
  | updateFlags op id g fl kl =>
    exact proceeds_withKey h fun key _ => proceeds_answer hs
      (k := .updateFlags g.toNat key id.toNat fl.toNat) trivial (fun _ => rfl) fun ret =>
        baseRes .updateFlags ret
  | updateExpiration op id g x kl =>
    exact proceeds_withKey h fun key _ => proceeds_answer hs
      (k := .updateExpiration g.toNat key id.toNat x.toNat) trivial (fun _ => rfl) fun ret =>
        baseRes .updateExpiration ret
  | delete op id g kl => exact proceeds_withKey h fun key _ => proceeds_delete hs _ id g key
  | delta op id g d kl =>
    exact proceeds_withKey h fun key hkey => proceeds_delta hs _ op id g d
      (Nat.lt_of_le_of_lt hkey kl.toNat_lt)
  | auth n =>
    refine proceeds_withKey h fun key _ => ?_
    rw [processAuthReqPduExtras]
    exact proceeds_idle hs hs h.next
      (idles_call (k := .login key) (Prod.eta _).symm trivial rfl) rfl rfl
  | update | flush | stats | createWatch | checkWatch | hello => exact hunknown

/-- The deeds of `runUpdate`. -/
theorem deeds_runUpdate (c : Conn (β × List Deed)) (op : UInt8) (it : Ptr) (w : UInt32) :
    ∃ ds, (c.runUpdate B.recorded op it w).2.mgr.2 = c.mgr.2 ++ ds ∧
      B.Performs c.mgr.1 ds (c.runUpdate B.recorded op it w).2.mgr.1 ∧
      (c.runUpdate B.recorded op it w).2.cacheItems = c.cacheItems ∧
      (ds = [] ∨ ∃ verb w ret, ds = [.call (.update verb it w) ret]) := by
  unfold runUpdate
  cases Pdu.verb op with
  | none => exact ⟨[], (List.append_nil _).symm, rfl, rfl, .inl rfl⟩
  | some verb =>
    rcases hcall : c.call B.recorded (.update verb it w.toNat) with ⟨⟨reason, id⟩, c₂⟩
    obtain ⟨hdeed, hcalled, hitems⟩ := deeds_call hcall
    dsimp only
    rw [hcall]
    cases reason with
    | success => exact ⟨_, hdeed, hcalled, hitems, .inr ⟨_, _, _, rfl⟩⟩
    | _ => exact ⟨_, hdeed, hcalled, hitems, .inr ⟨_, _, _, rfl⟩⟩

/-- An update whose item is complete. -/
theorem proceeds_updateExtras (pdu : Pdu) (op : UInt8) (id : UInt64) (w : UInt32) (kl : UInt16)
    (hs : c.state = .readBodyExtras) (hit : c.cacheItem = some it) :
    c.Proceeds B (c.processUpdateReqPduExtras B.recorded pdu op id w kl it) := by
  let contents : Contents :=
    { key := c.readItemBuf.take kl.toNat, data := c.readItemBuf.drop kl.toNat
      ext := [], cacheId := id.toNat }
  let c₁ := (c.call B.recorded (.fill it contents)).2
  obtain ⟨ds, hds, hperf, hitems, hshape⟩ := deeds_runUpdate (B := B) c₁ op it w
  have hdeeds : (c.processUpdateReqPduExtras B.recorded pdu op id w kl it).mgr.2 =
      c.mgr.2 ++ (.call (.fill it contents) () :: (ds ++ [.release it])) := by
    show (c₁.runUpdate B.recorded op it w).2.mgr.2 ++ [.release it] = _
    rw [hds]
    show ((c.mgr.2 ++ [.call (.fill it contents) ()]) ++ ds) ++ [.release it] = _
    rw [List.append_assoc, List.append_assoc]
    rfl
  exact proceeds_update hs hit hshape hdeeds ⟨rfl, performs_append hperf rfl⟩ hitems
    (by rintro ⟨⟩) (by rintro ⟨⟩)

theorem proceeds_fillBuffer (h : c.Poised) (n : Nat) : c.Proceeds B (c.fillBuffer n) := by
  unfold fillBuffer
  dsimp only
  split
  · exact proceeds_same h rfl rfl rfl rfl rfl rfl
  · exact proceeds_same h rfl rfl rfl rfl rfl rfl

theorem proceeds_fillItem (h : c.Poised) (n : Nat) : c.Proceeds B (c.fillItem n) := by
  unfold fillItem
  dsimp only
  split
  · exact proceeds_same h rfl rfl rfl rfl rfl rfl
  · exact proceeds_same h rfl rfl rfl rfl rfl rfl

theorem proceeds_reset (hs : c.state ≠ .readBodyExtras) (hn : c.nextState ≠ .readBodyExtras) :
    c.Proceeds B (c.resetForNewCmd B.recorded) := by
  obtain ⟨hdeeds, hperf⟩ := deeds_releases (B := B) c.mgr c.cacheItems
  refine ⟨⟨_, hdeeds, hperf, ?_, ?_⟩, poised_of_not (by rintro ⟨⟩) hn⟩
  · rw [hands_of_not hs]
    exact admitted_releases fun _ => le_rfl
  · rw [hands_of_not hs]
    exact after_releases c.cacheItems

end DealLemmas

open DealLemmas

variable {c c'} {B}

/-- One iteration. -/
theorem iterate_proceeds (h : c.Poised) (n : Nat) : c.Proceeds B (c.iterate B.recorded n) := by
  have hstep : ∀ st, c.state = st → c.Proceeds B (c.iterate B.recorded n) := by
    intro st hst
    have hne {st' : PeerState} (hx : st ≠ st') : c.state ≠ st' := hst.trans_ne hx
    cases st with
    | newCmd =>
      rw [iterate, hst]
      exact proceeds_reset (hne (by rintro ⟨⟩)) h.next
    | readHeader =>
      have hs : c.state ≠ .readBodyExtras := hne (by rintro ⟨⟩)
      rw [iterate, hst]
      dsimp only
      split
      · unfold processHeader
        dsimp only
        split
        · exact proceeds_idle hs (by rintro ⟨⟩) (by rintro ⟨⟩) idles_self rfl rfl
        · exact proceeds_idle hs (by rintro ⟨⟩) h.next idles_self rfl rfl
        · exact proceeds_idle hs (by rintro ⟨⟩) (by rintro ⟨⟩) idles_self rfl rfl
      · exact proceeds_fillBuffer h n
    | readBodyFixed =>
      have hs : c.state ≠ .readBodyExtras := hne (by rintro ⟨⟩)
      rw [iterate, hst]
      dsimp only
      split
      · split
        · next pdu _ =>
          let c₁ : Conn (β × List Deed) := { c.consume c.nextDataLen with readPdu := some pdu }
          have hs₁ : c₁.state ≠ .readBodyExtras := hs
          have hfixed : c₁.Proceeds B (c₁.processPduFixed B.recorded pdu) :=
            proceeds_fixed hs₁ h.next rfl
          exact proceeds_from hfixed rfl rfl hs hs
        · exact proceeds_idle hs (by rintro ⟨⟩) (by rintro ⟨⟩) idles_self rfl rfl
      · exact proceeds_fillBuffer h n
    | readBodyExtras =>
      rw [iterate, hst]
      dsimp only
      split
      · obtain ⟨op, id, g, fl, x, w, kl, dl, hpdu⟩ := h.update hst
        obtain ⟨it, hit⟩ := Option.ne_none_iff_exists'.mp (h.item hst)
        rw [hpdu, processPduExtras, hit]
        exact proceeds_updateExtras _ op id w kl hst hit
      · split
        · exact proceeds_same h rfl rfl rfl rfl rfl rfl
        · exact proceeds_fillItem h n
    | readBodyExtras2 =>
      rw [iterate, hst]
      dsimp only
      split
      · exact proceeds_extras2 h (hne (by rintro ⟨⟩)) _ _
      · exact proceeds_fillBuffer h n
    | swallow =>
      rw [iterate, hst]
      dsimp only
      split
      · exact proceeds_idle (hne (by rintro ⟨⟩)) (by rintro ⟨⟩) h.next idles_self rfl rfl
      · split
        · exact proceeds_same h rfl rfl rfl rfl rfl rfl
        · exact proceeds_fillBuffer h n
    | asyncWait =>
      rw [iterate, hst]
      exact proceeds_idle (hne (by rintro ⟨⟩)) (by rintro ⟨⟩) h.next idles_self rfl rfl
    | write =>
      have hs : c.state ≠ .readBodyExtras := hne (by rintro ⟨⟩)
      rw [iterate, hst]
      unfold processWrite
      dsimp only
      split
      · split
        · exact proceeds_idle hs (by rintro ⟨⟩) (by rintro ⟨⟩) idles_self rfl rfl
        · exact proceeds_idle hs h.next (by rintro ⟨⟩) idles_self rfl rfl
      · exact proceeds_idle hs h.next (by rintro ⟨⟩) idles_self rfl rfl
    | closing =>
      rw [iterate, hst]
      exact proceeds_idle (hne (by rintro ⟨⟩)) (by rintro ⟨⟩) h.next idles_self rfl rfl
    | closed =>
      rw [iterate, hst]
      exact proceeds_idle (hne (by rintro ⟨⟩)) (by rintro ⟨⟩) h.next idles_self rfl rfl
  exact hstep c.state rfl

/-! ## Runs -/

/-- The connection started with `b`. What it has done is allowed, has been done, and its fields say
what it holds. -/
structure Lawful (B : Backend β) (b : β) (c : Conn (β × List Deed)) : Prop where
  disciplined : Disciplined c.mgr.2
  performs : B.Performs b c.mgr.2 c.mgr.1
  hands : c.mgr.2.foldl Hands.after .empty = c.hands
  poised : c.Poised

/-- The destructor forgets the item of an update that was being read. -/
def Behaves (B : Backend β) (b : β) (c : Conn (β × List Deed)) : Prop :=
  Lawful B b c ∨ c.Dead ∧ Disciplined c.mgr.2 ∧ B.Performs b c.mgr.2 c.mgr.1

namespace DealLemmas
open DisciplineLemmas

variable {b : β}

theorem lawful_of_proceeds (h : Lawful B b c) (hp : c.Proceeds B c') : Lawful B b c' := by
  obtain ⟨ds, hds, hperf, hok, hafter⟩ := hp.deals
  refine ⟨?_, ?_, ?_, hp.poised⟩
  · rw [Disciplined, hds]
    exact admitted_append.mpr ⟨h.disciplined, h.hands.symm ▸ hok⟩
  · rw [hds]
    exact performs_append h.performs hperf
  · rw [hds, List.foldl_append, h.hands]
    exact hafter

theorem disciplined_destroy (h : Lawful B b c) :
    Disciplined (c.destroy B.recorded).mgr.2 ∧
      B.Performs b (c.destroy B.recorded).mgr.2 (c.destroy B.recorded).mgr.1 := by
  obtain ⟨hdeeds, hperf⟩ := deeds_releases (B := B) c.mgr c.cacheItems
  have hds : (c.destroy B.recorded).mgr.2 = c.mgr.2 ++ c.cacheItems.map .release := hdeeds
  rw [hds]
  refine ⟨admitted_append.mpr ⟨h.disciplined, ?_⟩, performs_append h.performs hperf⟩
  rw [h.hands]
  exact admitted_releases fun p => (List.sublist_append_left _ _).count_le p

/-- The connection has changed in nothing that the hands depend on. -/
structure Same (c c' : Conn (β × List Deed)) : Prop where
  state : c'.state = c.state
  nextState : c'.nextState = c.nextState
  readPdu : c'.readPdu = c.readPdu
  item : c'.cacheItem = c.cacheItem
  items : c'.cacheItems = c.cacheItems
  mgr : c'.mgr = c.mgr
  run : c'.run = c.run

theorem Same.lawful (hs : Same c c') (h : Lawful B b c) : Lawful B b c' :=
  lawful_of_proceeds h
    (proceeds_same h.poised hs.mgr hs.items hs.item hs.state hs.nextState hs.readPdu)

theorem same_tryWrite (c : Conn (β × List Deed)) : Same c c.tryWrite.2 := by
  unfold tryWrite
  split
  · exact ⟨rfl, rfl, rfl, rfl, rfl, rfl, rfl⟩
  · exact ⟨rfl, rfl, rfl, rfl, rfl, rfl, rfl⟩

theorem same_tryRead (c : Conn (β × List Deed)) : Same c c.tryRead := by
  unfold tryRead
  split
  · exact ⟨rfl, rfl, rfl, rfl, rfl, rfl, rfl⟩
  · exact ⟨rfl, rfl, rfl, rfl, rfl, rfl, rfl⟩

/-- After `process`: the connection is there, or it is destroyed. -/
theorem behaves_leave (hr : c.run = false) (h : Lawful B b c) :
    Behaves B b (c.leave B.recorded) := by
  have hout {c₁ : Conn (β × List Deed)} (hs : Same c c₁) :
      Behaves B b (if c₁.pending = none ∧ c₁.state ≠ .asyncWait then c₁.destroy B.recorded
        else c₁) := by
    split
    next hover =>
      exact .inr ⟨⟨hs.run.trans hr, hover.1, hover.2⟩, disciplined_destroy (hs.lawful h)⟩
    next => exact .inl (hs.lawful h)
  unfold leave
  dsimp only
  split
  · split
    · split
      · exact hout (same_tryWrite c)
      · have hwrite := same_tryWrite c
        have hread := same_tryRead c.tryWrite.2
        exact hout ⟨hread.state.trans hwrite.state, hread.nextState.trans hwrite.nextState,
          hread.readPdu.trans hwrite.readPdu, hread.item.trans hwrite.item,
          hread.items.trans hwrite.items, hread.mgr.trans hwrite.mgr, hread.run.trans hwrite.run⟩
    · exact hout ⟨rfl, rfl, rfl, rfl, rfl, rfl, rfl⟩
  · exact hout (same_tryWrite c)

theorem behaves_step {a : Action} (h : Behaves B b c) (hstep : c.Step B.recorded a c') :
    Behaves B b c' := by
  obtain ⟨hperm, rfl⟩ := hstep
  obtain h | ⟨hdead, -⟩ := h
  case inr => exact absurd hdead (ConnectionLemmas.not_dead_of_permitted hperm)
  cases a with
  | turn n =>
    have hnext := lawful_of_proceeds h (iterate_proceeds (B := B) h.poised n)
    show Behaves B b (c.turn B.recorded n)
    rw [turn]
    split
    next => exact .inl hnext
    next hstop => exact behaves_leave (Bool.eq_false_iff.mpr hstop) hnext
  | handleRead n =>
    exact .inl (lawful_of_proceeds h (proceeds_same h.poised rfl rfl rfl rfl rfl rfl))
  | handleWrite =>
    exact .inl (lawful_of_proceeds h (proceeds_same h.poised rfl rfl rfl rfl rfl rfl))
  | handleError =>
    have hnone : Lawful B b { c with pending := none } :=
      lawful_of_proceeds h (proceeds_same h.poised rfl rfl rfl rfl rfl rfl)
    show Behaves B b (c.handleError B.recorded)
    rw [handleError]
    split
    next hs => exact .inr ⟨⟨hperm.1, rfl, hs⟩, disciplined_destroy hnone⟩
    next => exact .inl hnone
  | handleTimer w =>
    have hs : c.state ≠ .readBodyExtras := fun hx => by cases hperm.2.1.symm.trans hx
    show Behaves B b (c.handleTimer B.recorded w)
    rw [handleTimer]
    rcases hcall : c.call B.recorded (.checkWatchAndClearCallback w.toNat) with ⟨_ | out, c₁⟩
    · have hidle := idles_call hcall trivial rfl
      exact .inl ((same_tryWrite _).lawful
        (lawful_of_proceeds h (proceeds_writeError hs hidle (.error .watchNotFound) 0)))
    · have hidle := idles_call hcall trivial rfl
      exact .inl ((same_tryWrite _).lawful
        (lawful_of_proceeds h (proceeds_idle hs (by rintro ⟨⟩) (by rintro ⟨⟩) hidle rfl rfl)))

theorem behaves_start (b : β) (data socket : Bytes) :
    Behaves B b (start (b, ([] : List Deed)) data socket) := by
  unfold start
  dsimp only
  split
  · exact .inl ⟨trivial, rfl, rfl, poised_of_not (by rintro ⟨⟩) (by rintro ⟨⟩)⟩
  · exact .inl ⟨trivial, rfl, rfl, poised_of_not (by rintro ⟨⟩) (by rintro ⟨⟩)⟩

end DealLemmas

open DealLemmas

variable (B) in
/-- Whatever a peer is sent and whatever the manager answers, the peer keeps to what the manager
relies on, and the manager has done what is recorded. -/
theorem behaves_of_run {b : β} {data socket : Bytes} {t : List (Conn (β × List Deed) × Action)}
    (hrun : Run (Step B.recorded) (start (b, []) data socket) t c) :
    Disciplined c.mgr.2 ∧ B.Performs b c.mgr.2 c.mgr.1 := by
  have h : Behaves B b c :=
    hrun.invariant (fun _ _ _ => behaves_step) (behaves_start b data socket)
  obtain h | ⟨-, h⟩ := h
  · exact ⟨h.disciplined, h.performs⟩
  · exact h

end Conn
end Xixi.PeerCache
