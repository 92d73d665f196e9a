import Xixi.Peer.Connection
import Xixi.Peer.Traffic

/-!
# The references of a connection

1. `Conn.Settled c`: all that has been taken has been released, but for the item of an update that
   was still being read.
2. `Conn.Accounts c`: what the connection holds is what it has taken and not released, until it is
   dead and settled.
3. `references_of_run`: every state of a connection accounts for its references, whatever the socket, the
   timer and the backend do.
-/

namespace Xixi.PeerCache
open Lib

namespace Conn

variable {β : Type} (B : Backend β) (c : Conn (β × List RefEvent))

/-- The destructor sets `cache_item_` to `NULL` without releasing it. -/
def Settled : Prop :=
  ∃ lost : List Ptr, lost.length = (if c.state = .readBodyExtras then 1 else 0) ∧
    ∀ p, c.mgr.2.count (.take p) = c.mgr.2.count (.release p) + lost.count p

def Accounts : Prop :=
  c.Dead ∧ c.Settled ∨ ¬ c.Dead ∧ c.Sound ∧ c.Balanced

namespace ReferencesLemmas
open TrafficLemmas ConnectionLemmas

variable {B c} {c' : Conn (β × List RefEvent)}

/-- The connection has changed in nothing that the references depend on. -/
structure Same (c c' : Conn (β × List RefEvent)) : Prop where
  state : c'.state = c.state
  nextState : c'.nextState = c.nextState
  readPdu : c'.readPdu = c.readPdu
  item : c'.cacheItem = c.cacheItem
  items : c'.cacheItems = c.cacheItems
  mgr : c'.mgr = c.mgr

theorem Same.sound (h : Same c c') (hs : c.Sound) : c'.Sound := by
  refine ⟨h.nextState ▸ hs.next, fun hx => ?_⟩
  rw [h.item, h.readPdu]
  exact hs.updating (h.state ▸ hx)

theorem Same.balanced (h : Same c c') (hb : c.Balanced) : c'.Balanced := by
  refine balanced_same hb (by rw [h.mgr]) ?_
  rw [holding, holding, h.items, h.state, h.item]

theorem Same.accounts (h : Same c c') (hs : c.Sound) (hb : c.Balanced) (hthere : ¬ c'.Dead) :
    c'.Accounts :=
  .inr ⟨hthere, h.sound hs, h.balanced hb⟩

/-- The destructor. -/
theorem settled_destroy (hs : c.Sound) (hb : c.Balanced) : (c.destroy B.counted).Settled := by
  have hcount (p : Ptr) :
      (c.destroy B.counted).mgr.2.count (.take p) = c.mgr.2.count (.take p) ∧
      (c.destroy B.counted).mgr.2.count (.release p) =
        c.mgr.2.count (.release p) + c.cacheItems.count p := by
    have hrefs : (c.destroy B.counted).mgr.2 = c.mgr.2 ++ c.cacheItems.map .release :=
      foldl_releaseReference c.mgr c.cacheItems
    rw [hrefs, List.count_append, List.count_append, count_take_release, count_release_release]
    exact ⟨rfl, rfl⟩
  cases hstate : decide (c.state = .readBodyExtras) with
  | true =>
    have hst : c.state = .readBodyExtras := of_decide_eq_true hstate
    obtain ⟨it, -, -, -, -, -, -, -, -, hit, -⟩ := hs.updating hst
    refine ⟨[it], (if_pos hst).symm, fun p => ?_⟩
    obtain ⟨htake, hrelease⟩ := hcount p
    rw [htake, hrelease, hb p, holding_extras hst hit, List.count_append, Nat.add_assoc]
  | false =>
    have hst : c.state ≠ .readBodyExtras := of_decide_eq_false hstate
    refine ⟨[], (if_neg hst).symm, fun p => ?_⟩
    obtain ⟨htake, hrelease⟩ := hcount p
    rw [htake, hrelease, hb p, holding_of_not hst]
    rfl

theorem dead_destroy (hr : c.run = false) (hp : c.pending = none) (hs : c.state ≠ .asyncWait) :
    (c.destroy B.counted).Dead := ⟨hr, hp, hs⟩

theorem same_tryWrite (c : Conn (β × List RefEvent)) : Same c c.tryWrite.2 := by
  unfold tryWrite
  split
  · exact ⟨rfl, rfl, rfl, rfl, rfl, rfl⟩
  · exact ⟨rfl, rfl, rfl, rfl, rfl, rfl⟩

theorem same_tryRead (c : Conn (β × List RefEvent)) : Same c c.tryRead := by
  unfold tryRead
  split
  · exact ⟨rfl, rfl, rfl, rfl, rfl, rfl⟩
  · exact ⟨rfl, rfl, rfl, rfl, rfl, rfl⟩

/-- After `process`: the connection is there, or it is destroyed. -/
theorem accounts_leave (hr : c.run = false) (hs : c.Sound) (hb : c.Balanced) :
    (c.leave B.counted).Accounts := by
  have hout : ∃ c₁ : Conn (β × List RefEvent), Same c c₁ ∧ c₁.run = c.run ∧
      c.leave B.counted =
        if c₁.pending = none ∧ c₁.state ≠ .asyncWait then c₁.destroy B.counted else c₁ := by
    have hsame : Same c c := ⟨rfl, rfl, rfl, rfl, rfl, rfl⟩
    have hrunRead : c.tryRead.run = c.run := by
      unfold tryRead
      split <;> rfl
    have hrunWrite : c.tryWrite.2.run = c.run := by
      unfold tryWrite
      split <;> rfl
    unfold leave
    dsimp only
    split
    · split
      · split
        · exact ⟨_, same_tryWrite c, hrunWrite, rfl⟩
        next hwrote =>
          have hnot : c.tryWrite.2 = c := by
            unfold tryWrite at hwrote ⊢
            split at hwrote
            · exact absurd rfl hwrote
            next hno => rw [if_neg hno]
          rw [hnot]
          exact ⟨_, same_tryRead c, hrunRead, rfl⟩
      · exact ⟨_, hsame, rfl, rfl⟩
    · exact ⟨_, same_tryWrite c, hrunWrite, rfl⟩
  obtain ⟨c₁, hsame, hrun, hleave⟩ := hout
  rw [hleave]
  split
  next hover =>
    exact .inl ⟨dead_destroy (hrun.trans hr) hover.1 hover.2,
      settled_destroy (hsame.sound hs) (hsame.balanced hb)⟩
  next hover => exact hsame.accounts hs hb fun hdead => hover ⟨hdead.2.1, hdead.2.2⟩

theorem accounts_turn (hs : c.Sound) (hb : c.Balanced) (n : Nat) : (c.turn B.counted n).Accounts := by
  have he := iterate_effect (B := B) hs n
  have hs' := sound_of_effect hs he
  have hb' := balanced_of_effect hb he
  rw [turn]
  cases hrun : (c.iterate B.counted n).run with
  | true =>
    refine .inr ⟨fun hdead => ?_, hs', hb'⟩
    have hstop : (c.iterate B.counted n).run = false := hdead.1
    cases hrun.symm.trans hstop
  | false => exact accounts_leave hrun hs' hb'

/-- The timer: a response is queued, and no item is touched. -/
theorem accounts_answer {c₁ : Conn (β × List RefEvent)} {ks : List Call} (h : Called c c₁ ks)
    (hstate : c.state ≠ .readBodyExtras) (hb : c.Balanced) {r : Res} {st next : PeerState}
    (hst : st ≠ .readBodyExtras) (hnext : next.final = true) :
    ({ c₁.addWriteBuf r with state := st, nextState := next } :
      Conn (β × List RefEvent)).tryWrite.2.Accounts := by
  let c₂ : Conn (β × List RefEvent) :=
    { c₁.addWriteBuf r with state := st, nextState := next }
  have hne : c₂.writeBuf ≠ [] := List.append_ne_nil_of_right_ne_nil _ (List.cons_ne_nil _ _)
  have hsound : c₂.Sound := ⟨hnext, fun hx => absurd hx hst⟩
  have hbal : c₂.Balanced := by
    refine balanced_same hb h.refs ?_
    rw [holding_of_not hstate, holding_of_not (c := c₂) hst]
    exact h.items
  refine (same_tryWrite c₂).accounts hsound hbal fun hdead => ?_
  have hpending := hdead.2.1
  unfold tryWrite at hpending
  split at hpending
  next => cases hpending
  next hno => exact hno ⟨hpending, hne⟩

theorem accounts_step {a : Action} (h : c.Accounts) (hstep : c.Step B.counted a c') : c'.Accounts := by
  obtain ⟨hperm, rfl⟩ := hstep
  obtain ⟨hdead, -⟩ | ⟨-, hs, hb⟩ := h
  · exact absurd hdead (not_dead_of_permitted hperm)
  cases a with
  | turn n => exact accounts_turn hs hb n
  | handleRead n =>
    have hsame : Same c (c.handleRead n) := ⟨rfl, rfl, rfl, rfl, rfl, rfl⟩
    exact hsame.accounts hs hb fun hdead => by cases hdead.1
  | handleWrite =>
    have hsame : Same c c.handleWrite := ⟨rfl, rfl, rfl, rfl, rfl, rfl⟩
    exact hsame.accounts hs hb fun hdead => by cases hdead.1
  | handleError =>
    have hsame : Same c { c with pending := none } := ⟨rfl, rfl, rfl, rfl, rfl, rfl⟩
    show (c.handleError B.counted).Accounts
    rw [handleError]
    split
    next hs' =>
      exact .inl ⟨dead_destroy hperm.1 rfl hs',
        settled_destroy (hsame.sound hs) (hsame.balanced hb)⟩
    next hs' => exact hsame.accounts hs hb fun hdead => hs' hdead.2.2
  | handleTimer w =>
    have hstate : c.state ≠ .readBodyExtras := fun hx => by cases hperm.2.1.symm.trans hx
    show (c.handleTimer B.counted w).Accounts
    rw [handleTimer]
    rcases hcall : c.call B.counted (.checkWatchAndClearCallback w.toNat) with ⟨_ | out, c₁⟩
    · exact accounts_answer (called_call hcall rfl) hstate hb (by rintro ⟨⟩) rfl
    · exact accounts_answer (called_call hcall rfl) hstate hb (by rintro ⟨⟩) rfl

theorem accounts_start (b : β) (data socket : Bytes) :
    (start (b, ([] : List RefEvent)) data socket).Accounts := by
  unfold start
  dsimp only
  split
  · exact .inr ⟨(fun hdead => by cases hdead.1), ⟨rfl, (fun hx => by cases hx)⟩, fun _ => rfl⟩
  · exact .inl ⟨⟨rfl, rfl, by rintro ⟨⟩⟩, [], rfl, fun _ => rfl⟩

end ReferencesLemmas

open ReferencesLemmas

/-- **References.** As long as the peer is there, the references it has taken and not released are
those in `cache_items_`, and the one in `cache_item_` while an update is being read. When it is gone
each of them has been released once, but for the item of an update it was reading. -/
theorem references_of_run {b : β} {data socket : Bytes} {c : Conn (β × List RefEvent)}
    {t : List (Conn (β × List RefEvent) × Action)}
    (hrun : Run (Step B.counted) (start (b, []) data socket) t c) :
    (¬ c.Dead → c.Balanced) ∧ (c.Dead → c.Settled) := by
  have h : c.Accounts := hrun.invariant (fun _ _ _ => accounts_step) (accounts_start b data socket)
  obtain ⟨hdead, hsettled⟩ | ⟨hthere, -, hb⟩ := h
  · exact ⟨fun hthere => absurd hdead hthere, fun _ => hsettled⟩
  · exact ⟨fun _ => hb, fun hdead => absurd hdead hthere⟩

/-- `UPDATE` of a key and a value of one byte. -/
def setRequest : Request := ⟨.update 0 0 0 0 0 0 1 1, [107, 118], rfl⟩

/-- The socket fails before the value has come: the item of the update is never released. -/
theorem references_of_failure :
    let as : List Action := List.replicate 5 (.turn 0) ++ [.handleError]
    let c := as.foldl (next smallBackend.counted)
      (start (((Sys.small .uint16).mgr, 0), []) (setRequest.encode.dropLast) [])
    c.Dead ∧ c.state = .readBodyExtras ∧ c.Settled := by
  intro as c
  have hok : Admitted (fun (c : Conn ((CacheMgr × Nat) × List RefEvent)) a => c.Permitted a)
      (next smallBackend.counted)
      (start (((Sys.small .uint16).mgr, 0), []) (setRequest.encode.dropLast) []) as := by
    decide +kernel
  obtain ⟨t, ht⟩ := hok.run
  have hrun : c.run = false := by decide +kernel
  have hpending : c.pending = none := by decide +kernel
  have hstate : c.state = .readBodyExtras := by decide +kernel
  have hreach : Run (Step smallBackend.counted)
      (start (((Sys.small .uint16).mgr, 0), []) (setRequest.encode.dropLast) []) t c := ht
  clear_value c
  have hdead : c.Dead := ⟨hrun, hpending, by rw [hstate]; decide⟩
  exact ⟨hdead, hstate, (references_of_run smallBackend hreach).2 hdead⟩

end Conn
end Xixi.PeerCache
