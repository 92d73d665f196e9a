import Xixi.Http.Machine
import Xixi.Peer.Traffic

/-!
# The references of an HTTP connection

1. `Backend.counted`: a backend that keeps a record of the references that the peer takes and
   releases.
2. `Handles m item d`: what a handler does to them. `handles_execute`: every handler does so.
3. `Conn.Skips c`: `reset_for_new_cmd` is about to be skipped with a reference in `cache_item_`.
4. `cacheItem_of_run`: in every state of a connection all that has been taken has been released, is
   in `cache_item_`, or has been overwritten there, at most once for each reset that was skipped.
-/

namespace Xixi.Http
open Lib
open PeerCache (PeerState ReceiveBuffer Io RefEvent)
open PeerCache.Conn.TrafficLemmas (count_take_take count_release_take count_take_release
  count_release_release)

/-- The item that a call returns a reference to. -/
def Call.item : (k : Call) → k.Ret → Option Ptr
  | .cache k, r => k.item r
  | .loadFromFile .., r => r.toOption
  | .status _, _ => none

/-- The backend with a record of the references. -/
def Backend.counted {β : Type} (B : Backend β) : Backend (β × List RefEvent) where
  exec s k :=
    ((B.exec s.1 k).1, (B.exec s.1 k).2, s.2 ++ (k.item (B.exec s.1 k).1).toList.map .take)
  item s p := B.item s.1 p
  releaseReference s p := (B.releaseReference s.1 p, s.2 ++ [.release p])

/-! ## The handlers -/

section Handlers

variable {β : Type} (B : Backend β) (s : Settings)

/-- The references that `es` takes and does not release are those of the list. -/
def Leaves (es : List RefEvent) (held : List Ptr) : Prop :=
  ∀ p, es.count (.take p) = es.count (.release p) + held.count p

/-- A handler leaves `cache_item_` alone and releases what it takes, or it puts there what it does
not release. -/
def Handles (m : β × List RefEvent) (item : Option Ptr) (d : Done (β × List RefEvent)) : Prop :=
  ∃ es, d.mgr.2 = m.2 ++ es ∧
    (d.cacheItem = item ∧ Leaves es [] ∨ Leaves es d.cacheItem.toList)

namespace TrafficLemmas

variable {B s} {m m' : β × List RefEvent} {p : Params} {item : Option Ptr} {key : Text}
  {isBase : Bool}

theorem leaves_nil : Leaves [] [] := fun _ => rfl

theorem leaves_take (l : List Ptr) : Leaves (l.map .take) l := fun p => by
  rw [count_take_take, count_release_take, Nat.zero_add]

theorem leaves_release (it : Ptr) : Leaves [.take it, .release it] [] := fun p => by
  have hsplit : [RefEvent.take it, .release it] = [it].map .take ++ [it].map .release := rfl
  rw [hsplit, List.count_append, List.count_append, count_take_take, count_take_release,
    count_release_take, count_release_release, List.count_nil, Nat.add_zero, Nat.zero_add,
    Nat.add_zero]

theorem refs_exec {k : Call} {ret : k.Ret} (h : B.counted.exec m k = (ret, m')) :
    m'.2 = m.2 ++ (k.item ret).toList.map .take := by
  cases h
  rfl

/-- A call that returns no item. -/
theorem refs_exec_none {k : Call} {ret : k.Ret} (h : B.counted.exec m k = (ret, m'))
    (hk : k.item ret = none) : m'.2 = m.2 := by
  rw [refs_exec h, hk]
  exact List.append_nil _

theorem refs_lookup {r : Option (Ptr × Nat)} {reason : Xixi.Reason}
    (h : lookup B.counted m p key isBase = ((r, reason), m')) :
    m'.2 = m.2 ++ (r.map Prod.fst).toList.map .take := by
  cases htouch : p.touchFlag with
  | true =>
    rcases hcall : B.counted.exec m
      (.cache (.getTouch p.groupId key.bytes p.watchId p.expiration)) with ⟨⟨it, reason'⟩, m₁⟩
    have heq : lookup B.counted m p key isBase =
        ((it.map fun it => (it, p.expiration), reason'), m₁) := by
      have htouched : lookup B.counted m p key isBase = _ := if_pos htouch
      rw [htouched, hcall]
    have hrefs := refs_exec hcall
    cases heq.symm.trans h
    rw [hrefs, Option.map_map]
    cases it <;> rfl
  | false =>
    have heq : lookup B.counted m p key isBase =
        B.counted.exec m (.cache (.get p.groupId key.bytes p.watchId isBase)) :=
      if_neg (by rw [htouch]; decide)
    exact refs_exec (heq.symm.trans h)

theorem refs_loadFromFile {r : Except Xixi.Reason (Ptr × Nat)}
    (h : loadFromFile B.counted s m p key = (r, m')) :
    m'.2 = m.2 ++ (r.toOption.map Prod.fst).toList.map .take := by
  -- the item of the call, with the expiration
  have hmap (x : Nat) (r' : Except Xixi.Reason Ptr) :
      (r'.map fun it => (it, x)).toOption.map Prod.fst = r'.toOption := by
    cases r' <;> rfl
  obtain ⟨x, hx⟩ : ∃ x, loadFromFile B.counted s m p key =
      (Except.map (fun it => (it, x)) (B.counted.exec m (.loadFromFile p.groupId key p.watchId x)).1,
        (B.counted.exec m (.loadFromFile p.groupId key p.watchId x)).2) := ⟨_, rfl⟩
  cases hx.symm.trans h
  exact congrArg (fun i : Option Ptr => m.2 ++ i.toList.map RefEvent.take) (hmap x _).symm

theorem refs_getWelcomeFile {files : List Bytes} {r : Except Xixi.Reason (Ptr × Nat)}
    (h : getWelcomeFile B.counted s p isBase m files = (r, m')) :
    m'.2 = m.2 ++ (r.toOption.map Prod.fst).toList.map .take := by
  induction files generalizing m with
  | nil =>
    cases h
    exact (List.append_nil _).symm
  | cons welcome rest ih =>
    rw [getWelcomeFile] at h
    rcases hfound : lookup B.counted m p (.copy (p.key.bytes ++ welcome)) isBase with
      ⟨⟨_ | x, reason⟩, m₁⟩
    · have hm₁ : m₁.2 = m.2 := (refs_lookup hfound).trans (List.append_nil _)
      rw [hfound] at h
      dsimp only at h
      rcases hload : loadFromFile B.counted s m₁ p (.copy (p.key.bytes ++ welcome)) with ⟨r', m₂⟩
      have hm₂ := refs_loadFromFile hload
      rw [hload] at h
      rw [hm₁] at hm₂
      cases r' with
      | ok x =>
        cases h
        exact hm₂
      | error reason =>
        cases reason with
        | notFound =>
          have hnone : m₂.2 = m.2 := hm₂.trans (List.append_nil _)
          rw [← hnone]
          exact ih h
        | _ =>
          cases h
          exact hm₂
    · have hm₁ := refs_lookup hfound
      rw [hfound] at h
      cases h
      exact hm₁

theorem refs_getCacheItem {r : Except Reason (Ptr × Nat)}
    (h : getCacheItem B.counted s m p isBase = (r, m')) :
    m'.2 = m.2 ++ (r.toOption.map Prod.fst).toList.map .take := by
  have hmapped (r' : Except Xixi.Reason (Ptr × Nat)) :
      (r'.mapError Reason.cache).toOption = r'.toOption := by
    cases r' <;> rfl
  have hnothing (reason : Reason) {m₁ : β × List RefEvent} (hm₁ : m₁.2 = m.2)
      (h : ((.error reason : Except Reason (Ptr × Nat)), m₁) = (r, m')) :
      m'.2 = m.2 ++ (r.toOption.map Prod.fst).toList.map .take := by
    cases h
    exact hm₁.trans (List.append_nil _).symm
  rw [getCacheItem] at h
  rcases hfound : lookup B.counted m p p.key isBase with ⟨⟨_ | x, reason⟩, m₁⟩
  · have hm₁ : m₁.2 = m.2 := (refs_lookup hfound).trans (List.append_nil _)
    rw [hfound] at h
    dsimp only at h
    split at h
    · split at h
      · exact hnothing _ hm₁ h
      · rcases hcall : B.counted.exec m₁
          (.status (s.homeDir ++ ascii "webapps" ++ cString p.key.mem)) with ⟨status, m₂⟩
        have hm₂ : m₂.2 = m.2 := (refs_exec_none hcall rfl).trans hm₁
        rw [hcall] at h
        rcases status with _ | _ | _
        · exact hnothing _ hm₂ h
        · rcases hload : loadFromFile B.counted s m₂ p p.key with ⟨r', m₃⟩
          have hm₃ := refs_loadFromFile hload
          dsimp only at h
          rw [hload] at h
          cases h
          rw [hm₃, hm₂, hmapped]
        · dsimp only at h
          split at h
          · rcases hfile : getWelcomeFile B.counted s p isBase m₂ s.welcomeFileList with ⟨r', m₃⟩
            have hm₃ := refs_getWelcomeFile hfile
            rw [hfile] at h
            cases h
            rw [hm₃, hm₂, hmapped]
          · exact hnothing _ hm₂ h
    · exact hnothing _ hm₁ h
  · have hm₁ := refs_lookup hfound
    rw [hfound] at h
    cases h
    exact hm₁

/-! ### The operations -/

variable {d : Done (β × List RefEvent)}

/-- A handler that neither takes nor releases anything. -/
theorem handles_plain (hm : d.mgr.2 = m.2) (hitem : d.cacheItem = item) : Handles m item d :=
  ⟨[], hm.trans (List.append_nil _).symm, .inl ⟨hitem, leaves_nil⟩⟩

theorem handles_call {k : Call} {ret : k.Ret} (h : B.counted.exec m k = (ret, m'))
    (hk : k.item ret = none) (hm : d.mgr = m') (hitem : d.cacheItem = item) : Handles m item d :=
  handles_plain (by rw [hm, refs_exec_none h hk]) hitem

theorem handles_get : Handles m item (processGet B.counted s m p item) := by
  rw [processGet]
  rcases hget : getCacheItem B.counted s m p false with ⟨reason | ⟨it, expiration⟩, m₁⟩
  · have hm₁ : m₁.2 = m.2 := (refs_getCacheItem hget).trans (List.append_nil _)
    cases reason <;> exact handles_plain hm₁ rfl
  · exact ⟨[.take it], refs_getCacheItem hget, .inr (leaves_take [it])⟩

theorem handles_getBase : Handles m item (processGetBase B.counted s m p item) := by
  rw [processGetBase]
  rcases hget : getCacheItem B.counted s m p true with ⟨reason | ⟨it, expiration⟩, m₁⟩
  · exact handles_plain ((refs_getCacheItem hget).trans (List.append_nil _)) rfl
  · refine ⟨[.take it, .release it], ?_, .inl ⟨rfl, leaves_release it⟩⟩
    have hm₁ := refs_getCacheItem hget
    show m₁.2 ++ [.release it] = _
    rw [hm₁, List.append_assoc]
    rfl

theorem handles_update {verb : Verb} (h : processUpdate B.counted m p verb = some d) :
    Handles m item d := by
  rw [processUpdate] at h
  rcases halloc : B.counted.exec m (.cache (.allocItem p.groupId p.key.length p.flags p.expiration
    p.value.length p.valueContentType.length)) with ⟨_ | it, m₁⟩
  · have hm₁ : m₁.2 = m.2 := refs_exec_none halloc rfl
    rw [halloc] at h
    dsimp only at h
    rcases hsize : B.counted.exec m₁ (.cache (.itemSizeOk p.key.length p.value.length
      p.valueContentType.length)) with ⟨_ | _, m₂⟩
    · have hm₂ : m₂.2 = m.2 := (refs_exec_none hsize rfl).trans hm₁
      rw [hsize] at h
      cases h
      exact ⟨[], hm₂.trans (List.append_nil _).symm, .inr leaves_nil⟩
    · have hm₂ : m₂.2 = m.2 := (refs_exec_none hsize rfl).trans hm₁
      rw [hsize] at h
      cases h
      exact ⟨[], hm₂.trans (List.append_nil _).symm, .inr leaves_nil⟩
  · have hm₁ : m₁.2 = m.2 ++ [.take it] := refs_exec halloc
    rw [halloc] at h
    dsimp only at h
    split at h
    · let contents : Contents :=
        { key := p.key.bytes, data := p.value.bytes, ext := p.valueContentType, cacheId := p.cacheId }
      have hm₂ : (B.counted.exec m₁ (.cache (.fill it contents))).2.2 = m₁.2 :=
        refs_exec_none rfl rfl
      obtain ⟨m₃, hm₃, hd, hnone⟩ : ∃ m₃ : β × List RefEvent,
          m₃.2 = m₁.2 ∧ d.mgr = B.counted.releaseReference m₃ it ∧ d.cacheItem = none := by
        split at h
        next hupdate =>
          cases h
          exact ⟨_, (refs_exec_none hupdate rfl).trans hm₂, rfl, rfl⟩
        next hupdate =>
          cases h
          exact ⟨_, (refs_exec_none hupdate rfl).trans hm₂, rfl, rfl⟩
      refine ⟨[.take it, .release it], ?_, .inr ?_⟩
      · rw [hd]
        show m₃.2 ++ [.release it] = _
        rw [hm₃, hm₁, List.append_assoc]
        rfl
      · rw [hnone]
        exact leaves_release it
    · cases h

theorem handles_execute {classId : UInt8} {o : Operation}
    (h : execute B.counted s m p item classId o = some d) : Handles m item d := by
  have hkey {d' : Done (β × List RefEvent)} (h : withKey p d' = some d) : d' = d := by
    rw [withKey] at h
    split at h
    · exact Option.some.inj h
    · cases h
  cases o with
  | error reason =>
    cases h
    exact handles_plain rfl rfl
  | get =>
    obtain rfl := hkey h
    exact handles_get
  | getBase =>
    obtain rfl := hkey h
    exact handles_getBase
  | update verb => exact handles_update h
  | delete =>
    obtain rfl := hkey h
    rw [processDelete]
    rcases hcall : B.counted.exec m (.cache (.remove p.groupId p.key.bytes p.cacheId)) with
      ⟨reason, m₁⟩
    cases reason <;> exact handles_call hcall rfl rfl rfl
  | delta incr =>
    obtain rfl := hkey h
    rw [processDelta]
    rcases hcall : B.counted.exec m (.cache (.delta p.groupId p.key.bytes incr p.delta p.cacheId))
      with ⟨⟨reason, cacheId, value⟩, m₁⟩
    cases reason <;> exact handles_call hcall rfl rfl rfl
  | flush =>
    cases h
    exact handles_call (k := .cache (.flush p.groupId)) rfl rfl rfl rfl
  | touch =>
    obtain rfl := hkey h
    exact handles_call (k := .cache (.updateExpiration p.groupId p.key.bytes p.cacheId
      p.expiration)) rfl rfl rfl rfl
  | updateFlags =>
    obtain rfl := hkey h
    exact handles_call (k := .cache (.updateFlags p.groupId p.key.bytes p.cacheId p.flags)) rfl
      rfl rfl rfl
  | stats =>
    cases h
    exact handles_call (k := .cache (.stats (p.subOp % 256) classId.toNat p.groupId)) rfl rfl rfl rfl
  | watch =>
    cases h
    rw [processWatch]
    rcases hcall : B.counted.exec m (.cache
      (.checkWatchAndSetCallback p.groupId p.watchId p.ackSequence p.interval)) with ⟨_ | out, m₁⟩
    · exact handles_call hcall rfl rfl rfl
    · dsimp only
      split
      · exact handles_call hcall rfl rfl rfl
      · exact handles_call hcall rfl rfl rfl
  | createWatch =>
    cases h
    exact handles_call (k := .cache (.createWatch p.groupId p.interval)) rfl rfl rfl rfl

end TrafficLemmas
end Handlers

/-! ## The connection -/

namespace Conn

variable {β : Type} (B : Backend β) (s : Settings) (c : Conn (β × List RefEvent))

/-- The peer has been destroyed. -/
def Dead : Prop :=
  c.run = false ∧ c.pending = none ∧ c.state ≠ .asyncWait ∧ c.undefined = false

/-- A request is being read, and its handler may overwrite the reference in `cache_item_`. -/
def Owes : Prop :=
  (c.state = .readHeader ∨ c.state = .readBodyExtras) ∧ c.cacheItem ≠ none

instance : Decidable c.Owes := inferInstanceAs (Decidable (_ ∧ _))

/-- After a response `process` goes on to the next request with a reference in `cache_item_`. -/
def Skips : Prop :=
  c.run = true ∧ c.state = .write ∧ c.processWrite.Owes

instance : Decidable c.Skips := inferInstanceAs (Decidable (_ ∧ _ ∧ _))

/-- At most `n` of the references that have been taken are neither released nor held. -/
def Accounts (n : Nat) : Prop :=
  ∃ lost : List Ptr, lost.length + (if c.Owes then 1 else 0) ≤ n ∧
    ∀ p, c.mgr.2.count (.take p) =
      c.mgr.2.count (.release p) + c.cacheItem.toList.count p + lost.count p

namespace AccountLemmas
open TrafficLemmas

variable {B s c} {c' : Conn (β × List RefEvent)} {n : Nat}

/-- The connection has changed in nothing that the references depend on. -/
structure Same (c c' : Conn (β × List RefEvent)) : Prop where
  state : c'.state = c.state
  item : c'.cacheItem = c.cacheItem
  mgr : c'.mgr = c.mgr

theorem accounts_of (h : c.Accounts n) (hitem : c'.cacheItem = c.cacheItem)
    (hmgr : c'.mgr = c.mgr) (howes : c'.Owes → c.Owes) : c'.Accounts n := by
  obtain ⟨lost, hlost, hcount⟩ := h
  refine ⟨lost, ?_, fun p => ?_⟩
  · refine le_trans (Nat.add_le_add_left ?_ _) hlost
    split
    next h' => rw [if_pos (howes h')]
    next => exact Nat.zero_le _
  · rw [hitem, hmgr]
    exact hcount p

theorem Same.accounts (hs : Same c c') (h : c.Accounts n) : c'.Accounts n := by
  refine accounts_of h hs.item hs.mgr fun howes => ?_
  rw [Owes, hs.state, hs.item] at howes
  exact howes

/-- In a state in which no request is being read. -/
theorem accounts_rest (hitem : c'.cacheItem = c.cacheItem) (hmgr : c'.mgr = c.mgr)
    (h : c.Accounts n) (h1 : c'.state ≠ .readHeader) (h2 : c'.state ≠ .readBodyExtras) :
    c'.Accounts n :=
  accounts_of h hitem hmgr fun howes => by
    obtain ⟨hst | hst, -⟩ := howes
    · exact absurd hst h1
    · exact absurd hst h2

/-- `reset_for_new_cmd` and the destructor. -/
theorem accounts_release (h : c.Accounts n)
    (hmgr : c'.mgr = c.cacheItem.elim c.mgr (B.counted.releaseReference c.mgr))
    (hitem : c'.cacheItem = none) : c'.Accounts n := by
  obtain ⟨lost, hlost, hcount⟩ := h
  refine ⟨lost, ?_, fun p => ?_⟩
  · have hnot : ¬ c'.Owes := fun howes => howes.2 hitem
    rw [if_neg hnot]
    exact (Nat.le_add_right _ _).trans hlost
  · have hp := hcount p
    have hrefs : c'.mgr.2 = c.mgr.2 ++ c.cacheItem.toList.map .release := by
      rw [hmgr]
      cases c.cacheItem with
      | none => exact (List.append_nil _).symm
      | some it => rfl
    rw [hrefs, hitem, List.count_append, List.count_append, count_take_release,
      count_release_release, hp]
    exact congrArg (· + _) (Nat.add_zero _).symm

theorem accounts_serve {classId : UInt8} {o : Operation} {p : Params} (h : c.Accounts n)
    (hreading : c.state = .readHeader ∨ c.state = .readBodyExtras) :
    (c.serve B.counted s classId o p).Accounts n := by
  rw [serve]
  rcases hexec : execute B.counted s c.mgr p c.cacheItem classId o with _ | d
  · exact Same.accounts ⟨rfl, rfl, rfl⟩ h
  obtain ⟨es, hrefs, hes⟩ := handles_execute hexec
  obtain ⟨lost, hlost, hcount⟩ := h
  -- the connection that the operation leaves behind
  have hdone (c' : Conn (β × List RefEvent)) (hmgr : c'.mgr = d.mgr)
      (hitem : c'.cacheItem = d.cacheItem) (hnot : ¬ c'.Owes) : c'.Accounts n := by
    rcases hes with ⟨hsame, hleaves⟩ | hleaves
    · refine ⟨lost, ?_, fun q => ?_⟩
      · rw [if_neg hnot]
        exact (Nat.le_add_right _ _).trans hlost
      · have hq := hcount q
        have he := hleaves q
        rw [hmgr, hrefs, hitem, hsame, List.count_append, List.count_append, hq, he]
        simp only [List.count_nil]
        omega
    · refine ⟨lost ++ c.cacheItem.toList, ?_, fun q => ?_⟩
      · rw [if_neg hnot, List.length_append]
        have hone : c.cacheItem.toList.length = if c.Owes then 1 else 0 := by
          cases hit : c.cacheItem with
          | none => rw [if_neg fun howes => howes.2 hit]; rfl
          | some it =>
            have howes : c.Owes := ⟨hreading, by rw [hit]; rintro ⟨⟩⟩
            rw [if_pos howes]
            rfl
        rw [hone]
        exact hlost
      · have hq := hcount q
        have he := hleaves q
        rw [hmgr, hrefs, hitem, List.count_append, List.count_append, List.count_append, hq, he]
        omega
  dsimp only
  cases d.reply with
  | none =>
    refine hdone _ rfl rfl fun howes => ?_
    obtain ⟨hst | hst, -⟩ := howes <;> cases hst
  | some r =>
    refine hdone _ rfl rfl fun howes => ?_
    obtain ⟨hst | hst, -⟩ := howes <;> cases hst

theorem accounts_processHead {classId : UInt8} {header : Bytes} (h : c.Accounts n)
    (hst : c.state = .readHeader) : (c.processHead B.counted s classId header).Accounts n := by
  rw [processHead]
  rcases processRequestHeader s c.params header with ⟨reason | _ | _, p⟩
  · exact accounts_serve h (.inl hst)
  · exact accounts_of h rfl rfl fun howes => ⟨.inl hst, howes.2⟩
  · exact accounts_serve h (.inl hst)

theorem same_processWrite (c : Conn (β × List RefEvent)) :
    c.processWrite.cacheItem = c.cacheItem ∧ c.processWrite.mgr = c.mgr := by
  unfold processWrite
  dsimp only
  generalize (if c.params.http.keepalive = true then c.nextState else PeerState.closing) = st
  split
  · split
    · exact ⟨rfl, rfl⟩
    · exact ⟨rfl, rfl⟩
  · exact ⟨rfl, rfl⟩

/-- One iteration. -/
theorem accounts_iterate (h : c.Accounts n) (hrun : c.run = true) (k : Nat) (classId : UInt8) :
    (c.iterate B.counted s k classId).Accounts (n + if c.Skips then 1 else 0) := by
  have hmore {c' : Conn (β × List RefEvent)} (h' : c'.Accounts n) :
      c'.Accounts (n + if c.Skips then 1 else 0) := by
    obtain ⟨lost, hlost, hcount⟩ := h'
    exact ⟨lost, hlost.trans (Nat.le_add_right _ _), hcount⟩
  have hstep : ∀ st, c.state = st →
      (c.iterate B.counted s k classId).Accounts (n + if c.Skips then 1 else 0) := by
    intro st hst
    cases st with
    | newCmd =>
      rw [iterate, hst]
      exact hmore (accounts_release h rfl rfl)
    | readHeader =>
      rw [iterate, hst]
      dsimp only
      split
      · exact hmore (accounts_processHead (Same.accounts ⟨rfl, rfl, rfl⟩ h) hst)
      · split
        · exact hmore (accounts_serve (Same.accounts ⟨rfl, rfl, rfl⟩ h) (.inl hst))
        · refine hmore (Same.accounts ?_ h)
          unfold fillBuffer
          dsimp only
          split
          · exact ⟨rfl, rfl, rfl⟩
          · exact ⟨rfl, rfl, rfl⟩
    | readBodyExtras =>
      rw [iterate, hst]
      dsimp only
      split
      · split
        · exact hmore (accounts_serve h (.inr hst))
        · exact hmore (Same.accounts (c := c) ⟨hst.symm, rfl, rfl⟩ h)
      · split
        · exact hmore (Same.accounts ⟨rfl, rfl, rfl⟩ h)
        · refine hmore (Same.accounts ?_ h)
          unfold fillBody
          dsimp only
          split
          · exact ⟨rfl, rfl, rfl⟩
          · exact ⟨rfl, rfl, rfl⟩
    | write =>
      have heq : c.iterate B.counted s k classId = c.processWrite := by rw [iterate, hst]
      obtain ⟨hitem, hmgr⟩ := same_processWrite c
      rw [heq]
      obtain ⟨lost, hlost, hcount⟩ := h
      refine ⟨lost, ?_, fun p => by rw [hitem, hmgr]; exact hcount p⟩
      refine Nat.add_le_add ((Nat.le_add_right _ _).trans hlost) ?_
      by_cases howes : c.processWrite.Owes
      · rw [if_pos howes, if_pos ⟨hrun, hst, howes⟩]
      · rw [if_neg howes]
        exact Nat.zero_le _
    | asyncWait | closed | readBodyFixed | readBodyExtras2 | swallow =>
      rw [iterate, hst]
      exact hmore (Same.accounts (c := c) ⟨hst.symm, rfl, rfl⟩ h)
    | closing =>
      rw [iterate, hst]
      exact hmore (accounts_rest (c := c) rfl rfl h (by rintro ⟨⟩) (by rintro ⟨⟩))
  exact hstep c.state rfl

theorem same_tryWrite (c : Conn (β × List RefEvent)) : Same c c.tryWrite.2 := by
  unfold tryWrite
  split
  · exact ⟨rfl, rfl, rfl⟩
  · exact ⟨rfl, rfl, rfl⟩

theorem same_tryRead (c : Conn (β × List RefEvent)) : Same c c.tryRead := by
  unfold tryRead
  split
  · exact ⟨rfl, rfl, rfl⟩
  · exact ⟨rfl, rfl, rfl⟩

/-- What holds between two actions. -/
structure Keeps (c : Conn (β × List RefEvent)) (n : Nat) : Prop where
  accounts : c.Accounts n
  dead : c.Dead → c.cacheItem = none

/-- A response is queued, and there is something to send. -/
theorem addTo_ne_nil (keepalive : Bool) (out : Option CheckOut) (w : List Piece) :
    (timerReply out).addTo keepalive w ≠ [] := by
  have hlen (i : Nat) (x : Piece) (l : List Piece) :
      (Reply.updateWriteBuf i x l).length = l.length := by
    unfold Reply.updateWriteBuf
    split
    · exact List.length_set
    · rfl
  cases out with
  | none => exact List.append_ne_nil_of_right_ne_nil _ (List.cons_ne_nil _ _)
  | some out =>
    show Reply.addTo keepalive (.updateList out.updatedList) w ≠ []
    rw [← List.length_pos_iff, Reply.addTo, hlen, hlen, List.length_append,
      List.length_append]
    exact Nat.lt_of_lt_of_le (Nat.succ_pos 1) ((Nat.le_add_left 2 _).trans (Nat.le_add_right _ _))

theorem keeps_destroy (h : c.Accounts n) : Keeps (c.destroy B.counted) n :=
  ⟨accounts_release h rfl rfl, fun _ => rfl⟩

/-- After `process`: the connection is there, or it is destroyed. -/
theorem keeps_leave (h : c.Accounts n) : Keeps (c.leave B.counted) n := by
  have hout (c₁ : Conn (β × List RefEvent)) (hs : Same c c₁) :
      Keeps (if c₁.pending = none ∧ c₁.state ≠ .asyncWait then c₁.destroy B.counted else c₁) n := by
    split
    next => exact keeps_destroy (hs.accounts h)
    next hover => exact ⟨hs.accounts h, fun hdead => absurd ⟨hdead.2.1, hdead.2.2.1⟩ hover⟩
  unfold leave
  dsimp only
  split
  · split
    · split
      · exact hout _ (same_tryWrite c)
      · have hwrite := same_tryWrite c
        have hread := same_tryRead c.tryWrite.2
        exact hout _ ⟨hread.state.trans hwrite.state, hread.item.trans hwrite.item,
          hread.mgr.trans hwrite.mgr⟩
    · exact hout c ⟨rfl, rfl, rfl⟩
  · exact hout _ (same_tryWrite c)

theorem keeps_turn (h : c.Accounts n) (hrun : c.run = true) (k : Nat) (classId : UInt8) :
    Keeps (c.turn B.counted s k classId) (n + if c.Skips then 1 else 0) := by
  have hnext := accounts_iterate (B := B) (s := s) h hrun k classId
  rw [turn]
  split
  next hgoes =>
    refine ⟨hnext, fun hdead => ?_⟩
    obtain ⟨hr, -, -, hu⟩ := hdead
    rw [hr, hu] at hgoes
    rcases hgoes with hgoes | hgoes <;> cases hgoes
  next => exact keeps_leave hnext

theorem keeps_step {a : Action} (h : Keeps c n) (hstep : c.Step B.counted s a c') :
    Keeps c' (n + if c.Skips then 1 else 0) := by
  obtain ⟨hperm, rfl⟩ := hstep
  have hmore {c' : Conn (β × List RefEvent)} (h' : Keeps c' n) :
      Keeps c' (n + if c.Skips then 1 else 0) := by
    obtain ⟨lost, hlost, hcount⟩ := h'.accounts
    exact ⟨⟨lost, hlost.trans (Nat.le_add_right _ _), hcount⟩, h'.dead⟩
  cases a with
  | turn k classId => exact keeps_turn h.accounts hperm k classId
  | handleRead k =>
    have hsame : Same c (c.handleRead k) := ⟨rfl, rfl, rfl⟩
    exact hmore ⟨hsame.accounts h.accounts, fun hdead => by cases hdead.1⟩
  | handleWrite =>
    have hsame : Same c c.handleWrite := ⟨rfl, rfl, rfl⟩
    exact hmore ⟨hsame.accounts h.accounts, fun hdead => by cases hdead.1⟩
  | handleError =>
    have hsame : Same c { c with pending := none } := ⟨rfl, rfl, rfl⟩
    refine hmore ?_
    show Keeps (c.handleError B.counted) n
    rw [handleError]
    split
    next => exact keeps_destroy (hsame.accounts h.accounts)
    next hs => exact ⟨hsame.accounts h.accounts, fun hdead => absurd hdead.2.2.1 hs⟩
  | handleTimer w =>
    refine hmore ?_
    rcases hcall : B.counted.exec c.mgr (.cache (.checkWatchAndClearCallback w)) with ⟨out, m⟩
    have hrefs : m.2 = c.mgr.2 := refs_exec_none hcall rfl
    let c₁ : Conn (β × List RefEvent) := c.notify B.counted w
    have hm : c₁.mgr.2 = c.mgr.2 := hrefs ▸ congrArg (fun x => x.2.2) hcall
    have haccounts : c₁.Accounts n := by
      obtain ⟨lost, hlost, hcount⟩ := h.accounts
      refine ⟨lost, ?_, fun p => ?_⟩
      · have hnot : ¬ c₁.Owes := fun howes => by
          obtain ⟨hst | hst, -⟩ := howes <;> cases hst
        rw [if_neg hnot]
        exact (Nat.le_add_right _ _).trans hlost
      · rw [hm]
        exact hcount p
    refine ⟨(same_tryWrite c₁).accounts haccounts, fun hdead => ?_⟩
    have hpending : c₁.tryWrite.2.pending = none := hdead.2.1
    unfold tryWrite at hpending
    split at hpending
    next => cases hpending
    next hno => exact absurd ⟨hpending, addTo_ne_nil _ _ _⟩ hno

theorem keeps_start (b : β) (data socket : Bytes) :
    Keeps (start (b, ([] : List RefEvent)) data socket) 0 := by
  unfold start
  dsimp only
  split
  · exact ⟨⟨[], Nat.le_refl 0, fun _ => rfl⟩, fun _ => rfl⟩
  · exact ⟨⟨[], Nat.le_refl 0, fun _ => rfl⟩, fun _ => rfl⟩

end AccountLemmas

open AccountLemmas

variable {B s} in
/-- **References.** What the peer has taken it has released, or holds in `cache_item_`, or has
overwritten there; it overwrites at most one reference for each time that it skips
`reset_for_new_cmd`. Nothing is held when it is gone. -/
theorem cacheItem_of_run {b : β} {data socket : Bytes} {c : Conn (β × List RefEvent)}
    {t : List (Conn (β × List RefEvent) × Action)}
    (hrun : Run (Step B.counted s) (start (b, []) data socket) t c) :
    (∃ lost : List Ptr, lost.length ≤ t.countP (fun x => x.1.Skips) ∧
      ∀ p, c.mgr.2.count (.take p) =
        c.mgr.2.count (.release p) + c.cacheItem.toList.count p + lost.count p) ∧
    (c.Dead → c.cacheItem = none) := by
  have hkeeps : Keeps c (t.countP fun x => x.1.Skips) := by
    induction hrun with
    | nil => exact keeps_start b data socket
    | snoc _ last ih =>
      have hstep := keeps_step ih last
      rw [List.countP_append, List.countP_singleton]
      simpa only [decide_eq_true_eq] using hstep
  obtain ⟨lost, hlost, hcount⟩ := hkeeps.accounts
  exact ⟨⟨lost, (Nat.le_add_right _ _).trans hlost, hcount⟩, hkeeps.dead⟩

/-- An entry is set; then a `GET` comes as a `POST` whose body arrives on its own, with another
`GET` behind it. -/
def posted : Conn ((CacheMgr × Nat) × List RefEvent) :=
  .start (((Sys.small .uint16).mgr, 0), [])
    (ascii "GET /manager/set?k=a&v=1 HTTP/1.1\r\n\r\n" ++
      ascii "POST /manager/get?k=a HTTP/1.1\r\nContent-Type: application/x-www-form-urlencoded\r\n" ++
      ascii "Content-Length: 1\r\n\r\n")
    (ascii "&GET /manager/get?k=a HTTP/1.1\r\n\r\n")

/-- The second `GET` overwrites the reference of the first. -/
theorem cacheItem_of_posted :
    let as : List Action := List.replicate 3 (.turn 0 0) ++ [.handleWrite] ++
      List.replicate 3 (.turn 0 0) ++ [.handleRead 100] ++ List.replicate 4 (.turn 0 0)
    let c := as.foldl (next smallBackend.counted .small) posted
    c.mgr.2.count (.take 0) = 3 ∧ c.mgr.2.count (.release 0) = 1 ∧ c.cacheItem = some 0 ∧
      ∃ lost : List Ptr, lost.length ≤ 1 ∧ ∀ p, c.mgr.2.count (.take p) =
        c.mgr.2.count (.release p) + c.cacheItem.toList.count p + lost.count p := by
  intro as c
  have hok : Admitted (fun (c : Conn ((CacheMgr × Nat) × List RefEvent)) a => c.Permitted a)
      (next smallBackend.counted .small) posted as := by
    decide +kernel
  have hskips : ((trace (next smallBackend.counted .small) posted as).countP
      fun x => x.1.Skips) = 1 := by
    decide +kernel
  have htake : c.mgr.2.count (.take 0) = 3 := by decide +kernel
  have hrelease : c.mgr.2.count (.release 0) = 1 := by decide +kernel
  have hitem : c.cacheItem = some 0 := by decide +kernel
  have hreach : Run (Step smallBackend.counted .small) posted
      (trace (next smallBackend.counted .small) posted as) c := hok.run_trace
  clear_value c
  obtain ⟨⟨lost, hlost, hcount⟩, -⟩ := cacheItem_of_run hreach
  rw [hskips] at hlost
  exact ⟨htake, hrelease, hitem, lost, hlost, hcount⟩

end Conn
end Xixi.Http
