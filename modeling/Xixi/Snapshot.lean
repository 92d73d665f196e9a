import Xixi.Counter
import Xixi.Steady

/-!
# The response to a get

A connection gets an item under the lock, later encodes the header of its response
from it, and sends the data straight from its memory, in as many pieces as the
socket takes. Between these steps other connections run operations of the manager.

1. `GetStep`: the connection and everyone else.
2. `holds_step`: what the operation of another leaves of the item.
3. `snapshot_of_run`: what is sent is one version of the entry, unless `delta`
   overwrites the data after the header has been encoded.
-/

namespace Xixi

open Lib CounterLemmas SteadyLemmas

/-- What the header of the response says, and where the data starts. -/
structure GetHeader where
  cacheId : Nat
  flags : Nat
  dataSize : Nat
  dataStart : Nat
deriving DecidableEq, Repr

def CacheItem.header (it : CacheItem) : GetHeader where
  cacheId := it.cacheId
  flags := it.flags
  dataSize := it.dataSize
  dataStart := it.keyLength

inductive GetPhase
  | idle
  | held (p : Ptr)
  | sending (p : Ptr) (header : GetHeader) (sent : Bytes)
deriving DecidableEq, Repr

/-- The item that the connection holds. -/
def GetPhase.item : GetPhase → Option Ptr
  | .idle => none
  | .held p => some p
  | .sending p _ _ => some p

structure Getter where
  sys : Sys
  phase : GetPhase

/-- A step of the connection that gets `k`, or the operation of another, who gives up
references of his own only. -/
inductive GetStep (env : Env) (k : Key) : Getter → Option Op → Getter → Prop
  | get {x y : Sys} {watchId : Nat} {p : Ptr} {expiration : Nat}
      (h : x.RoomStep env
        (.get k.1 k.2 watchId false, .get (some (p, expiration), .success)) y) :
      GetStep env k ⟨x, .idle⟩ none ⟨y, .held p⟩
  | encode {x : Sys} {p : Ptr} :
      GetStep env k ⟨x, .held p⟩ none ⟨x, .sending p (x.mgr.item p).header []⟩
  | transmit {x : Sys} {p : Ptr} {header : GetHeader} {sent : Bytes} {n : Nat}
      (h : sent.length + n ≤ header.dataSize) :
      GetStep env k ⟨x, .sending p header sent⟩ none
        ⟨x, .sending p header
          (sent ++ slice (x.mgr.item p).body (header.dataStart + sent.length) n)⟩
  | other {x y : Sys} {phase : GetPhase} {op : Op} {r : Outcome} (h : x.RoomStep env (op, r) y)
      (own : ∀ p, phase.item = some p → op.consumed = some p → 1 < x.out p) :
      GetStep env k ⟨x, phase⟩ (some op) ⟨y, phase⟩

/-- `delta` does not overwrite the data that is being sent. -/
def Getter.Undisturbed (env : Env) (s : Getter) : Option Op → Prop
  | none => True
  | some op => ∀ p header sent, s.phase = .sending p header sent → ¬ op.Overwrites env s.sys.mgr p

/-- The entry of the key has this id, these flags and this data. -/
def Shows (env : Env) (k : Key) (v : Nat × Nat × Bytes) (x : Sys) : Prop :=
  ∃ e, (abs env x.mgr).entry k = some e ∧ (e.cacheId, e.flags, e.data) = v

variable {env : Env} {k : Key} {x y : Sys} {p : Ptr} {op : Op} {r : Outcome}

/-! ## The item that is held -/

structure Holds (env : Env) (k : Key) (x : Sys) (p : Ptr) : Prop where
  sound : ∃ lost, SysInv env lost x
  out : 0 < x.out p
  stage : x.stage p = .passed
  ident : (x.mgr.item p).ident = k

namespace SnapshotLemmas

/-- What the client is sent of an item. -/
def version (it : CacheItem) : Nat × Nat × Bytes := (it.cacheId, it.flags, it.data)

/-- An entry is the item that it names. -/
theorem item_of_ptr {e : Entry} (hx : ∃ lost, SysInv env lost x)
    (he : (abs env x.mgr).entry k = some e) :
    (x.mgr.item e.ptr).ident = k ∧ version (x.mgr.item e.ptr) = (e.cacheId, e.flags, e.data) ∧
      x.mgr.Referenced e.ptr := by
  obtain ⟨lost, hx⟩ := hx
  obtain ⟨L, hL⟩ := hx.inv
  obtain ⟨q, hq, hk, rfl⟩ := (abs_entry_iff hL).mp he
  exact ⟨hk, rfl, hL.pos_of_linked hq⟩

/-- An item that is found is not in preparation. -/
theorem stage_of_entry {e : Entry} (hx : ∃ lost, SysInv env lost x)
    (he : (abs env x.mgr).entry k = some e) : x.stage e.ptr = .passed := by
  obtain ⟨lost, hx⟩ := hx
  by_contra hst
  exact (hx.prepared e.ptr hst).absent k e he rfl

/-- The reference of the connection is still there. -/
theorem out_step (h : 0 < x.out p) (hs : x.Step env (op, r) y)
    (hown : op.consumed = some p → 1 < x.out p) : 0 < y.out p := by
  have hout : y.out = bumpOpt (dropOpt x.out op.consumed) (x.exec env op).1.handed :=
    congrArg (fun z => z.2.out) hs.2.symm
  rw [hout]
  refine Nat.lt_of_lt_of_le ?_ (SystemLemmas.le_bumpOpt _ _ p)
  cases hc : op.consumed with
  | none => exact h
  | some q =>
    by_cases hq : p = q
    · subst hq
      have hmore := hown hc
      show 0 < drop x.out p p
      rw [drop, Function.update_self]
      omega
    · show 0 < drop x.out q p
      rw [drop, Function.update_of_ne hq]
      exact h

/-- No one else prepares the item. -/
theorem stage_step (hx : ∃ lost, SysInv env lost x) (hout : 0 < x.out p)
    (h : x.stage p = .passed) (hs : x.RoomStep env (op, r) y) : y.stage p = .passed := by
  obtain ⟨lost, hx⟩ := hx
  obtain ⟨L, hL⟩ := hx.inv
  have hpos : 0 < (x.mgr.item p).refCount := by
    have hcount := hL.refCount p
    have htotal : x.out p ≤ total x.out lost p := Nat.le_add_right ..
    omega
  have hst : y.stage = Sys.nextStage x.stage op (x.mgr.exec env op).1 :=
    congrArg (fun z => z.2.stage) hs.2.2.symm
  have hkeep : ∀ (q : Ptr) (st : Stage), q ≠ p → Function.update x.stage q st p = .passed :=
    fun q st hq => (Function.update_of_ne (Ne.symm hq) ..).trans h
  have hpass : ∀ q : Ptr, Function.update x.stage q .passed p = .passed := by
    intro q
    by_cases hq : p = q
    · rw [hq, Function.update_self]
    · exact hkeep q _ (Ne.symm hq)
  rw [hst]
  cases op with
  | alloc o g kl fl et ds es =>
    have hexec : (x.mgr.exec env (.alloc o g kl fl et ds es)).1 =
        .alloc (x.mgr.doAlloc env o g kl fl (CacheMgr.realtime x.mgr.currTime et) ds es).1 := rfl
    rw [hexec]
    cases hd : x.mgr.doAlloc env o g kl fl (CacheMgr.realtime x.mgr.currTime et) ds es with
    | mk q s' =>
      cases q with
      | none => exact h
      | some q =>
        have hidle := (hL.doAlloc_some hd).idle
        exact hkeep q _ fun hq => by rw [hq] at hidle; omega
  | fill q c =>
    have hq : x.stage q ≠ .passed := hs.2.1
    exact hkeep q _ fun he => hq (he ▸ h)
  | update verb o q w => exact hpass q
  | loadFromFileLink o q w => exact hpass q
  | releaseReference q => exact hpass q
  | _ => exact h

/-- The operation of another is not on this item, but for a further reference to it. -/
theorem subject_of_passed (h : x.stage p = .passed) (hp : x.Permitted op)
    (hown : op.consumed = some p → 1 < x.out p) (hsub : op.subject = some p) :
    op = .releaseReference p ∧ 1 < x.out p := by
  cases op with
  | fill q c =>
    obtain rfl := Option.some.inj hsub
    exact absurd h hp
  | update verb o q w =>
    obtain rfl := Option.some.inj hsub
    have hq : x.stage q = .filled := hp
    rw [h] at hq
    exact nomatch hq
  | loadFromFileLink o q w =>
    obtain rfl := Option.some.inj hsub
    have hq : x.stage q = .filled := hp
    rw [h] at hq
    exact nomatch hq
  | releaseReference q =>
    obtain rfl := Option.some.inj hsub
    exact ⟨rfl, hown rfl⟩
  | _ => exact nomatch hsub

/-- `update_flags` stores the same item with its data, under a new id. -/
theorem entry_reflags (hx : ∃ lost, SysInv env lost x) (hk : (x.mgr.item p).ident = k)
    (hs : x.RoomStep env (op, r) y) (h : op.Reflags env x.mgr p) :
    ∃ e, (abs env y.mgr).entry k = some e ∧ e.ptr = p ∧ e.data = (x.mgr.item p).data := by
  obtain ⟨-, a, hacts, hact⟩ := SysInv.act hx hs
  cases op with
  | updateFlags g key i fl =>
    obtain ⟨e, he, rfl, hi⟩ := h
    obtain ⟨hid, hv, -⟩ := item_of_ptr hx he
    obtain rfl : (g, key) = k := hid.symm.trans hk
    cases hacts
    have hres : (abs env x.mgr).updateFlags (g, key) i fl = (_, abs env y.mgr) :=
      Prod.ext rfl (Prod.mk.inj hact).2
    simp only [Store.updateFlags, he, if_pos hi] at hres
    rw [← (Prod.mk.inj hres).2]
    refine ⟨_, Function.update_self .., rfl, ?_⟩
    exact (congrArg (fun v => v.2.2) hv).symm
  | _ => exact absurd h id

/-- `delta` stores the same item. -/
theorem entry_overwrites (hx : ∃ lost, SysInv env lost x) (hk : (x.mgr.item p).ident = k)
    (hs : x.RoomStep env (op, r) y) (h : op.Overwrites env x.mgr p) :
    ∃ e, (abs env y.mgr).entry k = some e ∧ e.ptr = p := by
  obtain ⟨-, a, hacts, hact⟩ := SysInv.act hx hs
  cases op with
  | delta o g key incr d i =>
    obtain ⟨e, he, rfl, hi, hlen⟩ := h
    obtain ⟨hid, -⟩ := item_of_ptr hx he
    obtain rfl : (g, key) = k := hid.symm.trans hk
    cases hacts with
    | delta hnew =>
      have hres : (abs env x.mgr).delta (g, key) i _ _ _ = (_, abs env y.mgr) :=
        Prod.ext rfl (Prod.mk.inj hact).2
      rw [← (hnew e he).1] at hlen
      rw [Store.delta_inPlace he hi hlen] at hres
      rw [← (Prod.mk.inj hres).2]
      exact ⟨_, Function.update_self .., rfl⟩
  | _ => exact absurd h id

/-- The entry after a `get` is the item that it hands out. -/
theorem entry_get {w : Nat} {q : Ptr} {expiration : Nat} (hx : ∃ lost, SysInv env lost x)
    (hs : x.RoomStep env (.get k.1 k.2 w false, .get (some (q, expiration), .success)) y) :
    ∃ e, (abs env y.mgr).entry k = some e ∧ e.ptr = q := by
  obtain ⟨-, a, hacts, hact⟩ := SysInv.act hx hs
  cases hacts
  have hget : (abs env x.mgr).get k w = ((some (q, expiration), .success), abs env y.mgr) := by
    obtain ⟨hr, hst⟩ := Prod.mk.inj hact
    exact Prod.ext (Outcome.get.inj hr) hst
  unfold Store.get at hget
  split at hget
  · exact nomatch (Prod.mk.inj hget).1
  · next e he =>
    split at hget
    · split at hget
      · obtain ⟨hr, hst⟩ := Prod.mk.inj hget
        have hq : e.ptr = q := congrArg (fun r => (r.1.map Prod.fst).getD 0) hr
        rw [← hst]
        refine ⟨_, Function.update_self .., ?_⟩
        rw [← hq]
        unfold Entry.addWatchIf
        split <;> rfl
      · exact nomatch (Prod.mk.inj hget).1
    · exact nomatch (Prod.mk.inj hget).1

end SnapshotLemmas

open SnapshotLemmas

/-- The operation of another leaves the item as it is, or writes to it as the entry of the
key; then only `delta` changes the data. -/
theorem holds_step (h : Holds env k x p) (hs : x.RoomStep env (op, r) y)
    (hown : op.consumed = some p → 1 < x.out p) :
    Holds env k y p ∧
      (version (y.mgr.item p) = version (x.mgr.item p) ∨ Shows env k (version (y.mgr.item p)) y) ∧
      (¬ op.Overwrites env x.mgr p → (y.mgr.item p).data = (x.mgr.item p).data) := by
  have hy := (SysInv.act h.sound hs).1
  have hout := out_step h.out hs.2 hown
  have hstage := stage_step h.sound h.out h.stage hs
  -- written to in place, as the entry of the key
  have hentry : ∀ e, (abs env y.mgr).entry k = some e → e.ptr = p →
      Holds env k y p ∧ Shows env k (version (y.mgr.item p)) y ∧ (y.mgr.item p).data = e.data := by
    rintro e he rfl
    obtain ⟨hid, hv, -⟩ := item_of_ptr hy he
    exact ⟨⟨hy, hout, hstage, hid⟩, ⟨e, he, hv.symm⟩, congrArg (fun v => v.2.2) hv⟩
  by_cases hflags : op.Reflags env x.mgr p
  · obtain ⟨e, he, hp, hdata⟩ := entry_reflags h.sound h.ident hs hflags
    obtain ⟨hh, hshow, hd⟩ := hentry e he hp
    exact ⟨hh, .inr hshow, fun _ => hd.trans hdata⟩
  by_cases hdata : op.Overwrites env x.mgr p
  · obtain ⟨e, he, hp⟩ := entry_overwrites h.sound h.ident hs hdata
    obtain ⟨hh, hshow, -⟩ := hentry e he hp
    exact ⟨hh, .inr hshow, fun hn => absurd hdata hn⟩
  -- or left alone
  obtain ⟨lost, hx⟩ := h.sound
  obtain ⟨L, hL⟩ := hx.inv
  have hle : x.out p ≤ total x.out lost p := Nat.le_add_right ..
  have hcontent := content_exec hL (room_of_roomy hx hs.1)
    (SystemLemmas.ready_of_permitted hx hs.2.1) (Nat.lt_of_lt_of_le h.out hle)
    (fun hsub => by
      obtain ⟨hop, hmore⟩ := subject_of_passed h.stage hs.2.1 hown hsub
      exact ⟨hop, Nat.lt_of_lt_of_le hmore hle⟩) hflags hdata
  have hm : (x.mgr.exec env op).2 = y.mgr := congrArg (fun z => z.2.mgr) hs.2.2
  rw [hm] at hcontent
  refine ⟨⟨hy, hout, hstage, ?_⟩, .inl ?_, fun _ => congrArg (fun c => c.2.1) hcontent⟩
  · exact (congrArg Prod.fst hcontent).trans h.ident
  · exact congrArg (fun c => (c.2.2.2, c.2.2.1, c.2.1)) hcontent

/-! ## Runs -/

/-- Some state of the run has shown this version of the entry. -/
def Seen (env : Env) (k : Key) (v : Nat × Nat × Bytes) (t : List (Getter × Option Op)) (s : Getter) :
    Prop := (∃ z ∈ t, Shows env k v z.1.sys) ∨ Shows env k v s.sys

namespace SnapshotLemmas

variable {t : List (Getter × Option Op)} {s s' : Getter} {l : Option Op} {v : Nat × Nat × Bytes}

theorem seen_snoc (h : Seen env k v t s) : Seen env k v (t ++ [(s, l)]) s' := by
  rcases h with ⟨z, hz, h⟩ | h
  · exact .inl ⟨z, List.mem_append_left _ hz, h⟩
  · exact .inl ⟨(s, l), List.mem_append_right _ (List.mem_singleton_self _), h⟩

/-- What has been sent and what is still in the item are one version that has been seen. -/
def Consistent (env : Env) (k : Key) (t : List (Getter × Option Op)) (s : Getter) : Prop :=
  match s.phase with
  | .idle => ∃ lost, SysInv env lost s.sys
  | .held p => Holds env k s.sys p ∧ Seen env k (version (s.sys.mgr.item p)) t s
  | .sending p header sent => Holds env k s.sys p ∧
      Seen env k (header.cacheId, header.flags, (s.sys.mgr.item p).data) t s ∧
      header.dataSize = (s.sys.mgr.item p).data.length ∧ header.dataStart = k.2.length ∧
      sent <+: (s.sys.mgr.item p).data

theorem keyLength_eq {it : CacheItem} (h : it.ident = k) : it.keyLength = k.2.length := by
  rw [← CacheItem.length_key, ← h]
  rfl

/-- A further piece of the data. -/
theorem piece_prefix {it : CacheItem} {sent : Bytes} {n : Nat} (h : sent <+: it.data)
    (hn : sent.length + n ≤ it.dataSize) :
    sent ++ slice it.body (it.keyLength + sent.length) n <+: it.data := by
  have hsplit : ∀ m, m ≤ it.dataSize → slice it.body it.keyLength m <+: it.data := by
    intro m hm
    obtain ⟨j, hj⟩ := Nat.exists_eq_add_of_le hm
    rw [CacheItem.data, hj, slice_add]
    exact List.prefix_append _ _
  have hsent : sent = slice it.body it.keyLength sent.length := by
    have hfirst := hsplit sent.length (by omega)
    exact (List.prefix_of_prefix_length_le h hfirst (by rw [length_slice])).eq_of_length
      (by rw [length_slice])
  have hjoin : sent ++ slice it.body (it.keyLength + sent.length) n =
      slice it.body it.keyLength (sent.length + n) := by
    rw [slice_add, ← hsent]
  rw [hjoin]
  exact hsplit _ hn

theorem consistent_step (h : Consistent env k t s) (hs : GetStep env k s l s')
    (hl : s.Undisturbed env l) : Consistent env k (t ++ [(s, l)]) s' := by
  cases hs with
  | get hs =>
    have hy := (SysInv.act h hs).1
    obtain ⟨e, he, rfl⟩ := entry_get h hs
    obtain ⟨hid, hv, -⟩ := item_of_ptr hy he
    refine ⟨⟨hy, ?_, stage_of_entry hy he, hid⟩, .inr ⟨e, he, hv.symm⟩⟩
    have hr := congrArg Prod.fst hs.2.2
    have hout := congrArg (fun z => z.2.out e.ptr) hs.2.2
    simp only [Sys.exec] at hr hout
    rw [hr] at hout
    show 0 < Sys.out _ e.ptr
    rw [← hout]
    show 0 < bump _ e.ptr e.ptr
    rw [bump_self]
    exact Nat.succ_pos _
  | encode =>
    obtain ⟨hh, hseen⟩ := h
    exact ⟨hh, seen_snoc hseen, (CacheItem.length_data _).symm, keyLength_eq hh.ident,
      List.nil_prefix⟩
  | transmit hn =>
    obtain ⟨hh, hseen, hsize, hstart, hpre⟩ := h
    refine ⟨hh, seen_snoc hseen, hsize, hstart, ?_⟩
    rw [hstart, ← keyLength_eq hh.ident]
    rw [hsize, CacheItem.length_data] at hn
    exact piece_prefix hpre hn
  | @other x y phase op r hs hown =>
    cases phase with
    | idle => exact (SysInv.act h hs).1
    | held p =>
      obtain ⟨hh, hseen⟩ := h
      obtain ⟨hh', hv, -⟩ := holds_step hh hs (hown p rfl)
      refine ⟨hh', ?_⟩
      rcases hv with hv | hv
      · show Seen env k (version (y.mgr.item p)) _ _
        rw [hv]
        exact seen_snoc hseen
      · exact .inr hv
    | sending p header sent =>
      obtain ⟨hh, hseen, hsize, hstart, hpre⟩ := h
      obtain ⟨hh', -, hdata⟩ := holds_step hh hs (hown p rfl)
      have hd : (y.mgr.item p).data = (x.mgr.item p).data := hdata (hl p header sent rfl)
      refine ⟨hh', ?_, ?_, hstart, ?_⟩
      · show Seen env k (header.cacheId, header.flags, (y.mgr.item p).data) _ _
        rw [hd]
        exact seen_snoc hseen
      · show header.dataSize = (y.mgr.item p).data.length
        rw [hd]
        exact hsize
      · show sent <+: (y.mgr.item p).data
        rw [hd]
        exact hpre

end SnapshotLemmas

variable {lastTime limit itemSizeMax itemSizeMin : Nat} {factor : Rat}

/-- What the client has been sent in the end is one version of the entry, which it had in one of
the states of the run. -/
theorem snapshot_of_run {t : List (Getter × Option Op)} {header : GetHeader} {sent : Bytes}
    (h : Run (GetStep env k)
      ⟨Sys.start env lastTime limit itemSizeMax itemSizeMin factor, .idle⟩ t
      ⟨x, .sending p header sent⟩)
    (hl : ∀ z ∈ t, z.1.Undisturbed env z.2) (hall : sent.length = header.dataSize) :
    ∃ z ∈ t.map (fun z => z.1.sys) ++ [x], Shows env k (header.cacheId, header.flags, sent) z := by
  have hrun : ∀ {t s}, Run (GetStep env k)
      ⟨Sys.start env lastTime limit itemSizeMax itemSizeMin factor, .idle⟩ t s →
      (∀ z ∈ t, z.1.Undisturbed env z.2) → Consistent env k t s := by
    intro t s h hl
    induction h with
    | nil => exact ⟨_, sysInv_start⟩
    | snoc run last ih =>
      refine consistent_step (ih fun z hz => hl z (List.mem_append_left _ hz)) last ?_
      exact hl _ (List.mem_append_right _ (List.mem_singleton_self _))
  obtain ⟨-, hseen, hsize, -, hpre⟩ := hrun h hl
  have hsent := hpre.eq_of_length (hall.trans hsize)
  rw [hsent]
  rcases hseen with ⟨z, hz, hshow⟩ | hshow
  · exact ⟨_, List.mem_append_left _ (List.mem_map_of_mem hz), hshow⟩
  · exact ⟨_, List.mem_append_right _ (List.mem_singleton_self _), hshow⟩

/-! ## Two runs -/

/-- The item `k` of group 1 holds one byte. -/
def byteOps : List Op :=
  [.alloc .zeros 1 1 0 0 1 0, .fill 0 ⟨[107], [53], [], 0⟩, .update .set .zeros 0 0,
    .releaseReference 0]

/-- The item is set, fetched, and its header encoded; another connection runs `op`, and the data
is sent. -/
theorem run_sending {env : Env} {x y : Sys} {t : List (Getter × Option Op)} (z : Sys) (op : Op)
    (r : Outcome) (header : GetHeader) (piece : Bytes)
    (hset : Run (GetStep env (1, [107])) ⟨x, .idle⟩ t ⟨y, .idle⟩)
    (hget : y.RoomStep env (.get 1 [107] 0 false, .get (some (0, 0), .success)) z)
    (hheader : (z.mgr.item 0).header = header) (hroom : z.Roomy env) (hperm : z.Permitted op)
    (hout : (z.exec env op).1 = r) (hown : op.consumed = none)
    (hsize : header.dataSize = 1)
    (hpiece : slice ((z.exec env op).2.mgr.item 0).body header.dataStart 1 = piece) :
    Run (GetStep env (1, [107])) ⟨x, .idle⟩
      (t ++ [(⟨y, .idle⟩, none), (⟨z, .held 0⟩, none), (⟨z, .sending 0 header []⟩, some op),
        (⟨(z.exec env op).2, .sending 0 header []⟩, none)])
      ⟨(z.exec env op).2, .sending 0 header piece⟩ := by
  subst hheader hpiece
  have h1 : GetStep env (1, [107]) ⟨y, .idle⟩ none ⟨z, .held 0⟩ := .get hget
  have h2 : GetStep env (1, [107]) ⟨z, .held 0⟩ none _ := .encode
  have h3 : GetStep env (1, [107]) ⟨z, .sending 0 (z.mgr.item 0).header []⟩ (some op) _ :=
    .other ⟨hroom, hperm, Prod.ext hout rfl⟩ fun _ _ hc => nomatch hown.symm.trans hc
  have h4 : GetStep env (1, [107])
      ⟨(z.exec env op).2, .sending 0 (z.mgr.item 0).header []⟩ none _ :=
    .transmit (n := 1) (Nat.le_of_eq hsize.symm)
  exact hset.trans ((Run.single h1).trans ((Run.single h2).trans ((Run.single h3).trans
    (Run.single h4))))

/-- While nothing has been fetched, everyone runs operations. -/
theorem run_idle {x y : Sys} {t : List (Sys × (Op × Outcome))} (h : Run (Sys.RoomStep env) x t y) :
    Run (GetStep env k) ⟨x, .idle⟩ (t.map fun z => (⟨z.1, .idle⟩, some z.2.1)) ⟨y, .idle⟩ := by
  induction h with
  | nil => exact .nil _
  | snoc _ last ih =>
    rw [List.map_append]
    exact .snoc ih (.other last nofun)

theorem shows_iff {v : Nat × Nat × Bytes} :
    Shows env k v x ↔
      ((abs env x.mgr).entry k).map (fun e => (e.cacheId, e.flags, e.data)) = some v :=
  Option.map_eq_some_iff.symm

theorem run_byteOps :
    Run (GetStep (.colliding .uint16) (1, [107])) ⟨Sys.small .uint16, .idle⟩
      (((Sys.small .uint16).trace (.colliding .uint16) byteOps).map fun z =>
        (⟨z.1, .idle⟩, some z.2.1))
      ⟨(Sys.small .uint16).execAll (.colliding .uint16) byteOps, .idle⟩ :=
  run_idle (Sys.roomRun_execAll (by decide +kernel) (by decide +kernel))

/-- The flags are changed while the data is being sent. -/
theorem snapshot_flags :
    let env := Env.colliding .uint16
    ∃ t x, Run (GetStep env (1, [107])) ⟨Sys.small .uint16, .idle⟩ t
        ⟨x, .sending 0 ⟨1, 0, 1, 1⟩ [53]⟩ ∧
      ∃ z ∈ t.map (fun z => z.1.sys) ++ [x], Shows env (1, [107]) (1, 0, [53]) z := by
  intro env
  have hrun := run_sending
    (((Sys.small .uint16).execAll env byteOps).execAll env [.get 1 [107] 0 false]) (.updateFlags 1 [107] 0 7)
    (.base (true, 2)) ⟨1, 0, 1, 1⟩ [53] run_byteOps
    ⟨by decide +kernel, Sys.step_execAll (by decide) (by decide +kernel)⟩ (by decide +kernel)
    (by decide +kernel) (by decide) (by decide +kernel) rfl rfl (by decide +kernel)
  refine ⟨_, _, hrun, snapshot_of_run hrun (fun s hs => ?_) rfl⟩
  rcases List.mem_append.mp hs with hs | hs
  · obtain ⟨w, -, rfl⟩ := List.mem_map.mp hs
    exact fun _ _ _ hp => nomatch hp
  · simp only [List.mem_cons, List.not_mem_nil, or_false] at hs
    rcases hs with rfl | rfl | rfl | rfl
    · trivial
    · trivial
    · exact fun _ _ _ _ => id
    · trivial

/-- `delta` makes 6 of 5 where it lies: the 6 is sent under the id of the 5. -/
theorem not_snapshot_delta :
    let env := Env.colliding .uint16
    ∃ t x header sent, Run (GetStep env (1, [107])) ⟨Sys.small .uint16, .idle⟩ t
        ⟨x, .sending 0 header sent⟩ ∧ sent.length = header.dataSize ∧
      ¬ ∃ z ∈ t.map (fun z => z.1.sys) ++ [x],
        Shows env (1, [107]) (header.cacheId, header.flags, sent) z := by
  intro env
  have hrun := run_sending
    (((Sys.small .uint16).execAll env byteOps).execAll env [.get 1 [107] 0 false])
    (.delta .zeros 1 [107] true 1 0) (.delta (.success, 2, 6)) ⟨1, 0, 1, 1⟩ [54]
    run_byteOps ⟨by decide +kernel, Sys.step_execAll (by decide) (by decide +kernel)⟩
    (by decide +kernel) (by decide +kernel) (by decide) (by decide +kernel) rfl rfl
    (by decide +kernel)
  refine ⟨_, _, _, _, hrun, rfl, ?_⟩
  simp only [shows_iff]
  decide +kernel

end Xixi
