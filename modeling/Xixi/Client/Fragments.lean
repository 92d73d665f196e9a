import Xixi.Counter
import Xixi.Client.TransCoder

/-!
# Texts that are put together at the server (`set`, `append` and `prepend` of the client)

The client encodes each fragment on its own. The server puts the bytes together and keeps the flags
of the value that was set, so that what a client reads back is decoded as that value was encoded: a
compressed fragment behind a plain text, or a plain one behind a compressed text, is not read back.

1. `Sends`: a request item holds what the client sends for a text.
2. `SetStep`, `TextStep`: a text is set, and a fragment is appended or prepended to it.
3. `text_run`: fragments that are encoded like the text they are added to are read back with it.
4. `not_text_compressed`: a text that is lost behind a compressed one.
-/

namespace Xixi.Coder

open Lib CounterLemmas ObjectTransCoder

variable {T S : Type}

/-- The item holds what the client sends for the text. -/
structure Sends (jdk : Jdk T S) (k : Key) (s : T) (it : CacheItem) : Prop where
  ident : it.ident = k
  data : it.data = textBytes jdk s
  flags : it.flags = (textFlags jdk s).toNat

/-- The text is set under a key. -/
def SetStep (env : Env) (jdk : Jdk T S) (k : Key) (x : Sys) (s : T) (y : Sys) : Prop :=
  ∃ o p w id, Sends jdk k s (x.mgr.item p) ∧
    x.RoomStep env (.update .set o p w, .update (.success, id)) y

/-- Where a fragment goes. -/
inductive Side
  | behind
  | before
deriving DecidableEq, Repr

def Side.verb : Side → Verb
  | .behind => .append
  | .before => .prepend

/-- A text or bytes with a fragment on one of their sides. -/
def Side.join {α : Type} [Append α] (a b : α) : Side → α
  | .behind => a ++ b
  | .before => b ++ a

/-- A fragment is added successfully, or another step leaves what is stored under the key alone. -/
def TextStep (env : Env) (jdk : Jdk T S) (k : Key) (x : Sys) : Option (Side × T) → Sys → Prop
  | some (side, s), y => ∃ o p w id, Sends jdk k s (x.mgr.item p) ∧
      x.RoomStep env (.update side.verb o p w, .update (.success, id)) y
  | none, y => (∃ l, x.RoomStep env l y) ∧ ∀ e, (abs env x.mgr).entry k = some e →
      ∃ e', (abs env y.mgr).entry k = some e' ∧ e'.data = e.data ∧ e'.flags = e.flags ∧
        e'.expireTime = e.expireTime

/-- The fragments of a run. -/
def fragments (t : List (Sys × Option (Side × T))) : List (Side × T) :=
  t.filterMap Prod.snd

/-- The text that the fragments make. -/
def textAfter [Append T] (s : T) (l : List (Side × T)) : T :=
  l.foldl (fun s f => f.1.join s f.2) s

/-- A fragment is encoded like the text it is added to, or nothing at all is sent for it. -/
def EncodedLike (jdk : Jdk T S) (s : T) (f : Side × T) : Prop :=
  jdk.getBytes f.2 = [] ∨
    default.compresses jdk (jdk.getBytes f.2) = default.compresses jdk (jdk.getBytes s)

/-- The number of bytes that are sent. -/
def sentLength (jdk : Jdk T S) (s : T) (l : List (Side × T)) : Nat :=
  (textBytes jdk s).length + (l.map fun f => (textBytes jdk f.2).length).sum

namespace FragmentLemmas

variable {env : Env} {x y z : Sys} {k : Key} {jdk : Jdk T S} {s : T}

/-! ## The bytes at the server -/

theorem addWatchIf_eq (e : Entry) (w : Nat) :
    ∃ o, e.addWatchIf w = { e with watch := o } := by
  unfold Entry.addWatchIf
  split
  · exact ⟨_, rfl⟩
  · exact ⟨e.watch, rfl⟩

/-- What a link stores. -/
theorem entry_link_addWatchIf (st : Store) (k : Key) (e : Entry) (w : Nat) :
    ∃ o, (st.link k (e.addWatchIf w)).entry k =
      some { e with cacheId := st.nextId, watch := o } := by
  obtain ⟨o, ho⟩ := addWatchIf_eq e w
  rw [ho, Store.entry_link, Function.update_self]
  exact ⟨o, rfl⟩

/-- The request item is stored under a new cache id. -/
def Stores (st st' : Store) (k : Key) (e : Entry) (id : Option Nat) : Prop :=
  st'.currTime = st.currTime ∧
    ∃ n o, id = some n ∧ st'.entry k = some { e with cacheId := n, watch := o }

theorem add_success {st st' : Store} {e : Entry} {w : Nat} {id : Option Nat}
    (h : st.add k e w = ((.success, id), st')) : Stores st st' k e id := by
  unfold Store.add at h
  cases hk : st.entry k with
  | some old =>
    rw [hk] at h
    exact nomatch (Prod.mk.inj (Prod.mk.inj h).1).1
  | none =>
    rw [hk] at h
    dsimp only at h
    split at h
    · obtain ⟨hid, rfl⟩ := Prod.mk.inj h
      obtain ⟨o, ho⟩ := entry_link_addWatchIf st k e w
      exact ⟨rfl, _, o, (Prod.mk.inj hid).2.symm, ho⟩
    · exact nomatch (Prod.mk.inj (Prod.mk.inj h).1).1

theorem replace_success {st st' : Store} {e : Entry} {w : Nat} {id : Option Nat}
    (h : st.replace k e w = ((.success, id), st')) : Stores st st' k e id := by
  unfold Store.replace at h
  cases hk : st.entry k with
  | none =>
    rw [hk] at h
    exact nomatch (Prod.mk.inj (Prod.mk.inj h).1).1
  | some old =>
    rw [hk] at h
    dsimp only at h
    split at h
    · split at h
      · obtain ⟨hid, rfl⟩ := Prod.mk.inj h
        obtain ⟨o, ho⟩ := entry_link_addWatchIf (st.unlink k .dataUpdated) k e w
        rw [Store.nextId_unlink] at ho
        exact ⟨Store.currTime_unlink .., _, o, (Prod.mk.inj hid).2.symm, ho⟩
      · exact nomatch (Prod.mk.inj (Prod.mk.inj h).1).1
    · exact nomatch (Prod.mk.inj (Prod.mk.inj h).1).1

theorem set_success {st st' : Store} {e : Entry} {w : Nat} {id : Option Nat}
    (h : st.set k e w = ((.success, id), st')) : Stores st st' k e id := by
  unfold Store.set at h
  cases hk : st.entry k with
  | none =>
    rw [hk] at h
    exact add_success h
  | some old =>
    rw [hk] at h
    exact replace_success h

theorem append_success {st st' : Store} {i w : Nat} {new : Option Entry} {id : Option Nat}
    (h : st.append k i new w = ((.success, id), st')) :
    ∃ old e, st.entry k = some old ∧ new = some e ∧ Stores st st' k e id := by
  unfold Store.append at h
  cases hk : st.entry k with
  | none =>
    rw [hk] at h
    exact nomatch (Prod.mk.inj (Prod.mk.inj h).1).1
  | some old =>
    rw [hk] at h
    dsimp only at h
    split at h
    · exact nomatch (Prod.mk.inj (Prod.mk.inj h).1).1
    · cases new with
      | none => exact nomatch (Prod.mk.inj (Prod.mk.inj h).1).1
      | some e =>
        dsimp only at h
        split at h
        · obtain ⟨hid, rfl⟩ := Prod.mk.inj h
          refine ⟨old, e, rfl, rfl, Store.currTime_unlink .., _, e.watch,
            (Prod.mk.inj hid).2.symm, ?_⟩
          rw [Store.entry_link, Function.update_self, Store.nextId_unlink]
        · exact nomatch (Prod.mk.inj (Prod.mk.inj h).1).1

/-- What is stored under the key. -/
def Holds (env : Env) (k : Key) (x : Sys) (data : Bytes) (flags : Nat) : Prop :=
  ∃ e, (abs env x.mgr).entry k = some e ∧ e.data = data ∧ e.flags = flags

/-- The server stores what it is sent. -/
theorem holds_set (hx : SysSound env x) (h : SetStep env jdk k x s y) :
    Holds env k y (textBytes jdk s) (textFlags jdk s).toNat := by
  obtain ⟨o, p, w, id, hsends, hstep⟩ := h
  obtain ⟨-, a, hacts, hact⟩ := SysInv.act hx.1 hstep
  cases hacts with
  | set =>
    have hset : (abs env x.mgr).set (x.mgr.item p).ident ((x.mgr.item p).entry p) w =
        ((.success, id), abs env y.mgr) := by
      obtain ⟨hr, hst⟩ := Prod.mk.inj hact
      exact Prod.ext (Outcome.update.inj hr) hst
    rw [hsends.ident] at hset
    obtain ⟨-, n, o, -, he⟩ := set_success hset
    exact ⟨_, he, hsends.data, hsends.flags⟩

/-- The item that is allocated under the lock holds both parts. -/
theorem holds_appended {st : Store} {i w size flags : Nat} {new : Option Entry}
    {id : Option Nat} {first second : Bytes}
    (hact : st.act (.append k i new w) = (.update (.success, id), abs env y.mgr))
    (hnew : ∀ e, new = some e → ∃ ext et es, NewEntry st e first second ext flags et size es)
    (hlen : first.length + second.length = size) : Holds env k y (first ++ second) flags := by
  have happend : st.append k i new w = ((.success, id), abs env y.mgr) := by
    obtain ⟨hr, hst⟩ := Prod.mk.inj hact
    exact Prod.ext (Outcome.update.inj hr) hst
  obtain ⟨-, e, -, rfl, -, n, o, -, he⟩ := append_success happend
  obtain ⟨ext, et, es, hentry⟩ := hnew e rfl
  exact ⟨_, he, hentry.data hlen, hentry.flags⟩

/-- The server puts bytes together and keeps the flags. -/
theorem holds_step {data : Bytes} {flags : Nat} {side : Side} (hx : SysSound env x)
    (hold : Holds env k x data flags) (hfit : data.length + (textBytes jdk s).length < 2 ^ 32)
    (h : TextStep env jdk k x (some (side, s)) y) :
    Holds env k y (side.join data (textBytes jdk s)) flags := by
  obtain ⟨o, p, w, id, hsends, hstep⟩ := h
  obtain ⟨-, a, hacts, hact⟩ := SysInv.act hx.1 hstep
  obtain ⟨old, hold, rfl, rfl⟩ := hold
  have hsize : ((x.mgr.item p).dataSize + old.data.length) % 2 ^ 32 =
      old.data.length + (textBytes jdk s).length := by
    rw [← CacheItem.length_data, hsends.data, Nat.add_comm, Nat.mod_eq_of_lt hfit]
  cases side with
  | behind =>
    cases hacts with
    | append hnew =>
      rw [hsends.ident] at hact hnew
      refine holds_appended hact (fun e he => ?_) rfl
      have hentry := hnew e old he hold
      rw [hsends.data, hsize] at hentry
      exact ⟨_, _, _, hentry⟩
  | before =>
    cases hacts with
    | prepend hnew =>
      rw [hsends.ident] at hact hnew
      refine holds_appended hact (fun e he => ?_) (Nat.add_comm _ _)
      have hentry := hnew e old he hold
      rw [hsends.data, hsize] at hentry
      exact ⟨_, _, _, hentry⟩

theorem sound_text {l : Option (Side × T)} (hx : SysSound env x) (h : TextStep env jdk k x l y) :
    SysSound env y := by
  cases l with
  | none =>
    obtain ⟨⟨l, hstep⟩, -⟩ := h
    exact sound_step hx hstep
  | some f =>
    obtain ⟨o, p, w, id, -, hstep⟩ := h
    exact sound_step hx hstep

/-! ## What the bytes are read as -/

/-- The bytes are those of the text, encoded like `s`. -/
def Reads (jdk : Jdk T S) (s : T) (data : Bytes) (text : T) : Prop :=
  if default.compresses jdk (jdk.getBytes s) then
    ∃ l, l ≠ [] ∧ data = (l.map jdk.gzip).flatten ∧ l.flatten = jdk.getBytes text
  else data = jdk.getBytes text

theorem reads_self (jdk : Jdk T S) (s : T) : Reads jdk s (textBytes jdk s) s := by
  obtain ⟨hdata, -⟩ := encode_string jdk s
  unfold Reads
  split
  · next hc =>
    rw [if_pos hc] at hdata
    refine ⟨[jdk.getBytes s], List.cons_ne_nil _ _, ?_, List.flatten_singleton⟩
    rw [hdata, List.map_singleton, List.flatten_singleton]
  · next hc =>
    rw [if_neg hc] at hdata
    exact hdata

variable [Append T]

theorem length_join (a b : Bytes) (side : Side) : (side.join a b).length = a.length + b.length := by
  cases side with
  | behind => exact List.length_append
  | before => exact List.length_append.trans (Nat.add_comm _ _)

theorem getBytes_join (hjdk : jdk.Faithful) (s s' : T) (side : Side) :
    jdk.getBytes (side.join s s') = side.join (jdk.getBytes s) (jdk.getBytes s') := by
  cases side with
  | behind => exact hjdk.getBytes s s'
  | before => exact hjdk.getBytes s' s

theorem flatten_join (l : List Bytes) (b : Bytes) (side : Side) :
    (side.join l [b]).flatten = side.join l.flatten b := by
  cases side with
  | behind => exact List.flatten_concat
  | before => exact List.flatten_cons

omit [Append T] in
theorem map_join (l : List Bytes) (b : Bytes) (side : Side) :
    (side.join l [b]).map jdk.gzip = side.join (l.map jdk.gzip) [jdk.gzip b] := by
  cases side with
  | behind => exact List.map_append
  | before => exact List.map_append

theorem join_nil (a : Bytes) (side : Side) : side.join a [] = a := by
  cases side with
  | behind => exact List.append_nil a
  | before => exact List.nil_append a

/-- A fragment that is encoded alike is read with the rest. -/
theorem reads_join (hjdk : jdk.Faithful) {data : Bytes} {text : T} {f : Side × T}
    (h : Reads jdk s data text) (hlike : EncodedLike jdk s f) :
    Reads jdk s (f.1.join data (textBytes jdk f.2)) (f.1.join text f.2) := by
  obtain ⟨hdata, -⟩ := encode_string jdk f.2
  rcases hlike with hempty | hsame
  · -- nothing is sent
    rw [hempty, compresses_nil] at hdata
    have hnil : textBytes jdk f.2 = [] := hdata
    unfold Reads at h ⊢
    rw [hnil, join_nil, getBytes_join hjdk, hempty, join_nil]
    exact h
  · unfold Reads at h ⊢
    rw [hsame] at hdata
    split at h
    · next hc =>
      obtain ⟨l, hl, rfl, htext⟩ := h
      rw [if_pos hc] at hdata ⊢
      refine ⟨f.1.join l [jdk.getBytes f.2], ?_, ?_, ?_⟩
      · cases f.1 with
        | behind => exact List.concat_ne_nil _ _
        | before => exact List.cons_ne_nil _ _
      · rw [map_join, flatten_join, hdata]
      · rw [flatten_join, getBytes_join hjdk, htext]
    · next hc =>
      rw [if_neg hc] at hdata ⊢
      rw [getBytes_join hjdk, h, hdata]

theorem decode_of_reads (hjdk : jdk.Faithful) {data : Bytes} {text : T}
    (h : Reads jdk s data text) : decode jdk data (textFlags jdk s) = some (.string text) := by
  obtain ⟨-, hflags⟩ := encode_string jdk s
  unfold Reads at h
  split at h
  · next hc =>
    obtain ⟨l, hl, rfl, htext⟩ := h
    rw [hflags, if_pos hc, decode_compressed, hjdk.gunzip l hl, htext, Option.map_some,
      hjdk.newString]
  · next hc =>
    rw [hflags, if_neg hc, decode_plain, h, hjdk.newString]

/-! ## Runs -/

omit [Append T] in
theorem fragments_concat (t : List (Sys × Option (Side × T))) (x : Sys) (l : Option (Side × T)) :
    fragments (t ++ [(x, l)]) = fragments t ++ l.toList := by
  rw [fragments, List.filterMap_append]
  cases l with
  | none => rfl
  | some f => rfl

omit [Append T] in
theorem sentLength_concat (jdk : Jdk T S) (s : T) (l : List (Side × T)) (f : Side × T) :
    sentLength jdk s (l ++ [f]) = sentLength jdk s l + (textBytes jdk f.2).length := by
  rw [sentLength, sentLength, List.map_append, List.sum_append, List.map_singleton,
    List.sum_singleton, Nat.add_assoc]

/-- As long as the fragments are encoded alike, the server holds bytes that are read as the text. -/
theorem holds_run (hjdk : jdk.Faithful) (hx : SysSound env x)
    (hold : Holds env k x (textBytes jdk s) (textFlags jdk s).toNat)
    {t : List (Sys × Option (Side × T))} (h : Run (TextStep env jdk k) x t y)
    (hlike : ∀ f ∈ fragments t, EncodedLike jdk s f)
    (hfit : sentLength jdk s (fragments t) < 2 ^ 32) :
    SysSound env y ∧ ∃ data, Holds env k y data (textFlags jdk s).toNat ∧
      Reads jdk s data (textAfter s (fragments t)) ∧ data.length = sentLength jdk s (fragments t) := by
  induction h with
  | nil => exact ⟨hx, _, hold, reads_self jdk s, rfl⟩
  | @snoc y z t l run last ih =>
    rw [fragments_concat] at hlike hfit ⊢
    cases l with
    | none =>
      rw [Option.toList_none, List.append_nil] at hlike hfit ⊢
      obtain ⟨hy, data, ⟨e, he, rfl, hflags⟩, hrest⟩ := ih hlike hfit
      obtain ⟨e', he', hdata', hflags', -⟩ := last.2 e he
      exact ⟨sound_text hy last, _, ⟨e', he', hdata', hflags'.trans hflags⟩, hrest⟩
    | some f =>
      rw [Option.toList_some] at hlike hfit ⊢
      rw [sentLength_concat] at hfit ⊢
      obtain ⟨hy, data, hold, hreads, hlen⟩ :=
        ih (fun f hf => hlike f (List.mem_append_left _ hf)) (by omega)
      have hstep : Holds env k z (f.1.join data (textBytes jdk f.2)) (textFlags jdk s).toNat :=
        holds_step hy hold (by omega) last
      refine ⟨sound_text hy last, _, hstep, ?_, ?_⟩
      · rw [textAfter, List.foldl_append]
        exact reads_join hjdk hreads (hlike f (List.mem_append_right _ (List.mem_singleton_self f)))
      · rw [length_join, hlen]

/-- A get returns the item of an entry that has not run out, and nothing else. -/
theorem get_entry {e : Entry} {w : Nat} (b : Bool) (hy : ∃ lost, SysInv env lost y)
    (he : (abs env y.mgr).entry k = some e) (hroom : y.Roomy env)
    (hw : (abs env y.mgr).watchOk w = true) :
    if e.expireTime = 0 ∨ y.mgr.currTime < e.expireTime then
      ∃ z o, y.exec env (.get k.1 k.2 w b) = (.get (some (e.ptr,
        if e.expireTime = 0 then 0 else e.expireTime - y.mgr.currTime), .success), z) ∧
        (z.mgr.item e.ptr).entry e.ptr = { e with watch := o }
    else (y.exec env (.get k.1 k.2 w b)).1 = .get (none, .notFound) := by
  have hstep : y.RoomStep env (.get k.1 k.2 w b, (y.exec env (.get k.1 k.2 w b)).1)
      (y.exec env (.get k.1 k.2 w b)).2 := ⟨hroom, trivial, rfl⟩
  obtain ⟨hz, a, hacts, hact⟩ := SysInv.act hy hstep
  cases hacts with
  | get =>
    by_cases hlive : e.expireTime = 0 ∨ y.mgr.currTime < e.expireTime
    · rw [if_pos hlive]
      have hget : (abs env y.mgr).act (.get k w) = (.get (some (e.ptr,
          if e.expireTime = 0 then 0 else e.expireTime - y.mgr.currTime), .success),
          (abs env y.mgr).put k (some (e.addWatchIf w))) := by
        rw [Store.act, Store.get, he]
        dsimp only
        rw [if_pos (show e.expireTime = 0 ∨ (abs env y.mgr).currTime < e.expireTime from hlive),
          if_pos hw]
        rfl
      obtain ⟨hr, hst⟩ := Prod.mk.inj (hget.symm.trans hact)
      obtain ⟨o, ho⟩ := addWatchIf_eq e w
      refine ⟨_, o, Prod.ext hr.symm rfl, ?_⟩
      have hentry : (abs env (y.exec env (.get k.1 k.2 w b)).2.mgr).entry k =
          some { e with watch := o } := by
        rw [← hst, ho]
        exact Function.update_self ..
      obtain ⟨lost, hz⟩ := hz
      obtain ⟨L, hL⟩ := hz.inv
      obtain ⟨p, -, -, hp⟩ := (abs_entry_iff hL).mp hentry
      obtain rfl : e.ptr = p := congrArg Entry.ptr hp
      exact hp.symm
    · rw [if_neg hlive]
      have hget : ((abs env y.mgr).act (.get k w)).1 = .get (none, .notFound) := by
        rw [Store.act, Store.get, he]
        dsimp only
        rw [if_neg (show ¬ (e.expireTime = 0 ∨ (abs env y.mgr).currTime < e.expireTime) from hlive)]
        rfl
      exact (congrArg Prod.fst hact).symm.trans hget

/-- A successful get returns an item that holds what is stored. -/
theorem get_holds {data : Bytes} {flags w : Nat} (b : Bool) (hy : SysSound env y)
    (hold : Holds env k y data flags) (hroom : y.Roomy env)
    (hw : (abs env y.mgr).watchOk w = true) (hlive : ∀ e, (abs env y.mgr).entry k = some e →
      e.expireTime = 0 ∨ y.mgr.currTime < e.expireTime) :
    ∃ p left z, y.exec env (.get k.1 k.2 w b) = (.get (some (p, left), .success), z) ∧
      (z.mgr.item p).data = data ∧ (z.mgr.item p).flags = flags := by
  obtain ⟨e, he, rfl, rfl⟩ := hold
  have hget := get_entry b hy.1 he hroom hw
  rw [if_pos (hlive e he)] at hget
  obtain ⟨z, o, hexec, hitem⟩ := hget
  exact ⟨_, _, z, hexec, congrArg Entry.data hitem, congrArg Entry.flags hitem⟩

end FragmentLemmas

open FragmentLemmas

variable [Append T] {env : Env} {x₀ x y : Sys} {k : Key} {jdk : Jdk T S} {s : T}
  {lastTime limit itemSizeMax itemSizeMin : Nat} {factor : Rat}
  {t₀ : List (Sys × (Op × Outcome))} {t : List (Sys × Option (Side × T))}

/-- After a text has been set and fragments have been added that are encoded like it, a get returns
the whole text. -/
theorem text_run (hjdk : jdk.Faithful)
    (h : Run (Sys.RoomStep env) (Sys.start env lastTime limit itemSizeMax itemSizeMin factor) t₀ x₀)
    (hset : SetStep env jdk k x₀ s x) (ht : Run (TextStep env jdk k) x t y)
    (hlike : ∀ f ∈ fragments t, EncodedLike jdk s f)
    (hfit : sentLength jdk s (fragments t) < 2 ^ 32) {w : Nat} (b : Bool) (hroom : y.Roomy env)
    (hw : (abs env y.mgr).watchOk w = true) (hlive : ∀ e, (abs env y.mgr).entry k = some e →
      e.expireTime = 0 ∨ y.mgr.currTime < e.expireTime) :
    ∃ p left z, y.exec env (.get k.1 k.2 w b) = (.get (some (p, left), .success), z) ∧
      decode jdk (z.mgr.item p).data (BitVec.ofNat 32 (z.mgr.item p).flags) =
        some (.string (textAfter s (fragments t))) := by
  have hx₀ := sound_run h
  have hx : SysSound env x := by
    obtain ⟨o, p, w, id, -, hstep⟩ := hset
    exact sound_step hx₀ hstep
  obtain ⟨hy, data, hold, hreads, -⟩ := holds_run hjdk hx (holds_set hx₀ hset) ht hlike hfit
  obtain ⟨p, left, z, hget, rfl, hflags⟩ := get_holds b hy hold hroom hw hlive
  refine ⟨p, left, z, hget, ?_⟩
  rw [hflags, BitVec.ofNat_toNat, BitVec.setWidth_eq]
  exact decode_of_reads hjdk hreads

/-! ## A library -/

/-- 32768 times the letter a. -/
def letters : Bytes := List.replicate 32768 97

/-- They as a text. -/
def letterText : String := String.ofList (List.replicate 32768 'a')

/-- What the `GZIPOutputStream` makes of them. -/
def packedLetters : Bytes :=
  [31, 139, 8, 0, 0, 0, 0, 0, 0, 0, 237, 193, 129, 0, 0, 0, 0, 128, 32, 214, 253, 37, 22, 169, 10,
    0, 0, 0, 0, 0, 0, 0, 0, 0, 0, 0, 0, 0, 0, 0, 0, 0, 0, 0, 0, 0, 0, 0, 0, 0, 0, 0, 0, 0, 0, 0,
    24, 227, 95, 218, 236, 0, 128, 0, 0]

/-- Other bytes are marked one by one, which makes them longer. -/
def pack (b : Bytes) : Bytes :=
  if b = letters then packedLetters else b.flatMap (fun c => [1, c]) ++ [0]

def unmark : Bytes → Option (Bytes × Bytes)
  | 0 :: r => some ([], r)
  | 1 :: c :: r => (unmark r).map fun x => (c :: x.1, x.2)
  | _ => none

/-- The first part of a stream, and what is behind it. -/
def member (b : Bytes) : Option (Bytes × Bytes) :=
  if packedLetters <+: b then some (letters, b.drop packedLetters.length) else unmark b

/-- A stream is read part by part; what is no part is left out. -/
def unpack : Nat → Bytes → Option Bytes
  | 0, _ => none
  | n + 1, b => (member b).map fun x => x.1 ++ (unpack n x.2).getD []

/-- UTF-8, and streams in which the letters are short. -/
def utf8Jdk : Jdk String Empty where
  getBytes s := s.toByteArray.data.toList
  newString b := (String.fromUTF8? ⟨b.toArray⟩).getD ""
  gzip := pack
  gunzip b := unpack b.length b
  writeObject := nofun
  readObject _ := none

namespace FragmentLemmas

theorem unmark_append (b r : Bytes) :
    unmark (b.flatMap (fun c => [1, c]) ++ 0 :: r) = some (b, r) := by
  induction b with
  | nil => rfl
  | cons c b ih =>
    show (unmark (b.flatMap (fun c => [1, c]) ++ 0 :: r)).map _ = _
    rw [ih]
    rfl

theorem member_pack (b r : Bytes) : member (pack b ++ r) = some (b, r) := by
  unfold member pack
  split
  · next hb => rw [if_pos (List.prefix_append _ _), List.drop_left, hb]
  · have hmark : ¬ packedLetters <+: b.flatMap (fun c => [1, c]) ++ [0] ++ r := by
      cases b with
      | nil => exact fun h => absurd (List.cons_prefix_cons.mp h).1 (by decide)
      | cons c b => exact fun h => absurd (List.cons_prefix_cons.mp h).1 (by decide)
    rw [if_neg hmark, List.append_assoc]
    exact unmark_append b r

theorem pack_length_pos (b : Bytes) : 0 < (pack b).length := by
  unfold pack
  split
  · decide
  · rw [List.length_append]
    exact Nat.succ_pos _

theorem unpack_parts (l : List Bytes) (hl : l ≠ []) (n : Nat)
    (hn : (l.map pack).flatten.length ≤ n) : unpack n (l.map pack).flatten = some l.flatten := by
  induction l generalizing n with
  | nil => exact absurd rfl hl
  | cons b l ih =>
    rw [List.map_cons, List.flatten_cons, List.length_append] at hn
    have hpos := pack_length_pos b
    obtain ⟨n, rfl⟩ : ∃ m, n = m + 1 := ⟨n - 1, by omega⟩
    rw [List.map_cons, List.flatten_cons, unpack, member_pack, Option.map_some, List.flatten_cons]
    cases l with
    | nil =>
      -- nothing is left, which is no part
      cases n with
      | zero => rfl
      | succ n => rfl
    | cons b' l => rw [ih (List.cons_ne_nil _ _) n (by omega), Option.getD_some]

theorem faithful_utf8Jdk : utf8Jdk.Faithful where
  newString s := by
    show (String.fromUTF8? ⟨s.toByteArray.data.toList.toArray⟩).getD "" = s
    rw [Array.toArray_toList, String.fromUTF8?, dif_pos s.isValidUTF8]
    rfl
  getBytes s s' := by
    show (s ++ s').toByteArray.data.toList = _
    rw [String.toByteArray_append, ByteArray.data_append, Array.toList_append]
    rfl
  gunzip l hl := unpack_parts l hl _ le_rfl

theorem getBytes_replicate {s : String} {n : Nat} (hs : s = String.ofList (List.replicate n 'a')) :
    utf8Jdk.getBytes s = List.replicate n 97 := by
  rw [hs]
  show (List.flatMap String.utf8EncodeChar (List.replicate n 'a')).toByteArray.data.toList = _
  rw [List.flatMap_replicate, show String.utf8EncodeChar 'a' = [97] from by decide,
    List.flatten_replicate_singleton, List.data_toByteArray]

theorem pack_of_letters {b : Bytes} (hb : b = letters) : pack b = packedLetters := if_pos hb

theorem gzip_eq (b : Bytes) : utf8Jdk.gzip b = pack b := rfl

theorem gunzip_eq (b : Bytes) : utf8Jdk.gunzip b = unpack b.length b := rfl

theorem compresses_letters {b : Bytes} (hb : b = letters) :
    default.compresses utf8Jdk b = true := by
  have hlength : b.length = 32768 := hb ▸ List.length_replicate
  unfold compresses
  rw [gzip_eq, pack_of_letters hb, hlength]
  rfl

/-- The flags 138 are those of a text, and that it is compressed. -/
theorem encode_letters {s : String} (hs : utf8Jdk.getBytes s = letters) :
    textBytes utf8Jdk s = packedLetters ∧ textFlags utf8Jdk s = 138 := by
  obtain ⟨hdata, hflags⟩ := encode_string utf8Jdk s
  rw [compresses_letters hs, if_pos rfl] at hdata hflags
  rw [gzip_eq, pack_of_letters hs] at hdata
  exact ⟨hdata, hflags⟩

theorem unpack_behind (b : Bytes) (n : Nat) (c : UInt8) (hc : member [c] = none) :
    unpack (n + 1) (pack b ++ [c]) = some b := by
  have hrest : unpack n [c] = none := by
    cases n with
    | zero => rfl
    | succ n => rw [unpack, hc, Option.map_none]
  rw [unpack, member_pack, Option.map_some, hrest, Option.getD_none, List.append_nil]

/-- What is behind the compressed letters is not read. -/
theorem decode_letters {s : String} (hs : utf8Jdk.getBytes s = letters) :
    decode utf8Jdk (packedLetters ++ [120]) 138 = some (.string s) := by
  have hother : member [120] = none := by
    unfold member
    rw [if_neg (by decide)]
    rfl
  have hgunzip : utf8Jdk.gunzip (packedLetters ++ [120]) = some (utf8Jdk.getBytes s) := by
    have hunpack := unpack_behind (utf8Jdk.getBytes s) 65 120 hother
    rw [pack_of_letters hs] at hunpack
    have hlength : (packedLetters ++ [120]).length = 65 + 1 := by decide
    rw [gunzip_eq, hlength]
    exact hunpack
  rw [decode_compressed, hgunzip, Option.map_some, faithful_utf8Jdk.newString]

theorem ne_append_letter (s : String) : s ≠ s ++ "x" := by
  intro hs
  have hlength := congrArg String.length hs
  rw [String.length_append] at hlength
  exact absurd hlength (Nat.ne_of_lt (Nat.lt_succ_self _))

end FragmentLemmas

/-- Items with the key "k" and what is sent for texts. -/
def textOps (l : List (Nat × Bytes)) : List Op :=
  l.zipIdx.flatMap fun x =>
    [.alloc .zeros 1 1 x.1.1 0 x.1.2.length 0, .fill x.2 ⟨[107], x.1.2, [], 0⟩]

/-- A letter is set, one is appended and one prepended. -/
theorem text_run_small :
    let env := Env.colliding .uint16
    let x₀ := (Sys.small .uint16).execAll env (textOps [(10, [98]), (10, [99]), (10, [97])])
    let x := x₀.execAll env [.update .set .zeros 0 0]
    let x₁ := x.execAll env [.update .append .zeros 1 0]
    let y := x₁.execAll env [.update .prepend .zeros 2 0]
    ∃ p left z, y.exec env (.get 1 [107] 0 false) = (.get (some (p, left), .success), z) ∧
      decode utf8Jdk (z.mgr.item p).data (BitVec.ofNat 32 (z.mgr.item p).flags) =
        some (.string "abc") := by
  intro env x₀ x x₁ y
  have hrun : Run (Sys.RoomStep env) (Sys.small .uint16) _ x₀ :=
    Sys.roomRun_execAll (by decide +kernel) (by decide +kernel)
  have hset : SetStep env utf8Jdk (1, [107]) x₀ "b" x :=
    ⟨.zeros, 0, 0, some 1, ⟨by decide +kernel, by decide +kernel, by decide +kernel⟩,
      by decide +kernel, Sys.step_execAll (by decide +kernel) (by decide +kernel)⟩
  have hbehind : TextStep env utf8Jdk (1, [107]) x (some (.behind, "c")) x₁ :=
    ⟨.zeros, 1, 0, some 2, ⟨by decide +kernel, by decide +kernel, by decide +kernel⟩,
      by decide +kernel, Sys.step_execAll (by decide +kernel) (by decide +kernel)⟩
  have hbefore : TextStep env utf8Jdk (1, [107]) x₁ (some (.before, "a")) y :=
    ⟨.zeros, 2, 0, some 3, ⟨by decide +kernel, by decide +kernel, by decide +kernel⟩,
      by decide +kernel, Sys.step_execAll (by decide +kernel) (by decide +kernel)⟩
  have htext : Run (TextStep env utf8Jdk (1, [107])) x
      [(x, some (.behind, "c")), (x₁, some (.before, "a"))] y :=
    (Run.single hbehind).trans (.single hbefore)
  have hlike : ∀ f ∈ fragments [(x, some (Side.behind, "c")), (x₁, some (.before, "a"))],
      EncodedLike utf8Jdk "b" f :=
    List.forall_mem_cons.mpr ⟨.inr (by decide +kernel),
      List.forall_mem_singleton.mpr (.inr (by decide +kernel))⟩
  have hexpire : ((abs env y.mgr).entry (1, [107])).map Entry.expireTime = some 0 := by
    decide +kernel
  have hlive : ∀ e, (abs env y.mgr).entry (1, [107]) = some e →
      e.expireTime = 0 ∨ y.mgr.currTime < e.expireTime := by
    intro e he
    rw [he] at hexpire
    exact .inl (Option.some.inj hexpire)
  have htextAfter : textAfter "b" (fragments [(x, some (Side.behind, "c")),
      (x₁, some (.before, "a"))]) = "abc" := by decide
  have hread := text_run faithful_utf8Jdk hrun hset htext hlike (by decide +kernel) (w := 0) false
    (by decide +kernel) rfl hlive
  rw [htextAfter] at hread
  exact hread

/-- A letter behind 32768 others is lost: they are compressed, and it is not. -/
theorem not_text_compressed :
    let env := Env.colliding .uint16
    let x₀ := (Sys.small .uint16).execAll env (textOps [(138, packedLetters), (10, [120])])
    let x := x₀.execAll env [.update .set .zeros 0 0]
    let y := x.execAll env [.update .append .zeros 1 0]
    utf8Jdk.Faithful ∧ (∃ t₀, Run (Sys.RoomStep env) (Sys.small .uint16) t₀ x₀) ∧
      SetStep env utf8Jdk (1, [107]) x₀ letterText x ∧
      TextStep env utf8Jdk (1, [107]) x (some (.behind, "x")) y ∧
      ¬ ∃ p left z, y.exec env (.get 1 [107] 0 false) = (.get (some (p, left), .success), z) ∧
        decode utf8Jdk (z.mgr.item p).data (BitVec.ofNat 32 (z.mgr.item p).flags) =
          some (.string (letterText ++ "x")) := by
  intro env x₀ x y
  have hbytes : utf8Jdk.getBytes letterText = letters := getBytes_replicate rfl
  have hset : SetStep env utf8Jdk (1, [107]) x₀ letterText x := by
    refine ⟨.zeros, 0, 0, some 1, ⟨by decide +kernel, ?_, ?_⟩, by decide +kernel,
      Sys.step_execAll (by decide +kernel) (by decide +kernel)⟩
    · rw [(encode_letters hbytes).1]
      decide +kernel
    · rw [(encode_letters hbytes).2]
      decide +kernel
  have hbehind : TextStep env utf8Jdk (1, [107]) x (some (.behind, "x")) y :=
    ⟨.zeros, 1, 0, some 2, ⟨by decide +kernel, by decide +kernel, by decide +kernel⟩,
      by decide +kernel, Sys.step_execAll (by decide +kernel) (by decide +kernel)⟩
  refine ⟨faithful_utf8Jdk, ⟨_, Sys.roomRun_execAll (by decide +kernel) (by decide +kernel)⟩, hset,
    hbehind, ?_⟩
  rintro ⟨p, left, z, hget, hdecode⟩
  have hfound : (y.exec env (.get 1 [107] 0 false)).1 = .get (some (2, 0), .success) := by
    decide +kernel
  have hdata : ((y.exec env (.get 1 [107] 0 false)).2.mgr.item 2).data = packedLetters ++ [120] ∧
      ((y.exec env (.get 1 [107] 0 false)).2.mgr.item 2).flags = 138 := by
    decide +kernel
  rw [hget] at hfound hdata
  obtain ⟨rfl, -⟩ := Prod.mk.inj (Option.some.inj (Prod.mk.inj (Outcome.get.inj hfound)).1)
  rw [hdata.1, hdata.2] at hdecode
  have hsame : letterText = letterText ++ "x" :=
    Obj.string.inj (Option.some.inj ((decode_letters hbytes).symm.trans hdecode))
  exact ne_append_letter letterText hsame

end Xixi.Coder
