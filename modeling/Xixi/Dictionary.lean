import Xixi.Counter
import Xixi.Cas

/-!
# The cache manager as a dictionary

The view of a caller that knows nothing of items, references and watches: a finite
map from keys to values, each with the id of its version, and the number of ids
issued so far. `Sys.Serves` is a call of the manager as such a caller makes it, the
allocation of a request item included.

1. `Dictionary.answer`: what the map answers.
2. `mirrors_add`, `mirrors_replace`, ...: the store does the same.
3. `serves_answer`, `dictionary_of_run`: so does the manager, unless a size does not
   fit its field or `delta` reads a sign behind blank data.
-/

namespace Xixi

open Lib

/-- What a key is bound to. -/
structure Value where
  data : Bytes
  flags : Nat
  ext : Bytes
  cacheId : Nat
deriving DecidableEq, Repr

namespace Value

/-- The id of a request names this version, or none. -/
def Matches (v : Value) (cacheId : Nat) : Prop := cacheId = 0 ∨ cacheId = v.cacheId

instance (v : Value) (cacheId : Nat) : Decidable (v.Matches cacheId) :=
  inferInstanceAs (Decidable (_ ∨ _))

/-- `total_size`, a `uint32_t`. -/
def totalSize (sizeofItem : Nat) (k : Key) (v : Value) : Nat :=
  (sizeofItem + k.2.length + v.data.length + v.ext.length) % 2 ^ 32

end Value

/-- A finite map from keys to values and the number of ids issued so far. -/
structure Dictionary where
  entry : Key → Option Value
  keys : Finset Key
  mem_keys : ∀ k, k ∈ keys ↔ (entry k).isSome
  issued : Nat

/-- A call. In `update` the id of the value is the one the request asks for. -/
inductive Inquiry
  | get (k : Key)
  | update (verb : Verb) (k : Key) (v : Value)
  | remove (k : Key) (cacheId : Nat)
  | updateFlags (k : Key) (cacheId flags : Nat)
  | delta (k : Key) (incr : Bool) (amount : Int) (cacheId : Nat)
  | flush (groupId : Nat)
  | releaseReference

inductive Returned
  | get (r : Option Value × Reason)
  | update (r : Reason × Option Nat)
  | remove (r : Reason)
  | base (r : Bool × Nat)
  | delta (r : Reason × Nat × Int)
  | flush (r : Nat × Nat)
  | done
deriving DecidableEq, Repr

namespace Dictionary

def empty : Dictionary where
  entry := fun _ => none
  keys := ∅
  mem_keys := fun _ => by simp
  issued := 0

/-- The key is bound to the value, under a new id. -/
def bind (d : Dictionary) (k : Key) (v : Value) : Dictionary where
  entry := Function.update d.entry k (some { v with cacheId := d.issued + 1 })
  keys := insert k d.keys
  mem_keys k' := by
    by_cases hk : k' = k
    · simp [hk]
    · simp [hk, d.mem_keys]
  issued := d.issued + 1

def erase (d : Dictionary) (k : Key) : Dictionary where
  entry := Function.update d.entry k none
  keys := d.keys.erase k
  mem_keys k' := by
    by_cases hk : k' = k
    · simp [hk]
    · simp [hk, d.mem_keys]
  issued := d.issued

/-- The keys of a group. -/
def group (d : Dictionary) (groupId : Nat) : Finset Key := d.keys.filter fun k => k.1 = groupId

def eraseGroup (d : Dictionary) (groupId : Nat) : Dictionary where
  entry k := if k.1 = groupId then none else d.entry k
  keys := d.keys.filter fun k => k.1 ≠ groupId
  mem_keys k := by
    by_cases hk : k.1 = groupId
    · simp [hk]
    · simp [hk, d.mem_keys]
  issued := d.issued

def replace (d : Dictionary) (k : Key) (old : Value) (cacheId : Nat) (v : Value) :
    (Reason × Option Nat) × Dictionary :=
  if old.Matches cacheId then ((.success, some (d.issued + 1)), d.bind k v)
  else ((.mismatch, none), d)

def update (d : Dictionary) (k : Key) (v : Value) : Verb → (Reason × Option Nat) × Dictionary
  | .add =>
    match d.entry k with
    | none => ((.success, some (d.issued + 1)), d.bind k v)
    | some _ => ((.exists, none), d)
  | .set =>
    match d.entry k with
    | none => ((.success, some (d.issued + 1)), d.bind k v)
    | some old => d.replace k old v.cacheId v
  | .replace =>
    match d.entry k with
    | none => ((.notFound, none), d)
    | some old => d.replace k old v.cacheId v
  | .append =>
    match d.entry k with
    | none => ((.notFound, none), d)
    | some old => d.replace k old v.cacheId { old with data := old.data ++ v.data }
  | .prepend =>
    match d.entry k with
    | none => ((.notFound, none), d)
    | some old => d.replace k old v.cacheId { old with data := v.data ++ old.data }

def remove (d : Dictionary) (k : Key) (cacheId : Nat) : Reason × Dictionary :=
  match d.entry k with
  | none => (.notFound, d)
  | some v => if v.Matches cacheId then (.success, d.erase k) else (.mismatch, d)

def updateFlags (d : Dictionary) (k : Key) (cacheId flags : Nat) : (Bool × Nat) × Dictionary :=
  match d.entry k with
  | none => ((false, 0), d)
  | some v =>
    if v.Matches cacheId then ((true, d.issued + 1), d.bind k { v with flags := flags })
    else ((false, v.cacheId), d)

/-- The number is that of the bytes of the value and of nothing else. -/
def delta (d : Dictionary) (k : Key) (incr : Bool) (amount : Int) (cacheId : Nat) :
    (Reason × Nat × Int) × Dictionary :=
  match d.entry k with
  | none => ((.notFound, 0, 0), d)
  | some v =>
    if v.Matches cacheId then
      let value := bytesValue v.data
      let value := if incr then wrap64 (value + amount) else wrap64 (value - amount)
      ((.success, d.issued + 1, value), d.bind k { v with data := formatInt64 value })
    else ((.mismatch, 0, 0), d)

/-- The count is a `uint32_t`, the size a `uint64_t`. -/
def flush (sizeofItem : Nat) (d : Dictionary) (groupId : Nat) : (Nat × Nat) × Dictionary :=
  (((d.group groupId).card % 2 ^ 32,
    (∑ k ∈ d.group groupId, (d.entry k).elim 0 (Value.totalSize sizeofItem k)) % 2 ^ 64),
    d.eraseGroup groupId)

def answer (sizeofItem : Nat) (d : Dictionary) : Inquiry → Returned × Dictionary
  | .get k =>
    match d.entry k with
    | none => (.get (none, .notFound), d)
    | some v => (.get (some v, .success), d)
  | .update verb k v => (d.update k v verb).map .update id
  | .remove k x => (d.remove k x).map .remove id
  | .updateFlags k x fl => (d.updateFlags k x fl).map .base id
  | .delta k incr amount x => (d.delta k incr amount x).map .delta id
  | .flush g => (d.flush sizeofItem g).map .flush id
  | .releaseReference => (.done, d)

def Step (sizeofItem : Nat) (d : Dictionary) (l : Inquiry × Returned) (d' : Dictionary) : Prop :=
  d.answer sizeofItem l.1 = (l.2, d')

end Dictionary

/-! ## Calls of the manager -/

def CacheItem.value (it : CacheItem) : Value := ⟨it.data, it.flags, it.ext, it.cacheId⟩

def Entry.value (e : Entry) : Value := ⟨e.data, e.flags, e.ext, e.cacheId⟩

/-- A call with its answer; there is no watch and no expiration, and the allocations
succeed. What a `get` returns is read from the item. -/
inductive Sys.Serves (env : Env) (x : Sys) : Inquiry × Returned → Sys → Prop
  | miss {k : Key} {isBase : Bool} {reason : Reason} {y : Sys}
      (h : x.Step env (.get k.1 k.2 0 isBase, .get (none, reason)) y) :
      Serves env x (.get k, .get (none, reason)) y
  | hit {k : Key} {isBase : Bool} {reason : Reason} {p : Ptr} {expiration : Nat} {y : Sys}
      (h : x.Step env (.get k.1 k.2 0 isBase, .get (some (p, expiration), reason)) y) :
      Serves env x (.get k, .get (some (y.mgr.item p).value, reason)) y
  | update {verb : Verb} {k : Key} {v : Value} {o o' : Malloc} {p : Ptr} {x₁ x₂ y : Sys}
      {r : Reason × Option Nat}
      (alloc : x.Step env
        (.alloc o k.1 k.2.length v.flags 0 v.data.length v.ext.length, .alloc (some p)) x₁)
      (fill : x₁.Step env (.fill p ⟨k.2, v.data, v.ext, v.cacheId⟩, .done) x₂)
      (update : x₂.Step env (.update verb o' p 0, .update r) y) (memory : r.1 ≠ .outOfMemory) :
      Serves env x (.update verb k v, .update r) y
  | remove {k : Key} {cacheId : Nat} {r : Reason} {y : Sys}
      (h : x.Step env (.remove k.1 k.2 cacheId, .remove r) y) :
      Serves env x (.remove k cacheId, .remove r) y
  | updateFlags {k : Key} {cacheId flags : Nat} {r : Bool × Nat} {y : Sys}
      (h : x.Step env (.updateFlags k.1 k.2 cacheId flags, .base r) y) :
      Serves env x (.updateFlags k cacheId flags, .base r) y
  | delta {o : Malloc} {k : Key} {incr : Bool} {amount : Int} {cacheId : Nat}
      {r : Reason × Nat × Int} {y : Sys}
      (h : x.Step env (.delta o k.1 k.2 incr amount cacheId, .delta r) y)
      (memory : r.1 ≠ .outOfMemory) : Serves env x (.delta k incr amount cacheId, .delta r) y
  | flush {groupId : Nat} {r : Nat × Nat} {y : Sys}
      (h : x.Step env (.flush groupId, .flush r) y) : Serves env x (.flush groupId, .flush r) y
  | releaseReference {p : Ptr} {y : Sys} (h : x.Step env (.releaseReference p, .done) y) :
      Serves env x (.releaseReference, .done) y

/-- `CALC_ITEM_SIZE` fits its 32 bits. -/
def SizeFits (env : Env) (k : Key) (dataSize extSize : Nat) : Prop :=
  env.sizeofItem + k.2.length + dataSize + extSize < 2 ^ 32

instance (env : Env) (k : Key) (dataSize extSize : Nat) : Decidable (SizeFits env k dataSize extSize) :=
  inferInstanceAs (Decidable (_ < _))

/-- The sizes that a call asks for fit their fields, and the data that `delta` reads is
not blank with a sign behind it. -/
def Sys.Plain (env : Env) (x : Sys) : Inquiry → Prop
  | .update verb k v => v.ext.length < 2 ^ 8 ∧ SizeFits env k v.data.length v.ext.length ∧
      (verb = .append ∨ verb = .prepend → ∀ e, (abs env x.mgr).entry k = some e →
        e.value.Matches v.cacheId → SizeFits env k (v.data.length + e.data.length) e.ext.length)
  | .delta k _ _ cacheId => ∀ e, (abs env x.mgr).entry k = some e → e.value.Matches cacheId →
      let it := x.mgr.item e.ptr
      ¬ SignBehindBlank (fun i => it.body (it.keyLength + i)) it.dataSize
  | _ => True

/-- A call for which the counter of ids does not wrap around. -/
def Sys.ServesId (env : Env) (x : Sys) (l : Inquiry × Returned) (y : Sys) : Prop :=
  x.Serves env l y ∧ x.mgr.lastCacheId ≤ y.mgr.lastCacheId

/-- The map holds what the manager has stored. -/
def Represents (env : Env) (d : Dictionary) (x : Sys) : Prop :=
  d.issued = x.mgr.lastCacheId ∧
    ∀ k, d.entry k = ((abs env x.mgr).entry k).map Entry.value

/-! ## The map and the store -/

namespace DictionaryLemmas

open CasLemmas

/-- The store holds what the map does; nothing in it expires. -/
structure Mirrors (d : Dictionary) (st : Store) : Prop where
  issued : d.issued = st.lastCacheId
  bound : st.lastCacheId < 2 ^ 64
  entry : ∀ k, d.entry k = (st.entry k).map Entry.value
  expireTime : ∀ k e, st.entry k = some e → e.expireTime = 0
  length : ∀ k e, st.entry k = some e → e.data.length < 2 ^ 32

/-- The same answer, and what is stored is the same again. -/
structure Agrees {α : Type} (a : α × Store) (b : α × Dictionary) : Prop where
  answer : b.1 = a.1
  mirrors : Mirrors b.2 a.2

variable {d : Dictionary} {st st₁ : Store} {k : Key} {e old : Entry} {x : Nat}

theorem entry_none (h : Mirrors d st) (he : st.entry k = none) : d.entry k = none := by
  rw [h.entry, he]
  rfl

theorem entry_some (h : Mirrors d st) (he : st.entry k = some e) : d.entry k = some e.value := by
  rw [h.entry, he]
  rfl

@[simp] theorem watchOk_zero (st : Store) : st.watchOk 0 = true := rfl

/-- The id in the value that is bound does not matter. -/
theorem bind_congr (d : Dictionary) (k : Key) {v v' : Value} (hd : v'.data = v.data)
    (hf : v'.flags = v.flags) (hx : v'.ext = v.ext) : d.bind k v' = d.bind k v := by
  cases v
  cases v'
  cases hd
  cases hf
  cases hx
  rfl

/-- A new version of one key; `st₁` differs from `st` at that key only. -/
theorem mirrors_link (h : Mirrors d st) (hlast : st₁.lastCacheId = st.lastCacheId)
    (hother : ∀ k', k' ≠ k → st₁.entry k' = st.entry k') (he : e.expireTime = 0)
    (hlen : e.data.length < 2 ^ 32) (hn : st.lastCacheId ≤ st₁.nextId) :
    st₁.nextId = d.issued + 1 ∧ Mirrors (d.bind k e.value) (st₁.link k e) := by
  have hb : st₁.lastCacheId < 2 ^ 64 := hlast ▸ h.bound
  obtain ⟨hnext, hlt⟩ := nextId_eq hb (hlast ▸ hn)
  have hid : st₁.nextId = d.issued + 1 := by rw [hnext, hlast, h.issued]
  refine ⟨hid, hid.symm, hlt, fun k' => ?_, fun k' e' he' => ?_, fun k' e' he' => ?_⟩
  · rw [Store.entry_link, hid]
    by_cases hk : k' = k
    · subst hk
      simp only [Dictionary.bind, Function.update_self, Option.map_some]
      rfl
    · simp only [Dictionary.bind, Function.update_of_ne hk]
      rw [h.entry, hother k' hk]
  all_goals
    rw [Store.entry_link] at he'
    by_cases hk : k' = k
    · subst hk
      rw [Function.update_self] at he'
      obtain rfl := Option.some.inj he'
      assumption
    · rw [Function.update_of_ne hk, hother k' hk] at he'
      first
        | exact h.expireTime k' e' he'
        | exact h.length k' e' he'

/-- The entry gives way to a new version. -/
theorem mirrors_relink (h : Mirrors d st) (t : NotifyType) (he : e.expireTime = 0)
    (hlen : e.data.length < 2 ^ 32) (hn : st.lastCacheId ≤ (st.unlink k t).nextId) :
    (st.unlink k t).nextId = d.issued + 1 ∧
      Mirrors (d.bind k e.value) ((st.unlink k t).link k e) := by
  refine mirrors_link h (Store.lastCacheId_unlink ..) (fun k' hk => ?_) he hlen hn
  rw [Store.entry_unlink, Function.update_of_ne hk]

theorem mirrors_erase (h : Mirrors d st) (k : Key) (t : NotifyType) :
    Mirrors (d.erase k) (st.unlink k t) := by
  have hsub : ∀ k' e', (st.unlink k t).entry k' = some e' → st.entry k' = some e' := by
    intro k' e' he'
    rw [Store.entry_unlink] at he'
    by_cases hk : k' = k
    · rw [hk, Function.update_self] at he'
      exact nomatch he'
    · rwa [Function.update_of_ne hk] at he'
  refine ⟨h.issued.trans (Store.lastCacheId_unlink ..).symm, ?_, fun k' => ?_,
    fun k' e' he' => h.expireTime k' e' (hsub k' e' he'),
    fun k' e' he' => h.length k' e' (hsub k' e' he')⟩
  · rw [Store.lastCacheId_unlink]
    exact h.bound
  · rw [Store.entry_unlink]
    by_cases hk : k' = k
    · subst hk
      simp only [Dictionary.erase, Function.update_self, Option.map_none]
    · simp only [Dictionary.erase, Function.update_of_ne hk, h.entry]

theorem agrees_add (h : Mirrors d st) (he : e.expireTime = 0) (hlen : e.data.length < 2 ^ 32)
    (hn : st.lastCacheId ≤ (st.add k e 0).2.lastCacheId) :
    Agrees (st.add k e 0) (d.update k e.value .add) := by
  unfold Store.add Dictionary.update at *
  cases hk : st.entry k with
  | some old =>
    rw [entry_some h hk]
    exact ⟨rfl, h⟩
  | none =>
    simp only [hk, entry_none h hk, watchOk_zero, if_true] at hn ⊢
    obtain ⟨hid, hm⟩ := mirrors_link h rfl (fun _ _ => rfl) he hlen hn
    exact ⟨by rw [hid], hm⟩

theorem agrees_replace (h : Mirrors d st) (hk : st.entry k = some old) (he : e.expireTime = 0)
    (hlen : e.data.length < 2 ^ 32) (hn : st.lastCacheId ≤ (st.replace k e 0).2.lastCacheId) :
    Agrees (st.replace k e 0) (d.replace k old.value e.cacheId e.value) := by
  simp only [Store.replace, hk, watchOk_zero, if_true] at hn ⊢
  by_cases hx : e.cacheId = 0 ∨ e.cacheId = old.cacheId
  · rw [Dictionary.replace, if_pos (show old.value.Matches e.cacheId from hx)]
    simp only [if_pos hx] at hn ⊢
    obtain ⟨hid, hm⟩ := mirrors_relink h .dataUpdated he hlen hn
    rw [Store.nextId_unlink] at hid
    exact ⟨by rw [hid], hm⟩
  · rw [Dictionary.replace, if_neg (show ¬ old.value.Matches e.cacheId from hx), if_neg hx]
    exact ⟨rfl, h⟩

/-- `append` and `prepend` store the old value with other data. -/
theorem agrees_append {new : Option Entry} {f : Bytes → Bytes} (h : Mirrors d st)
    (hnew : ∀ old ne, st.entry k = some old → old.value.Matches x → new = some ne →
      ne.value = { old.value with data := f old.data, cacheId := ne.cacheId } ∧
        ne.expireTime = old.expireTime ∧ (f old.data).length < 2 ^ 32)
    (hmem : (st.append k x new 0).1.1 ≠ .outOfMemory)
    (hn : st.lastCacheId ≤ (st.append k x new 0).2.lastCacheId) :
    Agrees (st.append k x new 0)
      (match d.entry k with
      | none => ((.notFound, none), d)
      | some old => d.replace k old x { old with data := f old.data }) := by
  cases hk : st.entry k with
  | none =>
    simp only [Store.append, hk, entry_none h hk]
    exact ⟨rfl, h⟩
  | some old =>
    simp only [entry_some h hk]
    by_cases hx : x = 0 ∨ x = old.cacheId
    · have hm : old.value.Matches x := hx
      rw [Store.append_match hk hx] at hmem hn ⊢
      rw [Dictionary.replace, if_pos hm]
      cases new with
      | none => exact absurd rfl hmem
      | some ne =>
        obtain ⟨hval, hexp, hlen⟩ := hnew old ne hk hm rfl
        simp only [watchOk_zero, if_true] at hn ⊢
        have hdata : ne.data = f old.data := congrArg Value.data hval
        obtain ⟨hid, hmir⟩ := mirrors_relink h .dataUpdated (hexp.trans (h.expireTime k old hk))
          (hdata ▸ hlen) hn
        rw [Store.nextId_unlink] at hid
        refine ⟨by rw [hid], ?_⟩
        have hbind : d.bind k { old.value with data := f old.data } = d.bind k ne.value := by
          rw [hval]
          exact bind_congr d k rfl rfl rfl
        exact hbind ▸ hmir
    · rw [Store.append_mismatch hk hx, Dictionary.replace,
        if_neg (show ¬ old.value.Matches x from hx)]
      exact ⟨rfl, h⟩

theorem agrees_remove (h : Mirrors d st) (k : Key) (x : Nat) :
    Agrees (st.remove k x) (d.remove k x) := by
  unfold Store.remove Dictionary.remove
  cases hk : st.entry k with
  | none =>
    simp only [entry_none h hk]
    exact ⟨rfl, h⟩
  | some old =>
    simp only [entry_some h hk]
    by_cases hx : x = 0 ∨ x = old.cacheId
    · rw [if_pos hx, if_pos (show old.value.Matches x from hx)]
      exact ⟨rfl, mirrors_erase h k .deleted⟩
    · rw [if_neg hx, if_neg (show ¬ old.value.Matches x from hx)]
      exact ⟨rfl, h⟩

theorem agrees_updateFlags {fl : Nat} (h : Mirrors d st)
    (hn : st.lastCacheId ≤ (st.updateFlags k x fl).2.lastCacheId) :
    Agrees (st.updateFlags k x fl) (d.updateFlags k x fl) := by
  unfold Store.updateFlags Dictionary.updateFlags at *
  cases hk : st.entry k with
  | none =>
    simp only [entry_none h hk]
    exact ⟨rfl, h⟩
  | some old =>
    simp only [hk, entry_some h hk] at hn ⊢
    by_cases hx : x = 0 ∨ x = old.cacheId
    · rw [if_pos (show old.value.Matches x from hx)]
      simp only [if_pos hx] at hn ⊢
      have hlast : (st.notify old.watchIds old.cacheId .baseInfoUpdated).lastCacheId =
          st.lastCacheId := rfl
      obtain ⟨hid, hmir⟩ := mirrors_link
        (e := { old with flags := fl, watch := old.watch.map fun ws => ws.keep st.live }) h hlast
        (fun _ _ => rfl) (h.expireTime k old hk) (h.length k old hk) hn
      rw [Store.nextId_notify] at hid
      exact ⟨by rw [hid], hmir⟩
    · rw [if_neg (show ¬ old.value.Matches x from hx), if_neg hx]
      exact ⟨rfl, h⟩

/-- `delta`, when the number it reads is the one in the bytes of the value. -/
theorem agrees_delta {new : Option Entry} {value amount : Int} {incr : Bool} (h : Mirrors d st)
    (hval : ∀ old, st.entry k = some old → old.value.Matches x → value =
      if incr then wrap64 (bytesValue old.data + amount) else wrap64 (bytesValue old.data - amount))
    (hnew : ∀ old ne, st.entry k = some old → new = some ne →
      ne.value = { old.value with data := formatInt64 value, cacheId := ne.cacheId } ∧
        ne.expireTime = old.expireTime)
    (hmem : (st.delta k x value (formatInt64 value) new).1.1 ≠ .outOfMemory)
    (hn : st.lastCacheId ≤ (st.delta k x value (formatInt64 value) new).2.lastCacheId) :
    Agrees (st.delta k x value (formatInt64 value) new) (d.delta k incr amount x) := by
  cases hk : st.entry k with
  | none =>
    simp only [Store.delta, Dictionary.delta, hk, entry_none h hk]
    exact ⟨rfl, h⟩
  | some old =>
    simp only [Dictionary.delta, entry_some h hk]
    by_cases hx : x = 0 ∨ x = old.cacheId
    · have hm : old.value.Matches x := hx
      have hv := hval old hk hm
      have hshort : (formatInt64 value).length < 2 ^ 32 :=
        Nat.lt_of_le_of_lt (DecimalLemmas.length_formatInt64_le value) (by decide)
      have hold := h.expireTime k old hk
      rw [if_pos hm, show old.value.data = old.data from rfl, ← hv]
      by_cases hlen : (formatInt64 value).length = old.data.length
      · -- the text overwrites the data
        rw [Store.delta_inPlace hk hx hlen] at hn ⊢
        obtain ⟨hid, hmir⟩ := mirrors_link (k := k) (e := { old with data := formatInt64 value }) h
          rfl (fun _ _ => rfl) hold hshort hn
        exact ⟨by rw [hid], hmir⟩
      · rw [Store.delta_realloc hk hx hlen] at hmem hn ⊢
        cases new with
        | none => exact absurd rfl hmem
        | some ne =>
          obtain ⟨hne, hexp⟩ := hnew old ne hk rfl
          have hdata : ne.data = formatInt64 value := congrArg Value.data hne
          obtain ⟨hid, hmir⟩ := mirrors_relink h .dataUpdated (hexp.trans hold) (hdata ▸ hshort) hn
          rw [Store.nextId_unlink] at hid
          refine ⟨by rw [hid], ?_⟩
          have hbind : d.bind k { old.value with data := formatInt64 value } = d.bind k ne.value := by
            rw [hne]
            exact bind_congr d k rfl rfl rfl
          exact hbind ▸ hmir
    · rw [Store.delta_mismatch hk hx, if_neg (show ¬ old.value.Matches x from hx)]
      exact ⟨rfl, h⟩

/-- The keys of a group, as a sweep finds them. -/
theorem group_eq {ks : List Key} {g : Nat} (h : Mirrors d st)
    (hks : ∀ k, k ∈ ks ↔ k.1 = g ∧ (st.entry k).isSome) : d.group g = ks.toFinset := by
  ext k
  rw [Dictionary.group, Finset.mem_filter, List.mem_toFinset, hks, d.mem_keys, h.entry,
    Option.isSome_map, and_comm]

theorem totalSize_eq (env : Env) (h : Mirrors d st) (k : Key) :
    st.totalSize env k = (d.entry k).elim 0 (Value.totalSize env.sizeofItem k) := by
  rw [h.entry, Store.totalSize]
  cases st.entry k <;> rfl

theorem agrees_flush {env : Env} {ks : List Key} {g : Nat} (h : Mirrors d st) (hnd : ks.Nodup)
    (hks : ∀ k, k ∈ ks ↔ k.1 = g ∧ (st.entry k).isSome) :
    Agrees ((ks.length % 2 ^ 32, (ks.map (st.totalSize env)).sum % 2 ^ 64),
      st.unlinkAll .flushed ks) (d.flush env.sizeofItem g) := by
  have hsum : (ks.map (st.totalSize env)).sum =
      ∑ k ∈ d.group g, (d.entry k).elim 0 (Value.totalSize env.sizeofItem k) := by
    rw [group_eq h hks, List.sum_toFinset _ hnd]
    exact congrArg List.sum (List.map_congr_left fun k _ => totalSize_eq env h k)
  have hsub : ∀ k e, (st.unlinkAll .flushed ks).entry k = some e → st.entry k = some e := by
    intro k e he
    rw [Store.entry_unlinkAll] at he
    split at he
    · exact nomatch he
    · exact he
  refine ⟨?_, h.issued.trans (Store.lastCacheId_unlinkAll ..).symm, ?_, fun k => ?_,
    fun k e he => h.expireTime k e (hsub k e he), fun k e he => h.length k e (hsub k e he)⟩
  · rw [Dictionary.flush, hsum, ← List.toFinset_card_of_nodup hnd, ← group_eq h hks]
  · rw [Store.lastCacheId_unlinkAll]
    exact h.bound
  · rw [Store.entry_unlinkAll]
    show (if k.1 = g then none else d.entry k) = _
    rw [h.entry]
    by_cases hg : k.1 = g
    · rw [if_pos hg]
      split
      · rfl
      · next hk =>
        have hnone : st.entry k = none := by
          cases he : st.entry k with
          | none => rfl
          | some e => exact absurd ((hks k).mpr ⟨hg, he ▸ rfl⟩) hk
        rw [hnone]
        rfl
    · rw [if_neg hg, if_neg fun hk => hg ((hks k).mp hk).1]

end DictionaryLemmas

/-! ## The map and the manager -/

namespace DictionaryLemmas

open CounterLemmas

variable {env : Env} {x x₁ x₂ y : Sys} {d : Dictionary} {k : Key} {v : Value} {o : Malloc} {p : Ptr}

theorem roomStep {l : Op × Outcome} (hw : env.refWidth = .unbounded) (h : x.Step env l y) :
    x.RoomStep env l y := ⟨.inl hw, h⟩

/-- The item in which an entry is stored. -/
theorem value_of_entry {e : Entry} (hx : SysSound env x) (h : (abs env x.mgr).entry k = some e) :
    (x.mgr.item e.ptr).value = e.value := by
  obtain ⟨lost, hx⟩ := hx.1
  obtain ⟨L, hL⟩ := hx.inv
  obtain ⟨p, -, -, rfl⟩ := (abs_entry_iff hL).mp h
  rfl

/-- Allocating a request item and filling it changes nothing that is stored. -/
theorem request_of_fill (hw : env.refWidth = .unbounded) (hx : SysSound env x)
    (hext : v.ext.length < 2 ^ 8)
    (halloc : x.Step env
      (.alloc o k.1 k.2.length v.flags 0 v.data.length v.ext.length, .alloc (some p)) x₁)
    (hfill : x₁.Step env (.fill p ⟨k.2, v.data, v.ext, v.cacheId⟩, .done) x₂) :
    SysSound env x₂ ∧ abs env x₂.mgr = abs env x.mgr ∧ (x₂.mgr.item p).ident = k ∧
      (x₂.mgr.item p).value = v ∧ (x₂.mgr.item p).expireTime = 0 := by
  have hx₁ := sound_step hx (roomStep hw halloc)
  have hx₂ := sound_step hx₁ (roomStep hw hfill)
  have hkl : k.2.length < 2 ^ 16 := halloc.1
  obtain ⟨held, L, -, -, hL, -, -, -, hexec⟩ := SysInv.core hx.1 (roomStep hw halloc)
  have hd : x.mgr.doAlloc env o k.1 k.2.length v.flags 0 v.data.length v.ext.length =
      (some p, x₁.mgr) := by
    have hr : Prod.map Outcome.alloc id
        (x.mgr.doAlloc env o k.1 k.2.length v.flags 0 v.data.length v.ext.length) =
          (.alloc (some p), x₁.mgr) := hexec
    cases hc : x.mgr.doAlloc env o k.1 k.2.length v.flags 0 v.data.length v.ext.length with
    | mk r s =>
      rw [hc] at hr
      exact Prod.ext (Outcome.alloc.inj (Prod.mk.inj hr).1) (Prod.mk.inj hr).2
  have ha := hL.doAlloc_some hd
  have hfresh := ha.fresh
  obtain ⟨-, a, hacts, hact⟩ := SysInv.act hx₁.1 (roomStep hw hfill)
  have habs : abs env x₁.mgr = abs env x₂.mgr := by
    cases hacts
    exact (Prod.mk.inj hact).2
  have hitem : x₂.mgr.item p = (x₁.mgr.item p).fill ⟨k.2, v.data, v.ext, v.cacheId⟩ := by
    have hm : x₂.mgr = x₁.mgr.fill env p ⟨k.2, v.data, v.ext, v.cacheId⟩ :=
      congrArg (fun z => z.2.mgr) hfill.2.symm
    rw [hm]
    simp only [CacheMgr.fill, CacheMgr.item_modify_self]
  have hfits : (x₁.mgr.item p).Fits ⟨k.2, v.data, v.ext, v.cacheId⟩ := by
    refine ⟨?_, hfresh.dataSize.symm, ?_⟩
    · rw [hfresh.keyLength, Nat.mod_eq_of_lt hkl]
    · rw [hfresh.extSize, Nat.mod_eq_of_lt hext]
  refine ⟨hx₂, habs.symm.trans ha.abs, ?_, ?_, ?_⟩
  · rw [hitem]
    exact Prod.ext hfresh.groupId (CacheItem.fill_key hfits)
  · rw [hitem, CacheItem.value, CacheItem.fill_data hfits, CacheItem.fill_ext hfits]
    show Value.mk v.data (x₁.mgr.item p).flags v.ext v.cacheId = v
    rw [hfresh.flags]
  · rw [hitem]
    exact hfresh.expireTime

/-- The answer of the map to a call of the manager. -/
def Answered (env : Env) (d : Dictionary) (l : Inquiry × Returned) (y : Sys) : Prop :=
  ∃ d', d.Step env.sizeofItem l d' ∧ Mirrors d' (abs env y.mgr)

theorem answered_of_agrees {α : Type} {a : α × Store} {b : α × Dictionary} {f : α → Returned}
    {c : Inquiry} {r : α} (h : Agrees a b) (hc : d.answer env.sizeofItem c = b.map f id)
    (ha : a = (r, abs env y.mgr)) : Answered env d (c, f r) y := by
  subst ha
  refine ⟨b.2, ?_, h.mirrors⟩
  rw [Dictionary.Step, hc]
  exact Prod.ext (congrArg f h.answer) rfl

theorem answered_get {b : Bool} {r : Option (Ptr × Nat) × Reason} (hw : env.refWidth = .unbounded)
    (hx : SysSound env x) (hm : Mirrors d (abs env x.mgr))
    (h : x.Step env (.get k.1 k.2 0 b, .get r) y) :
    Answered env d (.get k, .get (r.1.map fun q => (y.mgr.item q.1).value, r.2)) y := by
  have hy := sound_step hx (roomStep hw h)
  obtain ⟨-, a, hacts, hact⟩ := SysInv.act hx.1 (roomStep hw h)
  cases hacts
  have hget : (abs env x.mgr).get k 0 = (r, abs env y.mgr) := by
    obtain ⟨hr, hst⟩ := Prod.mk.inj hact
    exact Prod.ext (Outcome.get.inj hr) hst
  cases he : (abs env x.mgr).entry k with
  | none =>
    simp only [Store.get, he] at hget
    obtain ⟨rfl, hst⟩ := Prod.mk.inj hget
    refine ⟨d, ?_, hst ▸ hm⟩
    simp only [Dictionary.Step, Dictionary.answer, entry_none hm he, Option.map_none]
  | some e =>
    have hstay : (abs env x.mgr).put k (some (e.addWatchIf 0)) = abs env x.mgr :=
      Store.put_self he
    simp only [Store.get, he, hm.expireTime k e he, true_or, if_true, watchOk_zero, hstay] at hget
    obtain ⟨rfl, hst⟩ := Prod.mk.inj hget
    refine ⟨d, ?_, hst ▸ hm⟩
    rw [hst] at he
    simp only [Dictionary.Step, Dictionary.answer, entry_some (hst ▸ hm) he, Option.map_some,
      value_of_entry hy he]

/-- The text that `delta` allocates an item for. -/
theorem value_of_new {st : Store} {e ne : Entry} {first second : Bytes} {n : Nat}
    (h : NewEntry st ne first second e.ext e.flags e.expireTime n e.ext.length)
    (hlen : first.length + second.length = n) (hext : e.ext.length < 2 ^ 8) :
    ne.value = { e.value with data := first ++ second, cacheId := ne.cacheId } ∧
      ne.expireTime = e.expireTime := by
  refine ⟨?_, h.expireTime⟩
  show Value.mk ne.data ne.flags ne.ext ne.cacheId = _
  rw [h.data hlen, h.flags, h.ext (Nat.mod_eq_of_lt hext).symm]
  rfl

/-- The number in the data of an item is that of its bytes. -/
theorem number_eq {it : CacheItem} (hlen : it.dataSize < 2 ^ 32)
    (hs : ¬ SignBehindBlank (fun i => it.body (it.keyLength + i)) it.dataSize) :
    it.number = bytesValue it.data := by
  have hmem : ∀ i < it.dataSize, it.body (it.keyLength + i) = memOf it.data i := by
    intro i hi
    simp [memOf, CacheItem.data, slice, hi]
  have hblank := not_signBehindBlank_memOf it.data
  rw [CacheItem.length_data] at hblank
  rw [CacheItem.number, bytesValue, CacheItem.length_data,
    safeToi64_congr hlen hmem hs hblank]

/-- What `append` and `prepend` store, if the length of the joined data fits. -/
theorem value_of_joined {e ne : Entry} {first second : Bytes} {n : Nat} (hx : SysSound env x)
    (he : (abs env x.mgr).entry k = some e) (hn : n = v.data.length)
    (hfits : SizeFits env k (v.data.length + e.data.length) e.ext.length)
    (hlen : first.length + second.length = v.data.length + e.data.length)
    (h : NewEntry (abs env x.mgr) ne first second e.ext e.flags e.expireTime
      ((n + e.data.length) % 2 ^ 32) e.ext.length) :
    ne.value = { e.value with data := first ++ second, cacheId := ne.cacheId } ∧
      ne.expireTime = e.expireTime ∧ (first ++ second).length < 2 ^ 32 := by
  unfold SizeFits at hfits
  have hlt : v.data.length + e.data.length < 2 ^ 32 := by omega
  rw [hn, Nat.mod_eq_of_lt hlt] at h
  obtain ⟨hval, hexp⟩ := value_of_new h hlen (length_ext_lt hx he)
  refine ⟨hval, hexp, ?_⟩
  rw [List.length_append, hlen]
  exact hlt

theorem answered_update {verb : Verb} {o' : Malloc} {r : Reason × Option Nat}
    (hw : env.refWidth = .unbounded) (hx : SysSound env x₂) (hm : Mirrors d (abs env x₂.mgr))
    (hk : (x₂.mgr.item p).ident = k) (hv : (x₂.mgr.item p).value = v)
    (hexp : (x₂.mgr.item p).expireTime = 0) (hsize : SizeFits env k v.data.length v.ext.length)
    (hjoin : verb = .append ∨ verb = .prepend → ∀ e, (abs env x₂.mgr).entry k = some e →
      e.value.Matches v.cacheId → SizeFits env k (v.data.length + e.data.length) e.ext.length)
    (h : x₂.Step env (.update verb o' p 0, .update r) y) (hmem : r.1 ≠ .outOfMemory)
    (hid : x₂.mgr.lastCacheId ≤ y.mgr.lastCacheId) :
    Answered env d (.update verb k v, .update r) y := by
  subst hk hv
  generalize hk : (x₂.mgr.item p).ident = k at *
  generalize he : (x₂.mgr.item p).entry p = e
  have hval : (x₂.mgr.item p).value = e.value := he ▸ rfl
  have hdata : (x₂.mgr.item p).dataSize = e.data.length := by
    rw [← he]
    exact (CacheItem.length_data _).symm
  have hlen : e.data.length < 2 ^ 32 := by
    rw [hval] at hsize
    have hs : env.sizeofItem + k.2.length + e.data.length + e.ext.length < 2 ^ 32 := hsize
    omega
  have hexp : e.expireTime = 0 := he ▸ hexp
  rw [hval] at hjoin ⊢
  obtain ⟨-, a, hacts, hact⟩ := SysInv.act hx.1 (roomStep hw h)
  -- the answer and the next state, for each of the five actions
  have hupdate : ∀ b : (Reason × Option Nat) × Store,
      b.map Outcome.update id = (.update r, abs env y.mgr) →
        b = (r, abs env y.mgr) ∧ b.1.1 ≠ .outOfMemory ∧
          (abs env x₂.mgr).lastCacheId ≤ b.2.lastCacheId := by
    rintro ⟨r', st⟩ hb
    obtain ⟨hr, rfl⟩ := Prod.mk.inj hb
    obtain rfl := Outcome.update.inj hr
    exact ⟨rfl, hmem, hid⟩
  cases hacts with
  | add =>
    rw [hk, he] at hact
    obtain ⟨hres, -, hn⟩ := hupdate ((abs env x₂.mgr).add k e 0) hact
    exact answered_of_agrees (agrees_add hm hexp hlen hn) rfl hres
  | set =>
    rw [hk, he] at hact
    obtain ⟨hres, -, hn⟩ := hupdate ((abs env x₂.mgr).set k e 0) hact
    cases hent : (abs env x₂.mgr).entry k with
    | none =>
      simp only [Store.set, hent] at hres hn
      refine answered_of_agrees (agrees_add hm hexp hlen hn) ?_ hres
      simp only [Dictionary.answer, Dictionary.update, entry_none hm hent]
    | some old =>
      simp only [Store.set, hent] at hres hn
      refine answered_of_agrees (agrees_replace hm hent hexp hlen hn) ?_ hres
      simp only [Dictionary.answer, Dictionary.update, entry_some hm hent]
      rfl
  | replace =>
    rw [hk, he] at hact
    obtain ⟨hres, -, hn⟩ := hupdate ((abs env x₂.mgr).replace k e 0) hact
    cases hent : (abs env x₂.mgr).entry k with
    | none =>
      simp only [Store.replace, hent] at hres
      obtain ⟨rfl, hst⟩ := Prod.mk.inj hres
      refine ⟨d, ?_, hst ▸ hm⟩
      simp only [Dictionary.Step, Dictionary.answer, Dictionary.update, entry_none hm hent]
      rfl
    | some old =>
      refine answered_of_agrees (agrees_replace hm hent hexp hlen hn) ?_ hres
      simp only [Dictionary.answer, Dictionary.update, entry_some hm hent]
      rfl
  | @append _ _ _ new hnew =>
    rw [hk] at hact hnew
    obtain ⟨hres, hmem, hn⟩ := hupdate ((abs env x₂.mgr).append k e.cacheId new 0) (he ▸ hact)
    refine answered_of_agrees (agrees_append (f := fun data => data ++ e.data) hm
      (fun old ne hent hmat hne => ?_) hmem hn) rfl hres
    exact value_of_joined (v := e.value) hx hent hdata (hjoin (.inl rfl) old hent hmat)
      (Nat.add_comm ..) (he ▸ hnew ne old hne hent)
  | @prepend _ _ _ new hnew =>
    rw [hk] at hact hnew
    obtain ⟨hres, hmem, hn⟩ := hupdate ((abs env x₂.mgr).append k e.cacheId new 0) (he ▸ hact)
    refine answered_of_agrees (agrees_append (f := fun data => e.data ++ data) hm
      (fun old ne hent hmat hne => ?_) hmem hn) rfl hres
    exact value_of_joined (v := e.value) hx hent hdata (hjoin (.inr rfl) old hent hmat)
      rfl (he ▸ hnew ne old hne hent)

theorem answered_delta {incr : Bool} {amount : Int} {i : Nat} {r : Reason × Nat × Int}
    (hw : env.refWidth = .unbounded) (hx : SysSound env x) (hm : Mirrors d (abs env x.mgr))
    (hplain : x.Plain env (.delta k incr amount i))
    (h : x.Step env (.delta o k.1 k.2 incr amount i, .delta r) y) (hmem : r.1 ≠ .outOfMemory)
    (hid : x.mgr.lastCacheId ≤ y.mgr.lastCacheId) :
    Answered env d (.delta k incr amount i, .delta r) y := by
  obtain ⟨-, a, hacts, hact⟩ := SysInv.act hx.1 (roomStep hw h)
  cases hacts with
  | @delta _ _ _ _ _ _ value new hnew =>
    have hres : (abs env x.mgr).delta k i value (formatInt64 value) new = (r, abs env y.mgr) := by
      obtain ⟨hr, hst⟩ := Prod.mk.inj hact
      exact Prod.ext (Outcome.delta.inj hr) hst
    refine answered_of_agrees (agrees_delta hm (fun old he hmat => ?_) (fun old ne he hne => ?_)
      ?_ ?_) rfl hres
    · obtain ⟨hdata, -, -⟩ := item_of_entry hx he
      have hlen : (x.mgr.item old.ptr).dataSize < 2 ^ 32 := by
        rw [← CacheItem.length_data, hdata]
        exact hm.length k old he
      have hnum := number_eq hlen (hplain old he hmat)
      rw [hdata] at hnum
      rw [(hnew old he).1, ← hnum]
      rfl
    · have hspec := (hnew old he).2 ne hne
      have hval := value_of_new hspec (Nat.add_zero _) (length_ext_lt hx he)
      rwa [List.append_nil] at hval
    · rw [hres]
      exact hmem
    · rw [hres]
      exact hid

/-- A call keeps the correspondence, and the map gives its answer. -/
theorem serves_answer {l : Inquiry × Returned} (hw : env.refWidth = .unbounded)
    (hx : SysSound env x) (hm : Mirrors d (abs env x.mgr)) (hplain : x.Plain env l.1)
    (h : x.ServesId env l y) : SysSound env y ∧ Answered env d l y := by
  obtain ⟨h, hid⟩ := h
  cases h with
  | miss h => exact ⟨sound_step hx (roomStep hw h), answered_get hw hx hm h⟩
  | hit h => exact ⟨sound_step hx (roomStep hw h), answered_get hw hx hm h⟩
  | update halloc hfill hup hmem =>
    obtain ⟨hext, hsize, hjoin⟩ := hplain
    obtain ⟨hx₂, habs, hk, hv, hexp⟩ := request_of_fill hw hx hext halloc hfill
    have hlast := congrArg Store.lastCacheId habs
    refine ⟨sound_step hx₂ (roomStep hw hup), ?_⟩
    rw [← habs] at hm hjoin
    exact answered_update hw hx₂ hm hk hv hexp hsize hjoin hup hmem (le_of_eq_of_le hlast hid)
  | remove h =>
    refine ⟨sound_step hx (roomStep hw h), ?_⟩
    obtain ⟨-, a, hacts, hact⟩ := SysInv.act hx.1 (roomStep hw h)
    cases hacts
    obtain ⟨hr, hst⟩ := Prod.mk.inj hact
    exact answered_of_agrees (agrees_remove hm ..) rfl (Prod.ext (Outcome.remove.inj hr) hst)
  | @updateFlags k i fl r _ h =>
    refine ⟨sound_step hx (roomStep hw h), ?_⟩
    obtain ⟨-, a, hacts, hact⟩ := SysInv.act hx.1 (roomStep hw h)
    cases hacts
    have hres : (abs env x.mgr).updateFlags k i fl = (r, abs env y.mgr) := by
      obtain ⟨hr, hst⟩ := Prod.mk.inj hact
      exact Prod.ext (Outcome.base.inj hr) hst
    refine answered_of_agrees (agrees_updateFlags hm ?_) rfl hres
    rw [hres]
    exact hid
  | delta h hmem =>
    exact ⟨sound_step hx (roomStep hw h), answered_delta hw hx hm hplain h hmem hid⟩
  | flush h =>
    refine ⟨sound_step hx (roomStep hw h), ?_⟩
    obtain ⟨-, a, hacts, hact⟩ := SysInv.act hx.1 (roomStep hw h)
    cases hacts with
    | flush hnd hks =>
      obtain ⟨hr, hst⟩ := Prod.mk.inj hact
      exact answered_of_agrees (agrees_flush hm hnd hks) rfl
        (Prod.ext (Outcome.flush.inj hr) hst)
  | releaseReference h =>
    refine ⟨sound_step hx (roomStep hw h), d, rfl, ?_⟩
    obtain ⟨-, a, hacts, hact⟩ := SysInv.act hx.1 (roomStep hw h)
    cases hacts
    rw [← (Prod.mk.inj hact).2]
    exact hm

theorem mirrors_start {lastTime limit itemSizeMax itemSizeMin : Nat} {factor : Rat} :
    Mirrors .empty (abs env (Sys.start env lastTime limit itemSizeMax itemSizeMin factor).mgr) := by
  rw [abs_start]
  exact ⟨rfl, Nat.two_pow_pos 64, fun _ => rfl, nofun, nofun⟩

end DictionaryLemmas

open CounterLemmas DictionaryLemmas

/-- Every run of plain calls is a run of the dictionary with the same answers. -/
theorem dictionary_of_run {env : Env} {lastTime limit itemSizeMax itemSizeMin : Nat} {factor : Rat}
    {t : List (Sys × (Inquiry × Returned))} {y : Sys} (hw : env.refWidth = .unbounded)
    (h : Run (Sys.ServesId env) (Sys.start env lastTime limit itemSizeMax itemSizeMin factor) t y)
    (hplain : ∀ z ∈ t, z.1.Plain env z.2.1) :
    ∃ t' d, Run (Dictionary.Step env.sizeofItem) .empty t' d ∧
      t'.map Prod.snd = t.map Prod.snd ∧ Represents env d y := by
  have hrun := h.restrict (P := fun x l => x.Plain env l.1) hplain
  have hsim : ∀ x l y d, SysSound env x ∧ Mirrors d (abs env x.mgr) →
      x.Plain env l.1 ∧ x.ServesId env l y →
      ∃ d', d.Step env.sizeofItem l d' ∧ SysSound env y ∧ Mirrors d' (abs env y.mgr) := by
    intro x l y d hx hl
    obtain ⟨hy, d', hstep, hm⟩ := serves_answer hw hx.1 hx.2 hl.1 hl.2
    exact ⟨d', hstep, hy, hm⟩
  obtain ⟨t', d, hd, ⟨-, hm⟩, hlabels⟩ := hrun.simulates (f := fun _ l => l) hsim
    ⟨sound_start, mirrors_start⟩
  exact ⟨t', d, hd, hlabels, hm.issued, hm.entry⟩

/-! ## Two runs -/

/-- Item 0 is allocated for a key of group 1, filled and set. -/
def boundOps (v : Value) : List Op :=
  [.alloc .zeros 1 1 v.flags 0 v.data.length v.ext.length, .fill 0 ⟨[107], v.data, v.ext, v.cacheId⟩,
    .update .set .zeros 0 0]

/-- The key is set, then the number in it is increased. -/
theorem servesId_delta (env : Env) (x : Sys) (v : Value) (amount value : Int)
    (hset : x.Allowed env (boundOps v ++ [.delta .zeros 1 [107] true amount 0]))
    (hout : (x.trace env (boundOps v ++ [.delta .zeros 1 [107] true amount 0])).map (fun z => z.2.2) =
      [.alloc (some 0), .done, .update (.success, some 1), .delta (.success, 2, value)])
    (hid : x.mgr.lastCacheId ≤ (x.execAll env (boundOps v)).mgr.lastCacheId ∧
      (x.execAll env (boundOps v)).mgr.lastCacheId ≤
        (x.execAll env (boundOps v ++ [.delta .zeros 1 [107] true amount 0])).mgr.lastCacheId) :
    Run (Sys.ServesId env) x
      [(x, .update .set (1, [107]) v, .update (.success, some 1)),
        (x.execAll env (boundOps v), .delta (1, [107]) true amount 0, .delta (.success, 2, value))]
      (x.execAll env (boundOps v ++ [.delta .zeros 1 [107] true amount 0])) := by
  obtain ⟨p1, p2, p3, p4, -⟩ := hset
  obtain ⟨h1, hout⟩ := List.cons.inj hout
  obtain ⟨h2, hout⟩ := List.cons.inj hout
  obtain ⟨h3, hout⟩ := List.cons.inj hout
  obtain ⟨h4, -⟩ := List.cons.inj hout
  have hset : x.Serves env (.update .set (1, [107]) v, .update (.success, some 1))
      (x.execAll env (boundOps v)) :=
    .update ⟨p1, Prod.ext h1 rfl⟩ ⟨p2, Prod.ext h2 rfl⟩ ⟨p3, Prod.ext h3 rfl⟩ (by decide)
  have hdelta : (x.execAll env (boundOps v)).Serves env
      (.delta (1, [107]) true amount 0, .delta (.success, 2, value))
      (x.execAll env (boundOps v ++ [.delta .zeros 1 [107] true amount 0])) :=
    .delta ⟨p4, Prod.ext h4 rfl⟩ nofun
  have hfirst : Run (Sys.ServesId env) x _ (x.execAll env (boundOps v)) := .single ⟨hset, hid.1⟩
  exact hfirst.trans (.single ⟨hdelta, hid.2⟩)

/-- 5 and 7 are 12. -/
theorem dictionary_of_counter :
    let env := Env.colliding .unbounded
    ∃ t' d, Run (Dictionary.Step env.sizeofItem) .empty t' d ∧
      t'.map Prod.snd =
        [(.update .set (1, [107]) ⟨[53], 0, [], 0⟩, .update (.success, some 1)),
          (.delta (1, [107]) true 7 0, .delta (.success, 2, 12))] ∧
      Represents env d ((Sys.small .unbounded).execAll env
        (boundOps ⟨[53], 0, [], 0⟩ ++ [.delta .zeros 1 [107] true 7 0])) := by
  intro env
  have hrun := servesId_delta env (Sys.small .unbounded) ⟨[53], 0, [], 0⟩ 7 12
    (by decide +kernel) (by decide +kernel) (by decide +kernel)
  refine dictionary_of_run rfl hrun fun z hz => ?_
  rcases List.mem_cons.mp hz with rfl | hz
  · exact ⟨by decide, by decide, nofun⟩
  · obtain rfl := List.mem_singleton.mp hz
    intro e he _ it hsign
    have hptr : ((abs env ((Sys.small .unbounded).execAll env
        (boundOps ⟨[53], 0, [], 0⟩)).mgr).entry (1, [107])).map Entry.ptr = some 0 := by
      decide +kernel
    rw [he] at hptr
    have hit : it = ((Sys.small .unbounded).execAll env (boundOps ⟨[53], 0, [], 0⟩)).mgr.item 0 :=
      congrArg _ (Option.some.inj hptr)
    rw [hit] at hsign
    exact absurd (hsign.2.1 0 (by decide +kernel)) (by decide +kernel)

/-- The data is a blank, the extension is `-5`; adding 1 gives -4. -/
theorem not_dictionary_sign :
    let env := Env.colliding .unbounded
    ∃ t y, Run (Sys.ServesId env) (Sys.small .unbounded) t y ∧
      ¬ ∃ t' d, Run (Dictionary.Step env.sizeofItem) .empty t' d ∧
        t'.map Prod.snd = t.map Prod.snd := by
  intro env
  refine ⟨_, _, servesId_delta env (Sys.small .unbounded) ⟨[32], 0, [45, 53], 0⟩ 1 (-4)
    (by decide +kernel) (by decide +kernel) (by decide +kernel), ?_⟩
  rintro ⟨t', d, hrun, hlabels⟩
  cases hrun with
  | nil => exact nomatch hlabels
  | snoc hrun hlast =>
    rw [List.map_append] at hlabels
    obtain ⟨hfirst, hl⟩ := List.append_inj' (show _ ++ [_] = [_] ++ [_] from hlabels) rfl
    obtain rfl := (List.cons.inj hl).1
    cases hrun with
    | nil => exact nomatch hfirst
    | snoc hrun hprev =>
      rw [List.map_append] at hfirst
      obtain ⟨hnil, hl⟩ := List.append_inj' (show _ ++ [_] = [] ++ [_] from hfirst) rfl
      obtain rfl := (List.cons.inj hl).1
      cases hrun with
      | snoc => exact absurd hnil (by simp)
      | nil =>
        obtain rfl := (Prod.mk.inj hprev).2
        exact absurd (Prod.mk.inj hlast).1 (by decide +kernel)

end Xixi
