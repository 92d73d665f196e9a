import Mathlib.Tactic.Common
import Xixi.Operation
import Xixi.Store

/-!
# The invariant of the cache manager

`held p` counts the references to the item `p` that are not the link itself:
those of the callers, those an operation holds for itself, and those that have
been lost. The invariant says that `ref_count` is the link plus `held`, which
turns every operation into a sequence of moves: taking a reference adds one to
`held`, linking and unlinking trade one for the link, releasing takes one away.

1. `Core env held L s`: the lists are the sequences `L`, the hash map holds the
   linked items, the counts are right, and no assert has failed.
2. `abs env s`: the abstract store.
3. `Core.find_iff`, `abs_entry_iff`: the hash map finds exactly the linked items.
4. `Core.modify`, `Core.addReference`: changes of one item.
-/

namespace Xixi

open Xixi.Lists

/-- The item is in an expire list. -/
def Linked (L : ListId → List Ptr) (p : Ptr) : Prop := ∃ i, p ∈ L (.expire i)

open Classical in
/-- The link of an item counts for one reference. -/
noncomputable def linkCount (L : ListId → List Ptr) (p : Ptr) : Nat := if Linked L p then 1 else 0

/-- The bucket counts that repeated expansion from 7 can reach. -/
def bucketSizes : List Nat :=
  HashMap.sizes ++ [50331686, 100663372, 201326744, 402653488, 805306976, 1610613952, 3221227904,
    2147488512, 9728]

theorem nextBucketSize_mem {n : Nat} (h : n ∈ bucketSizes) :
    HashMap.nextBucketSize n ∈ bucketSizes := by
  have hall : ∀ n ∈ bucketSizes, HashMap.nextBucketSize n ∈ bucketSizes := by decide
  exact hall n h

theorem bucketSizes_pos {n : Nat} (h : n ∈ bucketSizes) : 0 < n := by
  have hall : ∀ n ∈ bucketSizes, 0 < n := by decide
  exact hall n h

namespace CacheItem

/-- What the item is found by. -/
def ident (it : CacheItem) : Key := (it.groupId, it.key)

/-- The content of the item at address `p`. -/
def entry (it : CacheItem) (p : Ptr) : Entry where
  ptr := p
  data := it.data
  flags := it.flags
  ext := it.ext
  cacheId := it.cacheId
  expireTime := it.expireTime
  watch := it.watchItem

end CacheItem

/-- The invariant, over the fields of the manager it speaks about. -/
structure CoreInv (env : Env) (held : Ptr → Nat) (L : ListId → List Ptr) (item : Ptr → CacheItem)
    (lists : Lists ListId Ptr) (hashMap : HashMap Ptr) (allocated : Ptr → Bool) (nextPtr : Nat)
    (ok : Bool) : Prop where
  rep : lists.Rep L
  inRange : ∀ {i p}, p ∈ L (.expire i) → i < 34
  noFlushed : L .flushCache = []
  expirationId : ∀ {i p}, p ∈ L (.expire i) → (item p).expirationId = i
  table : ∃ S : Finset Ptr, (∀ p, p ∈ S ↔ Linked L p) ∧ hashMap.Rep S
  bucket : hashMap.bucketSize ∈ bucketSizes
  hash : ∀ {p}, Linked L p → hashMap.hashValue p = env.hash32 (item p).key (item p).groupId
  inj : ∀ {p q}, Linked L p → Linked L q → (item p).ident = (item q).ident → p = q
  refCount : ∀ p, (item p).refCount = linkCount L p + held p
  stored : ∀ p, env.refWidth.store (item p).refCount = (item p).refCount
  used : ∀ {p}, 0 < (item p).refCount →
    allocated p = true ∧ (∀ i, p ∉ L (.freeCache i)) ∧ (item p).expirationId < 34
  idle : ∀ {p}, (item p).refCount = 0 → (item p).watchItem = none ∧ (item p).cacheId = 0
  free : ∀ {i p}, p ∈ L (.freeCache i) → allocated p = true
  kept : ∀ {p}, (item p).refCount = 0 → allocated p = true → ∃ i, p ∈ L (.freeCache i)
  bound : ∀ {p}, allocated p = true → p < nextPtr
  ok : ok = true

def Core (env : Env) (held : Ptr → Nat) (L : ListId → List Ptr) (s : CacheMgr) : Prop :=
  CoreInv env held L s.item s.lists s.cacheHashMap s.allocated s.nextPtr s.ok

/-- Some sequences make the state well formed. -/
def Inv (env : Env) (held : Ptr → Nat) (s : CacheMgr) : Prop := ∃ L, Core env held L s

/-- The fields the abstract store takes over. -/
def CacheMgr.rest (s : CacheMgr) : (Nat → Option CacheWatch) × Nat × Nat :=
  (s.watchMap, s.lastCacheId, s.currTime)

/-- The abstract store of a state. -/
def abs (env : Env) (s : CacheMgr) : Store where
  entry := fun k => (s.find k.1 k.2 (env.hash32 k.2 k.1)).map fun p => (s.item p).entry p
  pending := fun w => (s.watchMap w).map fun watch => (watch.updatedList, watch.updatedTypeList)
  lastCacheId := s.lastCacheId
  currTime := s.currTime

variable {env : Env} {held : Ptr → Nat} {L L' : ListId → List Ptr} {s s' : CacheMgr} {p q : Ptr}

/-! ## Basic facts -/

@[simp] theorem bump_self : bump held p p = held p + 1 := Function.update_self ..

theorem bump_of_ne (h : q ≠ p) : bump held p q = held q := Function.update_of_ne h ..

theorem bump_comm : bump (bump held p) q = bump (bump held q) p := by
  by_cases h : p = q
  · rw [h]
  · unfold bump
    rw [Function.update_of_ne (Ne.symm h), Function.update_of_ne h, Function.update_comm h]

theorem linkCount_of_linked (h : Linked L p) : linkCount L p = 1 := if_pos h

theorem linkCount_of_not (h : ¬ Linked L p) : linkCount L p = 0 := if_neg h

theorem linkCount_congr (h : Linked L' p ↔ Linked L p) : linkCount L' p = linkCount L p := by
  by_cases hp : Linked L p
  · rw [linkCount_of_linked hp, linkCount_of_linked (h.mpr hp)]
  · rw [linkCount_of_not hp, linkCount_of_not (fun hl => hp (h.mp hl))]

theorem linked_congr (h : ∀ i, L' (.expire i) = L (.expire i)) (p : Ptr) :
    Linked L' p ↔ Linked L p := by
  simp only [Linked, h]

namespace Core

theorem mem_of_linked (h : Core env held L s) (hp : Linked L p) :
    p ∈ L (.expire (s.item p).expirationId) := by
  obtain ⟨i, hi⟩ := hp
  rw [h.expirationId hi]
  exact hi

theorem pos_of_linked (h : Core env held L s) (hp : Linked L p) : 0 < (s.item p).refCount := by
  rw [h.refCount p, linkCount_of_linked hp]
  omega

theorem pos_of_held (h : Core env held L s) (hp : 0 < held p) : 0 < (s.item p).refCount := by
  rw [h.refCount p]
  omega

theorem lt_nextPtr (h : Core env held L s) (hp : 0 < (s.item p).refCount) : p < s.nextPtr :=
  h.bound (h.used hp).1

/-- An item in use that is not linked is in no list at all. -/
theorem not_mem (h : Core env held L s) (hp : 0 < (s.item p).refCount) (hn : ¬ Linked L p)
    (i : ListId) : p ∉ L i := by
  cases i with
  | expire i => exact fun hm => hn ⟨i, hm⟩
  | freeCache i => exact (h.used hp).2.1 i
  | flushCache => simp [h.noFlushed]

theorem card_le (h : Core env held L s) {S : Finset Ptr} (hS : ∀ p, p ∈ S ↔ Linked L p) :
    S.card ≤ s.nextPtr := by
  have hsub : S ⊆ Finset.range s.nextPtr := fun p hp =>
    Finset.mem_range.mpr (lt_nextPtr h (pos_of_linked h ((hS p).mp hp)))
  simpa using Finset.card_le_card hsub

theorem find_iff (h : Core env held L s) (g : Nat) (k : Bytes) :
    s.find g k (env.hash32 k g) = some p ↔ Linked L p ∧ (s.item p).ident = (g, k) := by
  obtain ⟨S, hS, hrep⟩ := h.table
  have hcard := h.card_le hS
  have hkey : ∀ q, (s.item q).isKey g k = true ↔ (s.item q).ident = (g, k) := by
    intro q
    rw [CacheItem.isKey_iff, CacheItem.ident, Prod.mk.injEq]
  constructor
  · intro hf
    obtain ⟨hp, hk⟩ := HashMap.find_some hrep hcard hf
    exact ⟨(hS p).mp hp, (hkey p).mp hk⟩
  · rintro ⟨hp, hk⟩
    cases hf : s.find g k (env.hash32 k g) with
    | none =>
      have hh : s.cacheHashMap.hashValue p = env.hash32 k g := by
        rw [h.hash hp]
        have := Prod.mk.inj hk
        rw [this.1, this.2]
      have := HashMap.find_none hrep hcard hf ((hS p).mpr hp) hh
      rw [(hkey p).mpr hk] at this
      exact nomatch this
    | some q =>
      obtain ⟨hq, hk'⟩ := HashMap.find_some hrep hcard hf
      rw [h.inj hp ((hS q).mp hq) (hk.trans ((hkey q).mp hk').symm)]

theorem find_none (h : Core env held L s) {g : Nat} {k : Bytes}
    (hf : s.find g k (env.hash32 k g) = none) (hp : Linked L p) : (s.item p).ident ≠ (g, k) := by
  intro hk
  rw [(h.find_iff g k).mpr ⟨hp, hk⟩] at hf
  exact nomatch hf

end Core

/-! ## The abstract store -/

theorem abs_entry_iff (h : Core env held L s) {k : Key} {e : Entry} :
    (abs env s).entry k = some e ↔
      ∃ p, Linked L p ∧ (s.item p).ident = k ∧ e = (s.item p).entry p := by
  obtain ⟨g, k⟩ := k
  simp only [abs, Option.map_eq_some_iff, h.find_iff]
  constructor
  · rintro ⟨p, ⟨hl, hk⟩, he⟩
    exact ⟨p, hl, hk, he.symm⟩
  · rintro ⟨p, hl, hk, he⟩
    exact ⟨p, ⟨hl, hk⟩, he.symm⟩

theorem abs_entry_of_linked (h : Core env held L s) (hp : Linked L p) :
    (abs env s).entry (s.item p).ident = some ((s.item p).entry p) :=
  (abs_entry_iff h).mpr ⟨p, hp, rfl, rfl⟩

theorem absent_iff (h : Core env held L s) : (abs env s).Absent p ↔ ¬ Linked L p := by
  constructor
  · exact fun hp hl => hp _ _ (abs_entry_of_linked h hl) rfl
  · intro hn k e he hep
    obtain ⟨q, hq, -, rfl⟩ := (abs_entry_iff h).mp he
    have hqp : q = p := hep
    exact hn (hqp ▸ hq)

theorem abs_eq (hent : (abs env s').entry = (abs env s).entry) (hrest : s'.rest = s.rest) :
    abs env s' = abs env s := by
  simp only [CacheMgr.rest, Prod.mk.injEq] at hrest
  obtain ⟨h1, h2, h3⟩ := hrest
  exact Store.ext hent (by simp only [abs, h1]) h2 h3

/-- The entries only depend on the linked items. -/
theorem abs_entry_congr (h : Core env held L s) {held' : Ptr → Nat} (h' : Core env held' L' s')
    (hL : ∀ p, Linked L' p ↔ Linked L p)
    (hi : ∀ p, Linked L p → (s'.item p).ident = (s.item p).ident ∧
      (s'.item p).entry p = (s.item p).entry p) :
    (abs env s').entry = (abs env s).entry := by
  funext k
  refine Option.ext fun e => ?_
  rw [abs_entry_iff h, abs_entry_iff h']
  constructor
  · rintro ⟨p, hp, hk, he⟩
    have hp' := (hL p).mp hp
    exact ⟨p, hp', (hi p hp').1 ▸ hk, (hi p hp').2 ▸ he⟩
  · rintro ⟨p, hp, hk, he⟩
    exact ⟨p, (hL p).mpr hp, (hi p hp).1.trans hk, he.trans (hi p hp).2.symm⟩

/-- One linked item changes its content, or is linked, or is unlinked: `o` is the
new entry of its key. -/
theorem abs_entry_update (h : Core env held L s) {held' : Ptr → Nat} (h' : Core env held' L' s')
    {o : Option Entry}
    (hL : ∀ q, q ≠ p → (Linked L' q ↔ Linked L q))
    (hi : ∀ q, q ≠ p → (s'.item q).ident = (s.item q).ident ∧
      (s'.item q).entry q = (s.item q).entry q)
    (hk : (s'.item p).ident = (s.item p).ident ∨ ¬ Linked L' p)
    (hfree : ∀ q, Linked L q → (s.item q).ident = (s.item p).ident → q = p)
    (ho : ∀ e, o = some e ↔ Linked L' p ∧ e = (s'.item p).entry p) :
    (abs env s').entry = Function.update (abs env s).entry (s.item p).ident o := by
  funext k
  refine Option.ext fun e => ?_
  rw [abs_entry_iff h']
  by_cases hkk : k = (s.item p).ident
  · subst hkk
    rw [Function.update_self, ho]
    constructor
    · rintro ⟨q, hq, hqk, he⟩
      by_cases hqp : q = p
      · subst hqp
        exact ⟨hq, he⟩
      · exact absurd (hfree q ((hL q hqp).mp hq) ((hi q hqp).1 ▸ hqk)) hqp
    · rintro ⟨hp, he⟩
      exact ⟨p, hp, hk.resolve_right (fun hn => hn hp), he⟩
  · rw [Function.update_of_ne hkk, abs_entry_iff h]
    constructor
    · rintro ⟨q, hq, hqk, he⟩
      by_cases hqp : q = p
      · subst hqp
        exact absurd (hqk.symm.trans (hk.resolve_right (fun hn => hn hq))) hkk
      · exact ⟨q, (hL q hqp).mp hq, (hi q hqp).1 ▸ hqk, (hi q hqp).2 ▸ he⟩
    · rintro ⟨q, hq, hqk, he⟩
      by_cases hqp : q = p
      · subst hqp
        exact absurd hqk.symm hkk
      · exact ⟨q, (hL q hqp).mpr hq, (hi q hqp).1.trans hqk, he.trans (hi q hqp).2.symm⟩

/-! ## Changing items in place -/

namespace CacheMgr

@[simp] theorem item_modify_self (s : CacheMgr) (p : Ptr) (f : CacheItem → CacheItem) :
    (s.modify p f).item p = f (s.item p) := Function.update_self ..

theorem item_modify_of_ne (s : CacheMgr) (f : CacheItem → CacheItem) (h : q ≠ p) :
    (s.modify p f).item q = s.item q := Function.update_of_ne h ..

@[simp] theorem assert_true (s : CacheMgr) : s.assert true = s := by simp [CacheMgr.assert]

end CacheMgr

namespace Core

/-- A new item in place of the one at `p`, with the count `n` instead of `held p`:
same list, same key if it is linked. -/
theorem modifyTo (h : Core env held L s) {f : CacheItem → CacheItem} {n : Nat}
    (hr : (f (s.item p)).refCount = linkCount L p + n)
    (hst : env.refWidth.store (f (s.item p)).refCount = (f (s.item p)).refCount)
    (hu : 0 < (s.item p).refCount)
    (he : (f (s.item p)).expirationId = (s.item p).expirationId)
    (hk : Linked L p → (f (s.item p)).ident = (s.item p).ident)
    (hz : 0 < (f (s.item p)).refCount) :
    Core env (Function.update held p n) L (s.modify p f) := by
  -- every fact about an item is about the new one, or about an old one
  have hcase : ∀ P : Ptr → CacheItem → Prop, P p (f (s.item p)) → (∀ q, q ≠ p → P q (s.item q)) →
      ∀ q, P q ((s.modify p f).item q) := by
    intro P hp hq q
    by_cases hqp : q = p
    · subst hqp
      rw [CacheMgr.item_modify_self]
      exact hp
    · rw [CacheMgr.item_modify_of_ne s f hqp]
      exact hq q hqp
  have hident : ∀ q, Linked L q → ((s.modify p f).item q).ident = (s.item q).ident :=
    hcase (fun q it => Linked L q → it.ident = (s.item q).ident) hk fun _ _ _ => rfl
  have hexp : ∀ q, ((s.modify p f).item q).expirationId = (s.item q).expirationId :=
    hcase (fun q it => it.expirationId = (s.item q).expirationId) he fun _ _ => rfl
  exact {
    rep := h.rep
    inRange := h.inRange
    noFlushed := h.noFlushed
    expirationId := fun hm => (hexp _).trans (h.expirationId hm)
    table := h.table
    bucket := h.bucket
    hash := fun {q} hl => by
      obtain ⟨hg, hkey⟩ := Prod.mk.inj (hident q hl)
      rw [hg, hkey]
      exact h.hash hl
    inj := fun {a b} ha hb hid => h.inj ha hb (by rw [← hident a ha, ← hident b hb, hid])
    refCount := hcase (fun q it => it.refCount = linkCount L q + Function.update held p n q)
      (by rw [Function.update_self, hr])
      (fun q hq => by rw [Function.update_of_ne hq, h.refCount q])
    stored := hcase (fun _ it => env.refWidth.store it.refCount = it.refCount) hst
      fun q _ => h.stored q
    used := fun {q} => hcase (fun q it => 0 < it.refCount → s.allocated q = true ∧
        (∀ i, q ∉ L (.freeCache i)) ∧ it.expirationId < 34)
      (fun _ => by rw [he]; exact h.used hu) (fun _ _ hq => h.used hq) q
    idle := fun {q} => hcase (fun _ it => it.refCount = 0 → it.watchItem = none ∧ it.cacheId = 0)
      (fun hzero => by omega) (fun _ _ hq => h.idle hq) q
    free := h.free
    kept := fun {q} => hcase (fun q it => it.refCount = 0 → s.allocated q = true →
        ∃ i, q ∈ L (.freeCache i))
      (fun hzero => by omega) (fun _ _ hq => h.kept hq) q
    bound := h.bound
    ok := h.ok }

/-- An item in use may change, but for its count, its list and, if it is linked,
its key. -/
theorem modify (h : Core env held L s) {f : CacheItem → CacheItem} (hu : 0 < (s.item p).refCount)
    (hr : (f (s.item p)).refCount = (s.item p).refCount)
    (he : (f (s.item p)).expirationId = (s.item p).expirationId)
    (hk : Linked L p → (f (s.item p)).ident = (s.item p).ident) :
    Core env held L (s.modify p f) := by
  have hm := h.modifyTo (n := held p) (hr.trans (h.refCount p)) (hr.symm ▸ h.stored p) hu he hk
    (hr.symm ▸ hu)
  rwa [Function.update_eq_self] at hm

/-- A further reference to an item in use. -/
theorem addReference (h : Core env held L s) (hu : 0 < (s.item p).refCount)
    (hroom : env.refWidth.store ((s.item p).refCount + 1) = (s.item p).refCount + 1) :
    Core env (bump held p) L (s.addReference env p) := by
  refine h.modifyTo ?_ ?_ hu rfl (fun _ => rfl) ?_
  · show env.refWidth.store _ = _
    rw [hroom, h.refCount p, Nat.add_assoc]
  · show env.refWidth.store (env.refWidth.store _) = env.refWidth.store _
    rw [hroom, hroom]
  · show 0 < env.refWidth.store _
    rw [hroom]
    omega

end Core

/-! ## Changes of the abstract store by a change of one item -/

theorem abs_modify_of_not_linked {held' : Ptr → Nat} {f : CacheItem → CacheItem}
    (h : Core env held L s) (h' : Core env held' L (s.modify p f)) (hn : ¬ Linked L p) :
    abs env (s.modify p f) = abs env s := by
  refine abs_eq (abs_entry_congr h h' (fun _ => Iff.rfl) fun q hq => ?_) rfl
  have hqp : q ≠ p := fun he => hn (he ▸ hq)
  rw [CacheMgr.item_modify_of_ne s f hqp]
  exact ⟨rfl, rfl⟩

theorem abs_modify_of_linked {held' : Ptr → Nat} {f : CacheItem → CacheItem}
    (h : Core env held L s) (h' : Core env held' L (s.modify p f)) (hp : Linked L p)
    (hk : (f (s.item p)).ident = (s.item p).ident) :
    abs env (s.modify p f) =
      (abs env s).put (s.item p).ident (some ((f (s.item p)).entry p)) := by
  refine Store.ext (abs_entry_update h h' (fun _ _ => Iff.rfl) (fun q hq => ?_) (.inl ?_)
    (fun q hq hid => h.inj hq hp hid) fun e => ?_) rfl rfl rfl
  · rw [CacheMgr.item_modify_of_ne s f hq]
    exact ⟨rfl, rfl⟩
  · rw [CacheMgr.item_modify_self]
    exact hk
  · rw [CacheMgr.item_modify_self]
    exact ⟨fun he => ⟨hp, (Option.some.inj he).symm⟩, fun he => he.2 ▸ rfl⟩

theorem Core.abs_addReference (h : Core env held L s) (hu : 0 < (s.item p).refCount)
    (hroom : env.refWidth.store ((s.item p).refCount + 1) = (s.item p).refCount + 1) :
    abs env (s.addReference env p) = abs env s := by
  have h' := h.addReference hu hroom
  by_cases hp : Linked L p
  · rw [CacheMgr.addReference, abs_modify_of_linked h h' hp rfl]
    exact Store.put_self (abs_entry_of_linked h hp)
  · exact abs_modify_of_not_linked h h' hp

end Xixi
