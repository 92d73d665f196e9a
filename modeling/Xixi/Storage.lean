import Xixi.System

/-!
# Item storage

Four paths lead to `do_alloc`: a binary update request, an HTTP update request, the
combination of two items by `append` or `prepend`, and a file. All of them compute
with 32 bits, and the item keeps the key length in 16 bits and the length of the
extension in 8.

1. `getClassId_fits`: the size class is large enough for the size it is asked for.
2. `fits_iff`: the item is large enough, and its lengths are those of the request,
   if and only if no sum or length is cut.
3. `not_fits_binary`: a binary request whose size is cut.
-/

namespace Xixi

/-- What a caller is going to copy into the item. -/
inductive AllocRequest
  /-- `process_update_req_pdu_fixed`: a 16-bit and a 32-bit field of the packet. -/
  | binary (keyLength dataLength : Nat)
  /-- `Peer_Http::process_update`. -/
  | http (keyLength valueLength contentTypeLength : Nat)
  /-- `append` and `prepend`: the lengths in the request item and in the old item. -/
  | combined (keyLength dataSize oldDataSize oldExtSize : Nat)
  /-- `load_from_file`: as many bytes are read as `(uint32_t)file_size` says. -/
  | file (keyLength fileSize mimeTypeLength : Nat)
deriving DecidableEq, Repr

namespace AllocRequest

/-- The values that the types of the source allow. -/
def InRange : AllocRequest → Prop
  | .binary k d => k < 2 ^ 16 ∧ d < 2 ^ 32
  | .http k d e => k < 2 ^ 32 ∧ d < 2 ^ 32 ∧ e < 2 ^ 32
  | .combined k d d' e => k < 2 ^ 16 ∧ d < 2 ^ 32 ∧ d' < 2 ^ 32 ∧ e < 2 ^ 8
  | .file k n e => k < 2 ^ 32 ∧ n < 2 ^ 64 ∧ e < 2 ^ 32

instance : (r : AllocRequest) → Decidable r.InRange
  | .binary .. => inferInstanceAs (Decidable (_ ∧ _))
  | .http .. => inferInstanceAs (Decidable (_ ∧ _ ∧ _))
  | .combined .. => inferInstanceAs (Decidable (_ ∧ _ ∧ _ ∧ _))
  | .file .. => inferInstanceAs (Decidable (_ ∧ _ ∧ _))

def keyLength : AllocRequest → Nat
  | .binary k _ | .http k _ _ | .combined k _ _ _ | .file k _ _ => k

/-- The bytes of data that will be copied. -/
def dataLength : AllocRequest → Nat
  | .binary _ d => d
  | .http _ d _ => d
  | .combined _ d d' _ => d + d'
  | .file _ n _ => n % 2 ^ 32

def extLength : AllocRequest → Nat
  | .binary _ _ => 0
  | .http _ _ e | .combined _ _ _ e | .file _ _ e => e

end AllocRequest

/-- `do_alloc` as the paths call it: the length of the data is a `uint32_t`. -/
def CacheMgr.allocFor (env : Env) (s : CacheMgr) (o : Malloc) (groupId flags expireTime : Nat)
    (r : AllocRequest) : Option Ptr × CacheMgr :=
  s.doAlloc env o groupId r.keyLength flags expireTime (r.dataLength % 2 ^ 32) r.extLength

/-- The size class that `do_alloc` picks. -/
def CacheMgr.classOf (env : Env) (s : CacheMgr) (r : AllocRequest) : Nat :=
  (s.getClassId (CacheMgr.calcItemSize env r.keyLength (r.dataLength % 2 ^ 32) r.extLength)).1

/-- Header, key, data and extension lie inside a chunk of the class, and the item says
where they end. -/
structure StorageFits (env : Env) (s : CacheMgr) (r : AllocRequest) (it : CacheItem) : Prop where
  chunk : env.sizeofItem + r.keyLength + r.dataLength + r.extLength ≤ s.maxSize (s.classOf env r)
  keyLength : it.keyLength = r.keyLength
  dataSize : it.dataSize = r.dataLength
  extSize : it.extSize = r.extLength

variable {env : Env} {s s' : CacheMgr} {o : Malloc} {r : AllocRequest} {p : Ptr}

namespace StorageLemmas

theorem classDown_fits (maxSize : Nat → Nat) {size : Nat} (c : Nat) (h : size ≤ maxSize c) :
    CacheMgr.classDown maxSize size c = 0 ∨ size ≤ maxSize (CacheMgr.classDown maxSize size c) := by
  induction c with
  | zero => exact .inl rfl
  | succ c ih =>
    unfold CacheMgr.classDown
    split
    · exact .inr h
    · next hc => exact ih (Nat.le_of_not_lt hc)

theorem classUp_fits {maxSize : Nat → Nat} {size c' : Nat} (n : Nat) :
    ∀ c, CacheMgr.classUp maxSize size n c = some c' → size ≤ maxSize c' := by
  induction n with
  | zero => exact fun _ h => nomatch h
  | succ n ih =>
    intro c h
    unfold CacheMgr.classUp at h
    split at h
    · next hc => exact Option.some.inj h ▸ hc
    · exact ih (c + 1) h

/-- What `do_alloc` stores in the item it returns. -/
theorem doAlloc_fields {g kl fl et ds es : Nat}
    (h : s.doAlloc env o g kl fl et ds es = (some p, s')) :
    (s.getClassId (CacheMgr.calcItemSize env kl ds es)).1 ≠ 0 ∧
      (s'.item p).keyLength = kl % 2 ^ 16 ∧ (s'.item p).dataSize = ds ∧
      (s'.item p).extSize = es % 2 ^ 8 := by
  unfold CacheMgr.doAlloc at h
  dsimp only at h
  split at h
  · exact nomatch (Prod.mk.inj h).1
  · next hid =>
    refine ⟨hid, ?_⟩
    split at h
    · obtain ⟨hp, rfl⟩ := Prod.mk.inj h
      obtain rfl := Option.some.inj hp
      rw [CacheMgr.initItem, CacheMgr.item_modify_self]
      exact ⟨rfl, rfl, rfl⟩
    · split at h
      · split at h
        · obtain ⟨hp, rfl⟩ := Prod.mk.inj h
          obtain rfl := Option.some.inj hp
          rw [CacheMgr.initItem, CacheMgr.item_modify_self]
          exact ⟨rfl, rfl, rfl⟩
        · exact nomatch (Prod.mk.inj h).1
      · exact nomatch (Prod.mk.inj h).1

theorem alignSize_lt {size : Nat} (h : size < 2 ^ 32) : CacheMgr.alignSize size < 2 ^ 32 := by
  unfold CacheMgr.alignSize
  split
  · exact h
  · exact Nat.mod_lt _ (by decide)

theorem maxSize_initLoop_lt (limit factor : Rat) (n : Nat) :
    ∀ (c size : Nat) (s : CacheMgr), size < 2 ^ 32 → (∀ i, s.maxSize i < 2 ^ 32) →
      ∀ i, (CacheMgr.initLoop limit factor n c size s).maxSize i < 2 ^ 32 := by
  induction n with
  | zero => exact fun _ _ _ _ h => h
  | succ n ih =>
    intro c size s hsize h
    unfold CacheMgr.initLoop
    split
    · refine ih _ _ _ (Nat.mod_lt _ (by decide)) fun i => ?_
      by_cases hi : i = c
      · subst hi
        simp only [Function.update_self]
        exact alignSize_lt hsize
      · simp only [Function.update_of_ne hi]
        exact h i
    · exact h

end StorageLemmas

open StorageLemmas

/-- `init` fills the table with 32-bit sizes. -/
theorem maxSize_start_lt {lastTime limit itemSizeMax itemSizeMin : Nat} {factor : Rat} (c : Nat) :
    (Sys.start env lastTime limit itemSizeMax itemSizeMin factor).mgr.maxSize c < 2 ^ 32 := by
  unfold Sys.start CacheMgr.init
  dsimp only
  generalize hloop : CacheMgr.initLoop _ _ _ _ _ _ = s'
  have hs' : ∀ i, s'.maxSize i < 2 ^ 32 := by
    rw [← hloop]
    exact maxSize_initLoop_lt _ _ _ _ _ _ (Nat.mod_lt _ (by decide)) fun _ => by
      simp [CacheMgr.new]
  by_cases hc : c = s'.classIdMax
  · subst hc
    rw [Function.update_self]
    exact Nat.mod_lt _ (by decide)
  · rw [Function.update_of_ne hc]
    exact hs' c

/-- The class that `get_class_id` returns holds the size, unless it is 0. -/
theorem getClassId_fits (s : CacheMgr) (size : Nat) :
    (s.getClassId size).1 = 0 ∨ size ≤ s.maxSize (s.getClassId size).1 := by
  unfold CacheMgr.getClassId
  dsimp only
  split
  · next hlt =>
    split
    · exact .inr (Nat.le_of_lt hlt)
    · next hge => exact classDown_fits s.maxSize _ (Nat.le_of_not_lt hge)
  · split
    · next c hc => exact .inr (classUp_fits _ _ hc)
    · exact .inl rfl

/-- The item fits if and only if nothing has been cut: not the key length, not the
length of the extension, and not the sum. `max_size_` is an array of `uint32_t`. -/
theorem fits_iff {g fl et : Nat} (hmax : ∀ c, s.maxSize c < 2 ^ 32)
    (h : s.allocFor env o g fl et r = (some p, s')) :
    StorageFits env s r (s'.item p) ↔
      r.keyLength < 2 ^ 16 ∧ r.extLength < 2 ^ 8 ∧
        env.sizeofItem + r.keyLength + r.dataLength + r.extLength < 2 ^ 32 := by
  obtain ⟨hid, hk, hd, he⟩ := doAlloc_fields h
  constructor
  · rintro ⟨hchunk, hk', -, he'⟩
    refine ⟨?_, ?_, Nat.lt_of_le_of_lt hchunk (hmax _)⟩
    · rw [← hk', hk]
      exact Nat.mod_lt _ (by decide)
    · rw [← he', he]
      exact Nat.mod_lt _ (by decide)
  · rintro ⟨hk', he', hsum⟩
    have hdata : r.dataLength % 2 ^ 32 = r.dataLength := Nat.mod_eq_of_lt (by omega)
    have hsize : CacheMgr.calcItemSize env r.keyLength (r.dataLength % 2 ^ 32) r.extLength =
        env.sizeofItem + r.keyLength + r.dataLength + r.extLength := by
      rw [CacheMgr.calcItemSize, hdata, Nat.mod_eq_of_lt hsum]
    refine ⟨?_, hk.trans (Nat.mod_eq_of_lt hk'), hd.trans hdata, he.trans (Nat.mod_eq_of_lt he')⟩
    rw [← hsize]
    exact (getClassId_fits s _).resolve_left hid

/-- A key of one byte and two bytes of data. -/
theorem fits_binary_small : ∃ p s',
    (Sys.small .uint16).mgr.allocFor (.colliding .uint16) .zeros 1 0 0 (.binary 1 2) = (some p, s') ∧
    StorageFits (.colliding .uint16) (Sys.small .uint16).mgr (.binary 1 2) (s'.item p) := by
  have hp : ((Sys.small .uint16).mgr.allocFor (.colliding .uint16) .zeros 1 0 0 (.binary 1 2)).1 =
      some 0 := by decide +kernel
  exact ⟨0, _, Prod.ext hp rfl, (fits_iff maxSize_start_lt (Prod.ext hp rfl)).mpr (by decide)⟩

/-- One byte of key and 2^32 - 1 bytes of data: the sum is cut to `sizeof(Cache_Item)`,
and a chunk of the smallest class is returned. -/
theorem not_fits_binary : (AllocRequest.binary 1 (2 ^ 32 - 1)).InRange ∧ ∃ p s',
    (Sys.small .uint16).mgr.allocFor (.colliding .uint16) .zeros 1 0 0 (.binary 1 (2 ^ 32 - 1)) =
      (some p, s') ∧
    ¬ StorageFits (.colliding .uint16) (Sys.small .uint16).mgr (.binary 1 (2 ^ 32 - 1))
      (s'.item p) := by
  have hp : ((Sys.small .uint16).mgr.allocFor (.colliding .uint16) .zeros 1 0 0
      (.binary 1 (2 ^ 32 - 1))).1 = some 0 := by decide +kernel
  have hno : ¬ (Env.colliding .uint16).sizeofItem + 1 + (2 ^ 32 - 1) + 0 ≤
      (Sys.small .uint16).mgr.maxSize ((Sys.small .uint16).mgr.classOf (.colliding .uint16)
        (.binary 1 (2 ^ 32 - 1))) := by decide +kernel
  cases hres : (Sys.small .uint16).mgr.allocFor (.colliding .uint16) .zeros 1 0 0
      (.binary 1 (2 ^ 32 - 1)) with
  | mk q s' =>
    rw [hres] at hp
    exact ⟨by decide, 0, s', Prod.ext hp rfl, fun hfits => hno hfits.chunk⟩

end Xixi
