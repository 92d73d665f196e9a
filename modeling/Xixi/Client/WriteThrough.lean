import Xixi.Client.Fragments
import Xixi.Expiry.Soundness

/-!
# What an update leaves in the local cache (`Protocol.update`)

After `set`, `add`, `replace`, `append` or `prepend` the client does not ask the server what it has
stored. The item that goes into the local cache is made of the arguments of the call. For the first
three the server makes its entry of them too, and works out the expire time when the request arrives.
For the last two it merges the data with the old ones, and the old flags and the old expire time stay.

1. `Client.put`: the item that goes into the local cache; `Client.remoteGet`: the one that a get makes
   of the response.
2. `Uploaded`: the request item is allocated, filled and passed on, while others do their work.
3. `Client.Mirrored`: the condition under which the two items are the same.
4. `write_through`: they are the same if and only if it holds.
-/

namespace Xixi.WriteThrough

open Lib ExpiryLemmas Coder Coder.FragmentLemmas

/-- A coder that the client has been given: the bytes and the flags of a value, and back. -/
structure TransCoder (V : Type) where
  encode : V → Bytes × BitVec 32
  decode : Bytes → BitVec 32 → Option V

structure Client (V : Type) where
  transCoder : TransCoder V
  groupId : Nat
  encodeKey : String → Bytes

/-- The fields of a `CacheItem` of the client. The value is `null` if it could not be decoded. -/
structure CacheItem (V : Type) where
  key : String
  cacheId : Nat
  expireTime : Nat
  groupId : Nat
  flags : BitVec 32
  value : Option V
deriving DecidableEq

/-- The constructor, when the clock of the client reads `tick`. -/
def CacheItem.new {V : Type} (tick : Nat) (key : String) (cacheId expiration groupId : Nat)
    (flags : BitVec 32) (value : Option V) : CacheItem V :=
  ⟨key, cacheId, if expiration = 0 then 0 else tick + expiration, groupId, flags, value⟩

/-- The calls that end in `update`. -/
inductive Update (V : Type)
  | add (value : V) (expiration : BitVec 32)
  | set (value : V) (expiration : BitVec 32) (cacheId : Nat)
  | replace (value : V) (expiration : BitVec 32) (cacheId : Nat)
  | append (value : V) (cacheId : Nat)
  | prepend (value : V) (cacheId : Nat)

namespace Update

variable {V : Type}

def verb : Update V → Verb
  | add .. => .add
  | set .. => .set
  | replace .. => .replace
  | append .. => .append
  | prepend .. => .prepend

def value : Update V → V
  | add value _ | set value _ _ | replace value _ _ | append value _ | prepend value _ => value

/-- `append` and `prepend` send `NO_EXPIRATION`. -/
def expiration : Update V → BitVec 32
  | add _ expiration | set _ expiration _ | replace _ expiration _ => expiration
  | append .. | prepend .. => 0

/-- `add` sends `NO_CAS`. -/
def cacheId : Update V → Nat
  | add .. => 0
  | set _ _ cacheId | replace _ _ cacheId | append _ cacheId | prepend _ cacheId => cacheId

/-- The side on which the data are put, for the two that merge. -/
def side : Update V → Option Side
  | append .. => some .behind
  | prepend .. => some .before
  | _ => none

end Update

namespace Client

variable {V : Type} (env : Env) (c : Client V)

def data (u : Update V) : Bytes := (c.transCoder.encode u.value).1

def flags (u : Update V) : BitVec 32 := (c.transCoder.encode u.value).2

def ident (key : String) : Key := (c.groupId, c.encodeKey key)

/-- The item that `update` puts into the local cache when the server has answered `newCacheId`. -/
def put (tick : Nat) (key : String) (u : Update V) (newCacheId : Nat) : CacheItem V :=
  .new tick key newCacheId u.expiration.toNat c.groupId (c.flags u) (some u.value)

/-- What `get` returns when it asks the server in the state `y`. -/
def remoteGet (y : Sys) (tick : Nat) (key : String) (watchId : Nat) : Option (CacheItem V) :=
  match y.exec env (.get c.groupId (c.encodeKey key) watchId false) with
  | (.get (some (p, expiration), .success), z) =>
    let it := z.mgr.item p
    let flags := BitVec.ofNat 32 it.flags
    -- `dataSize` is read as a signed number
    if it.dataSize < 2 ^ 31 then
      some (.new tick key it.cacheId expiration c.groupId flags (c.transCoder.decode it.data flags))
    else none
  | _ => none

end Client

/-- A step of someone who does not work on the item. -/
def OthersStep (env : Env) (p : Ptr) (x : Sys) (l : Op × Outcome) (y : Sys) : Prop :=
  l.1.subject ≠ some p ∧ x.RoomStep env l y

/-- The request has arrived: its item was allocated in the state `x₀`, filled with what the client
has sent, and is about to be passed on in the state `x`. -/
def Uploaded {V : Type} (env : Env) (c : Client V) (key : String) (u : Update V) (x₀ x : Sys)
    (p : Ptr) : Prop :=
  (c.data u).length < 2 ^ 31 ∧ ∃ o x₁ t₁ x₂ x₃ t₂,
    x₀.RoomStep env (.alloc o c.groupId (c.encodeKey key).length (c.flags u).toNat
      u.expiration.toNat (c.data u).length 0, .alloc (some p)) x₁ ∧
    Run (OthersStep env p) x₁ t₁ x₂ ∧
    x₂.RoomStep env (.fill p ⟨c.encodeKey key, c.data u, [], u.cacheId⟩, .done) x₃ ∧
    Run (OthersStep env p) x₃ t₂ x

/-- The value can be decoded from what the server stores, under the flags that it stores, and the
server lets it live as long as the client does. -/
def Client.Mirrored {V : Type} (env : Env) (c : Client V) (key : String) (u : Update V)
    (x₀ x : Sys) : Prop :=
  match u.side with
  | none => c.transCoder.decode (c.data u) (c.flags u) = some u.value ∧
      (u.expiration = 0 ∨ u.expiration.toNat + x.mgr.currTime ≤ 0xFFFFFFFF ∧
        x₀.mgr.currTime = x.mgr.currTime)
  | some side => ∃ old, (abs env x.mgr).entry (c.ident key) = some old ∧
      (side.join old.data (c.data u)).length < 2 ^ 31 ∧
      c.transCoder.decode (side.join old.data (c.data u)) (c.flags u) = some u.value ∧
      BitVec.ofNat 32 old.flags = c.flags u ∧ old.expireTime = 0

namespace WriteLemmas

variable {V : Type} {env : Env} {c : Client V} {key : String} {u : Update V} {x₀ x y : Sys} {p : Ptr}
  {w n tick : Nat}

/-! ## The request item -/

/-- The item holds what was sent; the expire time was worked out at the time `now`. -/
structure Sent (c : Client V) (key : String) (u : Update V) (now : Nat) (it : Xixi.CacheItem) :
    Prop where
  ident : it.ident = c.ident key
  data : it.data = c.data u
  flags : it.flags = (c.flags u).toNat
  expireTime : it.expireTime = CacheMgr.realtime now u.expiration.toNat

theorem others_run {t : List (Sys × (Op × Outcome))} (hx : ∃ lost, SysInv env lost x)
    (hp : x.stage p ≠ .passed) (h : Run (OthersStep env p) x t y) :
    (∃ lost, SysInv env lost y) ∧ y.stage p ≠ .passed ∧ y.mgr.item p = x.mgr.item p := by
  refine h.invariant (I := fun y => (∃ lost, SysInv env lost y) ∧ y.stage p ≠ .passed ∧
    y.mgr.item p = x.mgr.item p) ?_ ⟨hx, hp, rfl⟩
  rintro u l v ⟨hu, hstage, hitem⟩ ⟨hsub, hstep⟩
  obtain ⟨hstage', hitem'⟩ := item_prepared hu hstep hstage hsub
  exact ⟨(SysInv.act hu hstep).1, hstage', hitem'.trans hitem⟩

theorem sent_of_uploaded (hx₀ : ∃ lost, SysInv env lost x₀) (h : Uploaded env c key u x₀ x p) :
    (∃ lost, SysInv env lost x) ∧ Sent c key u x₀.mgr.currTime (x.mgr.item p) := by
  obtain ⟨-, o, x₁, t₁, x₂, x₃, t₂, halloc, hrun₁, hfill, hrun₂⟩ := h
  obtain ⟨hstage₁, hfresh⟩ := fresh_alloc hx₀ halloc
  obtain ⟨hx₂, hstage₂, hitem₂⟩ := others_run (SysInv.act hx₀ halloc).1 hstage₁ hrun₁
  have hx₃ : x₃ = (x₂.exec env (.fill p ⟨c.encodeKey key, c.data u, [], u.cacheId⟩)).2 :=
    (congrArg Prod.snd hfill.2.2).symm
  have hitem₃ : x₃.mgr.item p =
      (x₁.mgr.item p).fill ⟨c.encodeKey key, c.data u, [], u.cacheId⟩ := by
    rw [hx₃, ← hitem₂]
    show (x₂.mgr.fill env p _).item p = _
    simp only [CacheMgr.fill, CacheMgr.item_modify_self]
  have hstage₃ : x₃.stage p ≠ .passed := by
    rw [hx₃]
    show Function.update x₂.stage p .filled p ≠ .passed
    rw [Function.update_self]
    rintro ⟨⟩
  obtain ⟨hx, -, hitem⟩ := others_run (SysInv.act hx₂ hfill).1 hstage₃ hrun₂
  have hlength : (c.encodeKey key).length < 2 ^ 16 := halloc.2.1
  have hfits : (x₁.mgr.item p).Fits ⟨c.encodeKey key, c.data u, [], u.cacheId⟩ :=
    ⟨by rw [hfresh.keyLength, Nat.mod_eq_of_lt hlength], hfresh.dataSize.symm,
      hfresh.extSize.symm⟩
  rw [hitem, hitem₃]
  exact ⟨hx, Prod.ext hfresh.groupId (Xixi.CacheItem.fill_key hfits), Xixi.CacheItem.fill_data hfits,
    hfresh.flags, hfresh.expireTime⟩

/-! ## The entry -/

/-- What `set`, `add` and `replace` store. -/
theorem entry_written {o : Malloc} (hx : ∃ lost, SysInv env lost x) (hside : u.side = none)
    (hsent : Sent c key u x₀.mgr.currTime (x.mgr.item p))
    (h : x.RoomStep env (.update u.verb o p w, .update (.success, some n)) y) :
    (∃ lost, SysInv env lost y) ∧ y.mgr.currTime = x.mgr.currTime ∧
      ∃ e, (abs env y.mgr).entry (c.ident key) = some e ∧ e.cacheId = n ∧ e.data = c.data u ∧
        e.flags = (c.flags u).toNat ∧
        e.expireTime = CacheMgr.realtime x₀.mgr.currTime u.expiration.toNat := by
  obtain ⟨hy, a, hacts, hact⟩ := SysInv.act hx h
  have hstores : Stores (abs env x.mgr) (abs env y.mgr) (c.ident key) ((x.mgr.item p).entry p)
      (some n) := by
    obtain ⟨hr, hst⟩ := Prod.mk.inj hact
    cases u with
    | add value expiration =>
      cases hacts
      rw [← hsent.ident]
      exact add_success (Prod.ext (Outcome.update.inj hr) hst)
    | set value expiration cacheId =>
      cases hacts
      rw [← hsent.ident]
      exact set_success (Prod.ext (Outcome.update.inj hr) hst)
    | replace value expiration cacheId =>
      cases hacts
      rw [← hsent.ident]
      exact replace_success (Prod.ext (Outcome.update.inj hr) hst)
    | append | prepend => exact nomatch hside
  obtain ⟨htime, m, o', hm, he⟩ := hstores
  obtain rfl := Option.some.inj hm
  exact ⟨hy, htime, _, he, rfl, hsent.data, hsent.flags, hsent.expireTime⟩

/-- What `append` and `prepend` store. -/
theorem entry_merged {o : Malloc} {side : Side} (hx : ∃ lost, SysInv env lost x)
    (hside : u.side = some side) (hsent : Sent c key u x₀.mgr.currTime (x.mgr.item p))
    (h : x.RoomStep env (.update u.verb o p w, .update (.success, some n)) y) :
    (∃ lost, SysInv env lost y) ∧ y.mgr.currTime = x.mgr.currTime ∧
      ∃ old e, (abs env x.mgr).entry (c.ident key) = some old ∧
        (abs env y.mgr).entry (c.ident key) = some e ∧ e.cacheId = n ∧ e.flags = old.flags ∧
        e.expireTime = old.expireTime ∧
        (old.data.length + (c.data u).length < 2 ^ 32 → e.data = side.join old.data (c.data u)) := by
  obtain ⟨hy, a, hacts, hact⟩ := SysInv.act hx h
  obtain ⟨hr, hst⟩ := Prod.mk.inj hact
  have hsize : ∀ old : Entry, old.data.length + (c.data u).length < 2 ^ 32 →
      ((x.mgr.item p).dataSize + old.data.length) % 2 ^ 32 =
        old.data.length + (c.data u).length := by
    intro old hfit
    rw [← Xixi.CacheItem.length_data, hsent.data, Nat.add_comm, Nat.mod_eq_of_lt hfit]
  refine ⟨hy, ?_⟩
  cases u with
  | append value cacheId =>
    obtain rfl := Option.some.inj hside
    cases hacts with
    | append hnew =>
      obtain ⟨old, e, hold, rfl, htime, m, o', hm, he⟩ :=
        append_success (Prod.ext (Outcome.update.inj hr) hst)
      obtain rfl := Option.some.inj hm
      have hentry := hnew e old rfl hold
      rw [hsent.ident] at hold he
      refine ⟨htime, old, _, hold, he, rfl, hentry.flags, hentry.expireTime, fun hfit => ?_⟩
      exact (hentry.data (by rw [hsize old hfit, hsent.data])).trans (by rw [hsent.data]; rfl)
  | prepend value cacheId =>
    obtain rfl := Option.some.inj hside
    cases hacts with
    | prepend hnew =>
      obtain ⟨old, e, hold, rfl, htime, m, o', hm, he⟩ :=
        append_success (Prod.ext (Outcome.update.inj hr) hst)
      obtain rfl := Option.some.inj hm
      have hentry := hnew e old rfl hold
      rw [hsent.ident] at hold he
      refine ⟨htime, old, _, hold, he, rfl, hentry.flags, hentry.expireTime, fun hfit => ?_⟩
      exact (hentry.data (by rw [hsize old hfit, hsent.data, Nat.add_comm])).trans
        (by rw [hsent.data]; rfl)
  | add | set | replace => exact nomatch hside

/-! ## The two items -/

/-- What a get makes of an entry. -/
theorem remoteGet_eq {e : Entry} (hy : ∃ lost, SysInv env lost y)
    (he : (abs env y.mgr).entry (c.ident key) = some e) (hroom : y.Roomy env)
    (hw : (abs env y.mgr).watchOk w = true) :
    c.remoteGet env y tick key w =
      if (e.expireTime = 0 ∨ y.mgr.currTime < e.expireTime) ∧ e.data.length < 2 ^ 31 then
        some (.new tick key e.cacheId
          (if e.expireTime = 0 then 0 else e.expireTime - y.mgr.currTime) c.groupId
          (BitVec.ofNat 32 e.flags) (c.transCoder.decode e.data (BitVec.ofNat 32 e.flags)))
      else none := by
  have hget := get_entry false hy he hroom hw
  by_cases hlive : e.expireTime = 0 ∨ y.mgr.currTime < e.expireTime
  · rw [if_pos hlive] at hget
    obtain ⟨z, o, hexec, hitem⟩ := hget
    have hdata : (z.mgr.item e.ptr).data = e.data := congrArg Entry.data hitem
    have hflags : (z.mgr.item e.ptr).flags = e.flags := congrArg Entry.flags hitem
    have hid : (z.mgr.item e.ptr).cacheId = e.cacheId := congrArg Entry.cacheId hitem
    have hexec' : y.exec env (.get c.groupId (c.encodeKey key) w false) = _ := hexec
    unfold Client.remoteGet
    rw [hexec']
    dsimp only
    rw [← Xixi.CacheItem.length_data, hdata, hflags, hid]
    by_cases hlength : e.data.length < 2 ^ 31
    · exact (if_pos hlength).trans (if_pos ⟨hlive, hlength⟩).symm
    · exact (if_neg hlength).trans (if_neg fun h => hlength h.2).symm
  · rw [if_neg hlive] at hget
    rw [if_neg fun h => hlive h.1]
    unfold Client.remoteGet
    obtain ⟨z, hexec⟩ : ∃ z, y.exec env (.get c.groupId (c.encodeKey key) w false) =
        (.get (none, .notFound), z) := ⟨_, Prod.ext hget rfl⟩
    rw [hexec]

/-- Two items that are made at the same time. -/
theorem new_eq_iff {cacheId expiration expiration' g : Nat} {fl fl' : BitVec 32} {v v' : Option V} :
    CacheItem.new tick key cacheId expiration g fl v =
        CacheItem.new tick key cacheId expiration' g fl' v' ↔
      expiration = expiration' ∧ fl = fl' ∧ v = v' := by
  unfold CacheItem.new
  rw [CacheItem.mk.injEq]
  constructor
  · rintro ⟨-, -, htime, -, hflags, hvalue⟩
    refine ⟨?_, hflags, hvalue⟩
    split at htime
    · split at htime
      · omega
      · omega
    · split at htime
      · omega
      · omega
  · rintro ⟨rfl, rfl, rfl⟩
    exact ⟨rfl, rfl, rfl, rfl, rfl, rfl⟩

/-- The server lets an entry live as long as it was asked to. -/
theorem left_eq_iff (now now' expiration : Nat) :
    ((CacheMgr.realtime now expiration = 0 ∨ now' < CacheMgr.realtime now expiration) ∧
        (if CacheMgr.realtime now expiration = 0 then 0
          else CacheMgr.realtime now expiration - now') = expiration) ↔
      expiration = 0 ∨ expiration + now' ≤ 0xFFFFFFFF ∧ now = now' := by
  unfold CacheMgr.realtime
  by_cases h0 : expiration = 0
  · rw [if_pos h0, h0]
    simp
  · rw [if_neg h0]
    by_cases hle : expiration + now ≤ 0xFFFFFFFF
    · rw [if_pos hle, if_neg (by omega)]
      omega
    · rw [if_neg hle]
      simp only [true_or, if_true, true_and]
      omega

theorem expiration_of_side {side : Side} (h : u.side = some side) : u.expiration = 0 := by
  cases u with
  | append | prepend => rfl
  | add | set | replace => exact nomatch h

end WriteLemmas

open WriteLemmas

variable {V : Type} {env : Env} {c : Client V} {key : String} {u : Update V} {x₀ x y : Sys} {p : Ptr}
  {w w' n tick lastTime limit itemSizeMax itemSizeMin : Nat} {factor : Rat}
  {t : List (Sys × (Op × Outcome))} {o : Malloc}

/-- After an update that the server has answered with the id `n`, the item in the local cache is the
one that a get would return, if and only if the update is mirrored. For `append` and `prepend` this
takes the merged data to be shorter than 2^32 bytes: the server adds the lengths in 32 bits. -/
theorem write_through
    (hrun : Run (Sys.RoomStep env) (Sys.start env lastTime limit itemSizeMax itemSizeMin factor) t x₀)
    (hup : Uploaded env c key u x₀ x p)
    (hstep : x.RoomStep env (.update u.verb o p w, .update (.success, some n)) y)
    (hroom : y.Roomy env) (hw : (abs env y.mgr).watchOk w' = true) :
    (c.Mirrored env key u x₀ x → c.remoteGet env y tick key w' = some (c.put tick key u n)) ∧
      ((∀ old side, u.side = some side → (abs env x.mgr).entry (c.ident key) = some old →
          old.data.length + (c.data u).length < 2 ^ 32) →
        c.remoteGet env y tick key w' = some (c.put tick key u n) → c.Mirrored env key u x₀ x) := by
  obtain ⟨hx, hsent⟩ := sent_of_uploaded (SysInv.roomRun hrun ⟨_, sysInv_start⟩) hup
  obtain ⟨hlength, -⟩ := hup
  unfold Client.Mirrored Client.put
  cases hside : u.side with
  | none =>
    obtain ⟨hy, htime, e, he, rfl, hdata, hflags, hexpire⟩ := entry_written hx hside hsent hstep
    have hzero : u.expiration.toNat = 0 ↔ u.expiration = 0 := BitVec.toNat_inj (y := 0)
    have hleft := left_eq_iff x₀.mgr.currTime x.mgr.currTime u.expiration.toNat
    rw [hzero] at hleft
    rw [remoteGet_eq hy he hroom hw, hdata, hflags, hexpire, htime, BitVec.ofNat_toNat,
      BitVec.setWidth_eq]
    refine ⟨fun ⟨hdecode, hclock⟩ => ?_, fun _ hsame => ?_⟩
    · obtain ⟨hlive, hexpiration⟩ := hleft.mpr hclock
      rw [if_pos ⟨hlive, hlength⟩, hexpiration, hdecode]
    · by_cases hif : (CacheMgr.realtime x₀.mgr.currTime u.expiration.toNat = 0 ∨
          x.mgr.currTime < CacheMgr.realtime x₀.mgr.currTime u.expiration.toNat) ∧
          (c.data u).length < 2 ^ 31
      · rw [if_pos hif] at hsame
        obtain ⟨hexpiration, -, hvalue⟩ := new_eq_iff.mp (Option.some.inj hsame)
        exact ⟨hvalue, hleft.mp ⟨hif.1, hexpiration⟩⟩
      · rw [if_neg hif] at hsame
        exact nomatch hsame
  | some side =>
    obtain ⟨hy, htime, old, e, hold, he, rfl, hflags, hexpire, hdata⟩ :=
      entry_merged hx hside hsent hstep
    have hnone : u.expiration.toNat = 0 := congrArg BitVec.toNat (expiration_of_side hside)
    rw [remoteGet_eq hy he hroom hw, hflags, hexpire, htime, hnone]
    refine ⟨fun ⟨old', hold', hshort, hdecode, hsame, h0⟩ => ?_, fun hfit hsame => ?_⟩
    · obtain rfl := Option.some.inj (hold.symm.trans hold')
      have hsum := hshort
      rw [length_join] at hsum
      rw [hdata (by omega), if_pos ⟨.inl h0, hshort⟩, if_pos h0, hsame, hdecode]
    · rw [hdata (hfit old side rfl hold)] at hsame
      by_cases hif : (old.expireTime = 0 ∨ x.mgr.currTime < old.expireTime) ∧
          (side.join old.data (c.data u)).length < 2 ^ 31
      · rw [if_pos hif] at hsame
        obtain ⟨hexpiration, hflags', hvalue⟩ := new_eq_iff.mp (Option.some.inj hsame)
        refine ⟨old, hold, hif.2, hflags' ▸ hvalue, hflags', ?_⟩
        by_contra h0
        rw [if_neg h0] at hexpiration
        have hlt := hif.1.resolve_left h0
        omega
      · rw [if_neg hif] at hsame
        exact nomatch hsame

/-! ## The coder of the clients -/

/-- The coder that a client has if it is not given another one, for one type of objects. -/
def defaultCoder {T S : Type} (jdk : Jdk T S) : TransCoder (Obj T S) where
  encode obj := ((ObjectTransCoder.default.encode jdk obj).1,
    (ObjectTransCoder.default.encode jdk obj).2.1)
  decode := ObjectTransCoder.decode jdk

/-- It reads what it has written, so that nothing but the clock matters to `set`, `add` and
`replace`. -/
theorem decode_defaultCoder {T S : Type} {jdk : Jdk T S}
    (hstring : ∀ s, jdk.newString (jdk.getBytes s) = s) (hgzip : ∀ b, jdk.gunzip (jdk.gzip b) = some b)
    (hobject : ∀ o, jdk.readObject (jdk.writeObject o) = some o) (obj : Obj T S) :
    (defaultCoder jdk).decode ((defaultCoder jdk).encode obj).1 ((defaultCoder jdk).encode obj).2 =
      some obj :=
  ObjectTransCoder.decode_encode hstring hgzip hobject obj

/-- A client of group 0 that has not been given a coder. -/
def someClient : Client (Obj String Empty) where
  transCoder := defaultCoder utf8Jdk
  groupId := 0
  encodeKey key := key.toByteArray.data.toList

/-- A byte is stored for ten seconds, with a watch. -/
theorem write_through_set :
    let env := Env.colliding .uint16
    let u : Update (Obj String Empty) := .set (.byteArr [98]) 10 0
    let x₀ := (Sys.small .uint16).execAll env [.createWatch 0 100]
    let x₁ := x₀.execAll env [.alloc .zeros 0 1 13 10 1 0]
    let x := x₁.execAll env [.fill 0 ⟨[107], [98], [], 0⟩]
    let y := x.execAll env [.update .set .zeros 0 1]
    someClient.remoteGet env y 1000 "k" 1 = some (someClient.put 1000 "k" u 1) := by
  intro env u x₀ x₁ x y
  have hrun : Run (Sys.RoomStep env) (Sys.start env 0 100000 1000 2000 2) _ x₀ :=
    Sys.roomRun_execAll (x := Sys.small .uint16) (by decide +kernel) (by decide +kernel)
  have hup : Uploaded env someClient "k" u x₀ x 0 :=
    ⟨by decide +kernel, .zeros, x₁, [], x₁, x, [],
      ⟨by decide +kernel, Sys.step_execAll (by decide +kernel) (by decide +kernel)⟩, .nil _,
      ⟨by decide +kernel, Sys.step_execAll (by decide +kernel) (by decide +kernel)⟩, .nil _⟩
  have hstep : x.RoomStep env (.update u.verb .zeros 0 1, .update (.success, some 1)) y :=
    ⟨by decide +kernel, Sys.step_execAll (by decide +kernel) (by decide +kernel)⟩
  have hmirrored : someClient.Mirrored env "k" u x₀ x :=
    ⟨by decide +kernel, .inr ⟨by decide +kernel, by decide +kernel⟩⟩
  exact (write_through hrun hup hstep (by decide +kernel) (by decide +kernel)).1 hmirrored

/-- A byte is appended to another one: the server has both, the local cache only the last. -/
theorem not_written_through :
    let env := Env.colliding .uint16
    let u : Update (Obj String Empty) := .append (.byteArr [99]) 0
    let x₀ := (Sys.small .uint16).execAll env [.createWatch 0 100, .alloc .zeros 0 1 13 0 1 0,
      .fill 0 ⟨[107], [98], [], 0⟩, .update .set .zeros 0 1, .releaseReference 0]
    let x₁ := x₀.execAll env [.alloc .zeros 0 1 13 0 1 0]
    let x := x₁.execAll env [.fill 1 ⟨[107], [99], [], 0⟩]
    let y := x.execAll env [.update .append .zeros 1 1]
    (∃ t, Run (Sys.RoomStep env) (Sys.small .uint16) t x₀) ∧ Uploaded env someClient "k" u x₀ x 1 ∧
      x.RoomStep env (.update u.verb .zeros 1 1, .update (.success, some 2)) y ∧
      (abs env y.mgr).live 1 = true ∧
      someClient.remoteGet env y 1000 "k" 1 = some ⟨"k", 2, 0, 0, 13, some (.byteArr [98, 99])⟩ ∧
      someClient.put 1000 "k" u 2 = ⟨"k", 2, 0, 0, 13, some (.byteArr [99])⟩ := by
  intro env u x₀ x₁ x y
  have hrun : Run (Sys.RoomStep env) (Sys.small .uint16) _ x₀ :=
    Sys.roomRun_execAll (by decide +kernel) (by decide +kernel)
  have hup : Uploaded env someClient "k" u x₀ x 1 :=
    ⟨by decide +kernel, .zeros, x₁, [], x₁, x, [],
      ⟨by decide +kernel, Sys.step_execAll (by decide +kernel) (by decide +kernel)⟩, .nil _,
      ⟨by decide +kernel, Sys.step_execAll (by decide +kernel) (by decide +kernel)⟩, .nil _⟩
  have hstep : x.RoomStep env (.update u.verb .zeros 1 1, .update (.success, some 2)) y :=
    ⟨by decide +kernel, Sys.step_execAll (by decide +kernel) (by decide +kernel)⟩
  exact ⟨⟨_, hrun⟩, hup, hstep, by decide +kernel, by decide +kernel, by decide +kernel⟩

end Xixi.WriteThrough
