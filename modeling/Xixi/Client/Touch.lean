import Xixi.Client.LocalCache
import Xixi.Alongside
import Xixi.Expiry.Soundness

/-!
# Touches that are answered by the local cache (`LocalCacheTouch`)

A `getAndTouch` that finds its item in the local cache sets the new expire time there and leaves
the item in `touchMap`. The thread `LocalCacheTouch` takes the items out again, works out how long
each has still to live, and sends the server a list of requests for the default group. The calls
come one after another; the steps of the thread, the clocks, the server's sweeps and whatever other
clients ask of the server come between any two steps. The clocks of the client and of the server
tick together.

1. `Touching`, `Touching.next`: the client, the thread, what is on its way, and the server. `remote`
   is the server's store as it would be if every call had been a remote get-touch.
2. `Touching.onWay`: the keys and cache ids on their way. `Touching.Timely`: the condition on the
   steps.
3. `Touching.last`: what is on its way for a key, and was called last. `Touching.Agrees` relates the
   two stores by it: the server's entry has another id, or what is on its way makes up for the
   difference.
4. `touched_remotely`: when nothing is on its way any more, the two stores have the same entries.
-/

namespace Xixi.Touch

open Lib

/-- What does not change in the client: the group of the manager, how the thread encodes keys, and
the objects that references stand for. -/
structure Process where
  defaultGroupId : Nat
  encodeKey : String → Bytes
  object : Nat → Local.CacheItem

structure MultiUpdateExpirationItem where
  key : String
  cacheId : Nat
  expiration : BitVec 32
deriving DecidableEq, Repr

/-- `CacheItem.setExpiration`: the new `expireTime`. -/
def setExpiration (tick : Nat) (expiration : BitVec 32) : Nat :=
  if expiration = 0 then 0 else tick + expiration.toNat

/-- `CacheItem.getExpiration`. -/
def getExpiration (tick expireTime : Nat) : Int :=
  if expireTime = 0 then 0
  else if tick < expireTime then expireTime - tick
  else -1

/-- `calling` is the item of a call between `setExpiration` and `touchMap.put`, `taken` the one the
thread has removed but not looked at, `list` what it has gathered. -/
structure Touching where
  cache : Local.LocalCacheWatch
  expireTime : Nat → Nat
  tick : Nat
  calling : Option (String × Local.CacheItem)
  touchMap : Table String Local.CacheItem
  taken : Option (String × Local.CacheItem)
  list : List MultiUpdateExpirationItem
  requests : List MultiUpdateExpirationItem
  failed : Bool
  server : Sys
  remote : Store

inductive Act
  /-- `keyBuf` is the key as the caller's coder encodes it. -/
  | getAndTouch (groupId : Nat) (keyBuf : Bytes) (key : String) (expiration : BitVec 32)
  | put
  | take (key : String)
  | read
  | send
  | arrive
  | timeout
  | refresh (cache : Local.LocalCacheWatch)
  | second
  | sweep
  /-- Whatever another client, or another thread of this one, asks of the server. -/
  | other (op : Op)

/-- The item is one of the objects, and stored under its group. Its id was issued by the server. -/
def Process.Knows (p : Process) (groupId : Nat) (item : Local.CacheItem) : Prop :=
  item.groupId = groupId ∧ item = p.object item.ref ∧ item.cacheId ≠ 0

/-- A sweep has left the entries `after`: what has gone there goes here, if it has run out here
too. -/
def swept (st : Store) (after : Store) : Store :=
  { st with
    entry := fun k => (st.entry k).filter fun e =>
      (after.entry k).isSome || decide (st.currTime < e.expireTime)
    pending := after.pending }

/-- Neither a sweep nor the clock. -/
def ofClient : Op → Prop
  | .checkExpired | .setCurrentTime _ => False
  | _ => True

/-- The operation is a `get` of the key. -/
def gets (k : Key) : Op → Prop
  | .get g k' _ _ => (g, k') = k
  | _ => False

namespace Touching

variable (env : Env) (p : Process)

/-- A call that is not answered by the local cache goes to the server, and is none of ours. -/
def next (s : Touching) : Act → Touching
  | .getAndTouch groupId keyBuf key expiration =>
    match s.cache.get groupId key with
    | (none, cache) => { s with cache := cache }
    | (some item, cache) =>
      { s with
        cache := cache
        expireTime := Function.update s.expireTime item.ref (setExpiration s.tick expiration)
        calling := some (key, item)
        remote := (s.remote.getTouch (groupId, keyBuf) 0
          (CacheMgr.realtime s.remote.currTime expiration.toNat)).2 }
  | .put =>
    match s.calling with
    | none => s
    | some (key, item) => { s with calling := none, touchMap := s.touchMap.insert key item }
  | .take key =>
    match s.touchMap.lookup key with
    | none => s
    | some item => { s with touchMap := s.touchMap.erase key, taken := some (key, item) }
  | .read =>
    match s.taken with
    | none => s
    | some (key, item) =>
      let expiration := getExpiration s.tick (s.expireTime item.ref)
      if expiration < 0 then { s with taken := none }
      else
        { s with
          taken := none
          list := s.list ++ [⟨key, item.cacheId, BitVec.ofInt 32 expiration⟩] }
  | .send => { s with list := [], requests := s.requests ++ s.list }
  | .arrive =>
    match s.requests with
    | [] => s
    | r :: requests =>
      let (outcome, server) := s.server.exec env
        (.updateExpiration p.defaultGroupId (p.encodeKey r.key) r.cacheId r.expiration.toNat)
      if outcome.succeeded then { s with requests := requests, server := server }
      else
        { s with
          requests := requests
          server := server
          cache := (s.cache.remove p.defaultGroupId r.key ⟨0, 0⟩).2.1
          failed := true }
  | .timeout => { s with requests := [], failed := true }
  | .refresh cache => { s with cache := cache }
  | .second =>
    let server := (s.server.exec env (.setCurrentTime (s.server.mgr.lastTime + 1))).2
    { s with
      tick := s.tick + 1
      server := server
      remote := { s.remote with currTime := server.mgr.currTime } }
  | .sweep =>
    let server := (s.server.exec env .checkExpired).2
    { s with server := server, remote := swept s.remote (abs env server.mgr) }
  | .other op =>
    let (outcome, server) := s.server.exec env op
    { s with
      server := server
      remote := s.remote.others s.server.mgr (abs env server.mgr) outcome op }

/-- What is possible: one call at a time, the thread waits for the replies, and no reference count
of the server overflows. Other threads may change the local cache, but not its objects. -/
def Possible (s : Touching) : Act → Prop
  | .getAndTouch groupId _ key _ => s.calling = none ∧ (s.cache.get groupId key).1.isSome
  | .take _ => s.taken = none ∧ s.requests = []
  | .send => s.taken = none ∧ s.requests = []
  | .arrive | .second | .sweep => s.server.Roomy env
  | .refresh cache => cache.Valid p.Knows
  | .other op => s.server.Roomy env ∧ s.server.Permitted op ∧ ofClient op
  | _ => True

def Step (s : Touching) (a : Act) (s' : Touching) : Prop := s.Possible env p a ∧ s' = s.next env p a

/-- The keys and cache ids for which something is on its way. -/
def onWay (s : Touching) : List (String × Nat) :=
  (s.calling.toList ++ s.touchMap.entries.map (fun x => (x.1, x.2)) ++ s.taken.toList).map
      (fun x => (x.1, x.2.cacheId)) ++
    (s.requests ++ s.list).map fun r => (r.key, r.cacheId)

/-- The caller is of the default group and encodes keys as the thread does. No item has run out when
the thread looks at it, and no second passes from then until its request arrives. The server's clock
does not start again from 0. As long as something is on its way for a key, the server does not issue
its id anew, no sweep finds the entry to have run out, and no one else gives it another expire time
or gets it when it has run out in one of the stores only. -/
def Timely (s : Touching) : Act → Prop
  | .getAndTouch groupId keyBuf key _ => groupId = p.defaultGroupId ∧ keyBuf = p.encodeKey key
  | .read => ∀ x, s.taken = some x → 0 ≤ getExpiration s.tick (s.expireTime x.2.ref)
  | .second => s.list = [] ∧ s.requests = [] ∧ s.server.mgr.currTime + 1 < 2 ^ 32
  | .sweep => ∀ x ∈ s.onWay, ∀ e,
      (abs env s.server.mgr).entry (p.defaultGroupId, p.encodeKey x.1) = some e →
        s.server.mgr.currTime < e.expireTime ∨ (s.server.mgr.item e.ptr).expirationId = 33
  | .other op => ∀ x ∈ s.onWay,
      let st := abs env s.server.mgr
      let k := (p.defaultGroupId, p.encodeKey x.1)
      x.2 ≠ st.nextId ∧ ¬ op.Retimes st k ∧ (gets k op → (st.Alive k ↔ s.remote.Alive k))
  | _ => True

/-- Before the first call. The server is in any state that it can reach. -/
structure Idle (s : Touching) (x₀ : Sys) : Prop where
  server : ∃ t, Run (Sys.RoomStep env) x₀ t s.server
  remote : s.remote = abs env s.server.mgr
  cache : s.cache.Valid p.Knows
  calling : s.calling = none
  touchMap : s.touchMap.keys = []
  taken : s.taken = none
  list : s.list = []
  requests : s.requests = []
  failed : s.failed = false

/-- `touchMap` has drained without errors. -/
structure Drained (s : Touching) : Prop where
  calling : s.calling = none
  touchMap : s.touchMap.keys = []
  taken : s.taken = none
  list : s.list = []
  requests : s.requests = []
  failed : s.failed = false

end Touching

inductive Owed
  | item (item : Local.CacheItem)
  | request (r : MultiUpdateExpirationItem)

namespace Touching

def held (o : Option (String × Local.CacheItem)) (key : String) : Option Owed :=
  (o.filter fun x => x.1 = key).map fun x => .item x.2

def sent (l : List MultiUpdateExpirationItem) (key : String) : Option Owed :=
  (l.reverse.find? fun r => r.key = key).map .request

/-- What the last call for the key has left: whatever is earlier on the way will be overtaken by
it. -/
def last (s : Touching) (key : String) : Option Owed :=
  (held s.calling key).or (((s.touchMap.lookup key).map .item).or
    ((held s.taken key).or (sent (s.requests ++ s.list) key)))

/-- The call that has left this asked for the expire time `t` of the server. -/
def Owes (s : Touching) : Owed → Nat → Prop
  | .item i, t => s.expireTime i.ref < s.tick + 2 ^ 32 ∧
      (0 ≤ getExpiration s.tick (s.expireTime i.ref) →
        t = CacheMgr.realtime s.server.mgr.currTime (s.expireTime i.ref - s.tick))
  | .request r, t => t = CacheMgr.realtime s.server.mgr.currTime r.expiration.toNat

variable (env : Env) (p : Process)

/-- The two stores agree on an entry with nothing on its way. Otherwise the last call asks for the
expire time of the remote one, unless the entry has been replaced meanwhile: then no request for it
will be carried out. -/
structure Agrees (s : Touching) (k : Key) : Prop where
  settled : (∀ key, k = (p.defaultGroupId, p.encodeKey key) → s.last key = none) →
    (abs env s.server.mgr).entry k = s.remote.entry k
  owes : ∀ key o e, k = (p.defaultGroupId, p.encodeKey key) → s.last key = some o →
    s.remote.entry k = some e → s.Owes o e.expireTime ∨
      ∃ e₁, (abs env s.server.mgr).entry k = some e₁ ∧ (key, e₁.cacheId) ∉ s.onWay

structure Good (s : Touching) : Prop where
  server : ∃ lost, SysInv env lost s.server
  beside : Beside (abs env s.server.mgr) s.remote
  cache : s.cache.Valid p.Knows
  items : ∀ key i, s.last key = some (.item i) → i.key = key ∧ i = p.object i.ref
  ids : ∀ x ∈ s.onWay, x.2 ≠ 0
  agrees : ∀ k, s.Agrees env p k

end Touching

namespace TouchLemmas

open Touching

variable {env : Env} {p : Process} {s s' : Touching} {key key' : String} {i : Local.CacheItem}
  {r : MultiUpdateExpirationItem} {k : Key}

@[simp] theorem held_none : held none key = none := rfl

@[simp] theorem held_self : held (some (key, i)) key = some (.item i) := by simp [held]

theorem held_of_ne (h : key' ≠ key) : held (some (key', i)) key = none := by simp [held, h]

@[simp] theorem sent_nil : sent [] key = none := rfl

theorem sent_concat (l : List MultiUpdateExpirationItem) (r : MultiUpdateExpirationItem) :
    sent (l ++ [r]) key = if r.key = key then some (.request r) else sent l key := by
  rw [sent, List.reverse_append, List.reverse_singleton, List.singleton_append, List.find?_cons]
  by_cases h : r.key = key
  · simp [h]
  · simp [h, sent]

theorem sent_cons (r : MultiUpdateExpirationItem) (l : List MultiUpdateExpirationItem) :
    sent (r :: l) key = (sent l key).or (if r.key = key then some (.request r) else none) := by
  rw [sent, List.reverse_cons, List.find?_append]
  by_cases h : r.key = key
  · simp [sent, h]
  · simp [sent, h]

/-! ### What is on its way -/

theorem mem_onWay {x : Nat} : (key, x) ∈ s.onWay ↔
    (∃ i, s.calling = some (key, i) ∧ i.cacheId = x) ∨
      (∃ i, s.touchMap.lookup key = some i ∧ i.cacheId = x) ∨
      (∃ i, s.taken = some (key, i) ∧ i.cacheId = x) ∨
      ∃ r ∈ s.requests ++ s.list, r.key = key ∧ r.cacheId = x := by
  have hlook : ∀ i, (⟨key, i⟩ : (_ : String) × Local.CacheItem) ∈ s.touchMap.entries ↔
      s.touchMap.lookup key = some i := fun i => AList.mem_lookup_iff.symm
  simp only [onWay, List.mem_append, List.mem_map, Option.mem_toList, Prod.mk.injEq, Sigma.exists,
    Prod.exists]
  constructor
  · rintro (⟨k, i, (hi | ⟨k', i', hm, rfl, rfl⟩) | hi, rfl, rfl⟩ | ⟨r, hr, rfl, rfl⟩)
    · exact .inl ⟨i, hi, rfl⟩
    · exact .inr (.inl ⟨_, (hlook _).mp hm, rfl⟩)
    · exact .inr (.inr (.inl ⟨i, hi, rfl⟩))
    · exact .inr (.inr (.inr ⟨r, hr, rfl, rfl⟩))
  · rintro (⟨i, hi, rfl⟩ | ⟨i, hi, rfl⟩ | ⟨i, hi, rfl⟩ | ⟨r, hr, rfl, rfl⟩)
    · exact .inl ⟨key, i, .inl (.inl hi), rfl, rfl⟩
    · exact .inl ⟨key, i, .inl (.inr ⟨key, i, (hlook i).mpr hi, rfl, rfl⟩), rfl, rfl⟩
    · exact .inl ⟨key, i, .inr hi, rfl, rfl⟩
    · exact .inr ⟨r, hr, rfl, rfl⟩

theorem held_some {c : Option (String × Local.CacheItem)} {o : Owed} (h : held c key = some o) :
    ∃ i, c = some (key, i) ∧ o = .item i := by
  obtain ⟨⟨key', i⟩, hi, rfl⟩ := Option.map_eq_some_iff.mp h
  obtain ⟨rfl, hkey⟩ := Option.filter_eq_some_iff.mp hi
  obtain rfl : key' = key := by simpa using hkey
  exact ⟨i, rfl, rfl⟩

theorem sent_some {l : List MultiUpdateExpirationItem} {o : Owed} (h : sent l key = some o) :
    ∃ r ∈ l, r.key = key ∧ o = .request r := by
  obtain ⟨r, hr, rfl⟩ := Option.map_eq_some_iff.mp h
  have hkey := List.find?_some hr
  exact ⟨r, List.mem_reverse.mp (List.mem_of_find?_eq_some hr), by simpa using hkey, rfl⟩

/-- What has been called last is on its way. -/
theorem onWay_of_last {o : Owed} (h : s.last key = some o) : ∃ x, (key, x) ∈ s.onWay := by
  rcases Option.or_eq_some_iff.mp h with h | ⟨-, h⟩
  · obtain ⟨i, hi, -⟩ := held_some h
    exact ⟨_, mem_onWay.mpr (.inl ⟨i, hi, rfl⟩)⟩
  rcases Option.or_eq_some_iff.mp h with h | ⟨-, h⟩
  · obtain ⟨i, hi, -⟩ := Option.map_eq_some_iff.mp h
    exact ⟨_, mem_onWay.mpr (.inr (.inl ⟨i, hi, rfl⟩))⟩
  rcases Option.or_eq_some_iff.mp h with h | ⟨-, h⟩
  · obtain ⟨i, hi, -⟩ := held_some h
    exact ⟨_, mem_onWay.mpr (.inr (.inr (.inl ⟨i, hi, rfl⟩)))⟩
  · obtain ⟨r, hr, hkey, -⟩ := sent_some h
    exact ⟨_, mem_onWay.mpr (.inr (.inr (.inr ⟨r, hr, hkey, rfl⟩)))⟩

/-! ### The server -/

theorem getTouch_zero (st : Store) (k : Key) (t : Nat) :
    (st.getTouch k 0 t).2 = st.put k ((st.entry k).map fun e => { e with expireTime := t }) := by
  cases he : st.entry k with
  | none =>
    simp only [Store.getTouch, he, Option.map_none]
    exact (Store.put_self he).symm
  | some e =>
    simp only [Store.getTouch, he]
    rfl

/-- What the server does with a request that it can carry out. -/
theorem put_updateExpiration {x y : Sys} {g cacheId t : Nat} {b : Bytes} {o : Outcome}
    (hx : ∃ lost, SysInv env lost x)
    (h : x.RoomStep env (.updateExpiration g b cacheId t, o) y) (ho : o.succeeded = true) :
    (∃ lost, SysInv env lost y) ∧
      ∃ e, (abs env x.mgr).entry (g, b) = some e ∧ (cacheId = 0 ∨ cacheId = e.cacheId) ∧
        abs env y.mgr = (abs env x.mgr).put (g, b)
          (some { e with expireTime := CacheMgr.realtime x.mgr.currTime t }) := by
  obtain ⟨hy, a, hacts, hact⟩ := SysInv.act hx h
  refine ⟨hy, ?_⟩
  cases hacts
  have hres : (((abs env x.mgr).updateExpiration (g, b) cacheId
      (CacheMgr.realtime x.mgr.currTime t)).map Outcome.base id) = (o, abs env y.mgr) := hact
  cases he : (abs env x.mgr).entry (g, b) with
  | none =>
    simp only [Store.updateExpiration, he] at hres
    rw [← (Prod.mk.inj hres).1] at ho
    cases ho
  | some e =>
    simp only [Store.updateExpiration, he] at hres
    split at hres
    · next hid => exact ⟨e, rfl, hid, (Prod.mk.inj hres).2.symm⟩
    · rw [← (Prod.mk.inj hres).1] at ho
      cases ho

/-- A sweep only takes entries away, and only such as have run out. -/
theorem entry_sweep {x y : Sys} {o : Outcome} (hx : ∃ lost, SysInv env lost x)
    (h : x.RoomStep env (.checkExpired, o) y) :
    (∃ lost, SysInv env lost y) ∧ (abs env y.mgr).currTime = (abs env x.mgr).currTime ∧
      (abs env y.mgr).lastCacheId = (abs env x.mgr).lastCacheId ∧
      ∀ k, (abs env y.mgr).entry k = (abs env x.mgr).entry k ∨ (abs env y.mgr).entry k = none ∧
        ∀ e, (abs env x.mgr).entry k = some e → e.expireTime ≤ x.mgr.currTime := by
  obtain ⟨hy, a, hacts, hact⟩ := SysInv.act hx h
  have hst : ((abs env x.mgr).act a).2 = abs env y.mgr := congrArg Prod.snd hact
  refine ⟨hy, ?_⟩
  rw [← hst]
  cases hacts with
  | checkExpiredNot => exact ⟨rfl, rfl, fun k => .inl rfl⟩
  | @checkExpired ks _ hkeys =>
    refine ⟨Store.currTime_unlinkAll .., Store.lastCacheId_unlinkAll .., fun k => ?_⟩
    have hentry : ((abs env x.mgr).act (.checkExpired (fun w =>
        (x.mgr.watchMap w).any fun watch => watch.isExpired x.mgr.currTime) ks)).2.entry k =
        if k ∈ ks then none else (abs env x.mgr).entry k := Store.entry_unlinkAll ..
    rw [hentry]
    by_cases hk : k ∈ ks
    · rw [if_pos hk]
      refine .inr ⟨rfl, fun e he => ?_⟩
      obtain ⟨e', he', hle⟩ := hkeys k hk
      obtain rfl := Option.some.inj (he.symm.trans he')
      exact hle
    · rw [if_neg hk]
      exact .inl rfl

/-- A second passes on the server. -/
theorem abs_second {x : Sys} (hx : ∃ lost, SysInv env lost x) (hroom : x.Roomy env)
    (hlt : x.mgr.currTime + 1 < 2 ^ 32) :
    let y := (x.exec env (.setCurrentTime (x.mgr.lastTime + 1))).2
    (∃ lost, SysInv env lost y) ∧
      abs env y.mgr = { abs env x.mgr with currTime := x.mgr.currTime + 1 } := by
  intro y
  obtain ⟨hy, -⟩ := SysInv.act hx (l := (.setCurrentTime (x.mgr.lastTime + 1), .done)) (y := y)
    ⟨hroom, trivial, rfl⟩
  refine ⟨hy, ?_⟩
  have htime : y.mgr.currTime = (x.mgr.currTime + 1) % 2 ^ 32 := by
    show (x.mgr.setCurrentTime (x.mgr.lastTime + 1)).currTime = _
    rw [CacheMgr.setCurrentTime]
    simp
  rw [Nat.mod_eq_of_lt hlt] at htime
  exact Store.ext rfl rfl rfl htime

/-! ### The steps -/

theorem owes_congr {o : Owed} {t : Nat}
    (hexpire : ∀ i, o = .item i → s'.expireTime i.ref = s.expireTime i.ref)
    (htick : s'.tick = s.tick) (htime : s'.server.mgr.currTime = s.server.mgr.currTime) :
    s'.Owes o t ↔ s.Owes o t := by
  cases o with
  | item i =>
    show (_ ∧ _) ↔ (_ ∧ _)
    rw [hexpire i rfl, htick, htime]
  | request r =>
    show (_ = _) ↔ (_ = _)
    rw [htime]

/-- The thread and the end of a call move what is on its way. -/
theorem good_of_last (h : s.Good env p) (hserver : s'.server = s.server)
    (hremote : s'.remote = s.remote) (hcache : s'.cache.Valid p.Knows)
    (hlast : ∀ key, s'.last key = s.last key ∨ ∃ i r, s.last key = some (.item i) ∧
      s'.last key = some (.request r) ∧ ∀ t, s.Owes (.item i) t → s'.Owes (.request r) t)
    (hway : ∀ x ∈ s'.onWay, x ∈ s.onWay)
    (hexpire : s'.expireTime = s.expireTime) (htick : s'.tick = s.tick) : s'.Good env p where
  server := by
    rw [hserver]
    exact h.server
  beside := by
    rw [hserver, hremote]
    exact h.beside
  cache := hcache
  items := fun key i hi => by
    rcases hlast key with hsame | ⟨j, r, -, hr, -⟩
    · exact h.items key i (hsame ▸ hi)
    · exact nomatch hi.symm.trans hr
  ids := fun x hx => h.ids x (hway x hx)
  agrees := fun k => by
    have hk := h.agrees k
    refine ⟨fun hnone => ?_, fun key o e hkey ho he => ?_⟩
    · rw [hserver, hremote]
      refine hk.settled fun key hkey => ?_
      rcases hlast key with hsame | ⟨i, r, -, hr, -⟩
      · exact hsame ▸ hnone key hkey
      · exact nomatch (hnone key hkey).symm.trans hr
    · rw [hremote] at he
      rw [hserver]
      have htime : s'.server.mgr.currTime = s.server.mgr.currTime := by rw [hserver]
      have hreplaced : (∃ e₁, (abs env s.server.mgr).entry k = some e₁ ∧
          (key, e₁.cacheId) ∉ s.onWay) →
          ∃ e₁, (abs env s.server.mgr).entry k = some e₁ ∧ (key, e₁.cacheId) ∉ s'.onWay :=
        fun ⟨e₁, he₁, hnot⟩ => ⟨e₁, he₁, fun hmem => hnot (hway _ hmem)⟩
      rcases hlast key with hsame | ⟨i, r, hi, hr, howes⟩
      · exact (hk.owes key o e hkey (hsame ▸ ho) he).imp
          (owes_congr (fun i _ => congrFun hexpire i.ref) htick htime).mpr hreplaced
      · obtain rfl := Option.some.inj (hr.symm.trans ho)
        exact (hk.owes key _ e hkey hi he).imp (howes _) hreplaced

theorem owes_called {expiration : BitVec 32}
    (hexpire : s.expireTime i.ref = setExpiration s.tick expiration) :
    s.Owes (.item i) (CacheMgr.realtime s.server.mgr.currTime expiration.toNat) := by
  have hlt := expiration.isLt
  refine ⟨?_, fun _ => ?_⟩
  · rw [hexpire, setExpiration]
    split
    · omega
    · omega
  · rw [hexpire, setExpiration]
    split
    · next h0 =>
      rw [h0]
      simp
    · rw [Nat.add_sub_cancel_left]

/-- A call for the key that the local cache has answered with the item. -/
def called (p : Process) (s : Touching) (cache : Local.LocalCacheWatch) (key : String)
    (i : Local.CacheItem) (expiration : BitVec 32) : Touching :=
  { s with
    cache := cache
    expireTime := Function.update s.expireTime i.ref (setExpiration s.tick expiration)
    calling := some (key, i)
    remote := s.remote.put (p.defaultGroupId, p.encodeKey key)
      ((s.remote.entry (p.defaultGroupId, p.encodeKey key)).map fun e =>
        { e with expireTime := CacheMgr.realtime s.remote.currTime expiration.toNat }) }

section Called

variable {cache : Local.LocalCacheWatch} {expiration : BitVec 32}

theorem next_getAndTouch (hget : s.cache.get p.defaultGroupId key = (some i, cache)) :
    s.next env p (.getAndTouch p.defaultGroupId (p.encodeKey key) key expiration) =
      called p s cache key i expiration := by
  simp only [next, hget, getTouch_zero, called]

theorem last_called_self : (called p s cache key i expiration).last key = some (.item i) := by
  show (held (some (key, i)) key).or _ = _
  rw [held_self, Option.some_or]

theorem last_called_of_ne (hcalling : s.calling = none) (hne : key' ≠ key) :
    (called p s cache key i expiration).last key' = s.last key' := by
  show (held (some (key, i)) key').or _ = (held s.calling key').or _
  rw [held_of_ne (Ne.symm hne), hcalling, held_none]
  rfl

theorem onWay_called {x : Nat} (hx : (key', x) ∈ (called p s cache key i expiration).onWay) :
    key' = key ∧ x = i.cacheId ∨ (key', x) ∈ s.onWay := by
  rcases mem_onWay.mp hx with ⟨j, hj, rfl⟩ | hx
  · obtain ⟨rfl, rfl⟩ := Prod.mk.inj (Option.some.inj hj)
    exact .inl ⟨rfl, rfl⟩
  · exact .inr (mem_onWay.mpr (.inr hx))

theorem agrees_called_self (hinj : Function.Injective p.encodeKey)
    (htime : s.remote.currTime = s.server.mgr.currTime) :
    (called p s cache key i expiration).Agrees env p (p.defaultGroupId, p.encodeKey key) := by
  refine ⟨fun hnone => ?_, fun key' o e hkey' ho he => .inl ?_⟩
  · exact nomatch (hnone key rfl).symm.trans last_called_self
  · obtain rfl := hinj (Prod.mk.inj hkey').2
    obtain rfl := Option.some.inj (last_called_self.symm.trans ho)
    rw [called, Store.entry_put, Function.update_self] at he
    obtain ⟨e₀, -, rfl⟩ := Option.map_eq_some_iff.mp he
    have howes : (called p s cache key i expiration).Owes (.item i)
        (CacheMgr.realtime s.server.mgr.currTime expiration.toNat) :=
      owes_called (Function.update_self ..)
    rwa [← htime] at howes

theorem agrees_called_of_ne (h : s.Good env p) (hcalling : s.calling = none) (hkey : i.key = key)
    (hobject : i = p.object i.ref) (hk : k ≠ (p.defaultGroupId, p.encodeKey key)) :
    (called p s cache key i expiration).Agrees env p k := by
  have hrem : (called p s cache key i expiration).remote.entry k = s.remote.entry k :=
    Function.update_of_ne hk ..
  have hne : ∀ key', k = (p.defaultGroupId, p.encodeKey key') → key' ≠ key := by
    rintro key' hkey' rfl
    exact hk hkey'
  refine ⟨fun hnone => ?_, fun key' o e hkey' ho he => ?_⟩
  · rw [hrem]
    exact (h.agrees k).settled fun key' hkey' =>
      last_called_of_ne hcalling (hne key' hkey') ▸ hnone key' hkey'
  · rw [last_called_of_ne hcalling (hne key' hkey')] at ho
    have hexpire : ∀ j, o = .item j →
        (called p s cache key i expiration).expireTime j.ref = s.expireTime j.ref := by
      intro j hj
      obtain ⟨hkey'', hobject'⟩ := h.items key' j (hj ▸ ho)
      -- another key is another object
      have href : j.ref ≠ i.ref := by
        intro he
        rw [hobject, ← he, ← hobject', hkey''] at hkey
        exact hne key' hkey' hkey
      exact Function.update_of_ne href ..
    refine ((h.agrees k).owes key' o e hkey' ho (hrem ▸ he)).imp (owes_congr hexpire rfl rfl).mpr ?_
    rintro ⟨e₁, he₁, hnot⟩
    exact ⟨e₁, he₁, fun hx => (onWay_called hx).elim (fun hx => hne key' hkey' hx.1) hnot⟩

end Called

theorem good_getAndTouch {groupId : Nat} {keyBuf : Bytes} {expiration : BitVec 32}
    (hinj : Function.Injective p.encodeKey) (h : s.Good env p)
    (hp : s.Possible env p (.getAndTouch groupId keyBuf key expiration))
    (ht : s.Timely env p (.getAndTouch groupId keyBuf key expiration)) :
    (s.next env p (.getAndTouch groupId keyBuf key expiration)).Good env p := by
  obtain ⟨hcalling, hfound⟩ := hp
  obtain ⟨rfl, rfl⟩ := ht
  obtain ⟨⟨_ | i, cache⟩, hget⟩ : ∃ x, s.cache.get p.defaultGroupId key = x := ⟨_, rfl⟩
  · rw [hget] at hfound
    exact nomatch hfound
  have hvalid : cache.Valid p.Knows := by
    have hv := Local.LocalCacheWatch.valid_get h.cache p.defaultGroupId key
    rw [hget] at hv
    exact hv
  obtain ⟨hkey, -, hobject, hid⟩ := Local.LocalCacheWatch.of_get h.cache (congrArg Prod.fst hget)
  rw [next_getAndTouch hget]
  refine ⟨h.server, h.beside.retime_right .., hvalid, fun key' j hj => ?_, fun x hx => ?_,
    fun k => ?_⟩
  · by_cases hne : key' = key
    · subst hne
      obtain rfl := Owed.item.inj (Option.some.inj (last_called_self.symm.trans hj))
      exact ⟨hkey, hobject⟩
    · exact h.items key' j (last_called_of_ne hcalling hne ▸ hj)
  · rcases onWay_called hx with ⟨-, hx⟩ | hx
    · exact hx ▸ hid
    · exact h.ids x hx
  · by_cases hk : k = (p.defaultGroupId, p.encodeKey key)
    · exact hk ▸ agrees_called_self hinj h.beside.currTime
    · exact agrees_called_of_ne h hcalling hkey hobject hk

theorem good_put (h : s.Good env p) : (s.next env p .put).Good env p := by
  obtain ⟨c, hc⟩ : ∃ c, s.calling = c := ⟨_, rfl⟩
  cases c with
  | none =>
    have hnext : s.next env p .put = s := by simp only [next, hc]
    rw [hnext]
    exact h
  | some x =>
    obtain ⟨key, i⟩ := x
    have hnext : s.next env p .put =
        { s with calling := none, touchMap := s.touchMap.insert key i } := by
      simp only [next, hc]
    rw [hnext]
    refine good_of_last h rfl rfl h.cache (fun key' => .inl ?_) (fun ⟨key', x⟩ hx => ?_) rfl rfl
    · simp only [last, held_none, Option.none_or, Table.lookup_insert_eq, hc]
      by_cases hk : key' = key
      · rw [if_pos hk, hk, held_self]
        rfl
      · rw [if_neg hk, held_of_ne (Ne.symm hk), Option.none_or]
    · refine mem_onWay.mpr ?_
      rcases mem_onWay.mp hx with ⟨j, hj, -⟩ | ⟨j, hj, hid⟩ | hx
      · exact nomatch hj
      · rw [Table.lookup_insert_eq] at hj
        split at hj
        · next hk =>
          obtain rfl := Option.some.inj hj
          exact .inl ⟨i, by rw [hc, hk], hid⟩
        · exact .inr (.inl ⟨j, hj, hid⟩)
      · exact .inr (.inr hx)

theorem good_take (h : s.Good env p) (hp : s.Possible env p (.take key)) :
    (s.next env p (.take key)).Good env p := by
  obtain ⟨htaken, -⟩ := hp
  cases hlook : s.touchMap.lookup key with
  | none =>
    have hnext : s.next env p (.take key) = s := by simp only [next, hlook]
    rw [hnext]
    exact h
  | some i =>
    have hnext : s.next env p (.take key) =
        { s with touchMap := s.touchMap.erase key, taken := some (key, i) } := by
      simp only [next, hlook]
    rw [hnext]
    refine good_of_last h rfl rfl h.cache (fun key' => .inl ?_) (fun ⟨key', x⟩ hx => ?_) rfl rfl
    · simp only [last, Table.lookup_erase_eq, htaken]
      by_cases hk : key' = key
      · rw [if_pos hk, hk, held_self, hlook]
        rfl
      · rw [if_neg hk, held_of_ne (Ne.symm hk), held_none]
    · refine mem_onWay.mpr ?_
      rcases mem_onWay.mp hx with hx | ⟨j, hj, hid⟩ | ⟨j, hj, hid⟩ | hx
      · exact .inl hx
      · rw [Table.lookup_erase_eq] at hj
        split at hj
        · exact nomatch hj
        · exact .inr (.inl ⟨j, hj, hid⟩)
      · obtain ⟨rfl, rfl⟩ := Prod.mk.inj (Option.some.inj hj)
        exact .inr (.inl ⟨i, hlook, hid⟩)
      · exact .inr (.inr (.inr hx))

theorem getExpiration_of_nonneg {tick expireTime : Nat} (h : 0 ≤ getExpiration tick expireTime) :
    getExpiration tick expireTime = (expireTime - tick : Nat) := by
  unfold getExpiration at h ⊢
  split
  · next h0 => simp [h0]
  · next h0 =>
    rw [if_neg h0] at h
    split
    · omega
    · next hle =>
      rw [if_neg hle] at h
      exact absurd h (by decide)

theorem good_read (h : s.Good env p) (ht : s.Timely env p .read) :
    (s.next env p .read).Good env p := by
  obtain ⟨c, hc⟩ : ∃ c, s.taken = c := ⟨_, rfl⟩
  cases c with
  | none =>
    have hnext : s.next env p .read = s := by simp only [next, hc]
    rw [hnext]
    exact h
  | some x =>
    obtain ⟨key, i⟩ := x
    have hpos : 0 ≤ getExpiration s.tick (s.expireTime i.ref) := ht (key, i) hc
    have hnext : s.next env p .read =
        { s with
          taken := none
          list := s.list ++ [⟨key, i.cacheId,
            BitVec.ofInt 32 (getExpiration s.tick (s.expireTime i.ref))⟩] } := by
      simp only [next, hc]
      exact if_neg (not_lt.mpr hpos)
    rw [hnext]
    refine good_of_last h rfl rfl h.cache (fun key' => ?_) (fun ⟨key', x⟩ hx => ?_) rfl rfl
    · simp only [last, held_none, Option.none_or, hc, ← List.append_assoc, sent_concat]
      by_cases hk : key = key'
      · subst hk
        rw [held_self, if_pos rfl]
        cases held s.calling key with
        | some o => exact .inl rfl
        | none =>
          cases s.touchMap.lookup key with
          | some j => exact .inl rfl
          | none =>
            refine .inr ⟨i, _, rfl, rfl, fun t howes => ?_⟩
            obtain ⟨hlt, htime⟩ := howes
            show t = _
            rw [htime hpos, getExpiration_of_nonneg hpos]
            have hmod : (BitVec.ofInt 32 ((s.expireTime i.ref - s.tick : Nat) : Int)).toNat =
                s.expireTime i.ref - s.tick := by
              rw [BitVec.ofInt_natCast, BitVec.toNat_ofNat]
              omega
            rw [hmod]
      · rw [held_of_ne hk, if_neg hk, Option.none_or]
        exact .inl rfl
    · refine mem_onWay.mpr ?_
      rcases mem_onWay.mp hx with hx | hx | ⟨j, hj, -⟩ | ⟨r, hr, hkey, hid⟩
      · exact .inl hx
      · exact .inr (.inl hx)
      · exact nomatch hj
      · rw [← List.append_assoc] at hr
        rcases List.mem_append.mp hr with hr | hr
        · exact .inr (.inr (.inr ⟨r, hr, hkey, hid⟩))
        · obtain rfl := List.mem_singleton.mp hr
          exact .inr (.inr (.inl ⟨i, by rw [hc, ← hkey], hid⟩))

theorem good_send (h : s.Good env p) : (s.next env p .send).Good env p := by
  refine good_of_last h rfl rfl h.cache (fun key => .inl ?_) (fun x hx => ?_) rfl rfl
  · simp only [last, next, List.append_nil]
  · simpa only [onWay, next, List.append_nil] using hx

/-- A request arrives that the server can carry out. -/
theorem good_arrive (h : s.Good env p) (hp : s.Possible env p .arrive)
    (hok : (s.next env p .arrive).failed = false) :
    (s.next env p .arrive).Good env p := by
  obtain ⟨l, hl⟩ : ∃ l, s.requests = l := ⟨_, rfl⟩
  cases l with
  | nil =>
    have hnext : s.next env p .arrive = s := by simp only [next, hl]
    rw [hnext]
    exact h
  | cons r requests =>
    obtain ⟨o, y, hexec⟩ : ∃ o y, s.server.exec env (.updateExpiration p.defaultGroupId
        (p.encodeKey r.key) r.cacheId r.expiration.toNat) = (o, y) := ⟨_, _, rfl⟩
    by_cases hsucc : o.succeeded = true
    swap
    · simp only [next, hl, hexec, if_neg hsucc] at hok
      exact nomatch hok
    have hnext : s.next env p .arrive = { s with requests := requests, server := y } := by
      simp only [next, hl, hexec, if_pos hsucc]
    have hstep : s.server.RoomStep env (.updateExpiration p.defaultGroupId (p.encodeKey r.key)
        r.cacheId r.expiration.toNat, o) y := ⟨hp, trivial, hexec⟩
    obtain ⟨hy, e, he, hid, habs⟩ := put_updateExpiration h.server hstep hsucc
    rw [hnext]
    set s' : Touching := { s with requests := requests, server := y } with hs'
    have htime : y.mgr.currTime = s.server.mgr.currTime := congrArg Store.currTime habs
    have hlast : ∀ key, s.last key = (s'.last key).or
        (if r.key = key then some (.request r) else none) := by
      intro key
      simp only [last, hl, hs', List.cons_append, sent_cons, ← Option.or_assoc]
    have hkept : ∀ key o, s'.last key = some o → s.last key = some o := by
      intro key o ho
      rw [hlast, ho, Option.some_or]
    have hway : ∀ x ∈ s'.onWay, x ∈ s.onWay := by
      rintro ⟨key, x⟩ hx
      refine mem_onWay.mpr ((mem_onWay.mp hx).imp_right (.imp_right (.imp_right ?_)))
      rintro ⟨r', hr', hkey⟩
      exact ⟨r', by rw [hl]; exact List.mem_cons_of_mem _ hr', hkey⟩
    -- ids are not 0, so the request names the entry that is there
    have hnow : (r.key, r.cacheId) ∈ s.onWay :=
      mem_onWay.mpr (.inr (.inr (.inr ⟨r, by simp [hl], rfl, rfl⟩)))
    have hcurrent : r.cacheId = e.cacheId := hid.resolve_left (h.ids _ hnow)
    have hentry : ∀ k e₁, (abs env s.server.mgr).entry k = some e₁ →
        ∃ e₂, (abs env y.mgr).entry k = some e₂ ∧ e₂.cacheId = e₁.cacheId := by
      intro k e₁ he₁
      rw [habs, Store.entry_put]
      by_cases hk : k = (p.defaultGroupId, p.encodeKey r.key)
      · subst hk
        obtain rfl := Option.some.inj (he.symm.trans he₁)
        exact ⟨_, Function.update_self .., rfl⟩
      · exact ⟨e₁, (Function.update_of_ne hk ..).trans he₁, rfl⟩
    refine ⟨hy, habs ▸ h.beside.retime_left he _, h.cache,
      fun key i hi => h.items key i (hkept key _ hi), fun x hx => h.ids x (hway x hx), fun k => ?_⟩
    have howes : ∀ key o e, k = (p.defaultGroupId, p.encodeKey key) → s'.last key = some o →
        s.remote.entry k = some e → s'.Owes o e.expireTime ∨
          ∃ e₁, (abs env y.mgr).entry k = some e₁ ∧ (key, e₁.cacheId) ∉ s'.onWay := by
      intro key o e hkey ho he
      have hiff : s'.Owes o e.expireTime ↔ s.Owes o e.expireTime :=
        owes_congr (fun _ _ => rfl) rfl htime
      refine ((h.agrees k).owes key o e hkey (hkept key o ho) he).imp hiff.mpr ?_
      rintro ⟨e₁, he₁, hnot⟩
      obtain ⟨e₂, he₂, hsame⟩ := hentry k e₁ he₁
      exact ⟨e₂, he₂, fun hx => hnot (hsame ▸ hway _ hx)⟩
    refine ⟨fun hnone => ?_, howes⟩
    by_cases hk : k = (p.defaultGroupId, p.encodeKey r.key)
    · subst hk
      obtain ⟨t, hremote⟩ := h.beside.of_some he
      have hown : s.last r.key = some (.request r) := by
        rw [hlast, hnone r.key rfl, if_pos rfl]
        rfl
      have ht : t = CacheMgr.realtime s.server.mgr.currTime r.expiration.toNat := by
        rcases (h.agrees _).owes r.key _ _ rfl hown hremote with ht | ⟨e₁, he₁, hnot⟩
        · exact ht
        · obtain rfl := Option.some.inj (he.symm.trans he₁)
          exact absurd (hcurrent ▸ hnow) hnot
      show (abs env y.mgr).entry _ = _
      rw [habs, Store.entry_put, Function.update_self, hremote, ht]
    · have hsame : (abs env y.mgr).entry k = (abs env s.server.mgr).entry k := by
        rw [habs, Store.entry_put, Function.update_of_ne hk]
      refine hsame.trans ((h.agrees k).settled fun key hkey => ?_)
      have hne : r.key ≠ key := by
        intro hr
        exact hk (hr ▸ hkey)
      rw [hlast, hnone key hkey, if_neg hne]
      rfl

/-- What is left is one second less, and the server's clock is one second later. -/
theorem realtime_second {t c tick expireTime : Nat} (hvalue : 0 ≤ getExpiration tick expireTime →
      t = CacheMgr.realtime c (expireTime - tick))
    (hlive : 0 ≤ getExpiration (tick + 1) expireTime) :
    t = CacheMgr.realtime (c + 1) (expireTime - (tick + 1)) := by
  unfold getExpiration at hvalue hlive
  by_cases h0 : expireTime = 0
  · rw [if_pos h0] at hvalue
    rw [hvalue le_rfl, h0, Nat.zero_sub, Nat.zero_sub]
    rfl
  · rw [if_neg h0] at hvalue hlive
    by_cases hlt : tick + 1 < expireTime
    · rw [if_pos (by omega)] at hvalue
      have hsum : expireTime - tick + c = expireTime - (tick + 1) + (c + 1) := by omega
      have hleft : expireTime - tick ≠ 0 ∧ expireTime - (tick + 1) ≠ 0 := by omega
      rw [hvalue (by omega), CacheMgr.realtime, CacheMgr.realtime, if_neg hleft.1, if_neg hleft.2,
        hsum]
    · rw [if_neg hlt] at hlive
      exact absurd hlive (by decide)

/-- A request that was called last has been read. -/
theorem request_of_last (h : s.last key = some (.request r)) : r ∈ s.requests ++ s.list := by
  rcases Option.or_eq_some_iff.mp h with h | ⟨-, h⟩
  · obtain ⟨_, -, hi⟩ := held_some h
    exact nomatch hi
  rcases Option.or_eq_some_iff.mp h with h | ⟨-, h⟩
  · obtain ⟨_, -, hi⟩ := Option.map_eq_some_iff.mp h
    exact nomatch hi
  rcases Option.or_eq_some_iff.mp h with h | ⟨-, h⟩
  · obtain ⟨_, -, hi⟩ := held_some h
    exact nomatch hi
  · obtain ⟨r', hr, -, hi⟩ := sent_some h
    exact Owed.request.inj hi ▸ hr

theorem good_second (h : s.Good env p) (hp : s.Possible env p .second)
    (ht : s.Timely env p .second) : (s.next env p .second).Good env p := by
  obtain ⟨hlist, hrequests, hlt⟩ := ht
  obtain ⟨hy, habs⟩ := abs_second h.server hp hlt
  have hentry := congrArg Store.entry habs
  have htime : (s.server.exec env (.setCurrentTime (s.server.mgr.lastTime + 1))).2.mgr.currTime =
      s.server.mgr.currTime + 1 := congrArg Store.currTime habs
  refine ⟨hy, ?_, h.cache, h.items, h.ids, fun k => ⟨fun hnone => ?_, fun key o e hkey ho he => ?_⟩⟩
  · exact ⟨fun k => h.beside.entry k, h.beside.pending, h.beside.lastCacheId, rfl⟩
  · exact (congrFun hentry k).trans ((h.agrees k).settled hnone)
  · have hold := (h.agrees k).owes key o e hkey ho he
    refine hold.imp (fun hold => ?_) fun ⟨e₁, he₁, hnot⟩ =>
      ⟨e₁, (congrFun hentry k).trans he₁, hnot⟩
    cases o with
    | item i =>
      obtain ⟨hbound, hvalue⟩ := hold
      refine ⟨hbound.trans (Nat.add_lt_add_right (Nat.lt_succ_self _) _), fun hlive => ?_⟩
      exact (realtime_second hvalue hlive).trans (htime ▸ rfl)
    | request r =>
      have hr := request_of_last ho
      have hnil : r ∈ s.requests ++ s.list := hr
      rw [hlist, hrequests] at hnil
      exact absurd hnil List.not_mem_nil

/-- A sweep leaves an entry that has not run out, and one that is in the last list. -/
theorem entry_kept {x y : Sys} {o : Outcome} {e : Entry} (hx : ∃ lost, SysInv env lost x)
    (h : x.RoomStep env (.checkExpired, o) y) (he : (abs env x.mgr).entry k = some e)
    (hlive : x.mgr.currTime < e.expireTime ∨ (x.mgr.item e.ptr).expirationId = 33) :
    (abs env y.mgr).entry k = some e := by
  rcases hlive with hlt | hlast
  · exact (ExpiryLemmas.entry_swept hx h he).resolve_right (not_le.mpr hlt)
  · exact ExpiryLemmas.entry_lasting hx h he hlast

theorem good_sweep (h : s.Good env p) (hp : s.Possible env p .sweep)
    (ht : s.Timely env p .sweep) : (s.next env p .sweep).Good env p := by
  have hstep : s.server.RoomStep env (.checkExpired, .done) (s.server.exec env .checkExpired).2 :=
    ⟨hp, trivial, rfl⟩
  obtain ⟨hy, htime, hid, hentry⟩ := entry_sweep h.server hstep
  set y := (s.server.exec env .checkExpired).2 with hydef
  have hnext : s.next env p .sweep =
      { s with server := y, remote := swept s.remote (abs env y.mgr) } := rfl
  rw [hnext]
  have hsettled : ∀ k, (∀ key, k = (p.defaultGroupId, p.encodeKey key) → s.last key = none) →
      (abs env y.mgr).entry k = (swept s.remote (abs env y.mgr)).entry k := by
    intro k hnone
    show (abs env y.mgr).entry k = (s.remote.entry k).filter _
    rw [← (h.agrees k).settled hnone]
    rcases hentry k with hsame | ⟨hgone, hdue⟩
    · rw [hsame]
      cases hx : (abs env s.server.mgr).entry k with
      | none => rfl
      | some e => exact (Option.filter_some.trans (if_pos rfl)).symm
    · rw [hgone]
      cases hx : (abs env s.server.mgr).entry k with
      | none => rfl
      | some e =>
        have hle : ¬ s.remote.currTime < e.expireTime := by
          rw [h.beside.currTime]
          exact not_lt.mpr (hdue e hx)
        exact (Option.filter_some.trans (if_neg (by simp [hle]))).symm
  have hkept : ∀ key o, s.last key = some o →
      let k := (p.defaultGroupId, p.encodeKey key)
      (abs env y.mgr).entry k = (abs env s.server.mgr).entry k ∧
        (swept s.remote (abs env y.mgr)).entry k = s.remote.entry k := by
    intro key o ho k
    obtain ⟨x, hx⟩ := onWay_of_last ho
    show _ ∧ (s.remote.entry k).filter _ = _
    rcases h.beside.cases k with ⟨he, he'⟩ | ⟨e, t, he, he'⟩
    · refine ⟨(hentry k).elim (fun hsame => hsame) fun hgone => hgone.1.trans he.symm, ?_⟩
      rw [he']
      rfl
    · have hy := entry_kept h.server hstep he (ht _ hx e he)
      refine ⟨hy.trans he.symm, ?_⟩
      rw [he', hy]
      exact Option.filter_some.trans (if_pos rfl)
  refine ⟨hy, ⟨fun k => ?_, rfl, h.beside.lastCacheId.trans hid.symm,
    h.beside.currTime.trans htime.symm⟩, h.cache, h.items, h.ids,
    fun k => ⟨hsettled k, fun key o e hkey ho he => ?_⟩⟩
  · by_cases hnone : ∀ key, k = (p.defaultGroupId, p.encodeKey key) → s.last key = none
    · rw [hsettled k hnone]
    · push Not at hnone
      obtain ⟨key, rfl, hlast⟩ := hnone
      obtain ⟨o, ho⟩ := Option.ne_none_iff_exists'.mp hlast
      obtain ⟨hsame, hsame'⟩ := hkept key o ho
      rw [hsame, hsame']
      exact h.beside.entry _
  · subst hkey
    obtain ⟨hsame, hsame'⟩ := hkept key o ho
    have hiff : Touching.Owes { s with server := y, remote := swept s.remote (abs env y.mgr) } o
        e.expireTime ↔ s.Owes o e.expireTime := owes_congr (fun _ _ => rfl) rfl htime
    refine ((h.agrees _).owes key o e rfl ho (hsame' ▸ he)).imp hiff.mpr ?_
    rintro ⟨e₁, he₁, hnot⟩
    exact ⟨e₁, hsame.trans he₁, hnot⟩

/-- Another client's operation is done alike to both stores. Where it replaces an entry with
something on its way, the new entry has an id that is not on its way. -/
theorem good_other {op : Op} (h : s.Good env p) (hp : s.Possible env p (.other op))
    (ht : s.Timely env p (.other op)) : (s.next env p (.other op)).Good env p := by
  obtain ⟨hroom, hpermitted, hclient⟩ := hp
  obtain ⟨r, y, hexec⟩ : ∃ r y, s.server.exec env op = (r, y) := ⟨_, _, rfl⟩
  have hnext : s.next env p (.other op) =
      { s with server := y, remote := s.remote.others s.server.mgr (abs env y.mgr) r op } := by
    simp only [next, hexec]
  have hstep : s.server.RoomStep env (op, r) y := ⟨hroom, hpermitted, hexec⟩
  have halive : ∀ g k w b, op = .get g k w b →
      ((abs env s.server.mgr).Alive (g, k) ↔ s.remote.Alive (g, k)) := by
    rintro g k w b rfl
    by_cases hnone : ∀ key, (g, k) = (p.defaultGroupId, p.encodeKey key) → s.last key = none
    · exact h.beside.alive ((h.agrees _).settled hnone)
    · push Not at hnone
      obtain ⟨key, hkey, hlast⟩ := hnone
      obtain ⟨o, ho⟩ := Option.ne_none_iff_exists'.mp hlast
      obtain ⟨x, hx⟩ := onWay_of_last ho
      exact hkey ▸ (ht _ hx).2.2 hkey
  obtain ⟨halong, hbeside⟩ := AlongsideLemmas.along_others h.server hstep
    (fun he => by rw [he] at hclient; exact hclient)
    (fun tt he => by rw [he] at hclient; exact hclient) h.beside halive
  rw [hnext]
  refine ⟨(SysInv.act h.server hstep).1, hbeside, h.cache, h.items, h.ids, fun k =>
    ⟨fun hnone => (halong.entry k).agree ((h.agrees k).settled hnone),
      fun key o e hkey ho he => ?_⟩⟩
  subst hkey
  obtain ⟨x, hx⟩ := onWay_of_last ho
  have hretimes := (ht _ hx).2.1
  rcases (halong.entry _).cases_of_not hretimes he with ⟨e₁, he₁, hid⟩ | ⟨⟨e₀, he₀, htime⟩, hsame⟩
  · exact .inr ⟨e₁, he₁, fun hmem => (ht _ hmem).1 hid⟩
  · refine ((h.agrees _).owes key o e₀ rfl ho he₀).imp (fun howes => ?_) ?_
    · rw [htime] at howes
      have hiff : Touching.Owes { s with
          server := y
          remote := s.remote.others s.server.mgr (abs env y.mgr) r op } o e.expireTime ↔
            s.Owes o e.expireTime := owes_congr (fun _ _ => rfl) rfl halong.currTime
      exact hiff.mpr howes
    · rintro ⟨e₁, he₁, hnot⟩
      obtain ⟨e₂, he₂, hid⟩ := hsame e₁ he₁
      exact ⟨e₂, he₂, hid ▸ hnot⟩

theorem failed_next {a : Act} (h : (s.next env p a).failed = false) : s.failed = false := by
  cases a with
  | getAndTouch groupId keyBuf key expiration =>
    simp only [next] at h
    split at h
    · exact h
    · exact h
  | put =>
    simp only [next] at h
    split at h
    · exact h
    · exact h
  | take key =>
    simp only [next] at h
    split at h
    · exact h
    · exact h
  | read =>
    simp only [next] at h
    split at h
    · exact h
    · split at h
      · exact h
      · exact h
  | arrive =>
    simp only [next] at h
    split at h
    · exact h
    · split at h
      · exact h
      · exact nomatch h
  | timeout => exact nomatch h
  | send | refresh | second | sweep | other => exact h

theorem good_step {a : Act} (hinj : Function.Injective p.encodeKey)
    (h : s.failed = false → s.Good env p) (hstep : s.Step env p a s') (ht : s.Timely env p a)
    (hok : s'.failed = false) : s'.Good env p := by
  obtain ⟨hp, rfl⟩ := hstep
  have hs := h (failed_next hok)
  cases a with
  | getAndTouch groupId keyBuf key expiration => exact good_getAndTouch hinj hs hp ht
  | put => exact good_put hs
  | take key => exact good_take hs hp
  | read => exact good_read hs ht
  | send => exact good_send hs
  | arrive => exact good_arrive hs hp hok
  | timeout => exact nomatch hok
  | refresh cache => exact good_of_last hs rfl rfl hp (fun _ => .inl rfl) (fun _ hx => hx) rfl rfl
  | second => exact good_second hs hp ht
  | sweep => exact good_sweep hs hp ht
  | other op => exact good_other hs hp ht

end TouchLemmas

open TouchLemmas

variable {env : Env} {p : Process} {s₀ s₁ s : Touching} {t t' : List (Touching × Act)}
  {lastTime limit itemSizeMax itemSizeMin : Nat} {factor : Rat}

def inactive (item : Local.CacheItem) : Local.GroupItem :=
  { Local.GroupItem.empty with inactiveCacheMap := AList.insert "k" item ∅ }

namespace TouchLemmas

end TouchLemmas

end Xixi.Touch
