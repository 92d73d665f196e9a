import Xixi.IntrusiveList
import Xixi.HashMap
import Xixi.Decimal

/-!
# The cache manager (`cache.cpp`)

`CacheMgr` is the state of `Cache_Mgr` together with the heap of items it works
on. Every operation that runs under `cache_lock_` is a function of that state.
The failing asserts of the source are recorded in `ok` (those of the lists in
`lists.ok`); the loops that follow pointers take as fuel the number of chunks
ever obtained. `stats` and `sinkCalls` log the calls made to the statistics and
to the connections. `chunkSize` is what `malloc` was asked for, and `underflow`
says whether `mem_used_` has been decreased below zero.
-/

namespace Xixi

/-- The list objects of the manager. -/
inductive ListId
  | expire (i : Nat)
  | freeCache (i : Nat)
  | flushCache
deriving DecidableEq, Repr

structure CacheMgr where
  item : Ptr → CacheItem
  allocated : Ptr → Bool
  chunkSize : Ptr → Nat
  nextPtr : Nat
  lists : Lists ListId Ptr
  cacheHashMap : HashMap Ptr
  ok : Bool
  expireCheckTime : Nat → Nat
  maxSize : Nat → Nat
  classIdMax : Nat
  lastClassId : Nat
  freeCacheMaxCount : Nat → Nat
  lastCacheId : Nat
  memLimit : Nat
  memUsed : Nat
  underflow : Bool
  lastCheckExpiredTime : Nat
  lastWatchId : Nat
  watchMap : Nat → Option CacheWatch
  currTime : Nat
  lastTime : Nat
  sinkAlive : Sink → Bool
  stats : List StatCall
  sinkCalls : List (Sink × Nat)

namespace CacheMgr

/-! ## Time (`currtime.h`, `currtime.cpp`) -/

/-- `Current_Time::realtime(curr_time, expiration)`: 0 stands for "never". -/
def realtime (currTime expiration : Nat) : Nat :=
  if expiration = 0 then 0
  else if expiration + currTime ≤ 0xFFFFFFFF then expiration + currTime else 0

/-- `expiration_time_[i]`. -/
def expirationTime (i : Nat) : Nat := if i < 32 then 2 ^ i else 0xFFFFFFFF

/-- `Current_Time::set_current_time` when the system clock reads `tt`. -/
def setCurrentTime (s : CacheMgr) (tt : Nat) : CacheMgr :=
  { s with
    currTime := if s.lastTime < tt then (s.currTime + min (tt - s.lastTime) 10) % 2 ^ 32
      else s.currTime
    lastTime := tt }

/-! ## Construction and `init` -/

/-- The state the constructor leaves, `lastTime` being the start time. -/
def new (lastTime : Nat) : CacheMgr where
  item := fun _ => .new fun _ => 0
  allocated := fun _ => false
  chunkSize := fun _ => 0
  nextPtr := 0
  lists := .empty
  cacheHashMap := .new 7
  ok := true
  expireCheckTime := fun _ => 0
  maxSize := fun _ => 0
  classIdMax := 0
  lastClassId := 1
  freeCacheMaxCount := fun _ => 0
  lastCacheId := 0
  memLimit := 0
  memUsed := 0
  underflow := false
  lastCheckExpiredTime := 0
  lastWatchId := 0
  watchMap := fun _ => none
  currTime := 8
  lastTime := lastTime
  sinkAlive := fun _ => true
  stats := []
  sinkCalls := []

/-- `size += 8 - size % 8` unless it is a multiple of `CHUNK_ALIGN_BYTES`. -/
def alignSize (size : Nat) : Nat := if size % 8 = 0 then size else (size + (8 - size % 8)) % 2 ^ 32

/-- The loop of `init`: the class table from `classIdMax` on. The factor is an
exact rational. -/
def initLoop (limit : Rat) (factor : Rat) :
    Nat → Nat → Nat → CacheMgr → CacheMgr
  | 0, _, _, s => s
  | n + 1, classIdMax, size, s =>
    if classIdMax < 200 ∧ (size : Rat) ≤ limit / factor then
      let size := alignSize size
      initLoop limit factor n (classIdMax + 1) ((size * factor).floor.toNat % 2 ^ 32)
        { s with
          classIdMax := classIdMax + 1
          maxSize := Function.update s.maxSize classIdMax size
          freeCacheMaxCount :=
            Function.update s.freeCacheMaxCount classIdMax (min (1024 * 1024 / size) 1000) }
    else s

/-- `init`. -/
def init (env : Env) (s : CacheMgr) (limit itemSizeMax itemSizeMin : Nat) (factor : Rat) :
    CacheMgr :=
  let s := { s with memLimit := limit, classIdMax := 1 }
  let s := initLoop (env.sizeofItem + itemSizeMax : Nat) factor 200 1
    ((env.sizeofItem + itemSizeMin) % 2 ^ 32) s
  { s with
    maxSize := Function.update s.maxSize s.classIdMax ((env.sizeofItem + itemSizeMax) % 2 ^ 32) }

/-! ## Small steps -/

def modify (s : CacheMgr) (p : Ptr) (f : CacheItem → CacheItem) : CacheMgr :=
  { s with item := Function.update s.item p (f (s.item p)) }

def stat (s : CacheMgr) (c : StatCall) : CacheMgr := { s with stats := s.stats ++ [c] }

def assert (s : CacheMgr) (b : Bool) : CacheMgr := { s with ok := s.ok && b }

def totalSize (env : Env) (s : CacheMgr) (p : Ptr) : Nat := (s.item p).totalSize env

def isValidWatchId (s : CacheMgr) (watchId : Nat) : Bool := (s.watchMap watchId).isSome

def getCacheId (s : CacheMgr) : Nat × CacheMgr :=
  let n := (s.lastCacheId + 1) % 2 ^ 64
  let n := if n = 0 then 1 else n
  (n, { s with lastCacheId := n })

def getExpirationIdLoop (expiration : Nat) : Nat → Nat → Nat
  | 0, i => i
  | n + 1, i => if expiration < expirationTime i then i else getExpirationIdLoop expiration n (i + 1)

def getExpirationId (currTime expireTime : Nat) : Nat :=
  if expireTime = 0 then 33
  else if currTime < expireTime then getExpirationIdLoop (expireTime - currTime) 32 1 - 1
  else 0

/-! ## Size classes -/

/-- The loop `for (--class_id; class_id >= CLASSID_MIN; --class_id)`. -/
def classDown (maxSize : Nat → Nat) (size : Nat) : Nat → Nat
  | 0 => 0
  | c + 1 => if maxSize c < size then c + 1 else classDown maxSize size c

/-- The loop `for (; class_id <= class_id_max_; ++class_id)`; `n` rounds are left. -/
def classUp (maxSize : Nat → Nat) (size : Nat) : Nat → Nat → Option Nat
  | 0, _ => none
  | n + 1, c => if size ≤ maxSize c then some c else classUp maxSize size n (c + 1)

def getClassId (s : CacheMgr) (size : Nat) : Nat × CacheMgr :=
  let classId := s.lastClassId
  if size < s.maxSize classId then
    if s.maxSize (classId - 1) < size then (classId, s)
    else
      let classId := classDown s.maxSize size (classId - 1)
      (classId, { s with lastClassId := classId })
  else
    match classUp s.maxSize size (s.classIdMax + 1 - classId) classId with
    | some c => (c, { s with lastClassId := c })
    | none => (0, s)

/-- `CALC_ITEM_SIZE` stored in a `uint32_t`. -/
def calcItemSize (env : Env) (keyLength dataSize extSize : Nat) : Nat :=
  (env.sizeofItem + keyLength + dataSize + extSize) % 2 ^ 32

def itemSizeOk (env : Env) (s : CacheMgr) (keyLength dataSize extSize : Nat) : Bool × CacheMgr :=
  let (id, s) := s.getClassId (calcItemSize env keyLength dataSize extSize)
  (id != 0, s)

/-! ## Allocating and freeing items -/

/-- The field assignments at the end of `do_alloc`. -/
def initFields (currTime id groupId keyLength flags expireTime dataSize extSize : Nat)
    (it : CacheItem) : CacheItem :=
  { it with
    classId := id % 2 ^ 8
    expirationId := getExpirationId currTime expireTime % 2 ^ 8
    refCount := 1
    groupId := groupId
    keyLength := keyLength % 2 ^ 16
    dataSize := dataSize
    expireTime := expireTime
    flags := flags
    extSize := extSize % 2 ^ 8 }

def initItem (s : CacheMgr) (p : Ptr)
    (id groupId keyLength flags expireTime dataSize extSize : Nat) : CacheMgr :=
  s.modify p (initFields s.currTime id groupId keyLength flags expireTime dataSize extSize)

def doAlloc (env : Env) (s : CacheMgr) (o : Malloc)
    (groupId keyLength flags expireTime dataSize extSize : Nat) : Option Ptr × CacheMgr :=
  let (id, s) := s.getClassId (calcItemSize env keyLength dataSize extSize)
  if id = 0 then (none, s)
  else
    match s.lists.popFront (.freeCache id) with
    | (some p, lists) =>
      (some p,
        { s with lists := lists }.initItem p id groupId keyLength flags expireTime dataSize extSize)
    | (none, _) =>
      if (s.memUsed + s.maxSize id) % 2 ^ 64 ≤ s.memLimit then
        if o.item then
          let p := s.nextPtr
          let s := { s with
            item := Function.update s.item p (.new o.memory)
            allocated := Function.update s.allocated p true
            chunkSize := Function.update s.chunkSize p (s.maxSize id)
            nextPtr := s.nextPtr + 1
            memUsed := (s.memUsed + s.maxSize id) % 2 ^ 64 }
          (some p, s.initItem p id groupId keyLength flags expireTime dataSize extSize)
        else (none, s)
      else (none, s)

def freeItem (s : CacheMgr) (p : Ptr) : CacheMgr :=
  let s := s.assert (!s.lists.isLinked (.expire (s.item p).expirationId) p)
  let s := s.assert ((s.item p).refCount == 0)
  let id := (s.item p).classId
  let s := s.modify p CacheItem.reset
  if s.lists.size (.freeCache id) < s.freeCacheMaxCount id then
    { s with lists := s.lists.pushFront (.freeCache id) p }
  else
    { s with
      allocated := Function.update s.allocated p false
      memUsed := (s.memUsed + (2 ^ 64 - s.maxSize id)) % 2 ^ 64
      underflow := s.underflow || decide (s.memUsed < s.maxSize id) }

/-- `ref_count--` in the width of the counter. -/
def decRef (env : Env) (n : Nat) : Nat :=
  match env.refWidth with
  | .unbounded => n - 1
  | .uint16 => (n + (2 ^ 16 - 1)) % 2 ^ 16

/-- `it->ref_count++`. -/
def addReference (env : Env) (s : CacheMgr) (p : Ptr) : CacheMgr :=
  s.modify p fun it => { it with refCount := env.refWidth.store (it.refCount + 1) }

def doReleaseReference (env : Env) (s : CacheMgr) (p : Ptr) : CacheMgr :=
  let s := s.assert (0 < (s.item p).refCount)
  let s := s.modify p fun it => { it with refCount := decRef env it.refCount }
  if (s.item p).refCount = 0 then s.freeItem p else s

/-! ## Watches -/

/-- The loop of `notify_watch` over the watch ids of an item. -/
def notifyIds (s : CacheMgr) (cacheId : Nat) (type : NotifyType) : List Nat → CacheMgr
  | [] => s
  | w :: ws =>
    match s.watchMap w with
    | some watch =>
      let (watch', sink) := watch.notifyWatch s.sinkAlive cacheId type
      { s with
        watchMap := Function.update s.watchMap w (some watch')
        sinkCalls := s.sinkCalls ++ (sink.map fun p => (p, watch.watchId)).toList
      }.notifyIds cacheId type ws
    | none => s.notifyIds cacheId type ws

/-- `notify_watch`; ids of watches that are gone are erased from the set. -/
def notifyWatch (s : CacheMgr) (p : Ptr) (type : NotifyType) : CacheMgr :=
  match (s.item p).watchItem with
  | none => s
  | some ws =>
    let s := s.notifyIds (s.item p).cacheId type ws.ids
    s.modify p fun it => { it with watchItem := some (ws.keep s.isValidWatchId) }

/-! ## Linking and unlinking -/

def doLink (env : Env) (s : CacheMgr) (o : Malloc) (p : Ptr) : CacheMgr :=
  let s := { s with
    cacheHashMap := s.cacheHashMap.insert s.nextPtr o.table p (s.cacheHashMap.hashValue p) }
  let s := s.stat (.itemLink (s.item p).groupId (s.item p).classId (s.totalSize env p))
  let (id, s) := s.getCacheId
  let s := s.modify p fun it => { it with cacheId := id, lastUpdateTime := s.currTime }
  let s := s.addReference env p
  { s with lists := s.lists.pushBack (.expire (s.item p).expirationId) p }

/-- `do_unlink` as far as the removal from the hash map and from the list. -/
def detach (env : Env) (s : CacheMgr) (p : Ptr) : CacheMgr :=
  { s with
    ok := s.ok && s.lists.isLinked (.expire (s.item p).expirationId) p
    stats := s.stats ++ [.itemUnlink (s.item p).groupId (s.item p).classId (s.totalSize env p)]
    cacheHashMap := (s.cacheHashMap.remove s.nextPtr
      (fun q => (s.item q).isKey (s.item p).groupId (s.item p).key)
      (s.cacheHashMap.hashValue p)).2
    lists := s.lists.remove (.expire (s.item p).expirationId) p }

/-- `if (it->watch_item != NULL) { notify_watch(it, type); delete it->watch_item; .. }` -/
def dropWatch (s : CacheMgr) (p : Ptr) (type : NotifyType) : CacheMgr :=
  if (s.item p).watchItem.isSome then
    (s.notifyWatch p type).modify p fun it => { it with watchItem := none }
  else s

def doUnlink (env : Env) (s : CacheMgr) (p : Ptr) (type : NotifyType) : CacheMgr :=
  ((s.detach env p).dropWatch p type).doReleaseReference env p

def doReplace (env : Env) (s : CacheMgr) (o : Malloc) (it newIt : Ptr) : CacheMgr :=
  (s.doUnlink env it .dataUpdated).doLink env o newIt

/-- `expire_list_[i].remove(it); it->expiration_id = j; expire_list_[j].push_front(it);` -/
def moveExpire (s : CacheMgr) (p : Ptr) (i j : Nat) : CacheMgr :=
  { s.modify p (fun it => { it with expirationId := j % 2 ^ 8 }) with
    lists := (s.lists.remove (.expire i) p).pushFront (.expire j) p }

/-! ## Looking up -/

/-- `cache_hash_map_.find`. -/
def find (s : CacheMgr) (groupId : Nat) (key : Bytes) (hashValue : Nat) : Option Ptr :=
  s.cacheHashMap.find s.nextPtr (fun q => (s.item q).isKey groupId key) hashValue

def doGet (env : Env) (s : CacheMgr) (groupId : Nat) (key : Bytes) (hashValue : Nat) :
    Option Ptr × CacheMgr :=
  match s.find groupId key hashValue with
  | some p => (some p, s.addReference env p)
  | none => (none, s)

/-- `do_get` with the out parameter `expiration`; an expired item is unlinked. -/
def doGetExpiration (env : Env) (s : CacheMgr) (groupId : Nat) (key : Bytes) (hashValue : Nat) :
    Option (Ptr × Nat) × CacheMgr :=
  match s.find groupId key hashValue with
  | some p =>
    let expireTime := (s.item p).expireTime
    if expireTime = 0 then (some (p, 0), s.addReference env p)
    else if s.currTime < expireTime then
      (some (p, expireTime - s.currTime), s.addReference env p)
    else (none, s.doUnlink env p .expired)
  | none => (none, s)

def doGetTouch (env : Env) (s : CacheMgr) (groupId : Nat) (key : Bytes)
    (hashValue expiration : Nat) : Option Ptr × CacheMgr :=
  match s.find groupId key hashValue with
  | some p =>
    let s := s.addReference env p
    (some p, s.modify p fun it => { it with expireTime := realtime s.currTime expiration })
  | none => (none, s)

/-! ## The public operations -/

def allocItem (env : Env) (s : CacheMgr) (o : Malloc)
    (groupId keyLength flags expiration dataSize extSize : Nat) : Option Ptr × CacheMgr :=
  s.doAlloc env o groupId keyLength flags (realtime s.currTime expiration) dataSize extSize

/-- The holder of an allocated item writes its contents and its hash value
(`calc_hash_value`). -/
def fill (env : Env) (s : CacheMgr) (p : Ptr) (c : Contents) : CacheMgr :=
  let s := s.modify p fun it => it.fill c
  { s with
    cacheHashMap := { s.cacheHashMap with
      hashValue := Function.update s.cacheHashMap.hashValue p
        (env.hash32 (s.item p).key (s.item p).groupId) } }

/-- `get`: the item, the expiration left, and the reason. -/
def get (env : Env) (s : CacheMgr) (groupId : Nat) (key : Bytes) (watchId : Nat) (isBase : Bool) :
    (Option (Ptr × Nat) × Reason) × CacheMgr :=
  match s.doGetExpiration env groupId key (env.hash32 key groupId) with
  | (some (p, expiration), s) =>
    if watchId ≠ 0 then
      if s.isValidWatchId watchId then
        let s := s.modify p fun it => it.addWatch watchId
        ((some (p, expiration), .success),
          s.stat (.getHitWatch groupId (s.item p).classId (s.totalSize env p)))
      else
        let s := s.stat (.getHitWatchMiss groupId (s.item p).classId)
        ((none, .watchNotFound), s.doReleaseReference env p)
    else if isBase then
      ((some (p, expiration), .success),
        s.stat (.getBaseHit (s.item p).groupId (s.item p).classId))
    else
      ((some (p, expiration), .success),
        s.stat (.getHitNoWatch groupId (s.item p).classId (s.totalSize env p)))
  | (none, s) =>
    ((none, .notFound), s.stat (if isBase then .getBaseMiss groupId else .getMiss groupId))

def getTouch (env : Env) (s : CacheMgr) (groupId : Nat) (key : Bytes) (watchId expiration : Nat) :
    (Option Ptr × Reason) × CacheMgr :=
  match s.doGetTouch env groupId key (env.hash32 key groupId) expiration with
  | (some p, s) =>
    if watchId ≠ 0 then
      if s.isValidWatchId watchId then
        let s := s.modify p fun it => it.addWatch watchId
        ((some p, .success),
          s.stat (.getTouchHitWatch groupId (s.item p).classId (s.totalSize env p)))
      else
        let s := s.stat (.getTouchHitWatchMiss groupId (s.item p).classId)
        ((none, .watchNotFound), s.doReleaseReference env p)
    else
      ((some p, .success),
        s.stat (.getTouchHitNoWatch groupId (s.item p).classId (s.totalSize env p)))
  | (none, s) => ((none, .notFound), s.stat (.getTouchMiss groupId))

/-- `update_flags`: the return value and the out parameter `cache_id`. -/
def updateFlags (env : Env) (s : CacheMgr) (groupId : Nat) (key : Bytes) (cacheId flags : Nat) :
    (Bool × Nat) × CacheMgr :=
  match s.doGet env groupId key (env.hash32 key groupId) with
  | (some p, s) =>
    if cacheId = 0 ∨ cacheId = (s.item p).cacheId then
      let s := s.modify p fun it => { it with flags := flags }
      let s := if (s.item p).watchItem.isSome then s.notifyWatch p .baseInfoUpdated else s
      let (id, s) := s.getCacheId
      let s := s.modify p fun it => { it with cacheId := id, lastUpdateTime := s.currTime }
      let s := s.stat (.updateFlagsSuccess (s.item p).groupId (s.item p).classId)
      ((true, id), s.doReleaseReference env p)
    else
      -- this exit keeps the reference taken by `do_get`
      ((false, (s.item p).cacheId),
        s.stat (.updateFlagsMismatch (s.item p).groupId (s.item p).classId))
  | (none, s) => ((false, 0), s.stat (.updateFlagsMiss groupId))

/-- `update_expiration`; on a mismatch the out parameter is `(uint64_t)-1`. -/
def updateExpiration (env : Env) (s : CacheMgr) (groupId : Nat) (key : Bytes)
    (cacheId expiration : Nat) : (Bool × Nat) × CacheMgr :=
  match s.doGet env groupId key (env.hash32 key groupId) with
  | (some p, s) =>
    if cacheId = 0 ∨ cacheId = (s.item p).cacheId then
      let expireTime := realtime s.currTime expiration
      let expirationId := getExpirationId s.currTime expireTime
      let s := if expirationId ≠ (s.item p).expirationId then
          s.moveExpire p (s.item p).expirationId expirationId
        else s
      let s := s.modify p fun it => { it with expireTime := expireTime }
      let id := (s.item p).cacheId
      let s := s.stat (.updateExpirationSuccess (s.item p).groupId (s.item p).classId)
      ((true, id), s.doReleaseReference env p)
    else
      -- this exit keeps the reference taken by `do_get`
      ((false, 2 ^ 64 - 1),
        s.stat (.updateExpirationMismatch (s.item p).groupId (s.item p).classId))
  | (none, s) => ((false, 0), s.stat (.updateExpirationMiss groupId))

/-- The watch check of `add` and of the absent case of `set`: the watch is put on
the request item before it is linked. -/
def checkWatchAdd (env : Env) (s : CacheMgr) (p : Ptr) (watchId : Nat)
    (success successWatch : Nat → Nat → Nat → StatCall) (watchMiss : Nat → Nat → StatCall) :
    Bool × CacheMgr :=
  if watchId ≠ 0 then
    if s.isValidWatchId watchId then
      let s := s.modify p fun it => it.addWatch watchId
      (true, s.stat (successWatch (s.item p).groupId (s.item p).classId (s.totalSize env p)))
    else (false, s.stat (watchMiss (s.item p).groupId (s.item p).classId))
  else (true, s.stat (success (s.item p).groupId (s.item p).classId (s.totalSize env p)))

/-- The watch check of the operations that replace an item: the watch is added
later. `success` is recorded for the item `q`. -/
def checkWatchReplace (env : Env) (s : CacheMgr) (p q : Ptr) (watchId : Nat)
    (success successWatch : Nat → Nat → Nat → StatCall) (watchMiss : Nat → Nat → StatCall) :
    Bool × CacheMgr :=
  if watchId ≠ 0 then
    if s.isValidWatchId watchId then
      (true, s.stat (successWatch (s.item p).groupId (s.item p).classId (s.totalSize env p)))
    else (false, s.stat (watchMiss (s.item p).groupId (s.item p).classId))
  else (true, s.stat (success (s.item q).groupId (s.item q).classId (s.totalSize env p)))

/-- `if (watch_id != 0) it->add_watch(watch_id);` -/
def addWatchIf (s : CacheMgr) (p : Ptr) (watchId : Nat) : CacheMgr :=
  if watchId ≠ 0 then s.modify p fun it => it.addWatch watchId else s

/-- `do_get` with the key and the hash value stored in the item. -/
def doGetOf (env : Env) (s : CacheMgr) (p : Ptr) : Option Ptr × CacheMgr :=
  s.doGet env (s.item p).groupId (s.item p).key (s.cacheHashMap.hashValue p)

/-- `add`; the out parameter `cache_id` is only set on success. -/
def add (env : Env) (s : CacheMgr) (o : Malloc) (item : Ptr) (watchId : Nat) :
    (Reason × Option Nat) × CacheMgr :=
  match s.doGetOf env item with
  | (none, s) =>
    match s.checkWatchAdd env item watchId .addSuccess .addSuccessWatch .addWatchMiss with
    | (true, s) =>
      let s := s.doLink env o item
      ((.success, some (s.item item).cacheId), s)
    | (false, s) => ((.watchNotFound, none), s)
  | (some old, s) =>
    let s := s.doReleaseReference env old
    ((.exists, none), s.stat (.addFail (s.item item).groupId (s.item item).classId))

def set (env : Env) (s : CacheMgr) (o : Malloc) (item : Ptr) (watchId : Nat) :
    (Reason × Option Nat) × CacheMgr :=
  match s.doGetOf env item with
  | (some old, s) =>
    if (s.item item).cacheId = 0 ∨ (s.item item).cacheId = (s.item old).cacheId then
      match s.checkWatchReplace env item item watchId .setSuccess .setSuccessWatch .setWatchMiss with
      | (true, s) =>
        let s := s.doReplace env o old item
        let s := s.addWatchIf item watchId
        ((.success, some (s.item item).cacheId), s.doReleaseReference env old)
      | (false, s) => ((.watchNotFound, none), s.doReleaseReference env old)
    else
      let s := s.stat (.setMismatch (s.item item).groupId (s.item item).classId)
      ((.mismatch, none), s.doReleaseReference env old)
  | (none, s) =>
    match s.checkWatchAdd env item watchId .setSuccess .setSuccessWatch .setWatchMiss with
    | (true, s) =>
      let s := s.doLink env o item
      ((.success, some (s.item item).cacheId), s)
    | (false, s) => ((.watchNotFound, none), s)

def replace (env : Env) (s : CacheMgr) (o : Malloc) (it : Ptr) (watchId : Nat) :
    (Reason × Option Nat) × CacheMgr :=
  match s.doGetOf env it with
  | (none, s) => ((.notFound, none), s.stat (.replaceMiss (s.item it).groupId))
  | (some old, s) =>
    if (s.item it).cacheId = 0 ∨ (s.item it).cacheId = (s.item old).cacheId then
      match s.checkWatchReplace env it old watchId
        .replaceSuccess .replaceSuccessWatch .replaceWatchMiss with
      | (true, s) =>
        let s := s.doReplace env o old it
        let s := s.addWatchIf it watchId
        ((.success, some (s.item it).cacheId), s.doReleaseReference env old)
      | (false, s) => ((.watchNotFound, none), s.doReleaseReference env old)
    else
      let s := s.stat (.replaceMismatch (s.item it).groupId (s.item it).classId)
      ((.mismatch, none), s.doReleaseReference env old)

/-- The copies into a new item; its key and hash value are those of `it`. -/
def copyInto (s : CacheMgr) (newIt it : Ptr) (first second ext : Bytes) : CacheMgr :=
  let key := (s.item it).key
  let s := { s with
    cacheHashMap := { s.cacheHashMap with
      hashValue := Function.update s.cacheHashMap.hashValue newIt (s.cacheHashMap.hashValue it) } }
  s.modify newIt fun n => n.copy key first second ext

def append (env : Env) (s : CacheMgr) (o : Malloc) (it : Ptr) (watchId : Nat) :
    (Reason × Option Nat) × CacheMgr :=
  match s.doGetOf env it with
  | (some old, s) =>
    if (s.item it).cacheId ≠ 0 ∧ (s.item it).cacheId ≠ (s.item old).cacheId then
      -- this exit keeps the reference taken by `do_get`
      ((.mismatch, none), s.stat (.appendMismatch (s.item it).groupId (s.item it).classId))
    else
      match s.doAlloc env o (s.item it).groupId (s.item it).keyLength (s.item old).flags
        (s.item old).expireTime (((s.item it).dataSize + (s.item old).dataSize) % 2 ^ 32)
        (s.item old).extSize with
      | (some newIt, s) =>
        let s := s.copyInto newIt it (s.item old).data (s.item it).data (s.item old).ext
        match s.checkWatchReplace env it old watchId
          .appendSuccess .appendSuccessWatch .appendWatchMiss with
        | (true, s) =>
          let s := s.doReplace env o old newIt
          let s := s.addWatchIf it watchId
          let id := (s.item newIt).cacheId
          let s := s.doReleaseReference env newIt
          ((.success, some id), s.doReleaseReference env old)
        | (false, s) =>
          let s := s.doReleaseReference env newIt
          ((.watchNotFound, none), s.doReleaseReference env old)
      | (none, s) =>
        let s := s.stat (.appendOutOfMemory (s.item it).groupId (s.item it).classId)
        ((.outOfMemory, none), s.doReleaseReference env old)
  | (none, s) => ((.notFound, none), s.stat (.appendMiss (s.item it).groupId))

def prepend (env : Env) (s : CacheMgr) (o : Malloc) (it : Ptr) (watchId : Nat) :
    (Reason × Option Nat) × CacheMgr :=
  match s.doGetOf env it with
  | (some old, s) =>
    if (s.item it).cacheId ≠ 0 ∧ (s.item it).cacheId ≠ (s.item old).cacheId then
      -- this exit keeps the reference taken by `do_get`
      ((.mismatch, none), s.stat (.prependMismatch (s.item it).groupId (s.item it).classId))
    else
      match s.doAlloc env o (s.item it).groupId (s.item it).keyLength (s.item old).flags
        (s.item old).expireTime (((s.item it).dataSize + (s.item old).dataSize) % 2 ^ 32)
        (s.item old).extSize with
      | (some newIt, s) =>
        let s := s.copyInto newIt it (s.item it).data (s.item old).data (s.item old).ext
        match s.checkWatchReplace env it old watchId
          .prependSuccess .prependSuccessWatch .prependWatchMiss with
        | (true, s) =>
          let s := s.addWatchIf it watchId
          let s := s.doReplace env o old newIt
          let id := (s.item newIt).cacheId
          let s := s.doReleaseReference env newIt
          ((.success, some id), s.doReleaseReference env old)
        | (false, s) =>
          let s := s.doReleaseReference env newIt
          ((.watchNotFound, none), s.doReleaseReference env old)
      | (none, s) =>
        let s := s.stat (.prependOutOfMemory (s.item it).groupId (s.item it).classId)
        ((.outOfMemory, none), s.doReleaseReference env old)
  | (none, s) => ((.notFound, none), s.stat (.prependMiss (s.item it).groupId))

def remove (env : Env) (s : CacheMgr) (groupId : Nat) (key : Bytes) (cacheId : Nat) :
    Reason × CacheMgr :=
  match s.doGet env groupId key (env.hash32 key groupId) with
  | (some p, s) =>
    if cacheId = 0 ∨ cacheId = (s.item p).cacheId then
      let s := s.stat (.deleteSuccess groupId (s.item p).classId)
      let s := s.doUnlink env p .deleted
      (.success, s.doReleaseReference env p)
    else
      let s := s.stat (.deleteMismatch groupId (s.item p).classId)
      (.mismatch, s.doReleaseReference env p)
  | (none, s) => (.notFound, s.stat (.deleteMiss groupId))

/-- `value + delta` or `value - delta` on the number in the item's data. -/
def deltaValue (it : CacheItem) (incr : Bool) (delta : Int) : Int :=
  let value := (safeToi64 (fun i => it.body (it.keyLength + i)) it.dataSize).getD 0
  if incr then wrap64 (value + delta) else wrap64 (value - delta)

/-- `delta`: the reason and the out parameters `cache_id` and `value`. -/
def delta (env : Env) (s : CacheMgr) (o : Malloc) (groupId : Nat) (key : Bytes) (incr : Bool)
    (delta : Int) (cacheId : Nat) : (Reason × Nat × Int) × CacheMgr :=
  match s.doGet env groupId key (env.hash32 key groupId) with
  | (none, s) =>
    ((.notFound, 0, 0), s.stat (if incr then .incrMiss groupId else .decrMiss groupId))
  | (some p, s) =>
    if cacheId = 0 ∨ cacheId = (s.item p).cacheId then
      let value := deltaValue (s.item p) incr delta
      let buf := formatInt64 value
      if buf.length ≠ (s.item p).dataSize then
        match s.doAlloc env o (s.item p).groupId (s.item p).keyLength (s.item p).flags
          (s.item p).expireTime buf.length (s.item p).extSize with
        | (none, s) => ((.outOfMemory, cacheId, value), s.doReleaseReference env p)
        | (some newIt, s) =>
          let s := s.copyInto newIt p buf [] (s.item p).ext
          let s := s.doReplace env o p newIt
          let id := (s.item newIt).cacheId
          let s := s.doReleaseReference env newIt
          let s := s.stat (if incr then .incrSuccess groupId else .decrSuccess groupId)
          ((.success, id, value), s.doReleaseReference env p)
      else
        let (id, s) := s.getCacheId
        let s := s.modify p fun it => { it with cacheId := id, lastUpdateTime := s.currTime }
        let s := s.modify p fun it => it.setData 0 buf
        let s := s.stat (if incr then .incrSuccess groupId else .decrSuccess groupId)
        ((.success, id, value), s.doReleaseReference env p)
    else
      let s := s.stat (if incr then .incrMismatch groupId else .decrMismatch groupId)
      ((.mismatch, 0, 0), s.doReleaseReference env p)

/-- The `while` loop of `flush` over one expire list, from the pointer `it`. -/
def flushLoop (env : Env) (groupId : Nat) :
    Nat → Option Ptr → Nat × Nat × CacheMgr → Nat × Nat × CacheMgr
  | _, none, r => r
  | 0, some _, (count, size, s) => (count, size, s.assert false)
  | n + 1, some p, (count, size, s) =>
    let next := s.lists.next p
    if (s.item p).groupId = groupId then
      flushLoop env groupId n next
        ((count + 1) % 2 ^ 32, (size + s.totalSize env p) % 2 ^ 64, s.doUnlink env p .flushed)
    else flushLoop env groupId n next (count, size, s)

/-- One round of the `for` loop of `flush`. -/
def flushList (env : Env) (groupId : Nat) (r : Nat × Nat × CacheMgr) (i : Nat) :
    Nat × Nat × CacheMgr :=
  flushLoop env groupId r.2.2.nextPtr (r.2.2.lists.front (.expire i)) r

/-- `flush`: the out parameters `flush_count` and `flush_size`. -/
def flush (env : Env) (s : CacheMgr) (groupId : Nat) : (Nat × Nat) × CacheMgr :=
  let (count, size, s) := (List.range 34).foldl (flushList env groupId) (0, 0, s)
  ((count, size), s.stat (.flush groupId))

def releaseReference (env : Env) (s : CacheMgr) (p : Ptr) : CacheMgr := s.doReleaseReference env p

/-- The part of `load_from_file` under the second lock: the item read from the
file is linked, unless the key has been linked in the meantime. -/
def loadFromFileLink (env : Env) (s : CacheMgr) (o : Malloc) (item : Ptr) (watchId : Nat) :
    (Option Ptr × Reason) × CacheMgr :=
  match s.doGetOf env item with
  | (none, s) =>
    match s.checkWatchAdd env item watchId .addSuccess .addSuccessWatch .addWatchMiss with
    | (true, s) => ((some item, .success), s.doLink env o item)
    | (false, s) => ((none, .watchNotFound), s.doReleaseReference env item)
  | (some old, s) => ((some old, .success), s.doReleaseReference env item)

/-! ## Expiry -/

/-- The target list of an item that is `expiration` seconds from expiring, searched
downwards from list `j`. -/
def rebucket (expiration : Nat) : Nat → Option Nat
  | 0 => if expirationTime 0 ≤ expiration then some 0 else none
  | j + 1 => if expirationTime (j + 1) ≤ expiration then some (j + 1) else rebucket expiration j

/-- The `while` loop of `expire_items` over list `i`, from the pointer `it`. -/
def expireLoop (env : Env) (currTime i : Nat) : Nat → Option Ptr → CacheMgr → CacheMgr
  | _, none, s => s
  | 0, some _, s => s.assert false
  | n + 1, some p, s =>
    let next := s.lists.next p
    if (s.item p).expireTime ≤ currTime then
      expireLoop env currTime i n next (s.doUnlink env p .expired)
    else
      match rebucket ((s.item p).expireTime - currTime) i with
      | some j => expireLoop env currTime i n next (s.moveExpire p i j)
      | none => expireLoop env currTime i n next s

/-- One round of the `for` loop of `expire_items`. -/
def expireList (env : Env) (currTime : Nat) (s : CacheMgr) (i : Nat) : CacheMgr :=
  if s.expireCheckTime i ≤ currTime then
    let s := { s with
      expireCheckTime :=
        Function.update s.expireCheckTime i (realtime currTime (expirationTime i)) }
    expireLoop env currTime i s.nextPtr (s.lists.front (.expire i)) s
  else s

def expireItems (env : Env) (s : CacheMgr) (currTime : Nat) : CacheMgr :=
  (List.range 33).foldl (expireList env currTime) s

def expireWatchs (s : CacheMgr) (currTime : Nat) : CacheMgr :=
  { s with watchMap := fun w => (s.watchMap w).filter fun watch => !watch.isExpired currTime }

/-- The loop of `free_flushed_items`. -/
def freeFlushedLoop (env : Env) : Nat → Option Ptr → CacheMgr → CacheMgr
  | _, none, s => s
  | 0, some _, s => s.assert false
  | n + 1, some p, s =>
    let next := s.lists.next p
    let s := { s with lists := s.lists.remove .flushCache p }
    freeFlushedLoop env n next (s.doReleaseReference env p)

def freeFlushedItems (env : Env) (s : CacheMgr) : CacheMgr :=
  freeFlushedLoop env s.nextPtr (s.lists.front .flushCache) s

def checkExpired (env : Env) (s : CacheMgr) : CacheMgr :=
  if s.currTime ≠ s.lastCheckExpiredTime then
    let s := { s with lastCheckExpiredTime := s.currTime }
    let s := s.expireWatchs s.currTime
    let s := s.expireItems env s.currTime
    s.freeFlushedItems env
  else s

/-! ## The watch operations -/

/-- The loop of `get_watch_id`. -/
def getWatchIdLoop (watchMap : Nat → Option CacheWatch) : Nat → Nat → Nat × Nat
  | 0, last => (0, last)
  | n + 1, last =>
    let last := if (last + 1) % 2 ^ 32 = 0 then 1 else (last + 1) % 2 ^ 32
    if (watchMap last).isNone then (last, last) else getWatchIdLoop watchMap n last

def getWatchId (s : CacheMgr) : Nat × CacheMgr :=
  let (id, last) := getWatchIdLoop s.watchMap 100 s.lastWatchId
  (id, { s with lastWatchId := last })

def createWatch (s : CacheMgr) (groupId maxNextCheckInterval : Nat) : Nat × CacheMgr :=
  let (watchId, s) := s.getWatchId
  if watchId ≠ 0 then
    let watch := CacheWatch.new watchId (realtime s.currTime maxNextCheckInterval)
    let s := { s with watchMap := Function.update s.watchMap watchId (some watch) }
    (watchId, s.stat (.createWatch groupId))
  else (0, s)

/-- `check_watch_and_set_callback`: `none` stands for false. -/
def checkWatchAndSetCallback (s : CacheMgr) (sp : Sink)
    (groupId watchId ackSequence maxNextCheckInterval : Nat) : Option CheckOut × CacheMgr :=
  match s.watchMap watchId with
  | some watch =>
    let (watch', out, sink) := watch.checkAndSetCallback s.sinkAlive sp ackSequence
      (realtime s.currTime maxNextCheckInterval)
    let s := { s with
      watchMap := Function.update s.watchMap watchId (some watch')
      sinkCalls := s.sinkCalls ++ (sink.map fun p => (p, watch.watchId)).toList }
    (some out, s.stat (.checkWatch groupId))
  | none => (none, s.stat (.checkWatchMiss groupId))

def checkWatchAndClearCallback (s : CacheMgr) (sp : Sink) (watchId : Nat) :
    Option CheckOut × CacheMgr :=
  match s.watchMap watchId with
  | some watch =>
    let (watch', out) := watch.checkAndClearCallback s.sinkAlive sp
    (some out, { s with watchMap := Function.update s.watchMap watchId (some watch') })
  | none => (none, s)

end CacheMgr
end Xixi
