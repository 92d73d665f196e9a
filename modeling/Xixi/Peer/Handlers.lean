import Xixi.Peer.Machine

/-!
# What the handlers do to a connection

Every handler of a request changes the connection in one of few ways, whatever the
backend returns.

1. `answered`: some calls, one response, and `PEER_STATUS_WRITE` with a new request to
   follow. This is what a request with a key does once the key is there
   (`processPduExtras2_keyed`), what a request without one does at once
   (`processPduFixed_plain`), and what an update does when its item is complete
   (`processPduExtras_update`).
2. An update gets an item or is rejected (`processPduFixed_update`).
3. `CHECK_WATCH` is answered or waits (`processPduFixed_checkWatch`).
4. `AUTH` changes nothing but the log (`processPduExtras2_auth`).
-/

namespace Xixi.PeerCache
open Lib

namespace Pdu

/-- The call that serves a request with this key. Updates take several, `HELLO` none, and
`AUTH` is not served. -/
def call (key : Bytes) : Pdu → Option Call
  | .get g w _ => some (.get g.toNat key w.toNat false)
  | .getTouch g w x _ => some (.getTouch g.toNat key w.toNat x.toNat)
  | .getBase g _ => some (.get g.toNat key 0 true)
  | .updateFlags _ id g fl _ => some (.updateFlags g.toNat key id.toNat fl.toNat)
  | .updateExpiration _ id g x _ => some (.updateExpiration g.toNat key id.toNat x.toNat)
  | .delete _ id g _ => some (.remove g.toNat key id.toNat)
  | .delta op id g d _ => some (.delta g.toNat key (incr op) d.toInt id.toNat)
  | .flush g => some (.flush g.toNat)
  | .stats op cl g => some (.stats op.toNat cl.toNat g.toNat)
  | .createWatch g x => some (.createWatch g.toNat x.toNat)
  | .checkWatch g w _ x a => some (.checkWatchAndSetCallback g.toNat w.toNat a.toNat x.toNat)
  | .update .. | .auth .. | .hello => none

/-- Served from `process_pdu_extras2`. -/
def keyed : Pdu → Bool
  | .get .. | .getTouch .. | .getBase .. | .updateFlags .. | .updateExpiration .. | .delete ..
  | .delta .. => true
  | _ => false

/-- A key has less than 65536 bytes. -/
theorem extrasLength_lt_of_keyed {pdu : Pdu} (h : pdu.keyed = true) : pdu.extrasLength < 2 ^ 32 := by
  have hkey (kl : UInt16) : kl.toNat < 2 ^ 32 := kl.toNat_lt.trans (by decide)
  cases pdu with
  | get | getTouch | getBase | updateFlags | updateExpiration | delete | delta => exact hkey _
  | update | flush | auth | stats | createWatch | checkWatch | hello => cases h

/-- Served as soon as the fixed body is there. -/
def plain : Pdu → Bool
  | .flush .. | .stats .. | .createWatch .. => true
  | _ => false

end Pdu

namespace Conn

variable {β : Type} (B : Backend β) (c : Conn β)

/-- After the calls `ks` and the response `r`. -/
def answered (mgr : β) (item : Option Ptr) (items : List Ptr) (ks : List Call) (r : Res) : Conn β :=
  { c with
    mgr := mgr
    cacheItem := item
    cacheItems := items
    writeBuf := c.writeBuf ++ [r]
    log := c.log ++ (ks.map .call ++ [.queue r])
    state := .write
    nextState := .newCmd }

/-- The item of an update has been allocated. -/
def allocated (mgr : β) (it : Ptr) (k : Call) (dataLen : Nat) : Conn β :=
  { c with
    mgr := mgr
    cacheItem := some it
    log := c.log ++ [.call k]
    readItemBuf := []
    nextDataLen := dataLen
    state := .readBodyExtras }

/-- An update without an item: `dataLen` bytes are to be swallowed. -/
def rejected (mgr : β) (ks : List Call) (r : Res) (dataLen : Nat) : Conn β :=
  { c with
    mgr := mgr
    cacheItem := none
    writeBuf := c.writeBuf ++ [r]
    log := c.log ++ (ks.map .call ++ [.queue r])
    state := .write
    swallowSize := if 0 < dataLen then dataLen else c.swallowSize
    nextState := if 0 < dataLen then .swallow else .newCmd }

/-- `c'` is `c` after the calls `ks` and a response. -/
def Answers (ks : List Call) (c' : Conn β) : Prop :=
  ∃ mgr item items r, c' = c.answered mgr item items ks r

namespace HandlersLemmas

variable {B c}

/-- What happens after a call, when it is nothing but a response. -/
theorem answers_call {k : Call} {ret : k.Ret} {c₁ c' : Conn β} {mgr : β} {item : Option Ptr}
    {items : List Ptr} {r : Res} (hcall : c.call B k = (ret, c₁))
    (h : c' = c₁.answered mgr item items [] r) : c.Answers [k] c' := by
  refine ⟨mgr, item, items, r, ?_⟩
  have hc₁ : c₁ = (c.call B k).2 := by rw [hcall]
  rw [h, hc₁]
  simp [call, answered]

theorem answers_get (g w : UInt32) (key : Bytes) :
    c.Answers [.get g.toNat key w.toNat false] (c.processGetReqPduExtras B g w key) := by
  rw [processGetReqPduExtras]
  rcases hcall : c.call B (.get g.toNat key w.toNat false) with ⟨⟨_ | ⟨it, x⟩, reason⟩, c₁⟩
  · exact answers_call hcall rfl
  · exact answers_call hcall rfl

theorem answers_getTouch (g w x : UInt32) (key : Bytes) :
    c.Answers [.getTouch g.toNat key w.toNat x.toNat]
      (c.processGetTouchReqPduExtras B g w x key) := by
  rw [processGetTouchReqPduExtras]
  rcases hcall : c.call B (.getTouch g.toNat key w.toNat x.toNat) with ⟨⟨_ | it, reason⟩, c₁⟩
  · exact answers_call hcall rfl
  · exact answers_call hcall rfl

theorem answers_getBase (g : UInt32) (key : Bytes) :
    c.Answers [.get g.toNat key 0 true] (c.processGetBaseReqPduExtras B g key) := by
  rw [processGetBaseReqPduExtras]
  rcases hcall : c.call B (.get g.toNat key 0 true) with ⟨⟨_ | ⟨it, x⟩, reason⟩, c₁⟩
  · exact answers_call hcall rfl
  · exact answers_call hcall rfl

theorem answers_updateFlags (pdu : Pdu) (id : UInt64) (g fl : UInt32) (key : Bytes) :
    c.Answers [.updateFlags g.toNat key id.toNat fl.toNat]
      (c.processUpdateFlagsReqPduExtras B pdu id g fl key) :=
  answers_call (Prod.eta _).symm rfl

theorem answers_updateExpiration (pdu : Pdu) (id : UInt64) (g x : UInt32) (key : Bytes) :
    c.Answers [.updateExpiration g.toNat key id.toNat x.toNat]
      (c.processUpdateExpirationReqPduExtras B pdu id g x key) :=
  answers_call (Prod.eta _).symm rfl

theorem answers_delete (pdu : Pdu) (id : UInt64) (g : UInt32) (key : Bytes) :
    c.Answers [.remove g.toNat key id.toNat] (c.processDeleteReqPduExtras B pdu id g key) := by
  rw [processDeleteReqPduExtras]
  rcases hcall : c.call B (.remove g.toNat key id.toNat) with ⟨reason, c₁⟩
  cases reason <;> exact answers_call hcall rfl

theorem answers_delta (pdu : Pdu) (op : UInt8) (id : UInt64) (g : UInt32) (d : Int64)
    (key : Bytes) :
    c.Answers [.delta g.toNat key (Pdu.incr op) d.toInt id.toNat]
      (c.processDeltaReqPduExtras B pdu op id g d key) := by
  rw [processDeltaReqPduExtras]
  rcases hcall : c.call B (.delta g.toNat key (Pdu.incr op) d.toInt id.toNat) with
    ⟨⟨reason, id', value⟩, c₁⟩
  cases reason <;> exact answers_call hcall rfl

theorem rejected_eq (k₁ k₂ : Call) (r : Res) (dataLen : Nat) :
    { ((c.call B k₁).2.call B k₂).2 with cacheItem := none }.writeError r dataLen true =
      c.rejected ((c.call B k₁).2.call B k₂).2.mgr [k₁, k₂] r dataLen := by
  rcases Nat.eq_zero_or_pos dataLen with h | h
  · subst h
    simp [writeError, addWriteBuf, call, rejected]
  · simp [writeError, addWriteBuf, call, rejected, h]

/-- The operation of an update is one call, if the flag selects one. -/
theorem runUpdate_eq (op : UInt8) (it : Ptr) (w : UInt32) :
    ∃ mgr, (c.runUpdate B op it w).2 =
      { c with
        mgr := mgr
        log := c.log ++
          ((Pdu.verb op).map fun verb => Call.update verb it w.toNat).toList.map .call } := by
  rw [runUpdate]
  cases hverb : Pdu.verb op with
  | none => exact ⟨c.mgr, by simp⟩
  | some verb =>
    rcases hcall : c.call B (.update verb it w.toNat) with ⟨⟨reason, id⟩, c₁⟩
    have hc₁ : c₁ = (c.call B (.update verb it w.toNat)).2 := by rw [hcall]
    refine ⟨c₁.mgr, ?_⟩
    dsimp only
    rw [hcall]
    have hend : c₁ = { c with mgr := c₁.mgr, log := c.log ++ [.call (.update verb it w.toNat)] } := by
      rw [hc₁]
      rfl
    cases reason <;> exact hend

/-- A handler that needs the key, once the key is there. -/
theorem withKey_of_le {length : Nat} {data : Bytes} (h : length ≤ data.length)
    (handler : Bytes → Conn β) :
    c.withKey length data handler = (length, handler (data.take length)) :=
  if_neg (Nat.not_lt.mpr h)

end HandlersLemmas

open HandlersLemmas

/-- A request with a key is answered after one call, with the key of its frame. -/
theorem processPduExtras2_keyed {pdu : Pdu} {data : Bytes} (hkeyed : pdu.keyed = true)
    (hlen : pdu.extrasLength ≤ data.length) :
    ∃ k c', pdu.call (data.take pdu.extrasLength) = some k ∧ c.Answers [k] c' ∧
      c.processPduExtras2 B data (some pdu) = (pdu.extrasLength, c') := by
  cases pdu with
  | get => exact ⟨_, _, rfl, answers_get .., withKey_of_le hlen _⟩
  | getTouch => exact ⟨_, _, rfl, answers_getTouch .., withKey_of_le hlen _⟩
  | getBase => exact ⟨_, _, rfl, answers_getBase .., withKey_of_le hlen _⟩
  | updateFlags => exact ⟨_, _, rfl, answers_updateFlags .., withKey_of_le hlen _⟩
  | updateExpiration => exact ⟨_, _, rfl, answers_updateExpiration .., withKey_of_le hlen _⟩
  | delete => exact ⟨_, _, rfl, answers_delete .., withKey_of_le hlen _⟩
  | delta => exact ⟨_, _, rfl, answers_delta .., withKey_of_le hlen _⟩
  | update | flush | auth | stats | createWatch | checkWatch | hello => cases hkeyed

/-- `AUTH` is not answered and stays where it is. -/
theorem processPduExtras2_auth {n : UInt32} {data : Bytes} (hlen : n.toNat ≤ data.length) :
    c.processPduExtras2 B data (some (.auth n)) =
      (n.toNat, (c.call B (.login (data.take n.toNat))).2) :=
  withKey_of_le hlen _

/-- A request that is its fixed body is answered at once. -/
theorem processPduFixed_plain {pdu : Pdu} (hplain : pdu.plain = true) :
    ∃ k, pdu.call [] = some k ∧ c.Answers [k] (c.processPduFixed B pdu) := by
  cases pdu with
  | flush => exact ⟨_, rfl, answers_call (Prod.eta _).symm rfl⟩
  | stats => exact ⟨_, rfl, answers_call (Prod.eta _).symm rfl⟩
  | createWatch => exact ⟨_, rfl, answers_call (Prod.eta _).symm rfl⟩
  | get | getTouch | getBase | update | updateFlags | updateExpiration | delete | delta | auth
  | checkWatch | hello => cases hplain

/-- A request with a key waits for it. -/
theorem processPduFixed_keyed {pdu : Pdu} (hkeyed : pdu.keyed = true) :
    c.processPduFixed B pdu = c.awaitExtras2 pdu.extrasLength := by
  cases pdu with
  | get | getTouch | getBase | updateFlags | updateExpiration | delete | delta => rfl
  | update | flush | auth | stats | createWatch | checkWatch | hello => cases hkeyed

/-- `CHECK_WATCH` is answered, or the connection waits for the watch. -/
theorem processPduFixed_checkWatch (g w t x a : UInt32) :
    c.Answers [.checkWatchAndSetCallback g.toNat w.toNat a.toNat x.toNat]
        (c.processPduFixed B (.checkWatch g w t x a)) ∨
      c.processPduFixed B (.checkWatch g w t x a) =
        { (c.call B (.checkWatchAndSetCallback g.toNat w.toNat a.toNat x.toNat)).2 with
          state := .asyncWait } := by
  rw [processPduFixed, processCheckWatchReqPduFixed]
  rcases hcall : c.call B (.checkWatchAndSetCallback g.toNat w.toNat a.toNat x.toNat) with
    ⟨_ | out, c₁⟩
  · exact .inl (answers_call hcall rfl)
  · dsimp only
    split
    · exact .inl (answers_call hcall rfl)
    · exact .inr rfl

/-- The call that gets the item of an update. -/
def allocCall (g fl x : UInt32) (kl : UInt16) (dl : UInt32) : Call :=
  .allocItem g.toNat kl.toNat fl.toNat x.toNat dl.toNat 0

/-- An update gets an item, or it is rejected for want of memory or for its size. -/
theorem processPduFixed_update (op : UInt8) (id : UInt64) (g fl x w : UInt32) (kl : UInt16)
    (dl : UInt32) :
    (∃ mgr it, c.processPduFixed B (.update op id g fl x w kl dl) =
      c.allocated mgr it (allocCall g fl x kl dl) ((kl.toNat + dl.toNat) % 2 ^ 32)) ∨
    ∃ mgr reason, (reason = .outOfMemory ∨ reason = .tooLarge) ∧
      c.processPduFixed B (.update op id g fl x w kl dl) =
        c.rejected mgr [allocCall g fl x kl dl, .itemSizeOk kl.toNat dl.toNat 0] (.error reason)
          ((kl.toNat + dl.toNat) % 2 ^ 32) := by
  rw [processPduFixed, processUpdateReqPduFixed]
  rcases halloc : c.call B (.allocItem g.toNat kl.toNat fl.toNat x.toNat dl.toNat 0) with
    ⟨_ | it, c₁⟩
  · right
    have hc₁ : c₁ = (c.call B (allocCall g fl x kl dl)).2 := by rw [allocCall, halloc]
    dsimp only
    rcases hok : c₁.call B (.itemSizeOk kl.toNat dl.toNat 0) with ⟨_ | _, c₂⟩
    all_goals
      have hc₂ : c₂ = (c₁.call B (.itemSizeOk kl.toNat dl.toNat 0)).2 := by rw [hok]
      dsimp only
      rw [hc₂, hc₁]
    · exact ⟨_, .tooLarge, .inr rfl, rejected_eq ..⟩
    · exact ⟨_, .outOfMemory, .inl rfl, rejected_eq ..⟩
  · left
    have hc₁ : c₁ = (c.call B (allocCall g fl x kl dl)).2 := by rw [allocCall, halloc]
    refine ⟨c₁.mgr, it, ?_⟩
    dsimp only
    rw [hc₁]
    rfl

/-- The calls of an update whose item has been read: the item is filled, and the operation
that the flag selects runs on it. -/
def updateCalls (op : UInt8) (id : UInt64) (w : UInt32) (kl : UInt16) (it : Ptr) (buf : Bytes) :
    List Call :=
  .fill it { key := buf.take kl.toNat, data := buf.drop kl.toNat, ext := [], cacheId := id.toNat }
    :: ((Pdu.verb op).map fun verb => Call.update verb it w.toNat).toList

/-- An update is answered when its item is complete. -/
theorem processPduExtras_update (op : UInt8) (id : UInt64) (g fl x w : UInt32) (kl : UInt16)
    (dl : UInt32) {it : Ptr} (hit : c.cacheItem = some it) :
    c.Answers (updateCalls op id w kl it c.readItemBuf)
      (c.processPduExtras B (some (.update op id g fl x w kl dl))) := by
  let contents : Contents :=
    { key := c.readItemBuf.take kl.toNat, data := c.readItemBuf.drop kl.toNat
      ext := [], cacheId := id.toNat }
  let c₁ := (c.call B (.fill it contents)).2
  obtain ⟨mgr, hmgr⟩ := runUpdate_eq (B := B) (c := c₁) op it w
  have hrun : c.processPduExtras B (some (.update op id g fl x w kl dl)) =
      { (c₁.runUpdate B op it w).2.writeRes (c₁.runUpdate B op it w).1 with
        mgr := B.releaseReference (c₁.runUpdate B op it w).2.mgr it, cacheItem := none } := by
    rw [processPduExtras, hit]
    rfl
  refine ⟨B.releaseReference mgr it, none, c.cacheItems, (c₁.runUpdate B op it w).1, ?_⟩
  rw [hrun, hmgr]
  simp [writeRes, addWriteBuf, answered, call, updateCalls, c₁, contents]

end Conn
end Xixi.PeerCache
