import Xixi.Peer.Endian
import Xixi.Peer.Slices

/-!
# Responses of the binary protocol (`peer_cache_pdu.h`, `peer_pdu.h`)

1. `ResPdu` is a response with the values of its fields, `ResPdu.encode` its bytes on one machine.
2. `Res.pdu` is the response that is queued as a `Res`.
3. `Res.length_encode`: a response fills what was asked of `cache_buf_` for it.
-/

namespace Xixi

/-- `XIXI_REASON_SUCCESS` and its siblings. -/
def Reason.code : Reason → UInt16
  | .success => 0
  | .notFound => 1
  | .exists => 2
  | .tooLarge => 3
  | .mismatch => 6
  | .outOfMemory => 9
  | .watchNotFound => 12

/-- `WATCH_NOTIFY_TYPE_BASE_INFO_UPDATED` and its siblings. -/
def NotifyType.code : NotifyType → UInt8
  | .baseInfoUpdated => 1
  | .dataUpdated => 2
  | .deleted => 3
  | .expired => 4
  | .flushed => 5

end Xixi

namespace Xixi.PeerCache
open Lib

/-- `XIXI_Get_Res_Pdu` and its siblings. `updates` are `update_list` and `update_type_list` side by
side. -/
inductive ResPdu
  | error (reason : UInt16)
  | hello
  | delete
  | get (cacheId : UInt64) (flags expiration dataLength : UInt32) (data : Bytes)
  | getBase (cacheId : UInt64) (flags expiration dataLength : UInt32)
  | update (cacheId : UInt64)
  | updateFlags (cacheId : UInt64)
  | updateExpiration (cacheId : UInt64)
  | delta (value : Int64) (cacheId : UInt64)
  | flush (flushCount : UInt32) (flushSize : UInt64)
  | stats (result : Bytes)
  | createWatch (watchId : UInt32)
  | checkWatch (sequence : UInt32) (updates : List (UInt64 × UInt8))
deriving DecidableEq, Repr

namespace ResPdu

/-- `XIXI_CHOICE_GET_RES` and its siblings. -/
def choice : ResPdu → UInt16
  | .error _ => 0 + 0
  | .hello => 0 + 2
  | .get .. => 0x200 + 3
  | .getBase .. => 0x200 + 5
  | .update _ => 0x200 + 7
  | .updateFlags _ => 0x200 + 9
  | .updateExpiration _ => 0x200 + 11
  | .delete => 0x200 + 13
  | .delta .. => 0x200 + 15
  | .flush .. => 0x200 + 17
  | .stats _ => 0x200 + 21
  | .createWatch _ => 0x200 + 23
  | .checkWatch .. => 0x200 + 25

/-- The loop of `XIXI_Check_Watch_Res_Pdu::encode`. -/
def encodeUpdates (h : Host) : List (UInt64 × UInt8) → Bytes
  | [] => []
  | (cacheId, type) :: updates =>
    h.encodeUInt64 cacheId ++ (h.encodeUInt8 type ++ encodeUpdates h updates)

/-- The bytes of a response; for `GET` with those of the item. -/
def encode (h : Host) (r : ResPdu) : Bytes :=
  h.encodeUInt16 r.choice ++
    match r with
    | .error reason => h.encodeUInt16 reason
    | .hello | .delete => []
    | .get id fl x n data =>
      h.encodeUInt64 id ++ (h.encodeUInt32 fl ++ (h.encodeUInt32 x ++ (h.encodeUInt32 n ++ data)))
    | .getBase id fl x n =>
      h.encodeUInt64 id ++ (h.encodeUInt32 fl ++ (h.encodeUInt32 x ++ h.encodeUInt32 n))
    | .update id | .updateFlags id | .updateExpiration id => h.encodeUInt64 id
    | .delta value id => h.encodeUInt64 id ++ h.encodeUInt64 value.toUInt64
    | .flush count size => h.encodeUInt32 count ++ h.encodeUInt64 size
    | .stats result => h.encodeUInt32 (.ofNat result.length) ++ result
    | .createWatch w => h.encodeUInt32 w
    | .checkWatch sequence updates =>
      h.encodeUInt32 sequence ++ (h.encodeUInt32 (.ofNat updates.length) ++ encodeUpdates h updates)

theorem encodeUpdates_cons (h : Host) (id : UInt64) (type : UInt8) (updates : List (UInt64 × UInt8)) :
    encodeUpdates h ((id, type) :: updates) = putU64 id ++ (putU8 type ++ encodeUpdates h updates) := by
  rw [encodeUpdates, Host.encodeUInt64_eq, Host.encodeUInt8_eq]

theorem length_encodeUpdates (h : Host) (updates : List (UInt64 × UInt8)) :
    (encodeUpdates h updates).length = updates.length * (8 + 1) := by
  induction updates with
  | nil => rfl
  | cons u updates ih =>
    rw [encodeUpdates_cons, List.length_append, List.length_append, length_putU64, length_putU8, ih,
      List.length_cons]
    ring

end ResPdu

/-- The response that is queued as `r`. `unset` is what `sequence` holds where no check has set
it. -/
def Res.pdu (unset : UInt32) : Res → ResPdu
  | .error reason => .error reason.code
  | .unknownCommand => .error 8
  | .hello => .hello
  | .delete => .delete
  | .get id fl x n data => .get (.ofNat id) (.ofNat fl) (.ofNat x) (.ofNat n) data
  | .getBase id fl x n => .getBase (.ofNat id) (.ofNat fl) (.ofNat x) (.ofNat n)
  | .update id => .update (.ofNat id)
  | .updateFlags id => .updateFlags (.ofNat id)
  | .updateExpiration id => .updateExpiration (.ofNat id)
  | .delta value id => .delta (.ofInt value) (.ofNat id)
  | .flush count size => .flush (.ofNat count) (.ofNat size)
  | .stats result => .stats result
  | .createWatch w => .createWatch (.ofNat w)
  | .checkWatch out => .checkWatch ((out.sequence.map UInt32.ofNat).getD unset)
      ((out.updatedList.map UInt64.ofNat).zip (out.updatedTypeList.map NotifyType.code))

/-- A response fills what was asked of `cache_buf_` for it; the data of an item is a slice of its
own. -/
theorem Res.length_encode (h : Host) (unset : UInt32) (r : Res)
    (hlists : ∀ out, r = .checkWatch out → out.updatedTypeList.length = out.updatedList.length) :
    ((r.pdu unset).encode h).length =
      r.encodeSize + match r with
        | .get _ _ _ _ data => data.length
        | _ => 0 := by
  cases r with
  | checkWatch out =>
    have hlen := hlists out rfl
    simp only [Res.pdu, ResPdu.encode, Res.encodeSize, Host.encodeUInt16_eq, Host.encodeUInt32_eq,
      List.length_append, length_putU16, length_putU32, ResPdu.length_encodeUpdates, List.length_zip,
      List.length_map, hlen, Nat.min_self]
    ring
  | stats result =>
    simp only [Res.pdu, ResPdu.encode, Res.encodeSize, Host.encodeUInt16_eq, Host.encodeUInt32_eq,
      List.length_append, length_putU16, length_putU32]
    ring
  | get id fl x n data =>
    simp only [Res.pdu, ResPdu.encode, Res.encodeSize, Host.encodeUInt16_eq, Host.encodeUInt32_eq,
      Host.encodeUInt64_eq, List.length_append, length_putU16, length_putU32, length_putU64]
    ring
  | error _ | unknownCommand | hello | delete | getBase _ _ _ _ | update _ | updateFlags _
  | updateExpiration _ | delta _ _ | flush _ _ | createWatch _ =>
    simp [Res.pdu, ResPdu.encode, Res.encodeSize]

end Xixi.PeerCache
