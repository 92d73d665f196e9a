import Xixi.Lib.Wire
import Xixi.Item

/-!
# Requests of the binary protocol

A request is a header of two bytes, a fixed body whose size the header tells, and
the extra bytes the fixed body announces: the key, the key and the data, or the
credentials of `AUTH`.

1. `Pdu` is a decoded fixed body, `decodePdu` the decoder of the server.
2. `Request` is a whole request, its extra bytes as long as announced; `encode` is
   its frame.
3. `decodePdu_fixedBody`: the server decodes what a client has encoded.
-/

namespace Xixi.PeerCache
open Lib

/-- `XIXI_PDU_HEAD_LENGTH`. -/
def headLength : Nat := 2

/-- The requests that `process_header` knows. -/
inductive Choice
  | getReq
  | getTouchReq
  | getBaseReq
  | updateReq
  | updateFlagsReq
  | updateExpirationReq
  | deleteReq
  | deltaReq
  | flushReq
  | authReq
  | statsReq
  | createWatchReq
  | checkWatchReq
  | helloReq
deriving DecidableEq, Repr

namespace Choice

/-- `XIXI_CHOICE_CACHE_BASE`, and `XIXI_CHOICE_COMMON_BASE` for `helloReq`. -/
def code : Choice → UInt16
  | .getReq => 0x200 + 1
  | .getTouchReq => 0x200 + 2
  | .getBaseReq => 0x200 + 4
  | .updateReq => 0x200 + 6
  | .updateFlagsReq => 0x200 + 8
  | .updateExpirationReq => 0x200 + 10
  | .deleteReq => 0x200 + 12
  | .deltaReq => 0x200 + 14
  | .flushReq => 0x200 + 16
  | .authReq => 0x200 + 18
  | .statsReq => 0x200 + 20
  | .createWatchReq => 0x200 + 22
  | .checkWatchReq => 0x200 + 24
  | .helloReq => 0 + 1

def all : List Choice :=
  [.getReq, .getTouchReq, .getBaseReq, .updateReq, .updateFlagsReq, .updateExpirationReq, .deleteReq,
    .deltaReq, .flushReq, .authReq, .statsReq, .createWatchReq, .checkWatchReq, .helloReq]

/-- The choice with this code; `none` is the default branch of the switches. -/
def ofCode (code : UInt16) : Option Choice := all.find? fun c => c.code == code

@[simp] theorem ofCode_code (c : Choice) : ofCode c.code = some c := by
  cases c <;> rfl

theorem code_of_ofCode {code : UInt16} {c : Choice} (h : ofCode code = some c) : c.code = code := by
  have hfound := List.find?_some h
  exact beq_iff_eq.mp hfound

/-- `get_fixed_body_size`. -/
def fixedBodySize : Choice → Nat
  | .getReq => 10
  | .getTouchReq => 14
  | .getBaseReq => 6
  | .updateReq => 31
  | .updateFlagsReq => 19
  | .updateExpirationReq => 19
  | .deleteReq => 15
  | .deltaReq => 23
  | .flushReq => 4
  | .authReq => 4
  | .statsReq => 6
  | .createWatchReq => 8
  | .checkWatchReq => 20
  | .helloReq => 0

end Choice

/-! ## Fixed bodies -/

/-- `XIXI_Get_Req_Pdu` and its siblings, without the choice they inherit. -/
inductive Pdu
  | get (groupId watchId : UInt32) (keyLength : UInt16)
  | getTouch (groupId watchId expiration : UInt32) (keyLength : UInt16)
  | getBase (groupId : UInt32) (keyLength : UInt16)
  | update (opFlag : UInt8) (cacheId : UInt64) (groupId flags expiration watchId : UInt32)
      (keyLength : UInt16) (dataLength : UInt32)
  | updateFlags (opFlag : UInt8) (cacheId : UInt64) (groupId flags : UInt32) (keyLength : UInt16)
  | updateExpiration (opFlag : UInt8) (cacheId : UInt64) (groupId expiration : UInt32)
      (keyLength : UInt16)
  | delete (opFlag : UInt8) (cacheId : UInt64) (groupId : UInt32) (keyLength : UInt16)
  | delta (opFlag : UInt8) (cacheId : UInt64) (groupId : UInt32) (delta : Int64) (keyLength : UInt16)
  | flush (groupId : UInt32)
  | auth (base64Length : UInt32)
  | stats (opFlag classId : UInt8) (groupId : UInt32)
  | createWatch (groupId maxNextCheckInterval : UInt32)
  | checkWatch (groupId watchId checkTimeout maxNextCheckInterval ackSequence : UInt32)
  | hello
deriving DecidableEq, Repr

/-- `decode_fixed` of the class that belongs to the choice. -/
def decodeFixed (buf : Bytes) : Choice → Pdu
  | .getReq => .get (getU32 buf) (getU32 (buf.drop 4)) (getU16 ((buf.drop 4).drop 4))
  | .getTouchReq =>
    .getTouch (getU32 buf) (getU32 (buf.drop 4)) (getU32 ((buf.drop 4).drop 4))
      (getU16 (((buf.drop 4).drop 4).drop 4))
  | .getBaseReq => .getBase (getU32 buf) (getU16 (buf.drop 4))
  | .updateReq =>
    let opFlag := getU8 buf; let buf := buf.drop 1
    let cacheId := getU64 buf; let buf := buf.drop 8
    let groupId := getU32 buf; let buf := buf.drop 4
    let flags := getU32 buf; let buf := buf.drop 4
    let expiration := getU32 buf; let buf := buf.drop 4
    let watchId := getU32 buf; let buf := buf.drop 4
    let keyLength := getU16 buf; let buf := buf.drop 2
    .update opFlag cacheId groupId flags expiration watchId keyLength (getU32 buf)
  | .updateFlagsReq =>
    let opFlag := getU8 buf; let buf := buf.drop 1
    let cacheId := getU64 buf; let buf := buf.drop 8
    let groupId := getU32 buf; let buf := buf.drop 4
    let flags := getU32 buf; let buf := buf.drop 4
    .updateFlags opFlag cacheId groupId flags (getU16 buf)
  | .updateExpirationReq =>
    let opFlag := getU8 buf; let buf := buf.drop 1
    let cacheId := getU64 buf; let buf := buf.drop 8
    let groupId := getU32 buf; let buf := buf.drop 4
    let expiration := getU32 buf; let buf := buf.drop 4
    .updateExpiration opFlag cacheId groupId expiration (getU16 buf)
  | .deleteReq =>
    let opFlag := getU8 buf; let buf := buf.drop 1
    let cacheId := getU64 buf; let buf := buf.drop 8
    let groupId := getU32 buf; let buf := buf.drop 4
    .delete opFlag cacheId groupId (getU16 buf)
  | .deltaReq =>
    let opFlag := getU8 buf; let buf := buf.drop 1
    let cacheId := getU64 buf; let buf := buf.drop 8
    let groupId := getU32 buf; let buf := buf.drop 4
    let delta := getU64 buf; let buf := buf.drop 8
    .delta opFlag cacheId groupId delta.toInt64 (getU16 buf)
  | .flushReq => .flush (getU32 buf)
  | .authReq => .auth (getU32 buf)
  | .statsReq => .stats (getU8 buf) (getU8 (buf.drop 1)) (getU32 ((buf.drop 1).drop 1))
  | .createWatchReq => .createWatch (getU32 buf) (getU32 (buf.drop 4))
  | .checkWatchReq =>
    .checkWatch (getU32 buf) (getU32 (buf.drop 4)) (getU32 ((buf.drop 4).drop 4))
      (getU32 (((buf.drop 4).drop 4).drop 4)) (getU32 ((((buf.drop 4).drop 4).drop 4).drop 4))
  | .helloReq => .hello

/-- `decode_pdu`: `none` stands for false. -/
def decodePdu (header : UInt16) (buf : Bytes) : Option Pdu :=
  (Choice.ofCode header).map (decodeFixed buf)

namespace Pdu

def choice : Pdu → Choice
  | .get .. => .getReq
  | .getTouch .. => .getTouchReq
  | .getBase .. => .getBaseReq
  | .update .. => .updateReq
  | .updateFlags .. => .updateFlagsReq
  | .updateExpiration .. => .updateExpirationReq
  | .delete .. => .deleteReq
  | .delta .. => .deltaReq
  | .flush .. => .flushReq
  | .auth .. => .authReq
  | .stats .. => .statsReq
  | .createWatch .. => .createWatchReq
  | .checkWatch .. => .checkWatchReq
  | .hello => .helloReq

/-- How many bytes follow the fixed body. -/
def extrasLength : Pdu → Nat
  | .get _ _ kl => kl.toNat
  | .getTouch _ _ _ kl => kl.toNat
  | .getBase _ kl => kl.toNat
  | .update _ _ _ _ _ _ kl dl => kl.toNat + dl.toNat
  | .updateFlags _ _ _ _ kl => kl.toNat
  | .updateExpiration _ _ _ _ kl => kl.toNat
  | .delete _ _ _ kl => kl.toNat
  | .delta _ _ _ _ kl => kl.toNat
  | .auth n => n.toNat
  | .flush .. | .stats .. | .createWatch .. | .checkWatch .. | .hello => 0

/-- How many of them are the key. -/
def keyLength : Pdu → Nat
  | .get _ _ kl => kl.toNat
  | .getTouch _ _ _ kl => kl.toNat
  | .getBase _ kl => kl.toNat
  | .update _ _ _ _ _ _ kl _ => kl.toNat
  | .updateFlags _ _ _ _ kl => kl.toNat
  | .updateExpiration _ _ _ _ kl => kl.toNat
  | .delete _ _ _ kl => kl.toNat
  | .delta _ _ _ _ kl => kl.toNat
  | .auth _ | .flush .. | .stats .. | .createWatch .. | .checkWatch .. | .hello => 0

/-- The bytes of the fixed body. -/
def fixedBody : Pdu → Bytes
  | .get g w kl => putU32 g ++ (putU32 w ++ putU16 kl)
  | .getTouch g w x kl => putU32 g ++ (putU32 w ++ (putU32 x ++ putU16 kl))
  | .getBase g kl => putU32 g ++ putU16 kl
  | .update op id g fl x w kl dl =>
    putU8 op ++ (putU64 id ++ (putU32 g ++ (putU32 fl ++ (putU32 x ++ (putU32 w ++
      (putU16 kl ++ putU32 dl))))))
  | .updateFlags op id g fl kl =>
    putU8 op ++ (putU64 id ++ (putU32 g ++ (putU32 fl ++ putU16 kl)))
  | .updateExpiration op id g x kl =>
    putU8 op ++ (putU64 id ++ (putU32 g ++ (putU32 x ++ putU16 kl)))
  | .delete op id g kl => putU8 op ++ (putU64 id ++ (putU32 g ++ putU16 kl))
  | .delta op id g d kl =>
    putU8 op ++ (putU64 id ++ (putU32 g ++ (putU64 d.toUInt64 ++ putU16 kl)))
  | .flush g => putU32 g
  | .auth n => putU32 n
  | .stats op cl g => putU8 op ++ (putU8 cl ++ putU32 g)
  | .createWatch g x => putU32 g ++ putU32 x
  | .checkWatch g w t x a => putU32 g ++ (putU32 w ++ (putU32 t ++ (putU32 x ++ putU32 a)))
  | .hello => []

@[simp] theorem length_fixedBody (pdu : Pdu) : pdu.fixedBody.length = pdu.choice.fixedBodySize := by
  cases pdu <;> simp [fixedBody, choice, Choice.fixedBodySize]

theorem decodeFixed_fixedBody (pdu : Pdu) (rest : Bytes) :
    decodeFixed (pdu.fixedBody ++ rest) pdu.choice = pdu := by
  cases pdu <;>
    simp only [decodeFixed, fixedBody, choice, List.append_assoc, getU8_putU8, getU16_putU16,
      getU32_putU32, getU64_putU64, drop_putU8, drop_putU32, drop_putU64, drop_putU16,
      Int64.toInt64_toUInt64]

theorem choice_decodeFixed (buf : Bytes) (choice : Choice) :
    (decodeFixed buf choice).choice = choice := by
  cases choice <;> rfl

/-- Every byte of a fixed body is part of a field. -/
theorem fixedBody_decodeFixed {buf : Bytes} {choice : Choice}
    (h : choice.fixedBodySize ≤ buf.length) :
    (decodeFixed buf choice).fixedBody = buf.take choice.fixedBodySize := by
  -- the fields are cut off one after the other, in the order of the sizes below
  have cut (i j : Nat) (l : Bytes) : l.take i ++ (l.drop i).take j = l.take (i + j) :=
    List.take_add.symm
  have hd (i : Nat) (l : Bytes) : (l.drop i).length = l.length - i := List.length_drop
  cases choice <;> simp only [Choice.fixedBodySize] at h <;>
    simp (disch := first | omega | simp only [hd]; omega) only [decodeFixed, fixedBody, putU8_getU8, putU16_getU16,
      putU32_getU32, putU64_getU64, UInt64.toUInt64_toInt64, cut, Choice.fixedBodySize,
      List.take_zero]

/-- The server decodes what a client has encoded, whatever stands behind it. -/
theorem decodePdu_fixedBody (pdu : Pdu) (rest : Bytes) :
    decodePdu pdu.choice.code (pdu.fixedBody ++ rest) = some pdu := by
  rw [decodePdu, Choice.ofCode_code, Option.map_some, decodeFixed_fixedBody]

end Pdu

/-! ## Whole requests -/

/-- A request: its fixed body and as many extra bytes as that announces. -/
structure Request where
  pdu : Pdu
  extras : Bytes
  length_extras : extras.length = pdu.extrasLength

namespace Request

def header (r : Request) : Bytes := putU16 r.pdu.choice.code

/-- The frame of the request. -/
def encode (r : Request) : Bytes := r.header ++ (r.pdu.fixedBody ++ r.extras)

@[simp] theorem length_header (r : Request) : r.header.length = headLength := length_putU16 _

theorem length_encode (r : Request) :
    r.encode.length = headLength + (r.pdu.choice.fixedBodySize + r.pdu.extrasLength) := by
  rw [encode, List.length_append, List.length_append, length_header, Pdu.length_fixedBody,
    r.length_extras]

end Request
end Xixi.PeerCache
