import Xixi.Peer.Pdu

/-!
# Byte order of the server (`util.h`)

`ENCODE_UINT16` and its siblings store an integer as the machine stores it, after `hton16`, which
swaps the bytes where the machine is little-endian (`ENDIAN_LITTLE`) and does nothing elsewhere.

1. `Host.encodeUInt16`, `Host.decodeUInt16` and their siblings: the macros.
2. `encodeUInt16_eq`, `decodeUInt16_eq`, …: on either machine they are the big-endian fields.
3. `decodeFixed_eq`: `decode_fixed` reads the same from a fixed body on either machine.
4. `readRequest_encode`: a request is read as it was encoded.
-/

namespace Xixi.PeerCache
open Lib

inductive Host
  | little
  | big
deriving DecidableEq, Repr

def swap16 (t : UInt16) : UInt16 := (t <<< 8) ||| (t >>> 8)

def swap32 (t : UInt32) : UInt32 :=
  let t1 := (swap16 t.toUInt16).toUInt32
  let t2 := (swap16 (t >>> 16).toUInt16).toUInt32
  t2 ||| (t1 <<< 16)

def swap64 (t : UInt64) : UInt64 :=
  let t1 := (swap32 t.toUInt32).toUInt64
  let t2 := (swap32 (t >>> 32).toUInt32).toUInt64
  t2 ||| (t1 <<< 32)

namespace Host

/-- The bytes of an integer in memory, and the integer that some bytes in memory are; `bytes` are
those of the integer, the most significant first. -/
def arrange (bytes : Bytes) : Host → Bytes
  | .little => bytes.reverse
  | .big => bytes

/-- `hton16`, `ntoh16`. -/
def hton16 (x : UInt16) : Host → UInt16
  | .little => swap16 x
  | .big => x

def hton32 (x : UInt32) : Host → UInt32
  | .little => swap32 x
  | .big => x

def hton64 (x : UInt64) : Host → UInt64
  | .little => swap64 x
  | .big => x

variable (h : Host)

def encodeUInt8 (_ : Host) (x : UInt8) : Bytes := [x]

def encodeUInt16 (x : UInt16) : Bytes := h.arrange (putU16 (h.hton16 x))

def encodeUInt32 (x : UInt32) : Bytes := h.arrange (putU32 (h.hton32 x))

def encodeUInt64 (x : UInt64) : Bytes := h.arrange (putU64 (h.hton64 x))

def decodeUInt8 (_ : Host) (buf : Bytes) : UInt8 := buf.headD 0

def decodeUInt16 (buf : Bytes) : UInt16 := h.hton16 (getU16 (h.arrange (buf.take 2)))

def decodeUInt32 (buf : Bytes) : UInt32 := h.hton32 (getU32 (h.arrange (buf.take 4)))

def decodeUInt64 (buf : Bytes) : UInt64 := h.hton64 (getU64 (h.arrange (buf.take 8)))

end Host

/-! ## Swapping -/

namespace EndianLemmas

theorem toNat_swap16 (t : UInt16) :
    (swap16 t).toNat = t.toNat % 256 * 256 + t.toNat / 256 := by
  have ht : t.toNat < 2 ^ 16 := t.toNat_lt
  have hlow : t.toNat / 256 < 2 ^ 8 := by omega
  have hshift : t.toNat * 256 % 2 ^ 16 = 2 ^ 8 * (t.toNat % 256) := by omega
  rw [swap16, UInt16.toNat_or, UInt16.toNat_shiftLeft, UInt16.toNat_shiftRight]
  show (t.toNat <<< 8 % 2 ^ 16) ||| (t.toNat >>> 8) = _
  rw [Nat.shiftLeft_eq, Nat.shiftRight_eq_div_pow, hshift,
    ← Nat.two_pow_add_eq_or_of_lt hlow, Nat.mul_comm]

theorem putU16_eq (t : UInt16) : putU16 t = [UInt8.ofNat (t.toNat / 256), UInt8.ofNat t.toNat] := rfl

theorem putU16_swap16 (t : UInt16) : putU16 (swap16 t) = (putU16 t).reverse := by
  have ht : t.toNat < 2 ^ 16 := t.toNat_lt
  have hlt : t.toNat / 256 < 256 := by omega
  have hdiv : (t.toNat % 256 * 256 + t.toNat / 256) / 256 = t.toNat % 256 := by
    rw [Nat.mul_comm, Nat.mul_add_div (by norm_num), Nat.div_eq_of_lt hlt, Nat.add_zero]
  have hhigh : UInt8.ofNat ((t.toNat % 256 * 256 + t.toNat / 256) / 256) = UInt8.ofNat t.toNat := by
    apply UInt8.toNat_inj.mp
    rw [hdiv, UInt8.toNat_ofNat', UInt8.toNat_ofNat']
    exact Nat.mod_mod _ _
  have hlow : UInt8.ofNat (t.toNat % 256 * 256 + t.toNat / 256) = UInt8.ofNat (t.toNat / 256) := by
    apply UInt8.toNat_inj.mp
    rw [UInt8.toNat_ofNat', UInt8.toNat_ofNat']
    omega
  rw [putU16_eq, putU16_eq, toNat_swap16, hhigh, hlow]
  rfl

/-- The halves of an integer. -/
theorem putU32_halves (t : UInt32) :
    putU32 t = putU16 (t >>> 16).toUInt16 ++ putU16 t.toUInt16 := by
  have hhigh : (t >>> 16).toUInt16.toNat = t.toNat / 256 ^ 2 % 256 ^ 2 := by
    rw [UInt32.toNat_toUInt16, UInt32.toNat_shiftRight]
    show t.toNat >>> 16 % 2 ^ 16 = _
    rw [Nat.shiftRight_eq_div_pow]
    norm_num
  have hlow : t.toUInt16.toNat = t.toNat % 256 ^ 2 := UInt32.toNat_toUInt16 t
  rw [putU32, encodeBE_add 2 2, putU16, putU16, hhigh, hlow, encodeBE_mod, encodeBE_mod]

theorem putU64_halves (t : UInt64) :
    putU64 t = putU32 (t >>> 32).toUInt32 ++ putU32 t.toUInt32 := by
  have hhigh : (t >>> 32).toUInt32.toNat = t.toNat / 256 ^ 4 % 256 ^ 4 := by
    rw [UInt64.toNat_toUInt32, UInt64.toNat_shiftRight]
    show t.toNat >>> 32 % 2 ^ 32 = _
    rw [Nat.shiftRight_eq_div_pow]
    norm_num
  have hlow : t.toUInt32.toNat = t.toNat % 256 ^ 4 := UInt64.toNat_toUInt32 t
  rw [putU64, encodeBE_add 4 4, putU32, putU32, hhigh, hlow, encodeBE_mod, encodeBE_mod]

theorem putU32_join (hi lo : UInt16) :
    putU32 (lo.toUInt32 ||| (hi.toUInt32 <<< 16)) = putU16 hi ++ putU16 lo := by
  have hhi : hi.toNat < 2 ^ 16 := hi.toNat_lt
  have hlo : lo.toNat < 2 ^ 16 := lo.toNat_lt
  have hshift : hi.toNat * 2 ^ 16 % 2 ^ 32 = 2 ^ 16 * hi.toNat := by omega
  have hnat : (lo.toUInt32 ||| (hi.toUInt32 <<< 16)).toNat = 2 ^ 16 * hi.toNat + lo.toNat := by
    rw [UInt32.toNat_or, UInt32.toNat_shiftLeft, UInt16.toNat_toUInt32, UInt16.toNat_toUInt32]
    show lo.toNat ||| (hi.toNat <<< 16 % 2 ^ 32) = _
    rw [Nat.shiftLeft_eq, hshift, Nat.or_comm, ← Nat.two_pow_add_eq_or_of_lt hlo]
  have hdiv : (2 ^ 16 * hi.toNat + lo.toNat) / 256 ^ 2 = hi.toNat := by omega
  have hmod : (2 ^ 16 * hi.toNat + lo.toNat) % 256 ^ 2 = lo.toNat := by omega
  rw [putU32, hnat, encodeBE_add 2 2, hdiv, ← encodeBE_mod 2 (_ + _), hmod]
  rfl

theorem putU64_join (hi lo : UInt32) :
    putU64 (lo.toUInt64 ||| (hi.toUInt64 <<< 32)) = putU32 hi ++ putU32 lo := by
  have hhi : hi.toNat < 2 ^ 32 := hi.toNat_lt
  have hlo : lo.toNat < 2 ^ 32 := lo.toNat_lt
  have hshift : hi.toNat * 2 ^ 32 % 2 ^ 64 = 2 ^ 32 * hi.toNat := by omega
  have hnat : (lo.toUInt64 ||| (hi.toUInt64 <<< 32)).toNat = 2 ^ 32 * hi.toNat + lo.toNat := by
    rw [UInt64.toNat_or, UInt64.toNat_shiftLeft, UInt32.toNat_toUInt64, UInt32.toNat_toUInt64]
    show lo.toNat ||| (hi.toNat <<< 32 % 2 ^ 64) = _
    rw [Nat.shiftLeft_eq, hshift, Nat.or_comm, ← Nat.two_pow_add_eq_or_of_lt hlo]
  have hdiv : (2 ^ 32 * hi.toNat + lo.toNat) / 256 ^ 4 = hi.toNat := by omega
  have hmod : (2 ^ 32 * hi.toNat + lo.toNat) % 256 ^ 4 = lo.toNat := by omega
  rw [putU64, hnat, encodeBE_add 4 4, hdiv, ← encodeBE_mod 4 (_ + _), hmod]
  rfl

/-- Each half is swapped, and the halves change places. -/
theorem putU32_swap32 (t : UInt32) : putU32 (swap32 t) = (putU32 t).reverse := by
  rw [swap32, putU32_join, putU16_swap16, putU16_swap16, ← List.reverse_append, ← putU32_halves]

theorem putU64_swap64 (t : UInt64) : putU64 (swap64 t) = (putU64 t).reverse := by
  rw [swap64, putU64_join, putU32_swap32, putU32_swap32, ← List.reverse_append, ← putU64_halves]

/-- What the bytes of an integer are turned into by the machine and by `swap`. -/
theorem arrange_arrange (h : Host) (l : Bytes) : h.arrange (h.arrange l) = l := by
  cases h with
  | little => exact List.reverse_reverse l
  | big => rfl

theorem putU16_hton16 (h : Host) (x : UInt16) : putU16 (h.hton16 x) = h.arrange (putU16 x) := by
  cases h with
  | little => exact putU16_swap16 x
  | big => rfl

theorem putU32_hton32 (h : Host) (x : UInt32) : putU32 (h.hton32 x) = h.arrange (putU32 x) := by
  cases h with
  | little => exact putU32_swap32 x
  | big => rfl

theorem putU64_hton64 (h : Host) (x : UInt64) : putU64 (h.hton64 x) = h.arrange (putU64 x) := by
  cases h with
  | little => exact putU64_swap64 x
  | big => rfl

theorem length_arrange (h : Host) (l : Bytes) : (h.arrange l).length = l.length := by
  cases h with
  | little => exact List.length_reverse
  | big => rfl

theorem putU16_injective {x y : UInt16} (h : putU16 x = putU16 y) : x = y := by
  have hx := getU16_putU16 x []
  rw [h, getU16_putU16] at hx
  exact hx.symm

theorem putU32_injective {x y : UInt32} (h : putU32 x = putU32 y) : x = y := by
  have hx := getU32_putU32 x []
  rw [h, getU32_putU32] at hx
  exact hx.symm

theorem putU64_injective {x y : UInt64} (h : putU64 x = putU64 y) : x = y := by
  have hx := getU64_putU64 x []
  rw [h, getU64_putU64] at hx
  exact hx.symm

end EndianLemmas

open EndianLemmas

namespace Host

variable (h : Host)

@[simp] theorem encodeUInt8_eq (x : UInt8) : h.encodeUInt8 x = putU8 x := by
  show [x] = [UInt8.ofNat x.toNat]
  rw [UInt8.ofNat_toNat]

@[simp] theorem encodeUInt16_eq (x : UInt16) : h.encodeUInt16 x = putU16 x := by
  rw [encodeUInt16, putU16_hton16, arrange_arrange]

@[simp] theorem encodeUInt32_eq (x : UInt32) : h.encodeUInt32 x = putU32 x := by
  rw [encodeUInt32, putU32_hton32, arrange_arrange]

@[simp] theorem encodeUInt64_eq (x : UInt64) : h.encodeUInt64 x = putU64 x := by
  rw [encodeUInt64, putU64_hton64, arrange_arrange]

variable {buf : Bytes}

theorem decodeUInt8_eq (hlen : 1 ≤ buf.length) : h.decodeUInt8 buf = getU8 buf := by
  cases buf with
  | nil => exact absurd hlen (by decide)
  | cons b rest =>
    show b = UInt8.ofNat (0 * 256 + b.toNat)
    rw [Nat.zero_mul, Nat.zero_add, UInt8.ofNat_toNat]

theorem decodeUInt16_eq (hlen : 2 ≤ buf.length) : h.decodeUInt16 buf = getU16 buf := by
  have htake : (h.arrange (buf.take 2)).length = 2 := by
    rw [length_arrange, List.length_take_of_le hlen]
  apply putU16_injective
  rw [decodeUInt16, putU16_hton16, putU16_getU16 htake.ge, putU16_getU16 hlen,
    List.take_of_length_le htake.le, arrange_arrange]

theorem decodeUInt32_eq (hlen : 4 ≤ buf.length) : h.decodeUInt32 buf = getU32 buf := by
  have htake : (h.arrange (buf.take 4)).length = 4 := by
    rw [length_arrange, List.length_take_of_le hlen]
  apply putU32_injective
  rw [decodeUInt32, putU32_hton32, putU32_getU32 htake.ge, putU32_getU32 hlen,
    List.take_of_length_le htake.le, arrange_arrange]

theorem decodeUInt64_eq (hlen : 8 ≤ buf.length) : h.decodeUInt64 buf = getU64 buf := by
  have htake : (h.arrange (buf.take 8)).length = 8 := by
    rw [length_arrange, List.length_take_of_le hlen]
  apply putU64_injective
  rw [decodeUInt64, putU64_hton64, putU64_getU64 htake.ge, putU64_getU64 hlen,
    List.take_of_length_le htake.le, arrange_arrange]

/-! ## Fixed bodies -/

/-- `decode_fixed` of the class that belongs to the choice, on this machine. -/
def decodeFixed (buf : Bytes) : Choice → Pdu
  | .getReq =>
    .get (h.decodeUInt32 buf) (h.decodeUInt32 (buf.drop 4)) (h.decodeUInt16 (buf.drop 8))
  | .getTouchReq =>
    .getTouch (h.decodeUInt32 buf) (h.decodeUInt32 (buf.drop 4)) (h.decodeUInt32 (buf.drop 8))
      (h.decodeUInt16 (buf.drop 12))
  | .getBaseReq => .getBase (h.decodeUInt32 buf) (h.decodeUInt16 (buf.drop 4))
  | .updateReq =>
    let opFlag := h.decodeUInt8 buf; let buf := buf.drop 1
    let cacheId := h.decodeUInt64 buf; let buf := buf.drop 8
    let groupId := h.decodeUInt32 buf; let buf := buf.drop 4
    let flags := h.decodeUInt32 buf; let buf := buf.drop 4
    let expiration := h.decodeUInt32 buf; let buf := buf.drop 4
    let watchId := h.decodeUInt32 buf; let buf := buf.drop 4
    let keyLength := h.decodeUInt16 buf; let buf := buf.drop 2
    .update opFlag cacheId groupId flags expiration watchId keyLength (h.decodeUInt32 buf)
  | .updateFlagsReq =>
    let opFlag := h.decodeUInt8 buf; let buf := buf.drop 1
    let cacheId := h.decodeUInt64 buf; let buf := buf.drop 8
    let groupId := h.decodeUInt32 buf; let buf := buf.drop 4
    let flags := h.decodeUInt32 buf; let buf := buf.drop 4
    .updateFlags opFlag cacheId groupId flags (h.decodeUInt16 buf)
  | .updateExpirationReq =>
    let opFlag := h.decodeUInt8 buf; let buf := buf.drop 1
    let cacheId := h.decodeUInt64 buf; let buf := buf.drop 8
    let groupId := h.decodeUInt32 buf; let buf := buf.drop 4
    let expiration := h.decodeUInt32 buf; let buf := buf.drop 4
    .updateExpiration opFlag cacheId groupId expiration (h.decodeUInt16 buf)
  | .deleteReq =>
    let opFlag := h.decodeUInt8 buf; let buf := buf.drop 1
    let cacheId := h.decodeUInt64 buf; let buf := buf.drop 8
    let groupId := h.decodeUInt32 buf; let buf := buf.drop 4
    .delete opFlag cacheId groupId (h.decodeUInt16 buf)
  | .deltaReq =>
    let opFlag := h.decodeUInt8 buf; let buf := buf.drop 1
    let cacheId := h.decodeUInt64 buf; let buf := buf.drop 8
    let groupId := h.decodeUInt32 buf; let buf := buf.drop 4
    let delta := h.decodeUInt64 buf; let buf := buf.drop 8
    .delta opFlag cacheId groupId delta.toInt64 (h.decodeUInt16 buf)
  | .flushReq => .flush (h.decodeUInt32 buf)
  | .authReq => .auth (h.decodeUInt32 buf)
  | .statsReq =>
    .stats (h.decodeUInt8 buf) (h.decodeUInt8 (buf.drop 1)) (h.decodeUInt32 (buf.drop 2))
  | .createWatchReq => .createWatch (h.decodeUInt32 buf) (h.decodeUInt32 (buf.drop 4))
  | .checkWatchReq =>
    .checkWatch (h.decodeUInt32 buf) (h.decodeUInt32 (buf.drop 4)) (h.decodeUInt32 (buf.drop 8))
      (h.decodeUInt32 (buf.drop 12)) (h.decodeUInt32 (buf.drop 16))
  | .helloReq => .hello

/-- The fixed body is the same on either machine. -/
theorem decodeFixed_eq {choice : Choice} (hlen : choice.fixedBodySize ≤ buf.length) :
    h.decodeFixed buf choice = PeerCache.decodeFixed buf choice := by
  have hd (i : Nat) (l : Bytes) : (l.drop i).length = l.length - i := List.length_drop
  cases choice <;> simp only [Choice.fixedBodySize] at hlen <;>
    simp (disch := first | omega | simp only [hd]; omega) only [decodeFixed, PeerCache.decodeFixed,
      decodeUInt8_eq, decodeUInt16_eq, decodeUInt32_eq, decodeUInt64_eq, List.drop_drop]

/-- A request at the front of `bytes`: the header, the fixed body, the key and the data, and what
stands behind them; `none` while it is not all there. -/
def readRequest (bytes : Bytes) : Option (Pdu × Bytes × Bytes × Bytes) := do
  if bytes.length < headLength then none else
  let choice ← Choice.ofCode (h.decodeUInt16 bytes)
  let body := bytes.drop headLength
  if body.length < choice.fixedBodySize then none else
  let pdu := h.decodeFixed body choice
  let extras := body.drop choice.fixedBodySize
  if extras.length < pdu.extrasLength then none else
  let own := extras.take pdu.extrasLength
  some (pdu, own.take pdu.keyLength, own.drop pdu.keyLength, extras.drop pdu.extrasLength)

/-- A request is read as it was encoded. -/
theorem readRequest_encode (r : Request) (rest : Bytes) :
    h.readRequest (r.encode ++ rest) =
      some (r.pdu, r.extras.take r.pdu.keyLength, r.extras.drop r.pdu.keyLength, rest) := by
  have hbytes : r.encode ++ rest =
      putU16 r.pdu.choice.code ++ (r.pdu.fixedBody ++ (r.extras ++ rest)) := by
    rw [Request.encode, Request.header, List.append_assoc, List.append_assoc]
  have hhead : ¬ (r.encode ++ rest).length < headLength := by
    rw [hbytes, List.length_append, length_putU16, headLength]
    exact Nat.not_lt.mpr (Nat.le_add_right _ _)
  have hcode : h.decodeUInt16 (r.encode ++ rest) = r.pdu.choice.code := by
    rw [decodeUInt16_eq h (Nat.le_of_not_lt hhead), hbytes, getU16_putU16]
  have hbody : (r.encode ++ rest).drop headLength = r.pdu.fixedBody ++ (r.extras ++ rest) := by
    rw [hbytes]
    exact drop_putU16 _ _
  have hfixed : ¬ (r.pdu.fixedBody ++ (r.extras ++ rest)).length < r.pdu.choice.fixedBodySize := by
    rw [List.length_append, Pdu.length_fixedBody]
    exact Nat.not_lt.mpr (Nat.le_add_right _ _)
  have hpdu : h.decodeFixed (r.pdu.fixedBody ++ (r.extras ++ rest)) r.pdu.choice = r.pdu := by
    rw [decodeFixed_eq h (Nat.le_of_not_lt hfixed), Pdu.decodeFixed_fixedBody]
  have hextras : (r.pdu.fixedBody ++ (r.extras ++ rest)).drop r.pdu.choice.fixedBodySize =
      r.extras ++ rest := List.drop_left' (Pdu.length_fixedBody _)
  have hall : ¬ (r.extras ++ rest).length < r.pdu.extrasLength := by
    rw [List.length_append, r.length_extras]
    exact Nat.not_lt.mpr (Nat.le_add_right _ _)
  have hown : (r.extras ++ rest).take r.pdu.extrasLength = r.extras := List.take_left' r.length_extras
  have hrest : (r.extras ++ rest).drop r.pdu.extrasLength = rest := List.drop_left' r.length_extras
  simp only [readRequest, if_neg hhead, hcode, Choice.ofCode_code, hbody, if_neg hfixed, hpdu,
    hextras, if_neg hall, hown, hrest, Option.bind_eq_bind, Option.bind_some]

end Host
end Xixi.PeerCache
