import Mathlib.Tactic.IntervalCases
import Xixi.Lib.Absorb
import Xixi.Item
import Xixi.Peer.Endian

/-!
# The hash of a key (`lookup3.cpp`)

`hash32` is `hashlittle` on little-endian machines and `hashbig` on the others. Where the machine is
known to read words the way the function wants them, an aligned key is read in words of 32 or 16
bits, and the last one may reach beyond the key; otherwise the key is read one byte at a time.

1. `hashword`, `hashlittle`, `hashbig` and their siblings, on a memory.
2. `hash_eq_digest`: on every machine and at every address they compute `digest`, a function of the
   bytes of the key. `hash32_eq`: so the cache may take `hash32` for one.
3. `hashword_eq`: the function for words agrees with those for bytes, and the functions with two
   results with those with one.
4. `mix_bijective`, `final_bijective`, `digest_cancel`: nothing that went into `a`, `b` and `c` is
   lost before `c` is reported.
-/

namespace Xixi.Lookup3
open Lib PeerCache

/-- `a`, `b` and `c`. -/
structure State where
  a : UInt32
  b : UInt32
  c : UInt32
deriving DecidableEq, Repr

def rot (x k : UInt32) : UInt32 := (x <<< k) ||| (x >>> (32 - k))

def mix (s : State) : State :=
  let ⟨a, b, c⟩ := s
  let a := a - c; let a := a ^^^ rot c 4; let c := c + b
  let b := b - a; let b := b ^^^ rot a 6; let a := a + c
  let c := c - b; let c := c ^^^ rot b 8; let b := b + a
  let a := a - c; let a := a ^^^ rot c 16; let c := c + b
  let b := b - a; let b := b ^^^ rot a 19; let a := a + c
  let c := c - b; let c := c ^^^ rot b 4; let b := b + a
  ⟨a, b, c⟩

def final (s : State) : State :=
  let ⟨a, b, c⟩ := s
  let c := c ^^^ b; let c := c - rot b 14
  let a := a ^^^ c; let a := a - rot c 11
  let b := b ^^^ a; let b := b - rot a 25
  let c := c ^^^ b; let c := c - rot b 16
  let a := a ^^^ c; let a := a - rot c 4
  let b := b ^^^ a; let b := b - rot a 14
  let c := c ^^^ b; let c := c - rot b 24
  ⟨a, b, c⟩

/-! ## Keys of words -/

/-- `while (length > 3)`. -/
def hashwordLoop : List UInt32 → State → List UInt32 × State
  | k0 :: k1 :: k2 :: k3 :: k, s => hashwordLoop (k3 :: k) (mix ⟨s.a + k0, s.b + k1, s.c + k2⟩)
  | k, s => (k, s)

/-- `switch (length)`. -/
def hashwordLast : List UInt32 → State → State
  | [k0, k1, k2], s => final ⟨s.a + k0, s.b + k1, s.c + k2⟩
  | [k0, k1], s => final ⟨s.a + k0, s.b + k1, s.c⟩
  | [k0], s => final ⟨s.a + k0, s.b, s.c⟩
  | _, s => s

def hashwordState (k : List UInt32) (s : State) : State :=
  let (k, s) := hashwordLoop k s
  hashwordLast k s

def hashword (k : List UInt32) (initval : UInt32) : UInt32 :=
  let c := (0xdeadbeef : UInt32) + (UInt32.ofNat k.length <<< 2) + initval
  (hashwordState k ⟨c, c, c⟩).c

/-- The results are `*pc` and `*pb`. -/
def hashword2 (k : List UInt32) (pc pb : UInt32) : UInt32 × UInt32 :=
  let c := (0xdeadbeef : UInt32) + UInt32.ofNat (k.length <<< 2) + pc
  let s := hashwordState k ⟨c, c, c + pb⟩
  (s.c, s.b)

/-! ## Keys of bytes -/

def byte (m : List UInt8) (i : Nat) : UInt32 := (m.getD i 0).toUInt32

/-- The integer that four bytes in memory are. -/
def word (m : List UInt8) : Host → UInt32
  | .little => byte m 0 + (byte m 1 <<< 8) + (byte m 2 <<< 16) + (byte m 3 <<< 24)
  | .big => (byte m 0 <<< 24) + (byte m 1 <<< 16) + (byte m 2 <<< 8) + byte m 3

section Reads

variable (h : Host) (mem : Nat → UInt8) (k : Nat)

/-- `((const uint32_t*)k)[i]`. -/
def load32 (i : Nat) : UInt32 := word (slice mem (k + 4 * i) 4) h

/-- `((const uint16_t*)k)[i]`, as it is used in an expression. -/
def load16 (i : Nat) : UInt32 :=
  let b0 := mem (k + 2 * i)
  let b1 := mem (k + 2 * i + 1)
  match h with
  | .little => (b0.toUInt16 + (b1.toUInt16 <<< 8)).toUInt32
  | .big => ((b0.toUInt16 <<< 8) + b1.toUInt16).toUInt32

/-- `((const uint8_t*)k)[i]`. -/
def load8 (i : Nat) : UInt32 := (mem (k + i)).toUInt32

/-- `while (length > 12)`: `take` adds the next 12 bytes. -/
def blocks (take : Nat → State → State) : Nat → Nat → State → Nat × Nat × State
  | length + 13, k, s => blocks take (length + 1) (k + 12) (mix (take k s))
  | length, k, s => (length, k, s)

def takeWords (s : State) : State :=
  ⟨s.a + load32 h mem k 0, s.b + load32 h mem k 1, s.c + load32 h mem k 2⟩

def takeHalves (s : State) : State :=
  ⟨s.a + (load16 h mem k 0 + (load16 h mem k 1 <<< 16)),
   s.b + (load16 h mem k 2 + (load16 h mem k 3 <<< 16)),
   s.c + (load16 h mem k 4 + (load16 h mem k 5 <<< 16))⟩

def takeBytesLittle (s : State) : State :=
  ⟨s.a + load8 mem k 0 + (load8 mem k 1 <<< 8) + (load8 mem k 2 <<< 16) + (load8 mem k 3 <<< 24),
   s.b + load8 mem k 4 + (load8 mem k 5 <<< 8) + (load8 mem k 6 <<< 16) + (load8 mem k 7 <<< 24),
   s.c + load8 mem k 8 + (load8 mem k 9 <<< 8) + (load8 mem k 10 <<< 16) + (load8 mem k 11 <<< 24)⟩

def takeBytesBig (s : State) : State :=
  ⟨s.a + (load8 mem k 0 <<< 24) + (load8 mem k 1 <<< 16) + (load8 mem k 2 <<< 8) + load8 mem k 3,
   s.b + (load8 mem k 4 <<< 24) + (load8 mem k 5 <<< 16) + (load8 mem k 6 <<< 8) + load8 mem k 7,
   s.c + (load8 mem k 8 <<< 24) + (load8 mem k 9 <<< 16) + (load8 mem k 10 <<< 8) + load8 mem k 11⟩

/-- The last block in words; what is beyond the key is masked off. `none` is `return c`. -/
def lastWordsLittle (s : State) : Nat → Option State
  | 12 => some ⟨s.a + load32 h mem k 0, s.b + load32 h mem k 1, s.c + load32 h mem k 2⟩
  | 11 => some ⟨s.a + load32 h mem k 0, s.b + load32 h mem k 1,
      s.c + (load32 h mem k 2 &&& (0xffffff : UInt32))⟩
  | 10 => some ⟨s.a + load32 h mem k 0, s.b + load32 h mem k 1,
      s.c + (load32 h mem k 2 &&& (0xffff : UInt32))⟩
  | 9 => some ⟨s.a + load32 h mem k 0, s.b + load32 h mem k 1,
      s.c + (load32 h mem k 2 &&& (0xff : UInt32))⟩
  | 8 => some ⟨s.a + load32 h mem k 0, s.b + load32 h mem k 1, s.c⟩
  | 7 => some ⟨s.a + load32 h mem k 0, s.b + (load32 h mem k 1 &&& (0xffffff : UInt32)), s.c⟩
  | 6 => some ⟨s.a + load32 h mem k 0, s.b + (load32 h mem k 1 &&& (0xffff : UInt32)), s.c⟩
  | 5 => some ⟨s.a + load32 h mem k 0, s.b + (load32 h mem k 1 &&& (0xff : UInt32)), s.c⟩
  | 4 => some ⟨s.a + load32 h mem k 0, s.b, s.c⟩
  | 3 => some ⟨s.a + (load32 h mem k 0 &&& (0xffffff : UInt32)), s.b, s.c⟩
  | 2 => some ⟨s.a + (load32 h mem k 0 &&& (0xffff : UInt32)), s.b, s.c⟩
  | 1 => some ⟨s.a + (load32 h mem k 0 &&& (0xff : UInt32)), s.b, s.c⟩
  | 0 => none
  | _ => some s

def lastWordsBig (s : State) : Nat → Option State
  | 12 => some ⟨s.a + load32 h mem k 0, s.b + load32 h mem k 1, s.c + load32 h mem k 2⟩
  | 11 => some ⟨s.a + load32 h mem k 0, s.b + load32 h mem k 1,
      s.c + (load32 h mem k 2 &&& (0xffffff00 : UInt32))⟩
  | 10 => some ⟨s.a + load32 h mem k 0, s.b + load32 h mem k 1,
      s.c + (load32 h mem k 2 &&& (0xffff0000 : UInt32))⟩
  | 9 => some ⟨s.a + load32 h mem k 0, s.b + load32 h mem k 1,
      s.c + (load32 h mem k 2 &&& (0xff000000 : UInt32))⟩
  | 8 => some ⟨s.a + load32 h mem k 0, s.b + load32 h mem k 1, s.c⟩
  | 7 => some ⟨s.a + load32 h mem k 0, s.b + (load32 h mem k 1 &&& (0xffffff00 : UInt32)), s.c⟩
  | 6 => some ⟨s.a + load32 h mem k 0, s.b + (load32 h mem k 1 &&& (0xffff0000 : UInt32)), s.c⟩
  | 5 => some ⟨s.a + load32 h mem k 0, s.b + (load32 h mem k 1 &&& (0xff000000 : UInt32)), s.c⟩
  | 4 => some ⟨s.a + load32 h mem k 0, s.b, s.c⟩
  | 3 => some ⟨s.a + (load32 h mem k 0 &&& (0xffffff00 : UInt32)), s.b, s.c⟩
  | 2 => some ⟨s.a + (load32 h mem k 0 &&& (0xffff0000 : UInt32)), s.b, s.c⟩
  | 1 => some ⟨s.a + (load32 h mem k 0 &&& (0xff000000 : UInt32)), s.b, s.c⟩
  | 0 => none
  | _ => some s

/-- The last block in words of 16 bits, with the cases that fall through written out. -/
def lastHalves (s : State) : Nat → Option State
  | 12 => some ⟨s.a + (load16 h mem k 0 + (load16 h mem k 1 <<< 16)),
      s.b + (load16 h mem k 2 + (load16 h mem k 3 <<< 16)),
      s.c + (load16 h mem k 4 + (load16 h mem k 5 <<< 16))⟩
  | 11 => some ⟨s.a + (load16 h mem k 0 + (load16 h mem k 1 <<< 16)),
      s.b + (load16 h mem k 2 + (load16 h mem k 3 <<< 16)),
      s.c + (load8 mem k 10 <<< 16) + load16 h mem k 4⟩
  | 10 => some ⟨s.a + (load16 h mem k 0 + (load16 h mem k 1 <<< 16)),
      s.b + (load16 h mem k 2 + (load16 h mem k 3 <<< 16)), s.c + load16 h mem k 4⟩
  | 9 => some ⟨s.a + (load16 h mem k 0 + (load16 h mem k 1 <<< 16)),
      s.b + (load16 h mem k 2 + (load16 h mem k 3 <<< 16)), s.c + load8 mem k 8⟩
  | 8 => some ⟨s.a + (load16 h mem k 0 + (load16 h mem k 1 <<< 16)),
      s.b + (load16 h mem k 2 + (load16 h mem k 3 <<< 16)), s.c⟩
  | 7 => some ⟨s.a + (load16 h mem k 0 + (load16 h mem k 1 <<< 16)),
      s.b + (load8 mem k 6 <<< 16) + load16 h mem k 2, s.c⟩
  | 6 => some ⟨s.a + (load16 h mem k 0 + (load16 h mem k 1 <<< 16)), s.b + load16 h mem k 2, s.c⟩
  | 5 => some ⟨s.a + (load16 h mem k 0 + (load16 h mem k 1 <<< 16)), s.b + load8 mem k 4, s.c⟩
  | 4 => some ⟨s.a + (load16 h mem k 0 + (load16 h mem k 1 <<< 16)), s.b, s.c⟩
  | 3 => some ⟨s.a + (load8 mem k 2 <<< 16) + load16 h mem k 0, s.b, s.c⟩
  | 2 => some ⟨s.a + load16 h mem k 0, s.b, s.c⟩
  | 1 => some ⟨s.a + load8 mem k 0, s.b, s.c⟩
  | 0 => none
  | _ => some s

/-- `case i + 1` of the last block in bytes. -/
def caseLittle (s : State) : Nat → State
  | 11 => { s with c := s.c + (load8 mem k 11 <<< 24) }
  | 10 => { s with c := s.c + (load8 mem k 10 <<< 16) }
  | 9 => { s with c := s.c + (load8 mem k 9 <<< 8) }
  | 8 => { s with c := s.c + load8 mem k 8 }
  | 7 => { s with b := s.b + (load8 mem k 7 <<< 24) }
  | 6 => { s with b := s.b + (load8 mem k 6 <<< 16) }
  | 5 => { s with b := s.b + (load8 mem k 5 <<< 8) }
  | 4 => { s with b := s.b + load8 mem k 4 }
  | 3 => { s with a := s.a + (load8 mem k 3 <<< 24) }
  | 2 => { s with a := s.a + (load8 mem k 2 <<< 16) }
  | 1 => { s with a := s.a + (load8 mem k 1 <<< 8) }
  | 0 => { s with a := s.a + load8 mem k 0 }
  | _ => s

def caseBig (s : State) : Nat → State
  | 11 => { s with c := s.c + load8 mem k 11 }
  | 10 => { s with c := s.c + (load8 mem k 10 <<< 8) }
  | 9 => { s with c := s.c + (load8 mem k 9 <<< 16) }
  | 8 => { s with c := s.c + (load8 mem k 8 <<< 24) }
  | 7 => { s with b := s.b + load8 mem k 7 }
  | 6 => { s with b := s.b + (load8 mem k 6 <<< 8) }
  | 5 => { s with b := s.b + (load8 mem k 5 <<< 16) }
  | 4 => { s with b := s.b + (load8 mem k 4 <<< 24) }
  | 3 => { s with a := s.a + load8 mem k 3 }
  | 2 => { s with a := s.a + (load8 mem k 2 <<< 8) }
  | 1 => { s with a := s.a + (load8 mem k 1 <<< 16) }
  | 0 => { s with a := s.a + (load8 mem k 0 <<< 24) }
  | _ => s

/-- All the cases fall through. -/
def fallThrough (case : State → Nat → State) : Nat → State → State
  | 0, s => s
  | n + 1, s => fallThrough case n (case s n)

def lastBytes (case : State → Nat → State) (s : State) (length : Nat) : Option State :=
  if length = 0 then none else some (fallThrough case length s)

end Reads

/-- One of the ways to read the key. -/
def read (take : Nat → State → State) (last : Nat → State → Nat → Option State)
    (key length : Nat) (s : State) : State :=
  let (length, k, s) := blocks take length key s
  (last k s length).elim s final

/-- A machine: how it stores integers, and whether the macros have found it out. -/
structure Machine where
  host : Host
  known : Bool

section Functions

variable (m : Machine) (mem : Nat → UInt8) (key length : Nat)

/-- `hashlittle` and `hashlittle2` without their first and their last lines. -/
def littleState (s : State) : State :=
  if m.known ∧ m.host = .little ∧ key &&& 0x3 = 0 then
    read (takeWords m.host mem) (lastWordsLittle m.host mem) key length s
  else if m.known ∧ m.host = .little ∧ key &&& 0x1 = 0 then
    read (takeHalves m.host mem) (lastHalves m.host mem) key length s
  else read (takeBytesLittle mem) (fun k => lastBytes (caseLittle mem k)) key length s

def bigState (s : State) : State :=
  if m.known ∧ m.host = .big ∧ key &&& 0x3 = 0 then
    read (takeWords m.host mem) (lastWordsBig m.host mem) key length s
  else read (takeBytesBig mem) (fun k => lastBytes (caseBig mem k)) key length s

def hashlittle (initval : UInt32) : UInt32 :=
  let c := (0xdeadbeef : UInt32) + UInt32.ofNat length + initval
  (littleState m mem key length ⟨c, c, c⟩).c

/-- The results are `*pc` and `*pb`. -/
def hashlittle2 (pc pb : UInt32) : UInt32 × UInt32 :=
  let c := (0xdeadbeef : UInt32) + UInt32.ofNat length + pc
  let s := littleState m mem key length ⟨c, c, c + pb⟩
  (s.c, s.b)

def hashbig (initval : UInt32) : UInt32 :=
  let c := (0xdeadbeef : UInt32) + UInt32.ofNat length + initval
  (bigState m mem key length ⟨c, c, c⟩).c

end Functions

/-! ## The bytes of the key -/

/-- A block is added; what is missing of a short one counts as zeros. -/
def addBlock (h : Host) (s : State) (block : List UInt8) : State :=
  ⟨s.a + word block h, s.b + word (block.drop 4) h, s.c + word (block.drop 8) h⟩

/-- What is done to `a`, `b` and `c`, as a function of the bytes of the key. -/
def digest (h : Host) (s : State) (key : List UInt8) : State :=
  let r := absorb 12 (fun s block => mix (addBlock h s block)) s key
  if r.2 = [] then r.1 else final (addBlock h r.1 r.2)

namespace HashLemmas

variable {h : Host} {mem : Nat → UInt8} {k n : Nat} {s : State}

/-! ### Words and bytes -/

theorem toNat_load8_lt (i : Nat) : (load8 mem k i).toNat < 256 := by
  rw [load8, UInt8.toNat_toUInt32]
  exact UInt8.toNat_lt _

theorem byte_slice (n i : Nat) : byte (slice mem k n) i = if i < n then load8 mem k i else 0 := by
  rw [byte, slice, List.getD_eq_getElem?_getD, List.getElem?_map]
  split
  next hi => rw [List.getElem?_range hi]; rfl
  next hi => rw [List.getElem?_eq_none (by rw [List.length_range]; exact Nat.le_of_not_lt hi)]; rfl

theorem byte_drop (m : List UInt8) (j i : Nat) : byte (m.drop j) i = byte m (j + i) := by
  rw [byte, byte, List.getD_eq_getElem?_getD, List.getElem?_drop, ← List.getD_eq_getElem?_getD]

theorem load32_little (i : Nat) : load32 .little mem k i =
    load8 mem k (4 * i) + (load8 mem k (4 * i + 1) <<< 8) + (load8 mem k (4 * i + 2) <<< 16) +
      (load8 mem k (4 * i + 3) <<< 24) := by
  simp [load32, word, byte_slice, load8, Nat.add_assoc]

theorem load32_big (i : Nat) : load32 .big mem k i =
    (load8 mem k (4 * i) <<< 24) + (load8 mem k (4 * i + 1) <<< 16) +
      (load8 mem k (4 * i + 2) <<< 8) + load8 mem k (4 * i + 3) := by
  simp [load32, word, byte_slice, load8, Nat.add_assoc]

theorem load16_little (i : Nat) : load16 .little mem k i =
    load8 mem k (2 * i) + (load8 mem k (2 * i + 1) <<< 8) := by
  have h0 : (load8 mem k (2 * i)).toNat < 256 := toNat_load8_lt _
  have h1 : (load8 mem k (2 * i + 1)).toNat < 256 := toNat_load8_lt _
  apply UInt32.toNat.inj
  simp only [load16, load8, UInt8.toNat_toUInt32] at *
  simp [UInt32.toNat_shiftLeft, Nat.shiftLeft_eq, Nat.add_assoc] at *
  omega

/-! ### Masks -/

theorem toNat_low {mask : UInt32} (hmask : mask.toNat = 2 ^ n - 1) (x : UInt32) :
    (x &&& mask).toNat = x.toNat % 2 ^ n := by
  rw [UInt32.toNat_and, hmask, Nat.and_two_pow_sub_one_eq_mod]

theorem toNat_high {mask : UInt32} (hmask : mask.toNat = 2 ^ 32 - 2 ^ n) (hn : n ≤ 32)
    (x : UInt32) : (x &&& mask).toNat = x.toNat / 2 ^ n * 2 ^ n := by
  have hsplit : 2 ^ 32 - 2 ^ n = (2 ^ (32 - n) - 1) <<< n := by
    rw [Nat.shiftLeft_eq, Nat.sub_mul, ← Nat.pow_add, Nat.sub_add_cancel hn, Nat.one_mul]
  rw [UInt32.toNat_and, hmask, hsplit, ← Nat.shiftRight_eq_div_pow, ← Nat.shiftLeft_eq]
  refine Nat.eq_of_testBit_eq fun i => ?_
  rw [Nat.testBit_and, Nat.testBit_shiftLeft, Nat.testBit_shiftLeft, Nat.testBit_shiftRight,
    Nat.testBit_two_pow_sub_one]
  by_cases hi : n ≤ i
  · rw [Nat.add_sub_cancel' hi]
    by_cases hi' : i < 32
    · have hlt : i - n < 32 - n := Nat.sub_lt_sub_right hi hi'
      simp [hi, hlt]
    · have hx : x.toNat.testBit i = false :=
        Nat.testBit_lt_two_pow (Nat.lt_of_lt_of_le x.toNat_lt (Nat.pow_le_pow_right (by decide)
          (Nat.le_of_not_lt hi')))
      rw [hx, Bool.false_and, Bool.and_false]
  · simp [hi]

variable {b0 b1 b2 b3 : UInt32}

theorem little_low (h0 : b0.toNat < 256) (h1 : b1.toNat < 256) (h2 : b2.toNat < 256)
    (h3 : b3.toNat < 256) :
    let w := b0 + (b1 <<< 8) + (b2 <<< 16) + (b3 <<< 24)
    w &&& (0xff : UInt32) = b0 ∧ w &&& (0xffff : UInt32) = b0 + (b1 <<< 8) ∧
      w &&& (0xffffff : UInt32) = b0 + (b1 <<< 8) + (b2 <<< 16) := by
  intro w
  have hw : w.toNat = b0.toNat + b1.toNat * 2 ^ 8 + b2.toNat * 2 ^ 16 + b3.toNat * 2 ^ 24 := by
    simp [w, UInt32.toNat_shiftLeft, Nat.shiftLeft_eq]
    omega
  refine ⟨?_, ?_, ?_⟩
  · apply UInt32.toNat.inj
    rw [toNat_low (n := 8) rfl, hw]
    omega
  · apply UInt32.toNat.inj
    rw [toNat_low (n := 16) rfl, hw]
    simp [UInt32.toNat_shiftLeft, Nat.shiftLeft_eq]
    omega
  · apply UInt32.toNat.inj
    rw [toNat_low (n := 24) rfl, hw]
    simp [UInt32.toNat_shiftLeft, Nat.shiftLeft_eq]
    omega

theorem big_high (h0 : b0.toNat < 256) (h1 : b1.toNat < 256) (h2 : b2.toNat < 256)
    (h3 : b3.toNat < 256) :
    let w := (b0 <<< 24) + (b1 <<< 16) + (b2 <<< 8) + b3
    w &&& (0xff000000 : UInt32) = b0 <<< 24 ∧
      w &&& (0xffff0000 : UInt32) = (b0 <<< 24) + (b1 <<< 16) ∧
      w &&& (0xffffff00 : UInt32) = (b0 <<< 24) + (b1 <<< 16) + (b2 <<< 8) := by
  intro w
  have hw : w.toNat = b0.toNat * 2 ^ 24 + b1.toNat * 2 ^ 16 + b2.toNat * 2 ^ 8 + b3.toNat := by
    simp [w, UInt32.toNat_shiftLeft, Nat.shiftLeft_eq]
    omega
  refine ⟨?_, ?_, ?_⟩
  · apply UInt32.toNat.inj
    rw [toNat_high (n := 24) rfl (by decide), hw]
    simp [UInt32.toNat_shiftLeft, Nat.shiftLeft_eq]
    omega
  · apply UInt32.toNat.inj
    rw [toNat_high (n := 16) rfl (by decide), hw]
    simp [UInt32.toNat_shiftLeft, Nat.shiftLeft_eq]
    omega
  · apply UInt32.toNat.inj
    rw [toNat_high (n := 8) rfl (by decide), hw]
    simp [UInt32.toNat_shiftLeft, Nat.shiftLeft_eq]
    omega


/-! ### One block -/

theorem caseLittle_step (hn : n < 12) : addBlock .little (caseLittle mem k s n) (slice mem k n) =
    addBlock .little s (slice mem k (n + 1)) := by
  interval_cases n <;>
    simp [caseLittle, addBlock, word, byte_drop, byte_slice, UInt32.add_assoc] <;>
    rw [UInt32.add_comm] <;> simp only [UInt32.add_assoc]

theorem caseBig_step (hn : n < 12) : addBlock .big (caseBig mem k s n) (slice mem k n) =
    addBlock .big s (slice mem k (n + 1)) := by
  interval_cases n <;>
    simp [caseBig, addBlock, word, byte_drop, byte_slice, UInt32.add_assoc] <;>
    rw [UInt32.add_comm] <;> simp only [UInt32.add_assoc]

theorem addBlock_nil (h : Host) (s : State) : addBlock h s [] = s := by
  cases h <;> simp [addBlock, word, byte]

theorem fallThrough_eq {case : State → Nat → State}
    (hcase : ∀ {s n}, n < 12 →
      addBlock h (case s n) (slice mem k n) = addBlock h s (slice mem k (n + 1)))
    (hn : n ≤ 12) : fallThrough case n s = addBlock h s (slice mem k n) := by
  induction n generalizing s with
  | zero => exact (addBlock_nil h s).symm
  | succ n ih => rw [fallThrough, ih (Nat.le_of_succ_le hn), hcase hn]

theorem lastWordsLittle_eq (hn : n ≤ 12) : lastWordsLittle .little mem k s n =
    if n = 0 then none else some (addBlock .little s (slice mem k n)) := by
  interval_cases n <;>
    simp [lastWordsLittle, load32_little, little_low, addBlock, word, byte_drop, byte_slice,
      toNat_load8_lt]

theorem lastWordsBig_eq (hn : n ≤ 12) : lastWordsBig .big mem k s n =
    if n = 0 then none else some (addBlock .big s (slice mem k n)) := by
  interval_cases n <;>
    simp [lastWordsBig, load32_big, big_high, addBlock, word, byte_drop, byte_slice, toNat_load8_lt]

theorem add_shiftLeft_16 (x y : UInt32) : (x + (y <<< 8)) <<< 16 = (x <<< 16) + (y <<< 24) := by
  apply UInt32.toNat.inj
  simp [UInt32.toNat_shiftLeft, Nat.shiftLeft_eq]
  omega

theorem takeHalves_eq : takeHalves .little mem k s = addBlock .little s (slice mem k 12) := by
  simp [takeHalves, load16_little, add_shiftLeft_16, addBlock, word, byte_drop, byte_slice,
    UInt32.add_assoc]

theorem lastHalves_eq (hn : n ≤ 12) : lastHalves .little mem k s n =
    if n = 0 then none else some (addBlock .little s (slice mem k n)) := by
  interval_cases n <;>
    simp [lastHalves, load16_little, add_shiftLeft_16, addBlock, word, byte_drop, byte_slice,
      UInt32.add_assoc] <;>
    rw [UInt32.add_comm] <;> simp only [UInt32.add_assoc]

theorem takeWords_eq (h : Host) : takeWords h mem k s = addBlock h s (slice mem k 12) := by
  cases h <;> simp [takeWords, load32_little, load32_big, addBlock, word, byte_drop, byte_slice]

theorem takeBytesLittle_eq : takeBytesLittle mem k s = addBlock .little s (slice mem k 12) := by
  simp [takeBytesLittle, addBlock, word, byte_drop, byte_slice, UInt32.add_assoc]

theorem takeBytesBig_eq : takeBytesBig mem k s = addBlock .big s (slice mem k 12) := by
  simp [takeBytesBig, addBlock, word, byte_drop, byte_slice, UInt32.add_assoc]


/-! ### The whole key -/

/-- A way to read the key adds the blocks of it. -/
structure Reads (h : Host) (mem : Nat → UInt8) (take : Nat → State → State)
    (last : Nat → State → Nat → Option State) : Prop where
  take : ∀ k s, take k s = addBlock h s (slice mem k 12)
  last : ∀ {k s n}, n ≤ 12 →
    last k s n = if n = 0 then none else some (addBlock h s (slice mem k n))

theorem reads_bytes {case : Nat → State → Nat → State} {take : Nat → State → State}
    (htake : ∀ k s, take k s = addBlock h s (slice mem k 12))
    (hcase : ∀ {k s n}, n < 12 →
      addBlock h (case k s n) (slice mem k n) = addBlock h s (slice mem k (n + 1))) :
    Reads h mem take fun k => lastBytes (case k) := by
  refine ⟨htake, fun {k s n} hn => ?_⟩
  rw [lastBytes, fallThrough_eq hcase hn]

theorem slice_ne_nil (hn : n ≠ 0) : slice mem k n ≠ [] := by
  rw [← List.length_pos_iff, length_slice]
  exact Nat.pos_of_ne_zero hn

theorem blocks_eq {take : Nat → State → State} {f : State → List UInt8 → State}
    (htake : ∀ k s, mix (take k s) = f s (slice mem k 12)) (n k : Nat) (s : State) :
    ∃ n' k' s', blocks take n k s = (n', k', s') ∧ n' ≤ 12 ∧
      absorb 12 f s (slice mem k n) = (s', slice mem k' n') := by
  fun_induction blocks take n k s with
  | case1 n k s ih =>
    obtain ⟨n', k', s', hblocks, hn', habs⟩ := ih
    refine ⟨n', k', s', hblocks, hn', ?_⟩
    have hsplit : slice mem k (n + 13) = slice mem k 12 ++ slice mem (k + 12) (n + 1) := by
      rw [← slice_add, Nat.add_comm 12, Nat.add_assoc]
    calc absorb 12 f s (slice mem k (n + 13))
        = absorb 12 f (f s (slice mem k 12)) (slice mem (k + 12) (n + 1)) := by
          rw [hsplit, absorb_block (length_slice ..) (by decide)
            (slice_ne_nil (Nat.succ_ne_zero n))]
      _ = (s', slice mem k' n') := by rw [← htake, habs]
  | case2 n k s hn =>
    have hle : n ≤ 12 := Nat.le_of_not_lt fun hlt => hn (n - 13) (by omega)
    exact ⟨n, k, s, rfl, hle, absorb_short (by rwa [length_slice])⟩

theorem read_eq {take : Nat → State → State} {last : Nat → State → Nat → Option State}
    (hr : Reads h mem take last) (key length : Nat) (s : State) :
    read take last key length s = digest h s (slice mem key length) := by
  obtain ⟨n, k, s', hblocks, hn, habs⟩ :=
    blocks_eq (f := fun s block => mix (addBlock h s block))
      (fun k s => congrArg mix (hr.take k s)) length key s
  rw [read, hblocks]
  simp only [digest, habs, hr.last hn]
  cases n with
  | zero => rfl
  | succ n =>
    rw [if_neg (Nat.succ_ne_zero n), if_neg (slice_ne_nil (Nat.succ_ne_zero n))]
    rfl


theorem littleState_eq (m : Machine) (mem : Nat → UInt8) (key length : Nat) (s : State) :
    littleState m mem key length s = digest .little s (slice mem key length) := by
  rw [littleState]
  split
  next hm => rw [hm.2.1]; exact read_eq ⟨fun _ _ => takeWords_eq .little, lastWordsLittle_eq⟩ ..
  next =>
    split
    next hm => rw [hm.2.1]; exact read_eq ⟨fun _ _ => takeHalves_eq, lastHalves_eq⟩ ..
    next => exact read_eq (reads_bytes (fun _ _ => takeBytesLittle_eq) caseLittle_step) ..

theorem bigState_eq (m : Machine) (mem : Nat → UInt8) (key length : Nat) (s : State) :
    bigState m mem key length s = digest .big s (slice mem key length) := by
  rw [bigState]
  split
  next hm => rw [hm.2.1]; exact read_eq ⟨fun _ _ => takeWords_eq .big, lastWordsBig_eq⟩ ..
  next => exact read_eq (reads_bytes (fun _ _ => takeBytesBig_eq) caseBig_step) ..

end HashLemmas

open HashLemmas

/-- The state before the first byte. -/
def seed (length : Nat) (pc pb : UInt32) : State :=
  let c := (0xdeadbeef : UInt32) + UInt32.ofNat length + pc
  ⟨c, c, c + pb⟩

namespace HashLemmas

theorem hashlittle_eq (m : Machine) (mem : Nat → UInt8) (key length : Nat) (pc : UInt32) :
    hashlittle m mem key length pc =
      (digest .little (seed length pc 0) (slice mem key length)).c := by
  simp only [hashlittle, littleState_eq, seed, UInt32.add_zero]

theorem hashlittle2_eq (m : Machine) (mem : Nat → UInt8) (key length : Nat) (pc pb : UInt32) :
    hashlittle2 m mem key length pc pb =
      ((digest .little (seed length pc pb) (slice mem key length)).c,
        (digest .little (seed length pc pb) (slice mem key length)).b) := by
  simp only [hashlittle2, littleState_eq, seed]

theorem hashbig_eq (m : Machine) (mem : Nat → UInt8) (key length : Nat) (pc : UInt32) :
    hashbig m mem key length pc = (digest .big (seed length pc 0) (slice mem key length)).c := by
  simp only [hashbig, bigState_eq, seed, UInt32.add_zero]

end HashLemmas

/-- **What is hashed.** Where the key is, what is behind it and which of the ways to read it the
machine takes make no difference: the hashes are functions of its bytes. -/
theorem hash_eq_digest (m : Machine) (mem : Nat → UInt8) (key length : Nat) (pc pb : UInt32) :
    hashlittle m mem key length pc = (digest .little (seed length pc 0) (slice mem key length)).c ∧
    hashlittle2 m mem key length pc pb =
      ((digest .little (seed length pc pb) (slice mem key length)).c,
        (digest .little (seed length pc pb) (slice mem key length)).b) ∧
    hashbig m mem key length pc = (digest .big (seed length pc 0) (slice mem key length)).c :=
  ⟨hashlittle_eq .., hashlittle2_eq .., hashbig_eq ..⟩

/-- The text of `driver5`. -/
def fourScore : Nat → UInt8 := fun i =>
  [70, 111, 117, 114, 32, 115, 99, 111, 114, 101, 32, 97, 110, 100, 32, 115, 101, 118, 101, 110, 32,
    121, 101, 97, 114, 115, 32, 97, 103, 111].getD i 0

example : hashlittle ⟨.little, true⟩ fourScore 0 30 0 = 0x17770551 ∧
    hashlittle2 ⟨.big, true⟩ fourScore 0 30 1 0 = (0xcd628161, 0x6cbea4b3) := by
  decide +kernel

/-- The macro. -/
def hash32 (m : Machine) (mem : Nat → UInt8) (key length : Nat) (initval : UInt32) : UInt32 :=
  match m.host with
  | .little => hashlittle m mem key length initval
  | .big => hashbig m mem key length initval

/-- The cache with this hash. -/
def withLookup3 (env : Env) (h : Host) : Env :=
  { env with
    hash32 := fun key group => (digest h (seed key.length (UInt32.ofNat group) 0) key).c.toNat }

/-- The keys in requests, in items and in files have the hash of their bytes. -/
theorem hash32_eq (env : Env) (m : Machine) (mem : Nat → UInt8) (key length group : Nat) :
    (hash32 m mem key length (UInt32.ofNat group)).toNat =
      (withLookup3 env m.host).hash32 (slice mem key length) group := by
  simp only [withLookup3, length_slice]
  cases hm : m.host with
  | little => rw [hash32, hm]; exact congrArg UInt32.toNat (hashlittle_eq ..)
  | big => rw [hash32, hm]; exact congrArg UInt32.toNat (hashbig_eq ..)

namespace HashLemmas

/-! ### Keys of words -/

/-- What is missing of a block counts as zeros. -/
def addWords (s : State) (block : List UInt32) : State :=
  ⟨s.a + block.getD 0 0, s.b + block.getD 1 0, s.c + block.getD 2 0⟩

theorem hashwordLoop_eq (f : Nat → UInt32) (ys : List Nat) (s : State) :
    let r := absorb 3 (fun s block => mix (addWords s (block.map f))) s ys
    hashwordLoop (ys.map f) s = (r.2.map f, r.1) := by
  induction ys using blocks_induction (w := 3) (by decide) generalizing s with
  | hshort ys hys =>
    rw [absorb_short hys]
    match ys, hys with
    | [], _ => rfl
    | [_], _ => rfl
    | [_, _], _ => rfl
    | [_, _, _], _ => rfl
  | hlong b ys hb hys ih =>
    rw [absorb_block hb (by decide) hys]
    match b, hb, ys, hys with
    | [x, y, z], _, v :: ys, _ => exact ih _

theorem hashwordLast_eq {k : List UInt32} (hk : k.length ≤ 3) :
    hashwordLast k s = if k = [] then s else final (addWords s k) := by
  match k, hk with
  | [], _ => rfl
  | [_], _ => simp [hashwordLast, addWords]
  | [_, _], _ => simp [hashwordLast, addWords]
  | [_, _, _], _ => simp [hashwordLast, addWords]

theorem word_append {m : List UInt8} (hm : m.length = 4) (m' : List UInt8) :
    word (m ++ m') h = word m h := by
  match m, hm with
  | [_, _, _, _], _ => rfl

/-- The bytes of the word with this index. -/
def bytesAt (mem : Nat → UInt8) (key i : Nat) : List UInt8 := slice mem (key + 4 * i) 4

theorem word_nil (h : Host) : word [] h = 0 := by
  cases h <;> rfl

theorem word_at (b : List Nat) (i : Nat) :
    word ((b.flatMap (bytesAt mem k)).drop (4 * i)) h = (b.map (load32 h mem k)).getD i 0 := by
  have hlen (x : Nat) : (bytesAt mem k x).length = 4 := length_slice ..
  induction b generalizing i with
  | nil => rw [List.flatMap_nil, List.drop_nil, word_nil]; rfl
  | cons x b ih =>
    rw [List.flatMap_cons, List.map_cons]
    cases i with
    | zero => exact word_append (hlen x) _
    | succ i =>
      have hrest := ih i
      rwa [Nat.mul_succ, Nat.add_comm, ← List.drop_drop, ← hlen x, List.drop_left, hlen x,
        List.getD_cons_succ]

theorem addBlock_words (b : List Nat) :
    addBlock h s (b.flatMap (bytesAt mem k)) = addWords s (b.map (load32 h mem k)) := by
  rw [addWords, ← word_at, ← word_at, ← word_at]
  rfl

theorem flatMap_bytesAt (n : Nat) :
    (List.range n).flatMap (bytesAt mem k) = slice mem k (4 * n) := by
  induction n with
  | zero => rfl
  | succ n ih =>
    rw [List.range_succ, List.flatMap_append, ih, Nat.mul_succ, slice_add]
    simp [bytesAt]

end HashLemmas

/-- The words that the key is made of. -/
def wordsAt (h : Host) (mem : Nat → UInt8) (key n : Nat) : List UInt32 :=
  (List.range n).map (load32 h mem key)

namespace HashLemmas

theorem hashwordState_eq (key n : Nat) :
    hashwordState (wordsAt h mem key n) s = digest h s (slice mem key (4 * n)) := by
  have habs := absorb_flatMap (w := 3) (s := s) (c := bytesAt mem key)
    (fun _ => length_slice ..) (by decide)
    (f := fun s block => mix (addBlock h s block))
    (g := fun s block => mix (addWords s (block.map (load32 h mem key))))
    (fun s b _ => congrArg mix (addBlock_words b).symm) (by decide) (List.range n)
  rw [flatMap_bytesAt] at habs
  have hlen : (absorb 3 (fun s block => mix (addWords s (block.map (load32 h mem key)))) s
      (List.range n)).2.length ≤ 3 := length_absorb (by decide)
  rw [hashwordState, wordsAt, hashwordLoop_eq]
  simp only [digest, habs]
  rw [hashwordLast_eq (by rwa [List.length_map]), addBlock_words]
  cases (absorb 3 (fun s block => mix (addWords s (block.map (load32 h mem key)))) s
    (List.range n)).2 with
  | nil => rfl
  | cons x b =>
    have hne : (x :: b).flatMap (bytesAt mem key) ≠ [] := by
      rw [List.flatMap_cons]
      exact List.append_ne_nil_of_left_ne_nil (slice_ne_nil (by decide)) _
    rw [if_neg hne, List.map_cons, if_neg (by simp)]

theorem seed_words (n : Nat) : UInt32.ofNat n <<< 2 = UInt32.ofNat (4 * n) := by
  apply UInt32.toNat.inj
  simp [UInt32.toNat_shiftLeft, Nat.shiftLeft_eq]
  omega

end HashLemmas

/-- **Words and bytes.** The function for words agrees with those for bytes, and what the functions
with two results report first is what their siblings report. -/
theorem hashword_eq (known : Bool) (mem : Nat → UInt8) (key n : Nat) (pc pb : UInt32) :
    (hashword (wordsAt .little mem key n) pc = hashlittle ⟨.little, known⟩ mem key (4 * n) pc ∧
      hashword2 (wordsAt .little mem key n) pc pb =
        hashlittle2 ⟨.little, known⟩ mem key (4 * n) pc pb) ∧
    hashword (wordsAt .big mem key n) pc = hashbig ⟨.big, known⟩ mem key (4 * n) pc ∧
    (∀ k, (hashword2 k pc 0).1 = hashword k pc) ∧
    ∀ m, (hashlittle2 m mem key n pc 0).1 = hashlittle m mem key n pc := by
  have hlen (h : Host) : (wordsAt h mem key n).length = n := by
    rw [wordsAt, List.length_map, List.length_range]
  have hword (h : Host) : hashword (wordsAt h mem key n) pc =
      (digest h (seed (4 * n) pc 0) (slice mem key (4 * n))).c := by
    rw [hashword, hlen, seed_words, hashwordState_eq]
    simp only [seed, UInt32.add_zero]
  have hword2 : hashword2 (wordsAt .little mem key n) pc pb =
      ((digest .little (seed (4 * n) pc pb) (slice mem key (4 * n))).c,
        (digest .little (seed (4 * n) pc pb) (slice mem key (4 * n))).b) := by
    rw [hashword2, hlen, Nat.shiftLeft_eq, Nat.mul_comm n, hashwordState_eq]
    rfl
  refine ⟨⟨?_, ?_⟩, ?_, fun k => ?_, fun m => ?_⟩
  · rw [hword, hashlittle_eq]
  · rw [hword2, hashlittle2_eq]
  · rw [hword, hashbig_eq]
  · simp only [hashword2, hashword, seed_words, Nat.shiftLeft_eq, Nat.mul_comm, UInt32.add_zero]
  · simp only [hashlittle2, hashlittle, UInt32.add_zero]

namespace HashLemmas

/-! ### Nothing is lost -/

/-- `(a, b, c)` becomes `(b, c, a)`. -/
def turn (s : State) : State := ⟨s.b, s.c, s.a⟩

/-- `a -= c; a ^= rot(c, k); c += b`. -/
def mixLine (k : UInt32) (s : State) : State := ⟨(s.a - s.c) ^^^ rot s.c k, s.b, s.c + s.b⟩

/-- `c ^= b; c -= rot(b, k)`. -/
def finalLine (k : UInt32) (s : State) : State := ⟨s.a, s.b, (s.c ^^^ s.b) - rot s.b k⟩

theorem mix_lines : mix = turn ∘ mixLine 4 ∘ turn ∘ mixLine 19 ∘ turn ∘ mixLine 16 ∘ turn ∘
    mixLine 8 ∘ turn ∘ mixLine 6 ∘ turn ∘ mixLine 4 := rfl

theorem final_lines : final = finalLine 24 ∘ turn ∘ finalLine 14 ∘ turn ∘ finalLine 4 ∘ turn ∘
    finalLine 16 ∘ turn ∘ finalLine 25 ∘ turn ∘ finalLine 11 ∘ turn ∘ finalLine 14 := rfl

theorem turn_bijective : Function.Bijective turn :=
  Function.bijective_iff_has_inverse.mpr ⟨fun s => ⟨s.c, s.a, s.b⟩, fun _ => rfl, fun _ => rfl⟩

theorem mixLine_bijective (k : UInt32) : Function.Bijective (mixLine k) := by
  refine Function.bijective_iff_has_inverse.mpr
    ⟨fun s => ⟨(s.a ^^^ rot (s.c - s.b) k) + (s.c - s.b), s.b, s.c - s.b⟩, fun s => ?_, fun s => ?_⟩
  · simp [mixLine, UInt32.xor_assoc]
  · simp [mixLine, UInt32.xor_assoc]

theorem finalLine_bijective (k : UInt32) : Function.Bijective (finalLine k) := by
  refine Function.bijective_iff_has_inverse.mpr
    ⟨fun s => ⟨s.a, s.b, (s.c + rot s.b k) ^^^ s.b⟩, fun s => ?_, fun s => ?_⟩
  · simp [finalLine, UInt32.xor_assoc]
  · simp [finalLine, UInt32.xor_assoc]

theorem mix_bijective : Function.Bijective mix := by
  have h (k : UInt32) : Function.Bijective (turn ∘ mixLine k) :=
    turn_bijective.comp (mixLine_bijective k)
  rw [mix_lines]
  exact (h 4).comp ((h 19).comp ((h 16).comp ((h 8).comp ((h 6).comp (h 4)))))

theorem final_bijective : Function.Bijective final := by
  have h (k : UInt32) : Function.Bijective (finalLine k) := finalLine_bijective k
  have t := turn_bijective
  rw [final_lines]
  exact (h 24).comp (t.comp ((h 14).comp (t.comp ((h 4).comp (t.comp ((h 16).comp (t.comp
    ((h 25).comp (t.comp ((h 11).comp (t.comp (h 14))))))))))))

theorem addBlock_injective (h : Host) (block : List UInt8) :
    Function.Injective fun s => addBlock h s block := by
  intro s s' heq
  obtain ⟨ha, hb, hc⟩ := State.mk.inj heq
  cases s
  cases s'
  rw [State.mk.injEq]
  exact ⟨(UInt32.add_left_inj _).mp ha, (UInt32.add_left_inj _).mp hb,
    (UInt32.add_left_inj _).mp hc⟩

theorem byte_lt (m : List UInt8) (i : Nat) : (byte m i).toNat < 256 := by
  rw [byte, UInt8.toNat_toUInt32]
  exact UInt8.toNat_lt _

theorem word_injective {m m' : List UInt8} (heq : word m h = word m' h) {i : Nat} (hi : i < 4) :
    byte m i = byte m' i := by
  have hm := byte_lt m
  have hm' := byte_lt m'
  have h0 := hm 0; have h1 := hm 1; have h2 := hm 2; have h3 := hm 3
  have g0 := hm' 0; have g1 := hm' 1; have g2 := hm' 2; have g3 := hm' 3
  apply UInt32.toNat.inj
  have hnat := congrArg UInt32.toNat heq
  cases h with
  | little =>
    simp [word, UInt32.toNat_shiftLeft, Nat.shiftLeft_eq] at hnat
    interval_cases i <;> omega
  | big =>
    simp [word, UInt32.toNat_shiftLeft, Nat.shiftLeft_eq] at hnat
    interval_cases i <;> omega

theorem block_injective {b b' : List UInt8} (hlen : b.length = b'.length) (hle : b.length ≤ 12)
    (heq : addBlock h s b = addBlock h s b') : b = b' := by
  obtain ⟨ha, hb, hc⟩ := State.mk.inj heq
  have ha := (UInt32.add_right_inj _).mp ha
  have hb := (UInt32.add_right_inj _).mp hb
  have hc := (UInt32.add_right_inj _).mp hc
  refine List.ext_getElem hlen fun i hi hi' => ?_
  have hbyte : byte b i = byte b' i := by
    have h12 : i < 12 := Nat.lt_of_lt_of_le hi hle
    rcases Nat.lt_or_ge i 4 with h4 | h4
    · exact word_injective ha h4
    · rcases Nat.lt_or_ge i 8 with h8 | h8
      · have hword := word_injective (i := i - 4) hb (by omega)
        rwa [byte_drop, byte_drop, Nat.add_sub_cancel' h4] at hword
      · have hword := word_injective (i := i - 8) hc (by omega)
        rwa [byte_drop, byte_drop, Nat.add_sub_cancel' h8] at hword
  have hnat := congrArg UInt32.toNat hbyte
  rw [byte, byte, UInt8.toNat_toUInt32, UInt8.toNat_toUInt32, ← List.getElem_eq_getD (h := hi),
    ← List.getElem_eq_getD (h := hi')] at hnat
  exact UInt8.toNat.inj hnat

/-- `final`, unless the key is empty. -/
theorem digest_of {r : State × List UInt8} {key : List UInt8}
    (hr : absorb 12 (fun s block => mix (addBlock h s block)) s key = r) :
    digest h s key = if r.2 = [] then r.1 else final (addBlock h r.1 r.2) := by
  rw [digest, hr]

theorem step_injective (h : Host) (block : List UInt8) :
    Function.Injective fun s => mix (addBlock h s block) :=
  mix_bijective.injective.comp (addBlock_injective h block)

theorem digest_injective (h : Host) (key : List UInt8) :
    Function.Injective fun s => digest h s key := by
  intro s s' heq
  have hrest := absorb_rest (w := 12) (f := fun s block => mix (addBlock h s block)) key s s'
  have heq : digest h s key = digest h s' key := heq
  rw [digest_of rfl, digest_of rfl, ← hrest] at heq
  refine absorb_injective (w := 12) (step_injective h) (by decide) key ?_
  split at heq
  next => exact heq
  next => exact addBlock_injective h _ (final_bijective.injective heq)

/-- The digest of a key, from one of its blocks on. -/
theorem digest_from {p b q : List UInt8} (hp : 12 ∣ p.length) (s : State) (hle : b.length ≤ 12)
    (hq : q ≠ [] → b.length = 12) : ∃ s₁, ∀ b' : List UInt8, b'.length = b.length →
    b' ≠ [] → digest h s (p ++ (b' ++ q)) =
      if q = [] then final (addBlock h s₁ b') else digest h (mix (addBlock h s₁ b')) q := by
  obtain ⟨s₁, hs₁⟩ := absorb_front (w := 12) (f := fun s block => mix (addBlock h s block))
    (by decide) hp s
  refine ⟨s₁, fun b' hb' hne => ?_⟩
  have hfront := hs₁ (b' ++ q) (List.append_ne_nil_of_left_ne_nil hne q)
  rw [digest_of hfront, ← digest_of rfl]
  split
  next hq' =>
    rw [hq', List.append_nil, digest, absorb_short (hb'.trans_le hle)]
    exact if_neg hne
  next hq' => rw [digest, absorb_block (hb'.trans (hq hq')) (by decide) hq', ← digest]

end HashLemmas

variable {h : Host} {s s' : State} {p b b' q : List UInt8}

/-- **Nothing is lost.** Keys that differ in one block only, or that start from different states,
leave `a`, `b` and `c` different. -/
theorem digest_cancel (hp : 12 ∣ p.length) (hlen : b'.length = b.length) (hle : b.length ≤ 12)
    (hq : q ≠ [] → b.length = 12)
    (heq : digest h s (p ++ (b ++ q)) = digest h s' (p ++ (b' ++ q))) : s = s' ↔ b = b' := by
  constructor
  · rintro rfl
    rcases eq_or_ne b [] with rfl | hne
    · exact (List.eq_nil_of_length_eq_zero hlen).symm
    have hne' : b' ≠ [] := by
      rw [← List.length_pos_iff, hlen]
      exact List.length_pos_iff.mpr hne
    obtain ⟨s₁, hs₁⟩ := digest_from hp s hle hq
    rw [hs₁ b rfl hne, hs₁ b' hlen hne'] at heq
    refine block_injective hlen.symm hle ?_ (h := h) (s := s₁)
    split at heq
    next => exact final_bijective.injective heq
    next => exact mix_bijective.injective (digest_injective h q heq)
  · rintro rfl
    exact digest_injective h _ heq

/-- Two different seeds are two different states to start from. -/
theorem seed_injective {n : Nat} {pc pb pc' pb' : UInt32} (h : seed n pc pb = seed n pc' pb') :
    pc = pc' ∧ pb = pb' := by
  simp only [seed, State.mk.injEq] at h
  obtain ⟨hc, -, hb⟩ := h
  rw [hc] at hb
  exact ⟨(UInt32.add_right_inj _).mp hc, (UInt32.add_right_inj _).mp hb⟩

/-- Two keys of three blocks that differ in a byte of the second, and one of them with another seed. -/
theorem digest_cancel_blocks :
    let p : List UInt8 := List.replicate 12 1
    let q : List UInt8 := [7, 8, 9]
    let b : List UInt8 := List.replicate 12 2
    let b' : List UInt8 := List.replicate 11 2 ++ [3]
    digest .little (seed 27 0 0) (p ++ (b ++ q)) ≠ digest .little (seed 27 0 0) (p ++ (b' ++ q)) ∧
      digest .little (seed 27 0 0) (p ++ (b ++ q)) ≠ digest .little (seed 27 5 0) (p ++ (b ++ q)) := by
  intro p q b b'
  have hlen : b'.length = b.length := rfl
  refine ⟨fun heq => ?_, fun heq => ?_⟩
  · exact absurd ((digest_cancel (by decide) hlen (by decide) (fun _ => rfl) heq).mp rfl) (by decide)
  · have hseed := (digest_cancel (by decide) rfl (by decide) (fun _ => rfl) heq).mpr rfl
    exact absurd (seed_injective hseed).1 (by decide)

end Xixi.Lookup3
