import Xixi.CacheBuffer
import Xixi.Http.Response
import Xixi.Http.Machine

/-!
# Compression (`Peer_Http::gzip_encode`)

The output of `deflate` is taken in chunks from the scratch buffer of the connection. `deflate` is
called again as long as it fills a chunk and says `Z_OK`.

1. `Deflate`, `Deflate.Finishes`: the compressor, and what it promises for `Z_FINISH`.
2. `gzipEncode`: the code, with an allocator that may fail.
3. `Complete`: what the slices are to be; `gzipWith`: what `process_get` sends.
4. `gzip_complete`: when they are.
-/

namespace Xixi.Http
open Lib

inductive ReturnCode
  | ok
  | streamEnd
  | error
deriving DecidableEq, Repr

/-- A `z_stream`: `deflateInit2` with the input, `deflate` with `Z_FINISH` and some space, and
`total_in`. -/
structure Deflate (σ : Type) where
  init : Bytes → Option σ
  step : σ → Nat → Bytes × ReturnCode × σ
  totalIn : σ → Nat

/-- Successive calls append the next part of `z` to the space given. While they say `Z_OK` they fill
it; when all has been written they say `Z_STREAM_END`, and all input has been read. -/
def Deflate.Finishes {σ : Type} (d : Deflate σ) (data z : Bytes) : Prop :=
  ∃ Pending : σ → Bytes → Prop, (∃ s, d.init data = some s ∧ Pending s z) ∧
    ∀ s z n, Pending s z → 0 < n → ∃ out rest s', z = out ++ rest ∧ out.length ≤ n ∧
      ((d.step s n = (out, .ok, s') ∧ out.length = n ∧ Pending s' rest) ∨
        (d.step s n = (out, .streamEnd, s') ∧ rest = [] ∧ d.totalIn s' = data.length))

/-- The bytes of the blocks. -/
def Heap := Nat → Nat → UInt8

namespace Heap

/-- `memcpy` to the start of a region. -/
def store (h : Heap) (r : Region) (bytes : Bytes) : Heap := fun block i =>
  if block = r.block ∧ r.offset ≤ i ∧ i < r.offset + bytes.length then bytes.getD (i - r.offset) 0
  else h block i

/-- The first bytes of a region. -/
def load (h : Heap) (r : Region) (n : Nat) : Bytes :=
  (List.range n).map fun i => h r.block (r.offset + i)

end Heap

/-- `Const_Data`; without a region it is the static header. -/
structure Slice where
  region : Option Region
  size : Nat
deriving DecidableEq, Repr

def gzipHeader : Bytes := [31, 139, 8, 0, 0, 0, 0, 0, 0, 3]

def Slice.bytes (h : Heap) (x : Slice) : Bytes :=
  match x.region with
  | none => gzipHeader.take x.size
  | some r => h.load r x.size

/-- What `gzip_encode` works on; `allocs` has the calls to `prepare` and whether they got memory. -/
structure Encoding where
  buffer : CacheBuffer
  heap : Heap
  slices : List Slice
  size : Nat
  allocs : List Bool

namespace Encoding

variable (malloc : Nat → Bool) (e : Encoding)

/-- `request_buf_.prepare`; `malloc n` says whether there is memory for the block after `n` blocks. -/
def prepare (n : Nat) : Option Region × Encoding :=
  let r := e.buffer.prepare 2048 n
  if r.2.mallocs = e.buffer.mallocs ∨ malloc e.buffer.mallocs then
    (some r.1, { e with buffer := r.2, allocs := e.allocs ++ [true] })
  else (none, { e with allocs := e.allocs ++ [false] })

/-- `data_out.push_back(Const_Data(p, n)); data_out_size += n;` -/
def push (r : Option Region) (n : Nat) : Encoding :=
  { e with slices := e.slices ++ [⟨r, n⟩], size := (e.size + n) % 2 ^ 32 }

def store (r : Region) (bytes : Bytes) : Encoding := { e with heap := e.heap.store r bytes }

end Encoding

section Encode

variable {σ : Type} (d : Deflate σ) (malloc : Nat → Bool) (chunkSize : Nat)

/-- From a call of `deflate` on, up to the slice that is pushed behind the loop. The condition there
is an assignment, so it is pushed whatever `deflate` has said. -/
def gzipLoop : Nat → σ → Region → Encoding → Option (Option σ × Encoding)
  | 0, _, _, _ => none
  | fuel + 1, s, chunk, e =>
    let (out, zRC, s) := d.step s chunkSize
    let e := e.store chunk out
    let availOut := chunkSize - out.length
    if zRC = .ok ∧ availOut = 0 then
      match (e.push (some chunk) chunkSize).prepare malloc chunkSize with
      | (none, e) => some (none, e)
      | (some chunk, e) => gzipLoop fuel s chunk e
    else some (some s, e.push (some chunk) (chunkSize - availOut))

def gzipEncode (crc32 : Bytes → Nat) (data : Bytes) (b : CacheBuffer) (h : Heap) (fuel : Nat) :
    Option (Nat × Encoding) :=
  let e : Encoding := ⟨b, h, [], 0, []⟩
  if data.length = 0 then some (0, e)
  else
    match d.init data with
    | none => some (0, e)
    | some s =>
      let e := e.push none 10
      let chunkSize := if data.length < 4096 then data.length else 4096
      match e.prepare malloc chunkSize with
      | (none, e) => some (0, e)
      | (some chunk, e) =>
        match gzipLoop d malloc chunkSize fuel s chunk e with
        | none => none
        | some (none, e) => some (0, e)
        | some (some s, e) =>
          match e.prepare malloc 8 with
          | (none, e) => some (0, e)
          | (some validation, e) =>
            let e := e.store validation (outUint32 (crc32 data) ++ outUint32 (d.totalIn s))
            let e := e.push (some validation) 8
            some (e.size, e)

end Encode

/-- The slices are the header, the whole output and the trailer, in buffers that do not overlap, and
the size is theirs. -/
structure Complete (crc : Nat) (data z : Bytes) (size : Nat) (e : Encoding) : Prop where
  bytes : e.slices.flatMap (Slice.bytes e.heap) =
    gzipHeader ++ (z ++ (outUint32 crc ++ outUint32 data.length))
  disjoint : (e.slices.filterMap Slice.region).Pairwise Region.Disjoint
  inside : ∀ x ∈ e.slices, ∀ r ∈ x.region, x.size ≤ r.size
  size : size = (e.slices.map Slice.size).sum

/-- What `process_get` sends of what `gzip_encode` has returned; nothing if it sends the data. -/
def gzipWith (s : Settings) (p : Params) (mimeType data : Bytes) (r : Nat × Encoding) :
    Option (List Slice) :=
  if p.http.method ≠ some .head ∧ p.http.acceptGzip ∧ s.minGzipSize ≤ data.length ∧
      data.length ≤ s.maxGzipSize ∧ s.isGzipMimeType mimeType then
    let gzipSize := if data.length ≤ (r.1 + 50) % 2 ^ 32 then 0 else r.1
    if 0 < gzipSize then some r.2.slices else none
  else none

namespace GzipLemmas

open ResponseLemmas

variable {h : Heap} {r r' : Region} {bytes : Bytes} {n : Nat} {e : Encoding}

/-! ## The memory -/

theorem load_store (h : Heap) (r : Region) (bytes : Bytes) :
    (h.store r bytes).load r bytes.length = bytes := by
  refine List.ext_getElem (by rw [Heap.load, List.length_map, List.length_range]) fun i h₁ h₂ => ?_
  have hin : r.offset + i < r.offset + bytes.length := Nat.add_lt_add_left h₂ _
  simp only [Heap.load, Heap.store, List.getElem_map, List.getElem_range]
  rw [if_pos ⟨trivial, Nat.le_add_right _ _, hin⟩, Nat.add_sub_cancel_left,
    List.getD_eq_getElem?_getD, List.getElem?_eq_getElem h₂]
  rfl

/-- What is written elsewhere does not matter. -/
theorem load_store_of_disjoint (hd : r'.Disjoint r) (hn : n ≤ r'.size)
    (hbytes : bytes.length ≤ r.size) : (h.store r bytes).load r' n = h.load r' n := by
  refine List.map_congr_left fun i hi => ?_
  have hi' : i < n := List.mem_range.mp hi
  refine if_neg ?_
  rintro ⟨hblock, hle, hlt⟩
  rcases hd with hne | hbefore | hbehind
  · exact hne hblock
  · omega
  · omega

theorem size_prepare (b : CacheBuffer) (n : Nat) :
    (b.prepare 2048 n).1.size = n ∧ (b.prepare 2048 n).2.totalSize = (b.totalSize + n) % 2 ^ 32 := by
  unfold CacheBuffer.prepare
  split
  · exact ⟨rfl, rfl⟩
  · split
    · exact ⟨rfl, rfl⟩
    · split
      · exact ⟨rfl, rfl⟩
      · exact ⟨rfl, rfl⟩

/-! ## The encoding -/

/-- What the slices have so far, in buffers that hold; `cur` has the buffer that is to be filled. -/
structure Progress (rs : List Region) (e : Encoding) (cur : List Region) (out : Bytes) : Prop where
  holds : e.buffer.Holds 2048 (rs ++ (e.slices.filterMap Slice.region ++ cur))
  bytes : e.slices.flatMap (Slice.bytes e.heap) = out
  inside : ∀ x ∈ e.slices, ∀ r ∈ x.region, x.size ≤ r.size

/-- The lengths of the slices. -/
def slicesSize (e : Encoding) : Nat := (e.slices.map Slice.size).sum

theorem slicesSize_push (e : Encoding) (r : Option Region) (n : Nat) : slicesSize (e.push r n) = slicesSize e + n := by
  rw [slicesSize, Encoding.push, List.map_append, List.sum_append]
  rfl

variable {malloc : Nat → Bool} {e e' : Encoding} {rs cur : List Region} {out : Bytes}

theorem prepare_none (h : e.prepare malloc n = (none, e')) :
    false ∈ e'.allocs ∧ ∃ n, malloc n = false := by
  unfold Encoding.prepare at h
  dsimp only at h
  split at h
  · exact nomatch (Prod.mk.inj h).1
  · next hno =>
    rw [← (Prod.mk.inj h).2]
    exact ⟨List.mem_append_right _ (List.mem_singleton_self false), e.buffer.mallocs,
      Bool.eq_false_iff.mpr (not_or.mp hno).2⟩

theorem prepare_some (h : e.prepare malloc n = (some r, e')) :
    r = (e.buffer.prepare 2048 n).1 ∧ e' = { e with
      buffer := (e.buffer.prepare 2048 n).2, allocs := e.allocs ++ [true] } := by
  unfold Encoding.prepare at h
  dsimp only at h
  split at h
  · obtain ⟨hr, he⟩ := Prod.mk.inj h
    exact ⟨(Option.some.inj hr).symm, he.symm⟩
  · exact nomatch (Prod.mk.inj h).1

theorem Progress.prepare (hp : Progress rs e [] out) (hroom : e.buffer.totalSize + n < 2 ^ 32)
    (h : e.prepare malloc n = (some r, e')) :
    Progress rs e' [r] out ∧ r.size = n ∧ e'.buffer.totalSize = e.buffer.totalSize + n := by
  obtain ⟨rfl, rfl⟩ := prepare_some h
  obtain ⟨hsize, htotal⟩ := size_prepare e.buffer n
  refine ⟨⟨?_, hp.bytes, hp.inside⟩, hsize, ?_⟩
  · have hholds := CacheBuffer.holds_prepare hp.holds hroom
    rwa [List.append_nil, List.append_assoc] at hholds
  · rw [htotal, Nat.mod_eq_of_lt hroom]

/-- The buffer is filled, and pushed. -/
theorem Progress.push (hp : Progress rs e [r] out) (hbytes : bytes.length ≤ r.size) :
    Progress rs ((e.store r bytes).push (some r) bytes.length) [] (out ++ bytes) := by
  have hregions : (e.slices ++ [(⟨some r, bytes.length⟩ : Slice)]).filterMap Slice.region =
      e.slices.filterMap Slice.region ++ [r] := List.filterMap_append
  have hdisjoint : ∀ x ∈ e.slices, ∀ r' ∈ x.region, r'.Disjoint r := by
    intro x hx r' hr'
    have hmem : r' ∈ e.slices.filterMap Slice.region := List.mem_filterMap.mpr ⟨x, hx, hr'⟩
    have hpair := (List.pairwise_append.mp hp.holds.disjoint).2.1
    exact (List.pairwise_append.mp hpair).2.2 r' hmem r (List.mem_singleton_self r)
  refine ⟨?_, ?_, fun x hx r' hr' => ?_⟩
  · show e.buffer.Holds 2048
      (rs ++ ((e.slices ++ [(⟨some r, bytes.length⟩ : Slice)]).filterMap Slice.region ++ []))
    rw [hregions, List.append_nil]
    exact hp.holds
  · -- what has been pushed before is not written over
    have hold : e.slices.flatMap (Slice.bytes (e.heap.store r bytes)) =
        e.slices.flatMap (Slice.bytes e.heap) := by
      refine List.flatMap_congr fun x hx => ?_
      rw [Slice.bytes, Slice.bytes]
      cases hr : x.region with
      | none => rfl
      | some r' => exact load_store_of_disjoint (hdisjoint x hx r' hr) (hp.inside x hx r' hr) hbytes
    show (e.slices ++ [(⟨some r, bytes.length⟩ : Slice)]).flatMap
      (Slice.bytes (e.heap.store r bytes)) = _
    rw [List.flatMap_append, hold, hp.bytes, List.flatMap_singleton]
    exact congrArg (out ++ ·) (load_store e.heap r bytes)
  · rcases List.mem_append.mp hx with hx | hx
    · exact hp.inside x hx r' hr'
    · rw [List.mem_singleton.mp hx] at hr' ⊢
      cases hr'
      exact hbytes

section Loop

variable {σ : Type} {d : Deflate σ} {data : Bytes} {Pending : σ → Bytes → Prop} {chunkSize : Nat}

/-- The loop takes all of the output, or has not got memory for it. -/
theorem gzipLoop_spec (malloc : Nat → Bool) (hpos : 0 < chunkSize)
    (hstep : ∀ s z n, Pending s z → 0 < n → ∃ out rest s', z = out ++ rest ∧ out.length ≤ n ∧
      ((d.step s n = (out, .ok, s') ∧ out.length = n ∧ Pending s' rest) ∨
        (d.step s n = (out, .streamEnd, s') ∧ rest = [] ∧ d.totalIn s' = data.length)))
    {fuel : Nat} {s : σ} {z : Bytes} (hs : Pending s z) (hfuel : z.length < fuel) (chunk : Region)
    (e : Encoding) (hallocs : false ∉ e.allocs) :
    ∃ r e', gzipLoop d malloc chunkSize fuel s chunk e = some (r, e') ∧
      (r = none → false ∈ e'.allocs ∧ ∃ n, malloc n = false) ∧ ∀ s', r = some s' →
        false ∉ e'.allocs ∧ d.totalIn s' = data.length ∧ slicesSize e' = slicesSize e + z.length ∧
          e'.size = (e.size + z.length) % 2 ^ 32 ∧
          ∀ rs out, Progress rs e [chunk] out → chunk.size = chunkSize →
            e.buffer.totalSize + z.length + 8 < 2 ^ 32 →
            Progress rs e' [] (out ++ z) ∧ e'.buffer.totalSize + 8 < 2 ^ 32 := by
  induction fuel generalizing s z chunk e with
  | zero => exact absurd hfuel (Nat.not_lt_zero _)
  | succ fuel ih =>
    obtain ⟨out, rest, s', rfl, hle, hcase⟩ := hstep s z chunkSize hs hpos
    rw [gzipLoop]
    rcases hcase with ⟨hcall, hfull, hrest⟩ | ⟨hcall, rfl, hin⟩
    · -- the chunk is full, and another is needed
      have hcond : ReturnCode.ok = .ok ∧ chunkSize - out.length = 0 := ⟨rfl, by omega⟩
      rw [List.length_append] at hfuel ⊢
      rw [hcall]
      dsimp only
      rw [if_pos hcond, ← hfull]
      cases hp : ((e.store chunk out).push (some chunk) out.length).prepare malloc out.length with
      | mk r e₁ =>
        cases r with
        | none => exact ⟨none, e₁, rfl, fun _ => prepare_none hp, nofun⟩
        | some chunk' =>
          obtain ⟨hchunk, he₁⟩ := prepare_some hp
          have hallocs₁ : false ∉ e₁.allocs := by
            rw [he₁, List.mem_append, not_or]
            exact ⟨hallocs, by decide⟩
          obtain ⟨r, e', hrun, hfail, hdone⟩ := ih hrest (by omega) chunk' e₁ hallocs₁
          rw [← hfull] at hrun
          refine ⟨r, e', hrun, hfail, fun s'' hr => ?_⟩
          obtain ⟨hnot, htotalIn, htotal, hsize, hprogress⟩ := hdone s'' hr
          have htotal₁ : slicesSize e₁ = slicesSize e + out.length := by
            rw [he₁]
            exact slicesSize_push _ _ _
          have hsize₁ : e₁.size = (e.size + out.length) % 2 ^ 32 := by rw [he₁]; rfl
          refine ⟨hnot, htotalIn, ?_, ?_, fun rs done hp₀ hsize₀ hroom => ?_⟩
          · rw [htotal, htotal₁, Nat.add_assoc]
          · rw [hsize, hsize₁, Nat.mod_add_mod, Nat.add_assoc]
          · have hpush := hp₀.push hsize₀.ge
            obtain ⟨hp₁, hsize', hbuffer⟩ := hpush.prepare (by
              show e.buffer.totalSize + _ < _
              omega) hp
            have hbuffer' : e₁.buffer.totalSize = e.buffer.totalSize + out.length := hbuffer
            rw [← List.append_assoc]
            refine hprogress rs (done ++ out) hp₁ (hsize'.trans hfull) ?_
            omega
    · -- `deflate` is done
      have hcond : ¬ (ReturnCode.streamEnd = .ok ∧ chunkSize - out.length = 0) := fun h => nomatch h.1
      have hlen : chunkSize - (chunkSize - out.length) = out.length := by omega
      rw [hcall]
      dsimp only
      rw [if_neg hcond, hlen, List.append_nil]
      refine ⟨some s', _, rfl, nofun, fun s'' hr => ?_⟩
      cases hr
      refine ⟨hallocs, hin, slicesSize_push _ _ _, rfl, fun rs done hp₀ hsize₀ hroom => ⟨?_, ?_⟩⟩
      · exact hp₀.push (hle.trans hsize₀.ge)
      · show e.buffer.totalSize + 8 < 2 ^ 32
        omega

end Loop

/-- The header is the first slice, and has no buffer. -/
theorem progress_header {b : CacheBuffer} (hb : b.Holds 2048 rs) (h : Heap) :
    Progress rs (Encoding.push ⟨b, h, [], 0, []⟩ none 10) [] gzipHeader := by
  refine ⟨?_, rfl, fun x hx r hr => ?_⟩
  · show b.Holds 2048 (rs ++ ([] ++ []))
    rwa [List.append_nil, List.append_nil]
  · rw [List.mem_singleton.mp hx] at hr
    exact nomatch hr

/-- What a buffer that has been prepared adds once it is pushed. -/
theorem size_push_prepared (hp : e.prepare malloc n = (some r, e')) (bytes : Bytes) :
    slicesSize ((e'.store r bytes).push (some r) n) = slicesSize e + n ∧
      ((e'.store r bytes).push (some r) n).size = (e.size + n) % 2 ^ 32 := by
  obtain ⟨-, rfl⟩ := prepare_some hp
  exact ⟨slicesSize_push .., rfl⟩

/-- All has been pushed, and the size has not wrapped. -/
theorem Progress.complete {crc : Nat} {data z : Bytes}
    (hp : Progress rs e [] (gzipHeader ++ (z ++ (outUint32 crc ++ outUint32 data.length))))
    (hsize : e.size = slicesSize e) : Complete crc data z e.size e := by
  refine ⟨hp.bytes, ?_, hp.inside, hsize⟩
  have hpair := (List.pairwise_append.mp hp.holds.disjoint).2.1
  rwa [List.append_nil] at hpair

theorem length_trailer (crc n : Nat) : (outUint32 crc ++ outUint32 n).length = 8 := by
  simp only [outUint32, List.length_append, List.length_reverse, length_encodeBE]

/-- An allocation that fails is answered with 0, and the data is sent. -/
theorem gzipWith_zero (s : Settings) (p : Params) (mimeType data : Bytes) (e : Encoding) :
    gzipWith s p mimeType data (0, e) = none := by
  have hzero : ¬ 0 < (if data.length ≤ (0 + 50) % 2 ^ 32 then 0 else 0) := by
    rw [ite_self]
    exact Nat.lt_irrefl 0
  unfold gzipWith
  dsimp only
  rw [if_neg hzero, ite_self]

/-- The model of the whole peer decides alike. -/
theorem gzipWith_isSome {s : Settings} {p : Params} {mimeType data z : Bytes} {e : Encoding}
    (hdata : data ≠ []) (hz : s.deflate data = some z) :
    (gzipWith s p mimeType data (gzipSize z, e)).isSome = (gzip s p mimeType data).isSome := by
  unfold gzipWith gzip
  dsimp only
  rw [hz]
  by_cases hcond : p.http.method ≠ some .head ∧ p.http.acceptGzip ∧ s.minGzipSize ≤ data.length ∧
      data.length ≤ s.maxGzipSize ∧ s.isGzipMimeType mimeType
  · obtain ⟨h₁, h₂, h₃, h₄, h₅⟩ := hcond
    have hcond : p.http.method ≠ some .head ∧ p.http.acceptGzip ∧ s.minGzipSize ≤ data.length ∧
        data.length ≤ s.maxGzipSize ∧ s.isGzipMimeType mimeType ∧ data ≠ [] :=
      ⟨h₁, h₂, h₃, h₄, h₅, hdata⟩
    rw [if_pos ⟨h₁, h₂, h₃, h₄, h₅⟩, if_pos hcond, Option.bind_some]
    by_cases hle : data.length ≤ (gzipSize z + 50) % 2 ^ 32
    · rw [if_pos hle, if_neg (Nat.lt_irrefl 0), if_pos (.inr hle)]
      rfl
    · rw [if_neg hle]
      by_cases hzero : gzipSize z = 0
      · rw [if_neg (by omega), if_pos (.inl hzero)]
        rfl
      · rw [if_pos (Nat.pos_of_ne_zero hzero), if_neg (not_or.mpr ⟨hzero, hle⟩)]
        rfl
  · have hcond' : ¬ (p.http.method ≠ some .head ∧ p.http.acceptGzip ∧ s.minGzipSize ≤ data.length ∧
        data.length ≤ s.maxGzipSize ∧ s.isGzipMimeType mimeType ∧ data ≠ []) := by
      rintro ⟨h₁, h₂, h₃, h₄, h₅, -⟩
      exact hcond ⟨h₁, h₂, h₃, h₄, h₅⟩
    rw [if_neg hcond, if_neg hcond']
    rfl

/-- These are the bytes that the model of the whole peer sends. -/
theorem wire_gzipPieces {crc : Nat} {data z : Bytes} (hdata : data ≠ []) :
    wire (gzipPieces crc data z) = gzipHeader ++ (z ++ (outUint32 crc ++ outUint32 data.length)) := by
  have hpos : 0 < min 4096 data.length :=
    Nat.lt_min.mpr ⟨by decide, List.length_pos_iff.mpr hdata⟩
  obtain ⟨-, hwire⟩ := gzipChunks_spec hpos (Nat.le_refl z.length)
  rw [gzipPieces, wire_cons, wire_append, hwire, wire_cons, bytes_copied, bytes_copied, wire,
    List.flatMap_nil, List.append_nil]
  rfl

end GzipLemmas

open GzipLemmas

/-- When `gzip_encode` gets its memory, the output is complete and the size is that of the slices as
long as they fit in 32 bits; when it does not, it returns 0 and the data is sent. -/
theorem gzip_complete {σ : Type} {d : Deflate σ} {data z : Bytes} (hz : d.Finishes data z)
    (hdata : data ≠ []) (malloc : Nat → Bool) (crc32 : Bytes → Nat) {b : CacheBuffer}
    {rs : List Region} (hb : b.Holds 2048 rs) (h : Heap) {fuel : Nat} (hfuel : z.length < fuel) :
    ∃ size e, gzipEncode d malloc crc32 data b h fuel = some (size, e) ∧
      ((∀ n, malloc n = true) → false ∉ e.allocs) ∧
      (false ∉ e.allocs → size = gzipSize z ∧
        (Complete (crc32 data) data z size e → z.length + 18 < 2 ^ 32) ∧
        (z.length + 18 < 2 ^ 32 → b.totalSize + min 4096 data.length + z.length + 8 < 2 ^ 32 →
          Complete (crc32 data) data z size e)) ∧
      (false ∈ e.allocs →
        size = 0 ∧ ∀ s p mimeType, gzipWith s p mimeType data (size, e) = none) := by
  obtain ⟨Pending, ⟨s, hinit, hs⟩, hstep⟩ := hz
  have hpos : 0 < data.length := List.length_pos_iff.mpr hdata
  have hchunk : (if data.length < 4096 then data.length else 4096) = min 4096 data.length := by
    split <;> omega
  have hfailed (e : Encoding) (he : false ∈ e.allocs ∧ ∃ n, malloc n = false) :
      ∃ size e', some ((0 : Nat), e) = some (size, e') ∧
      ((∀ n, malloc n = true) → false ∉ e'.allocs) ∧
      (false ∉ e'.allocs → size = gzipSize z ∧
        (Complete (crc32 data) data z size e' → z.length + 18 < 2 ^ 32) ∧
        (z.length + 18 < 2 ^ 32 → b.totalSize + min 4096 data.length + z.length + 8 < 2 ^ 32 →
          Complete (crc32 data) data z size e')) ∧
      (false ∈ e'.allocs →
        size = 0 ∧ ∀ s p mimeType, gzipWith s p mimeType data (size, e') = none) := by
    obtain ⟨hmem, n, hn⟩ := he
    refine ⟨0, e, rfl, fun hall => ?_, fun hno => absurd hmem hno, fun _ => ⟨rfl, fun s p mimeType => ?_⟩⟩
    · exact absurd (hall n) (by rw [hn]; decide)
    · exact gzipWith_zero s p mimeType data e
  rw [gzipEncode, if_neg hpos.ne', hinit]
  dsimp only
  rw [hchunk]
  have hcs : 0 < min 4096 data.length := Nat.lt_min.mpr ⟨by decide, hpos⟩
  generalize min 4096 data.length = chunkSize at *
  have hstart := progress_header hb h
  cases hp : (Encoding.push ⟨b, h, [], 0, []⟩ none 10).prepare malloc chunkSize with
  | mk r e₁ =>
    cases r with
    | none => exact hfailed e₁ (prepare_none hp)
    | some chunk =>
      obtain ⟨hchunk₁, he₁⟩ := prepare_some hp
      have hallocs₁ : false ∉ e₁.allocs := by
        rw [he₁]
        exact (by decide : false ∉ [true])
      obtain ⟨r, e₂, hrun, hfail, hdone⟩ := gzipLoop_spec malloc hcs hstep hs hfuel chunk e₁ hallocs₁
      dsimp only
      rw [hrun]
      cases r with
      | none => exact hfailed e₂ (hfail rfl)
      | some s' =>
        obtain ⟨hallocs₂, htotalIn, htotal₂, hsize₂, hprogress⟩ := hdone s' rfl
        dsimp only
        rw [htotalIn]
        have htotal₁ : slicesSize e₁ = 10 ∧ e₁.size = 10 := by rw [he₁]; exact ⟨rfl, rfl⟩
        cases hp' : e₂.prepare malloc 8 with
        | mk r e₃ =>
          cases r with
          | none => exact hfailed e₃ (prepare_none hp')
          | some validation =>
            have hallocs₃ : false ∉ e₃.allocs := by
              rw [(prepare_some hp').2, List.mem_append, not_or]
              exact ⟨hallocs₂, by decide⟩
            obtain ⟨htotal₃, hsize₃⟩ := size_push_prepared hp'
              (outUint32 (crc32 data) ++ outUint32 data.length)
            rw [htotal₂, htotal₁.1] at htotal₃
            rw [hsize₂, htotal₁.2, Nat.mod_add_mod] at hsize₃
            refine ⟨_, _, rfl, fun _ => hallocs₃, fun _ => ⟨by rw [hsize₃, gzipSize], fun hc => ?_,
              fun hfit hroom => ?_⟩, fun hmem => absurd hmem hallocs₃⟩
            · have hsum := hc.size
              rw [hsize₃, ← slicesSize, htotal₃] at hsum
              omega
            · obtain ⟨hp₁, hchunkSize, hbuffer₁⟩ := hstart.prepare (by
                show b.totalSize + chunkSize < 2 ^ 32
                omega) hp
              have hbuffer₁' : e₁.buffer.totalSize = b.totalSize + chunkSize := hbuffer₁
              obtain ⟨hp₂, hroom₂⟩ := hprogress rs gzipHeader hp₁ hchunkSize (by omega)
              obtain ⟨hp₃, hvalidation, -⟩ := hp₂.prepare hroom₂ hp'
              have hlen := length_trailer (crc32 data) data.length
              have hdone' := hp₃.push (by rw [hlen, hvalidation])
              rw [hlen, List.append_assoc] at hdone'
              refine hdone'.complete ?_
              rw [hsize₃, htotal₃]
              omega

/-- A compressor that makes `z` of everything. -/
def Deflate.always (z : Bytes) : Deflate (Bytes × Nat) where
  init data := some (z, data.length)
  step s n := (s.1.take n, if s.1.length ≤ n then .streamEnd else .ok, (s.1.drop n, s.2))
  totalIn s := s.2

theorem Deflate.always_finishes (data z : Bytes) : (Deflate.always z).Finishes data z := by
  refine ⟨fun s rest => s = (rest, data.length), ⟨_, rfl, rfl⟩, ?_⟩
  rintro s rest n rfl hn
  refine ⟨rest.take n, rest.drop n, (rest.drop n, data.length), (List.take_append_drop n rest).symm,
    List.length_take_le n rest, ?_⟩
  have hcall : (always z).step (rest, data.length) n = (rest.take n,
      if rest.length ≤ n then .streamEnd else .ok, (rest.drop n, data.length)) := rfl
  by_cases hle : rest.length ≤ n
  · rw [if_pos hle] at hcall
    exact .inr ⟨hcall, List.drop_of_length_le hle, rfl⟩
  · rw [if_neg hle] at hcall
    exact .inl ⟨hcall, by rw [List.length_take]; omega, rfl⟩

/-- A body of one `A`, as `deflate` compresses it. -/
theorem gzip_complete_small :
    ∃ size e, gzipEncode (.always [115, 4, 0]) (fun _ => true) (fun _ => 3554254475) (ascii "A") .new
        (fun _ _ => 0) 4 = some (size, e) ∧
      ((∀ _ : Nat, true = true) → false ∉ e.allocs) ∧
      (false ∉ e.allocs → size = gzipSize [115, 4, 0] ∧
        (Complete 3554254475 (ascii "A") [115, 4, 0] size e → [115, 4, 0].length + 18 < 2 ^ 32) ∧
        ([115, 4, 0].length + 18 < 2 ^ 32 →
          CacheBuffer.new.totalSize + min 4096 (ascii "A").length + [115, 4, 0].length + 8 < 2 ^ 32 →
          Complete 3554254475 (ascii "A") [115, 4, 0] size e)) ∧
      (false ∈ e.allocs →
        size = 0 ∧ ∀ s p mimeType, gzipWith s p mimeType (ascii "A") (size, e) = none) :=
  gzip_complete (Deflate.always_finishes _ _) (by decide) (fun _ => true) (fun _ => 3554254475)
    (CacheBuffer.holds_reset : CacheBuffer.Holds 2048 (CacheBuffer.reset .new) []) (fun _ _ => 0)
    (by decide)

/-- Data of 2³² - 1 bytes that `deflate` does not make shorter: what is returned is too small. -/
theorem not_complete_wide :
    ∃ data : Bytes, data = List.replicate (2 ^ 32 - 1) 7 ∧
      ∃ size e, gzipEncode (.always data) (fun _ => true) (fun _ => 0) data .new (fun _ _ => 0)
        (2 ^ 32) = some (size, e) ∧ false ∉ e.allocs ∧ ¬ Complete 0 data data size e := by
  have hlen : (List.replicate (2 ^ 32 - 1) (7 : UInt8)).length = 2 ^ 32 - 1 := List.length_replicate
  generalize List.replicate (2 ^ 32 - 1) (7 : UInt8) = data at *
  have hdata : data ≠ [] := List.ne_nil_of_length_pos (by rw [hlen]; decide)
  obtain ⟨size, e, hrun, hgranted, hcomplete, -⟩ := gzip_complete (Deflate.always_finishes data data)
    hdata (fun _ => true) (fun _ => 0)
    (CacheBuffer.holds_reset : CacheBuffer.Holds 2048 (CacheBuffer.reset .new) []) (fun _ _ => 0)
    (by rw [hlen]; decide : data.length < 2 ^ 32)
  have hallocs := hgranted fun _ => rfl
  refine ⟨data, rfl, size, e, hrun, hallocs, fun hc => ?_⟩
  have hlt := (hcomplete hallocs).2.1 hc
  rw [hlen] at hlt
  exact absurd hlt (by decide)

end Xixi.Http
