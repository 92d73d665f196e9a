import Xixi.Parsing
import Xixi.Moves.Operation

/-!
# Counters (`Cache_Mgr::delta`)

A counter is an item whose data is the decimal text of a 64-bit number. A call of `delta` reads the
number with `safe_toi64`, adds in two's complement and prints the sum over the data or into a new
item. The text of -2^63 is the one that `safe_toi64` does not read back: the digits overflow before
the sign is applied, and `delta` goes on with 0.

1. `safeToi64_formatInt64`: what is printed is read back, but for -2^63.
2. `length_ext_lt`: in every reachable state the length of an extension fits 8 bits.
3. `delta_step`: what a successful call returns and stores.
4. `counts_iff`: a sequence of calls counts exactly if and only if the count is never -2^63.
-/

namespace Xixi

open Lib DecimalLemmas ParsingLemmas

/-- A 64-bit signed number. -/
def InInt64 (v : Int) : Prop := -2 ^ 63 ≤ v ∧ v < 2 ^ 63

instance (v : Int) : Decidable (InInt64 v) := inferInstanceAs (Decidable (_ ∧ _))

/-- The number that `delta` finds in the data of an item. -/
def CacheItem.number (it : CacheItem) : Int :=
  (safeToi64 (fun i => it.body (it.keyLength + i)) it.dataSize).getD 0

/-- A call of `delta`, but for the key. -/
structure DeltaCall where
  o : Malloc
  incr : Bool
  delta : Int
  cacheId : Nat

namespace DeltaCall

def op (c : DeltaCall) (k : Key) : Op := .delta c.o k.1 k.2 c.incr c.delta c.cacheId

/-- What the call adds. -/
def amount (c : DeltaCall) : Int := if c.incr then c.delta else -c.delta

end DeltaCall

/-- A successful call on the item `k`, with the value it returns. -/
def Sys.DeltaStep (env : Env) (k : Key) (x : Sys) (l : DeltaCall × Int) (y : Sys) : Prop :=
  ∃ id, x.RoomStep env (l.1.op k, .delta (.success, id, l.2)) y

/-- The count after some calls, modulo 2^64 in two's complement. -/
def countAfter (v : Int) (t : List (Sys × (DeltaCall × Int))) : Int :=
  wrap64 (v + (t.map fun c => c.2.1.amount).sum)

/-- The item `k` is a counter that stands at `v`, reads so, and is like `e` otherwise. -/
def StandsAt (env : Env) (k : Key) (e : Entry) (v : Int) (x : Sys) : Prop :=
  ∃ e', (abs env x.mgr).entry k = some e' ∧ e'.data = formatInt64 v ∧
    (x.mgr.item e'.ptr).number = v ∧ e'.flags = e.flags ∧ e'.ext = e.ext ∧
    e'.expireTime = e.expireTime

/-- After each of the calls the counter stands at the count, and that is what was returned. -/
def Counts (env : Env) (k : Key) (e : Entry) (v : Int) (x : Sys)
    (t : List (Sys × (DeltaCall × Int))) : Prop :=
  ∀ t' y, t' <+: t → Run (Sys.DeltaStep env k) x t' y → StandsAt env k e (countAfter v t') y ∧
    ∀ c ∈ t'.getLast?, c.2.2 = countAfter v t'

/-! ## Printing and reading -/

namespace CounterLemmas

theorem takeWhile_natDigits (fuel n : Nat) :
    (natDigits fuel n).takeWhile isDigit = natDigits fuel n :=
  List.takeWhile_eq_self_iff.mpr isDigit_natDigits

theorem decimalValue_natDigits {n : Nat} (h : n ≤ 2 ^ 63) : decimalValue (natDigits 19 n) = n :=
  foldl_natDigits (h.trans_lt (by decide))

/-- Sign and digits of what is printed. -/
theorem formatInt64_spec {v : Int} (h : InInt64 v) :
    unblank (formatInt64 v) ≠ [] ∧ numeral (formatInt64 v) = v ∧
      decimalValue (digitRun (formatInt64 v)) = v.natAbs := by
  obtain ⟨hlo, hhi⟩ := h
  rw [formatInt64]
  split
  · next hneg =>
    have hblank : unblank (45 :: natDigits 19 (-v).toNat) = 45 :: natDigits 19 (-v).toNat := rfl
    have hminus : negative (45 :: natDigits 19 (-v).toNat) = true := (negative_cons hblank).mpr rfl
    have hvalue : decimalValue (digitRun (45 :: natDigits 19 (-v).toNat)) = (-v).toNat := by
      rw [digitRun_cons hblank, if_pos (Or.inl rfl), takeWhile_natDigits]
      exact decimalValue_natDigits (by omega)
    refine ⟨by rw [hblank]; exact List.cons_ne_nil _ _, ?_, by omega⟩
    rw [numeral, if_pos hminus, hvalue]
    omega
  · next hpos =>
    obtain ⟨c, rest, hcons⟩ := List.exists_cons_of_ne_nil (natDigits_ne_nil 18 v.toNat)
    have hc : isDigit c = true := isDigit_natDigits c (by rw [hcons]; exact List.mem_cons_self)
    have hblank : unblank (natDigits 19 v.toNat) = c :: rest := by
      rw [unblank, hcons, List.dropWhile_cons_of_neg (by rw [not_space_of_digit hc]; decide)]
    have hplus : ¬ negative (natDigits 19 v.toNat) = true :=
      fun hn => not_sign_of_digit hc (.inl ((negative_cons hblank).mp hn))
    have hvalue : decimalValue (digitRun (natDigits 19 v.toNat)) = v.toNat := by
      rw [digitRun_cons hblank, if_neg (not_sign_of_digit hc), ← hcons, takeWhile_natDigits]
      exact decimalValue_natDigits (by omega)
    refine ⟨by rw [hblank]; exact List.cons_ne_nil _ _, ?_, by omega⟩
    rw [numeral, if_neg hplus, hvalue]
    omega

end CounterLemmas

open CounterLemmas

/-- What is printed is read back, but for -2^63. -/
theorem safeToi64_formatInt64 {mem : Nat → UInt8} {n : Nat} {v : Int} (hv : InInt64 v)
    (h : slice mem 0 n = formatInt64 v) :
    safeToi64 mem n = if v = -2 ^ 63 then none else some v := by
  obtain ⟨hblank, hnumeral, hvalue⟩ := formatInt64_spec hv
  have hn : n < 2 ^ 32 := by
    have hlen := length_formatInt64_le v
    rw [← h, length_slice] at hlen
    omega
  rw [← h] at hblank hnumeral hvalue
  rw [safeToi64_eq]
  split
  · next hmin =>
    -- the digits are one too large
    have hlimit : decimalValue (digitRun (slice mem 0 n)) = IntType.i64.limit := by
      rw [hvalue, hmin]
      decide
    obtain ⟨c, rest, hb⟩ := List.exists_cons_of_ne_nil hblank
    rw [result_parse hb hn]
    exact (parsed_spec hb (.inl rfl)).1.mpr (shrinks_of_limit rfl hlimit)
  · next hmin =>
    have hlt : decimalValue (digitRun (slice mem 0 n)) < IntType.i64.limit := by
      obtain ⟨hlo, hhi⟩ := hv
      rw [hvalue]
      show v.natAbs < 2 ^ 63
      omega
    rw [parse_of_lt hn hblank (.inl rfl) hlt, hnumeral]

theorem number_of_data {it : CacheItem} {v : Int} (hv : InInt64 v) (h : it.data = formatInt64 v) :
    it.number = if v = -2 ^ 63 then 0 else v := by
  have hslice : slice (fun i => it.body (it.keyLength + i)) 0 it.dataSize = formatInt64 v := by
    rw [← h, CacheItem.data, slice, slice]
    simp only [Nat.zero_add]
  rw [CacheItem.number, safeToi64_formatInt64 hv hslice]
  split
  · rfl
  · rfl

/-! ## Lengths of extensions -/

/-- `ext_size` is a `uint8_t`. -/
def ExtFits (s : CacheMgr) : Prop := ∀ p, s.Referenced p → (s.item p).extSize < 2 ^ 8

variable {env : Env} {x y : Sys}

namespace CounterLemmas

theorem extFits_same {s s' : CacheMgr} (h : ExtFits s) (hs : SameChunks s s') : ExtFits s' := by
  intro p hp
  have hext : (s'.item p).extSize = (s.item p).extSize := congrArg (·.2.2.2.2) (hs.shape p)
  rw [hext]
  exact h p ((hs.referenced p).mp hp)

theorem extFits_of_ne {s s' : CacheMgr} {p q : Ptr} (h : ExtFits s)
    (hitem : ∀ q, q ≠ p → s'.item q = s.item q) (hq : s'.Referenced q) (hne : q ≠ p) :
    (s'.item q).extSize < 2 ^ 8 := by
  rw [CacheMgr.Referenced, hitem q hne] at hq
  rw [hitem q hne]
  exact h q hq

theorem extFits_move {A : Scope} {s s' : CacheMgr} (m : Move env A s s') (h : ExtFits s) :
    ExtFits s' := by
  cases m with
  | quiet hm => exact extFits_same h hm.toSameChunks
  | link p hm => exact extFits_same h hm.toSameChunks
  | detach p hm => exact extFits_same h hm.toSameChunks
  | alloc p id hm =>
    intro q hq
    by_cases hqp : q = p
    · exact hqp ▸ hm.extSize
    · exact extFits_of_ne h hm.item hq hqp
  | free p hm =>
    intro q hq
    by_cases hqp : q = p
    · exact absurd (hqp ▸ hq) hm.idle
    · exact extFits_of_ne h hm.item hq hqp

/-- The states that can be reached. -/
def SysSound (env : Env) (x : Sys) : Prop := (∃ lost, SysInv env lost x) ∧ ExtFits x.mgr

theorem sound_step {l : Op × Outcome} (hx : SysSound env x) (h : x.RoomStep env l y) :
    SysSound env y := by
  obtain ⟨held, L, held', L', hcore, -, hroom, hready, hexec⟩ := SysInv.core hx.1 h
  refine ⟨(SysInv.act hx.1 h).1, ?_⟩
  have hmoves := moves_exec hcore hroom hready
  rw [hexec] at hmoves
  exact hmoves.invariant (fun _ _ _ m hI => extFits_move m hI) hx.2

variable {lastTime limit itemSizeMax itemSizeMin : Nat} {factor : Rat}

theorem sound_start : SysSound env (Sys.start env lastTime limit itemSizeMax itemSizeMin factor) := by
  refine ⟨⟨_, sysInv_start⟩, fun p hp => ?_⟩
  obtain ⟨m, i, f, he⟩ :=
    SystemLemmas.init_eq env (CacheMgr.new lastTime) limit itemSizeMax itemSizeMin factor
  have hmgr : (Sys.start env lastTime limit itemSizeMax itemSizeMin factor).mgr =
      { CacheMgr.new lastTime with
        maxSize := m, classIdMax := i, freeCacheMaxCount := f, memLimit := limit } := he
  rw [hmgr] at hp
  exact nomatch hp

theorem sound_run {t : List (Sys × (Op × Outcome))}
    (h : Run (Sys.RoomStep env) (Sys.start env lastTime limit itemSizeMax itemSizeMin factor) t x) :
    SysSound env x :=
  h.invariant (I := SysSound env) (fun _ _ _ hx hs => sound_step hx hs) sound_start

theorem sound_calls {k : Key} {t : List (Sys × (DeltaCall × Int))} (hx : SysSound env x)
    (h : Run (Sys.DeltaStep env k) x t y) : SysSound env y := by
  refine h.invariant (I := SysSound env) (fun _ _ _ hx hs => ?_) hx
  obtain ⟨id, hs⟩ := hs
  exact sound_step hx hs

/-- The entry of a key shows the item that is stored there. -/
theorem item_of_entry {k : Key} {e : Entry} (hx : SysSound env x)
    (h : (abs env x.mgr).entry k = some e) :
    (x.mgr.item e.ptr).data = e.data ∧ (x.mgr.item e.ptr).ext = e.ext ∧
      x.mgr.Referenced e.ptr := by
  obtain ⟨lost, hx⟩ := hx.1
  obtain ⟨L, hL⟩ := hx.inv
  obtain ⟨p, hp, -, rfl⟩ := (abs_entry_iff hL).mp h
  exact ⟨rfl, rfl, hL.pos_of_linked hp⟩

end CounterLemmas

/-- In every reachable state the length of an extension fits 8 bits. -/
theorem length_ext_lt {k : Key} {e : Entry} (hx : SysSound env x)
    (h : (abs env x.mgr).entry k = some e) : e.ext.length < 2 ^ 8 := by
  obtain ⟨-, hext, hused⟩ := item_of_entry hx h
  rw [← hext, CacheItem.length_ext]
  exact hx.2 _ hused

/-! ## Calls -/

/-- A successful call overwrites the data, or stores the item it has allocated. -/
theorem Store.delta_success {st st' : Store} {k : Key} {e : Entry} {x id : Nat} {v value : Int}
    {buf : Bytes} {new : Option Entry} (he : st.entry k = some e)
    (h : st.delta k x v buf new = ((.success, id, value), st')) :
    value = v ∧ ∃ e', st'.entry k = some e' ∧
      (e' = { e with data := buf, cacheId := st.nextId } ∨
        ∃ ne, new = some ne ∧ e' = { ne with cacheId := st.nextId }) := by
  by_cases hm : x = 0 ∨ x = e.cacheId
  · by_cases hlen : buf.length = e.data.length
    · rw [delta_inPlace he hm hlen] at h
      obtain ⟨hr, rfl⟩ := Prod.mk.inj h
      refine ⟨(Prod.mk.inj (Prod.mk.inj hr).2).2.symm, _, ?_, .inl rfl⟩
      rw [entry_link, Function.update_self]
    · rw [delta_realloc he hm hlen] at h
      cases new with
      | none => cases (Prod.mk.inj (Prod.mk.inj h).1).1
      | some ne =>
        obtain ⟨hr, rfl⟩ := Prod.mk.inj h
        refine ⟨(Prod.mk.inj (Prod.mk.inj hr).2).2.symm, _, ?_, .inr ⟨ne, rfl, rfl⟩⟩
        rw [entry_link, Function.update_self]
        simp [Store.nextId]
  · rw [delta_mismatch he hm] at h
    cases (Prod.mk.inj (Prod.mk.inj h).1).1

/-- What a successful call returns and stores. -/
theorem delta_step {k : Key} {e : Entry} {c : DeltaCall} {value : Int} (hx : SysSound env x)
    (he : (abs env x.mgr).entry k = some e) (h : x.DeltaStep env k (c, value) y) :
    value = wrap64 ((x.mgr.item e.ptr).number + c.amount) ∧
      ∃ e', (abs env y.mgr).entry k = some e' ∧ e'.data = formatInt64 value ∧
        e'.flags = e.flags ∧ e'.ext = e.ext ∧ e'.expireTime = e.expireTime := by
  obtain ⟨i, h⟩ := h
  obtain ⟨-, a, hacts, hact⟩ := SysInv.act hx.1 h
  have hlen := length_ext_lt hx he
  cases hacts with
  | @delta _ _ _ _ _ _ v new hnew =>
    obtain ⟨hv, hne⟩ := hnew e he
    have hdelta : (abs env x.mgr).delta k c.cacheId v (formatInt64 v) new =
        ((.success, i, value), abs env y.mgr) := by
      obtain ⟨hr, hst⟩ := Prod.mk.inj hact
      exact Prod.ext (Outcome.delta.inj hr) hst
    obtain ⟨rfl, e', he', hcases⟩ := Store.delta_success he hdelta
    refine ⟨?_, e', he', ?_⟩
    · rw [hv, DeltaCall.amount]
      cases c.incr with
      | true => rfl
      | false => exact congrArg wrap64 (Int.sub_eq_add_neg ..)
    · rcases hcases with rfl | ⟨ne, hn, rfl⟩
      · exact ⟨rfl, rfl, rfl, rfl⟩
      · have hspec := hne ne hn
        refine ⟨(hspec.data (Nat.add_zero _)).trans (List.append_nil _), hspec.flags, ?_,
          hspec.expireTime⟩
        exact hspec.ext (Nat.mod_eq_of_lt hlen).symm

namespace CounterLemmas

theorem inInt64_wrap64 (v : Int) : InInt64 (wrap64 v) := by
  have hlo := Int.le_bmod (x := v) (m := 2 ^ 64) (by decide)
  have hhi := Int.bmod_lt (x := v) (m := 2 ^ 64) (by decide)
  exact ⟨hlo, hhi⟩

theorem wrap64_of_inInt64 {v : Int} (h : InInt64 v) : wrap64 v = v := by
  obtain ⟨hlo, hhi⟩ := h
  exact Int.bmod_eq_of_le (by omega) (by omega)

theorem wrap64_wrap64_add (v d : Int) : wrap64 (wrap64 v + d) = wrap64 (v + d) :=
  Int.bmod_add_bmod

theorem countAfter_nil {v : Int} (h : InInt64 v) : countAfter v [] = v := by
  show wrap64 (v + 0) = v
  rw [Int.add_zero]
  exact wrap64_of_inInt64 h

theorem countAfter_concat (v : Int) (t : List (Sys × (DeltaCall × Int)))
    (c : Sys × (DeltaCall × Int)) :
    countAfter v (t ++ [c]) = wrap64 (countAfter v t + c.2.1.amount) := by
  rw [countAfter, countAfter, wrap64_wrap64_add, List.map_append, List.sum_append, Int.add_assoc,
    List.map_singleton, List.sum_singleton]

/-- A counter that does not stand at -2^63 reads so. -/
theorem standsAt_of_data {k : Key} {e e' : Entry} {v : Int} (hx : SysSound env x) (hv : InInt64 v)
    (he : (abs env x.mgr).entry k = some e') (hdata : e'.data = formatInt64 v)
    (hrest : e'.flags = e.flags ∧ e'.ext = e.ext ∧ e'.expireTime = e.expireTime)
    (hmin : v ≠ -2 ^ 63) : StandsAt env k e v x := by
  have hnumber := number_of_data hv ((item_of_entry hx he).1.trans hdata)
  rw [if_neg hmin] at hnumber
  exact ⟨e', he, hdata, hnumber, hrest⟩

theorem not_standsAt_min {k : Key} {e : Entry} (hx : SysSound env x) :
    ¬ StandsAt env k e (-2 ^ 63) x := by
  rintro ⟨e', he', hdata, hread, -⟩
  have hnumber := number_of_data (by decide) ((item_of_entry hx he').1.trans hdata)
  rw [hread, if_pos rfl] at hnumber
  exact nomatch hnumber

/-- As long as the count is not -2^63, it is the one of the numbers. -/
theorem counts_run {k : Key} {e : Entry} {v : Int} {t : List (Sys × (DeltaCall × Int))}
    (hx : SysSound env x) (he : (abs env x.mgr).entry k = some e) (hdata : e.data = formatInt64 v)
    (hv : InInt64 v) (h : Run (Sys.DeltaStep env k) x t y)
    (hmin : ∀ t', t' <+: t → countAfter v t' ≠ -2 ^ 63) :
    StandsAt env k e (countAfter v t) y ∧ ∀ c ∈ t.getLast?, c.2.2 = countAfter v t := by
  induction h with
  | nil =>
    refine ⟨?_, nofun⟩
    have hne := hmin [] (List.nil_prefix)
    rw [countAfter_nil hv] at hne ⊢
    exact standsAt_of_data hx hv he hdata ⟨rfl, rfl, rfl⟩ hne
  | @snoc y z t c run last ih =>
    obtain ⟨⟨e₁, he₁, -, hread, hflags, hext, hexp⟩, -⟩ :=
      ih fun t' ht' => hmin t' (ht'.trans (List.prefix_append _ _))
    have hy : SysSound env y := sound_calls hx run
    have hz : SysSound env z := sound_calls hx (.snoc run last)
    obtain ⟨hvalue, e₂, he₂, hdata₂, hflags₂, hext₂, hexp₂⟩ := delta_step (c := c.1) hy he₁ last
    rw [hread] at hvalue
    have hcount : c.2 = countAfter v (t ++ [(y, c)]) := by
      rw [countAfter_concat]
      exact hvalue
    refine ⟨?_, fun c' hc' => ?_⟩
    · have hrange : InInt64 (countAfter v (t ++ [(y, c)])) := inInt64_wrap64 _
      rw [hcount] at hdata₂
      exact standsAt_of_data hz hrange he₂ hdata₂
        ⟨hflags₂.trans hflags, hext₂.trans hext, hexp₂.trans hexp⟩ (hmin _ (List.prefix_refl _))
    · rw [List.getLast?_concat] at hc'
      obtain rfl := Option.some.inj hc'
      exact hcount

end CounterLemmas

variable {lastTime limit itemSizeMax itemSizeMin : Nat} {factor : Rat}
  {t₀ : List (Sys × (Op × Outcome))} {t : List (Sys × (DeltaCall × Int))}

/-- In every reachable state, a sequence of successful calls on a counter counts exactly if and
only if the count is never -2^63. -/
theorem counts_iff {k : Key} {e : Entry} {v : Int}
    (h : Run (Sys.RoomStep env) (Sys.start env lastTime limit itemSizeMax itemSizeMin factor) t₀ x)
    (he : (abs env x.mgr).entry k = some e) (hdata : e.data = formatInt64 v) (hv : InInt64 v)
    (hcalls : Run (Sys.DeltaStep env k) x t y) :
    Counts env k e v x t ↔ ∀ t', t' <+: t → countAfter v t' ≠ -2 ^ 63 := by
  have hx := sound_run h
  constructor
  · intro hcounts t' hpre hmin
    obtain ⟨t'', rfl⟩ := hpre
    obtain ⟨z, hrun, -⟩ := hcalls.split
    have hstands := (hcounts t' z (List.prefix_append _ _) hrun).1
    rw [hmin] at hstands
    exact not_standsAt_min (sound_calls hx hrun) hstands
  · intro hmin t' z hpre hrun
    exact counts_run hx he hdata hv hrun fun t'' ht'' => hmin t'' (ht''.trans hpre)

/-- The item `k` of group 1 holds some data. -/
def counterOps (data : Bytes) : List Op :=
  [.alloc .zeros 1 1 0 0 data.length 0, .fill 0 ⟨[107], data, [], 0⟩, .update .set .zeros 0 0,
    .releaseReference 0]

/-- 5 and 7 are 12. -/
theorem counts_small :
    let env := Env.colliding .uint16
    let x := (Sys.small .uint16).execAll env (counterOps [53])
    ∃ e, (abs env x.mgr).entry (1, [107]) = some e ∧
      Counts env (1, [107]) e 5 x [(x, ⟨.zeros, true, 7, 0⟩, 12)] := by
  intro env x
  have hrun : Run (Sys.RoomStep env) (Sys.small .uint16) _ x :=
    Sys.roomRun_execAll (by decide +kernel) (by decide +kernel)
  have hdata : ((abs env x.mgr).entry (1, [107])).map Entry.data = some (formatInt64 5) := by
    decide +kernel
  obtain ⟨e, he, hd⟩ := Option.map_eq_some_iff.mp hdata
  have hcalls : Run (Sys.DeltaStep env (1, [107])) x [(x, ⟨.zeros, true, 7, 0⟩, 12)]
      (x.execAll env [.delta .zeros 1 [107] true 7 0]) :=
    .single ⟨2, by decide +kernel, Sys.step_execAll (by decide) (by decide +kernel)⟩
  refine ⟨e, he, (counts_iff hrun he hd (by decide) hcalls).mpr fun t' ht' => ?_⟩
  rcases List.prefix_cons_iff.mp ht' with rfl | ⟨t'', rfl, ht''⟩
  · decide
  · rw [List.prefix_nil.mp ht'']
    decide

/-- -9223372036854775808 and 5 are 5. -/
theorem not_counts_min :
    let env := Env.colliding .uint16
    let x := (Sys.small .uint16).execAll env (counterOps (formatInt64 (-2 ^ 63)))
    let y := x.execAll env [.delta .zeros 1 [107] true 5 0]
    (∃ t, Run (Sys.RoomStep env) (Sys.small .uint16) t x) ∧
      ((abs env x.mgr).entry (1, [107])).map Entry.data = some (formatInt64 (-2 ^ 63)) ∧
      Run (Sys.DeltaStep env (1, [107])) x [(x, ⟨.zeros, true, 5, 0⟩, 5)] y ∧
      ∀ e, ¬ Counts env (1, [107]) e (-2 ^ 63) x [(x, ⟨.zeros, true, 5, 0⟩, 5)] := by
  intro env x y
  have hcalls : Run (Sys.DeltaStep env (1, [107])) x [(x, ⟨.zeros, true, 5, 0⟩, 5)] y :=
    .single ⟨2, by decide +kernel, Sys.step_execAll (by decide) (by decide +kernel)⟩
  refine ⟨⟨_, Sys.roomRun_execAll (by decide +kernel) (by decide +kernel)⟩, by decide +kernel,
    hcalls, fun e hcounts => ?_⟩
  have hvalue := (hcounts _ y (List.prefix_refl _) hcalls).2 _ rfl
  exact absurd hvalue (by decide)

end Xixi
