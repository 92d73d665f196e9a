import Xixi.Client.MultiGet

/-!
# What an update of a batch reads (`MultiUpdate.java`)

As in `MultiGet`, but a response has no data, and its outcome is kept in the item. The state is left
as it is when the last response has been read.

1. `Core.next`, `phases`: the code of `processResponse`.
2. `Right`: the items of the responses that have been read have their outcomes, and the successes are
   counted. `Assigned`: so it is after every call, and the last response ends the reading.
3. `assigned`: it is always so.
4. `batches_assigned`: a batch of `MultiGet` and a batch of updates.
-/

namespace Xixi.MultiUpdate

open Lib NonBlocking PeerCache

/-! ## The connection -/

/-- `STATE_READ_HEAD` and its siblings. -/
inductive State
  | readHead
  | readFixedBody
  | readError
deriving DecidableEq, Repr

/-- What `processResponse` uses of a `MultiUpdateItem`. -/
structure Item (K : Type) where
  key : K
  reason : Int16
  newCacheId : Int64
deriving DecidableEq

/-- The items of a connection, and `successCount` of the operation before it reads. A connection is
made for the first item. -/
structure Batch (K : Type) where
  items : List (Item K)
  successCount : Nat
  nonempty : items ≠ []

/-- `removed` are the keys that have been removed from the local cache, and `thrown` is an exception
that leaves `processResponse`. -/
structure Core (K : Type) where
  state : State
  cacheId : Int64
  decodeCount : Nat
  isDone : Bool
  thrown : Bool
  items : List (Item K)
  successCount : Nat
  removed : List K
  lastError : Option String
deriving DecidableEq

variable {K : Type}

structure Connection (K : Type) where
  core : Core K
  header : ByteBuffer
  fixed : ByteBuffer
  errorRes : ByteBuffer
deriving DecidableEq

namespace Core

variable (b : Batch K) (s : Core K)

def start : Core K := ⟨.readHead, 0, 0, false, false, b.items, b.successCount, [], none⟩

def onHeader (header : Bytes) : Core K :=
  let category := getU8 header
  let type := getU8 (header.drop 1)
  if category = 2 ∧ type = 7 then { s with state := .readFixedBody } else { s with state := .readError }

/-- `if (items.size() == decode_count)`. -/
def advance : Core K :=
  if s.items.length = s.decodeCount then { s with isDone := true } else { s with state := .readHead }

def onFixed (fixed : Bytes) : Core K :=
  let s := { s with cacheId := (getU64 fixed).toInt64 }
  match s.items[s.decodeCount]? with
  | none => { s with thrown := true }
  | some item =>
    advance { s with
      removed := s.removed ++ [item.key]
      items := s.items.set s.decodeCount { item with newCacheId := s.cacheId }
      decodeCount := s.decodeCount + 1
      successCount := s.successCount + 1 }

def onError (errorRes : Bytes) : Core K :=
  let reason := (getU16 errorRes).toInt16
  match s.items[s.decodeCount]? with
  | none => { s with thrown := true }
  | some item =>
    advance { s with
      items := s.items.set s.decodeCount { item with reason }
      decodeCount := s.decodeCount + 1
      lastError := some ("processResponse, response error reason=" ++ toString reason.toInt) }

/-- What is done with a full buffer. -/
def next (bytes : Bytes) : Core K :=
  match s.state with
  | .readHead => s.onHeader bytes
  | .readFixedBody => s.onFixed bytes
  | .readError => s.onError bytes

def halted : Bool := s.isDone || s.thrown

/-- `HEADER_LENGTH`, `FIXED_LENGTH` and `ERROR_RES_LENGTH`. -/
def need : Nat :=
  if s.halted then 0
  else
    match s.state with
    | .readHead => 2
    | .readFixedBody => 8
    | .readError => 2

def stages : Stages (Core K) UInt8 := ⟨need, next⟩

end Core

namespace Connection

def start (b : Batch K) : Connection K := ⟨.start b, .allocate 2, .allocate 8, .allocate 2⟩

def headPhase : Phase (Connection K) where
  here c := c.core.state == .readHead
  buffer := header
  put c dst := { c with header := dst }
  full c bytes :=
    let core := c.core.onHeader bytes
    if core.state = .readFixedBody then ({ c with core, fixed := .allocate 8 }, true)
    else ({ c with core, errorRes := .allocate 2 }, true)

def fixedPhase : Phase (Connection K) where
  here c := c.core.state == .readFixedBody
  buffer := fixed
  put c dst := { c with fixed := dst }
  full c bytes :=
    let core := c.core.onFixed bytes
    if core.halted then ({ c with core }, false) else ({ c with core, header := .allocate 2 }, true)

def errorPhase : Phase (Connection K) where
  here c := c.core.state == .readError
  buffer := errorRes
  put c dst := { c with errorRes := dst }
  full c bytes :=
    let core := c.core.onError bytes
    if core.halted then ({ c with core }, false) else ({ c with core, header := .allocate 2 }, true)

/-- The body of the loop of `processResponse`. -/
def phases : List (Phase (Connection K)) := [headPhase, fixedPhase, errorPhase]

/-- The buffer of the state. -/
def buffer (c : Connection K) : ByteBuffer :=
  match c.core.state with
  | .readHead => c.header
  | .readFixedBody => c.fixed
  | .readError => c.errorRes

def reader : Reader (Core K) (Connection K) where
  stages := Core.stages
  core := core
  buffer := buffer
  halted := Core.halted

end Connection

/-! ## What the server sends -/

/-- A response to `UPDATE`. -/
inductive Response
  | success (cacheId : UInt64)
  | error (reason : UInt16)
deriving DecidableEq, Repr

namespace Response

def pdu : Response → ResPdu
  | success id => .update id
  | error reason => .error reason

/-- On a server of this kind. -/
def bytes (h : Host) (r : Response) : Bytes := r.pdu.encode h

def isSuccess : Response → Bool
  | success _ => true
  | error _ => false

/-- The item with the outcome. -/
def assign (item : Item K) : Response → Item K
  | success id => { item with newCacheId := id.toInt64 }
  | error reason => { item with reason := reason.toInt16 }

end Response

section Spec
variable (h : Host) (b : Batch K) (rs : List Response) (rest : Bytes)

/-- The responses, and what the server sends behind them. -/
def stream : Bytes := rs.flatMap (Response.bytes h) ++ rest

/-- Each of the first `n` responses has been assigned to its item, and the successes among them are
counted. -/
structure Results (n : Nat) (s : Core K) : Prop where
  items : ∀ j item r, b.items[j]? = some item → rs[j]? = some r →
    s.items[j]? = some (if j < n then r.assign item else item)
  length : s.items.length = b.items.length
  successes : s.successCount = b.successCount + (rs.take n).countP Response.isSuccess

/-- `left` has not been read yet. -/
structure Right (s : Core K) (left : Bytes) : Prop where
  suffix : left <:+ stream h rs rest
  notBeyond : rest.length ≤ left.length
  count : s.decodeCount = ended (Response.bytes h) rs ((stream h rs rest).length - left.length)
  results : Results b rs s.decodeCount s
  done : s.isDone = true ↔ left.length = rest.length
  noThrow : s.thrown = false

/-- However the bytes arrive in the calls, every call leaves the items right, and one in which
everything arrives is the last one. -/
def Assigned : Prop :=
  ∀ t c left, Run (Connection.reader.Step Connection.phases) (Connection.start b, stream h rs rest) t
      (c, left) →
    Right h b rs rest c.core left ∧
      (c.core.isDone = false → ∀ grants, Reader.Fed ⟨left, grants⟩ →
        (call Connection.phases c left grants).conn.core.isDone = true)

end Spec

/-! ## The `if`s of the connection -/

namespace MultiUpdateLemmas

@[simp] theorem halted_onHeader (s : Core K) (bytes : Bytes) : (s.onHeader bytes).halted = s.halted := by
  unfold Core.onHeader
  dsimp only
  split
  · rfl
  · rfl

theorem state_onHeader (s : Core K) (bytes : Bytes) :
    (s.onHeader bytes).state = .readFixedBody ∨ (s.onHeader bytes).state = .readError := by
  unfold Core.onHeader
  dsimp only
  split
  · exact .inl rfl
  · exact .inr rfl

/-- The state is left as it is where the reading ends. -/
def EndsOrGoesOn (s s' : Core K) : Prop :=
  s'.halted = true ∧ s'.state = s.state ∨ s'.halted = s.halted ∧ s'.state = .readHead

theorem endsOrGoesOn_advance (s : Core K) : EndsOrGoesOn s s.advance := by
  unfold Core.advance
  split
  · exact .inl ⟨Bool.true_or _, rfl⟩
  · exact .inr ⟨rfl, rfl⟩

theorem endsOrGoesOn_onFixed (s : Core K) (bytes : Bytes) : EndsOrGoesOn s (s.onFixed bytes) := by
  unfold Core.onFixed
  dsimp only
  split
  · exact .inl ⟨Bool.or_true _, rfl⟩
  · exact endsOrGoesOn_advance _

theorem endsOrGoesOn_onError (s : Core K) (bytes : Bytes) : EndsOrGoesOn s (s.onError bytes) := by
  unfold Core.onError
  dsimp only
  split
  · exact .inl ⟨Bool.or_true _, rfl⟩
  · exact endsOrGoesOn_advance _

/-- How much is read in the state, while the connection reads. -/
theorem need_of {s : Core K} {state : State} (hactive : s.halted = false) : s.state = state →
    s.need = match state with
      | .readHead => 2
      | .readFixedBody => 8
      | .readError => 2 := by
  rintro rfl
  rw [Core.need, hactive]
  exact if_neg Bool.false_ne_true

theorem next_of {s : Core K} {state : State} (bytes : Bytes) : s.state = state →
    s.next bytes = match state with
      | .readHead => s.onHeader bytes
      | .readFixedBody => s.onFixed bytes
      | .readError => s.onError bytes := by
  rintro rfl
  rfl

theorem buffer_of {c : Connection K} {state : State} : c.core.state = state →
    c.buffer = match state with
      | .readHead => c.header
      | .readFixedBody => c.fixed
      | .readError => c.errorRes := by
  rintro rfl
  rfl

theorem isPhase_head : (Connection.reader (K := K)).IsPhase Connection.headPhase := by
  have hcore : ∀ (c : Connection K) bytes,
      (Connection.headPhase.full c bytes).1.core = c.core.onHeader bytes := by
    intro c bytes
    dsimp only [Connection.headPhase]
    split
    · rfl
    · rfl
  have hnext : ∀ (c : Connection K) bytes, Connection.headPhase.here c = true →
      c.core.next bytes = c.core.onHeader bytes := fun c bytes h => next_of bytes (beq_iff_eq.mp h)
  refine ⟨fun c h => (buffer_of (beq_iff_eq.mp h)).symm, fun _ _ => rfl,
    fun c dst h => buffer_of (c := { c with header := dst }) (beq_iff_eq.mp h),
    fun c dst bytes h => (hcore _ bytes).trans (hnext c bytes h).symm, fun c dst bytes h hactive => ?_,
    fun c dst bytes h hactive => ?_⟩
  · change (c.core.next bytes).halted = false at hactive
    show Connection.buffer _ = ⟨[], (c.core.next bytes).need⟩
    rw [hnext c bytes h] at hactive ⊢
    dsimp only [Connection.headPhase]
    split
    · next hfixed =>
      rw [buffer_of hfixed, need_of hactive hfixed]
      rfl
    · next hother =>
      have herror := (state_onHeader c.core bytes).resolve_left hother
      rw [buffer_of herror, need_of hactive herror]
      rfl
  · have hgoesOn : (Connection.headPhase.full { c with header := dst } bytes).2 = true := by
      dsimp only [Connection.headPhase]
      split
      · rfl
      · rfl
    change c.core.halted = false at hactive
    show _ = !(c.core.next bytes).halted
    rw [hnext c bytes h, halted_onHeader, hactive]
    exact hgoesOn

/-- The end of a response, in either of its states. -/
def answered (c : Connection K) (core : Core K) : Connection K × Bool :=
  if core.halted then ({ c with core }, false) else ({ c with core, header := .allocate 2 }, true)

theorem core_answered (c : Connection K) (core : Core K) : (answered c core).1.core = core := by
  unfold answered
  split
  · rfl
  · rfl

theorem goesOn_answered (c : Connection K) (core : Core K) : (answered c core).2 = !core.halted := by
  unfold answered
  split
  · next hhalted => rw [hhalted, Bool.not_true]
  · next hactive => rw [Bool.eq_false_iff.mpr hactive, Bool.not_false]

theorem buffer_answered (c : Connection K) {s core : Core K} (h : EndsOrGoesOn s core)
    (hactive : core.halted = false) : (answered c core).1.buffer = ⟨[], core.need⟩ := by
  have hhead : core.state = .readHead := by
    rcases h with ⟨hhalted, -⟩ | ⟨-, hhead⟩
    · exact absurd (hactive.symm.trans hhalted) Bool.false_ne_true
    · exact hhead
  rw [answered, hactive, if_neg Bool.false_ne_true, buffer_of hhead, need_of hactive hhead]
  rfl

theorem isPhase_fixed : (Connection.reader (K := K)).IsPhase Connection.fixedPhase := by
  have hnext : ∀ (c : Connection K) bytes, Connection.fixedPhase.here c = true →
      c.core.next bytes = c.core.onFixed bytes := fun c bytes h => next_of bytes (beq_iff_eq.mp h)
  refine ⟨fun c h => (buffer_of (beq_iff_eq.mp h)).symm, fun _ _ => rfl,
    fun c dst h => buffer_of (c := { c with fixed := dst }) (beq_iff_eq.mp h),
    fun c dst bytes h => (core_answered _ _).trans (hnext c bytes h).symm,
    fun c dst bytes h hactive => ?_, fun c dst bytes h _ => ?_⟩
  · change (c.core.next bytes).halted = false at hactive
    show Connection.buffer _ = ⟨[], (c.core.next bytes).need⟩
    rw [hnext c bytes h] at hactive ⊢
    exact buffer_answered _ (endsOrGoesOn_onFixed c.core bytes) hactive
  · show _ = !(c.core.next bytes).halted
    rw [hnext c bytes h]
    exact goesOn_answered _ _

theorem isPhase_error : (Connection.reader (K := K)).IsPhase Connection.errorPhase := by
  have hnext : ∀ (c : Connection K) bytes, Connection.errorPhase.here c = true →
      c.core.next bytes = c.core.onError bytes := fun c bytes h => next_of bytes (beq_iff_eq.mp h)
  refine ⟨fun c h => (buffer_of (beq_iff_eq.mp h)).symm, fun _ _ => rfl,
    fun c dst h => buffer_of (c := { c with errorRes := dst }) (beq_iff_eq.mp h),
    fun c dst bytes h => (core_answered _ _).trans (hnext c bytes h).symm,
    fun c dst bytes h hactive => ?_, fun c dst bytes h _ => ?_⟩
  · change (c.core.next bytes).halted = false at hactive
    show Connection.buffer _ = ⟨[], (c.core.next bytes).need⟩
    rw [hnext c bytes h] at hactive ⊢
    exact buffer_answered _ (endsOrGoesOn_onError c.core bytes) hactive
  · show _ = !(c.core.next bytes).halted
    rw [hnext c bytes h]
    exact goesOn_answered _ _

/-- Where the reading ends the state is left as it is. -/
theorem loops : (Connection.reader (K := K)).Loops Connection.phases := by
  refine ⟨fun p hp => ?_, fun c _ => ?_, ?_⟩
  · simp only [Connection.phases, List.mem_cons, List.not_mem_nil, or_false] at hp
    rcases hp with rfl | rfl | rfl
    · exact isPhase_head
    · exact isPhase_fixed
    · exact isPhase_error
  · cases hstate : c.core.state with
    | readHead => exact ⟨_, List.mem_cons_self, beq_iff_eq.mpr hstate⟩
    | readFixedBody => exact ⟨_, List.mem_cons_of_mem _ List.mem_cons_self, beq_iff_eq.mpr hstate⟩
    | readError =>
      refine ⟨Connection.errorPhase, ?_, beq_iff_eq.mpr hstate⟩
      exact List.mem_cons_of_mem _ (List.mem_cons_of_mem _ List.mem_cons_self)
  · have hhead : ∀ q, (Connection.reader (K := K)).Ends Connection.headPhase q := by
      intro q c dst bytes hhere hactive hhalted
      change (c.core.next bytes).halted = true at hhalted
      change c.core.halted = false at hactive
      rw [next_of bytes (beq_iff_eq.mp hhere)] at hhalted
      dsimp only at hhalted
      rw [halted_onHeader] at hhalted
      exact absurd (hactive.symm.trans hhalted) Bool.false_ne_true
    have hfixed : (Connection.reader (K := K)).Ends Connection.fixedPhase Connection.errorPhase := by
      intro c dst bytes hhere hactive hhalted
      change (c.core.next bytes).halted = true at hhalted
      change c.core.halted = false at hactive
      rw [next_of bytes (beq_iff_eq.mp hhere)] at hhalted
      show ((answered _ (c.core.onFixed bytes)).1.core.state == .readError) = false
      rw [core_answered, beq_eq_false_iff_ne]
      rcases endsOrGoesOn_onFixed c.core bytes with ⟨-, hsame⟩ | ⟨hkept, -⟩
      · rw [hsame, beq_iff_eq.mp hhere]
        exact fun h => nomatch h
      · exact absurd ((hkept.trans hactive).symm.trans hhalted) Bool.false_ne_true
    refine .cons (fun q _ => hhead q) (.cons (fun q hq => ?_) (.cons ?_ .nil))
    · rw [List.mem_singleton.mp hq]
      exact hfixed
    · exact fun q hq => absurd hq List.not_mem_nil

/-! ## From one response to the next one -/

def head : Response → Bytes
  | .success _ => [2, 7]
  | .error _ => [0, 0]

def body : Response → Bytes
  | .success id => putU64 id
  | .error reason => putU16 reason

/-- The state in which the body is read. -/
def bodyState : Response → State
  | .success _ => .readFixedBody
  | .error _ => .readError

variable {b : Batch K} {rs : List Response} {r : Response} {s s' : Core K} {i : Nat} {h : Host}
  {bs left more buf : Bytes}

theorem bytes_eq (h : Host) (r : Response) : r.bytes h = head r ++ body r := by
  have hfound : putU16 (0x200 + 7) = [2, 7] := rfl
  have herror : putU16 (0 + 0) = [0, 0] := rfl
  cases r with
  | success id => simp only [Response.bytes, Response.pdu, ResPdu.encode, ResPdu.choice,
      Host.encodeUInt16_eq, Host.encodeUInt64_eq, hfound, head, body]
  | error reason => simp only [Response.bytes, Response.pdu, ResPdu.encode, ResPdu.choice,
      Host.encodeUInt16_eq, herror, head, body]

theorem length_head (r : Response) : (head r).length = 2 := by
  cases r with
  | success id => rfl
  | error reason => rfl

theorem onHeader_head (s : Core K) (r : Response) :
    s.onHeader (head r) = { s with state := bodyState r } := by
  have hfound : getU8 [2, 7] = 2 ∧ getU8 ([2, 7].drop 1) = 7 := by decide
  have herror : ¬ (getU8 [0, 0] = 2 ∧ getU8 ([0, 0].drop 1) = 7) := by decide
  unfold Core.onHeader
  cases r with
  | success id => exact if_pos hfound
  | error reason => exact if_neg herror

theorem need_body (hactive : s.halted = false) (r : Response) :
    ({ s with state := bodyState r } : Core K).need = (body r).length := by
  rw [need_of (s := { s with state := bodyState r }) hactive rfl]
  cases r with
  | success id => exact (length_putU64 id).symm
  | error reason => exact (length_putU16 reason).symm

theorem body_pos (r : Response) : 0 < (body r).length := by
  cases r with
  | success id => exact length_putU64 id ▸ by decide
  | error reason => exact length_putU16 reason ▸ by decide

/-- In front of the response with the number `i`. -/
structure At (b : Batch K) (rs : List Response) (i : Nat) (s : Core K) : Prop where
  reads : s.isDone = false → s.state = .readHead
  count : s.decodeCount = i
  isDone : s.isDone = (rs.length == i)
  thrown : s.thrown = false
  results : Results b rs i s

/-- Within it. -/
structure Within (b : Batch K) (rs : List Response) (i : Nat) (s : Core K) : Prop where
  count : s.decodeCount = i
  isDone : s.isDone = false
  thrown : s.thrown = false
  need : 0 < s.need
  results : Results b rs i s

theorem at_start (hlen : rs.length = b.items.length) : At b rs 0 (Core.start b) := by
  refine ⟨fun _ => rfl, rfl, ?_, rfl, fun j item r hj _ => ?_, rfl, ?_⟩
  · have hne : rs.length ≠ 0 := by
      rw [hlen]
      exact fun h => b.nonempty (List.length_eq_zero_iff.mp h)
    exact (beq_eq_false_iff_ne.mpr hne).symm
  · rw [if_neg (Nat.not_lt_zero j)]
    exact hj
  · rw [List.take_zero]
    rfl

theorem at_active (hat : At b rs i s) (hi : rs[i]? = some r) :
    s.isDone = false ∧ s.halted = false := by
  have hlt := (List.getElem?_eq_some_iff.mp hi).1
  have hdone : s.isDone = false := hat.isDone.trans (beq_eq_false_iff_ne.mpr hlt.ne')
  exact ⟨hdone, Bool.or_eq_false_iff.mpr ⟨hdone, hat.thrown⟩⟩

/-- The results do not depend on the state. -/
theorem results_state (hres : Results b rs i s) (state : State) :
    Results b rs i { s with state := state } :=
  ⟨hres.items, hres.length, hres.successes⟩

/-- The next item gets its outcome. -/
theorem results_set {item : Item K} (hres : Results b rs i s) (hr : rs[i]? = some r)
    (hitem : s.items[i]? = some item) (hitems : s'.items = s.items.set i (r.assign item))
    (hcount : s'.successCount = s.successCount + if r.isSuccess then 1 else 0) :
    Results b rs (i + 1) s' := by
  refine ⟨fun j x q hj hq => ?_, hitems ▸ List.length_set.trans hres.length, ?_⟩
  · rw [hitems]
    rcases Nat.lt_trichotomy j i with hlt | rfl | hgt
    · rw [List.getElem?_set_ne hlt.ne', hres.items j x q hj hq, if_pos hlt,
        if_pos (Nat.lt_succ_of_lt hlt)]
    · have hsame := hres.items j x q hj hq
      rw [hitem, if_neg (Nat.lt_irrefl j)] at hsame
      obtain rfl := Option.some.inj hsame
      obtain rfl := Option.some.inj (hr.symm.trans hq)
      rw [List.getElem?_set_self (List.getElem?_eq_some_iff.mp hitem).1, if_pos (Nat.lt_succ_self j)]
    · rw [List.getElem?_set_ne hgt.ne, hres.items j x q hj hq, if_neg (Nat.not_lt_of_gt hgt),
        if_neg (Nat.not_lt.mpr hgt)]
  · rw [hcount, hres.successes, List.take_add_one, hr, List.countP_append, Nat.add_assoc]
    exact congrArg _ (congrArg _ List.countP_singleton.symm)

theorem advance_eq (s : Core K) :
    s.advance.decodeCount = s.decodeCount ∧ s.advance.thrown = s.thrown ∧
      s.advance.items = s.items ∧ s.advance.successCount = s.successCount ∧
      s.advance.isDone = (s.isDone || s.items.length == s.decodeCount) ∧
      (s.advance.isDone = false → s.advance.state = .readHead) := by
  unfold Core.advance
  split
  · next hlast =>
    refine ⟨rfl, rfl, rfl, rfl, ?_, fun h => absurd h Bool.false_ne_true.symm⟩
    rw [beq_iff_eq.mpr hlast, Bool.or_true]
  · next hmore =>
    refine ⟨rfl, rfl, rfl, rfl, ?_, fun _ => rfl⟩
    rw [beq_eq_false_iff_ne.mpr hmore, Bool.or_false]

/-- The end of a response: an item has got its outcome. -/
theorem at_advance {item : Item K} {t : Core K} (hlen : rs.length = b.items.length)
    (hat : At b rs i s) (hr : rs[i]? = some r) (hitem : s.items[i]? = some item)
    (hitems : t.items = s.items.set i (r.assign item)) (hcount : t.decodeCount = i + 1)
    (hsuccess : t.successCount = s.successCount + if r.isSuccess then 1 else 0)
    (hdone : t.isDone = s.isDone) (hthrown : t.thrown = s.thrown) : At b rs (i + 1) t.advance := by
  obtain ⟨hcount', hthrown', hitems', hsuccess', hdone', hstate⟩ := advance_eq t
  have hsize : t.items.length = rs.length := by
    rw [hitems, List.length_set, hat.results.length, hlen]
  refine ⟨hstate, hcount'.trans hcount, ?_, (hthrown'.trans hthrown).trans hat.thrown,
    results_set hat.results hr hitem (hitems'.trans hitems) (hsuccess'.trans hsuccess)⟩
  rw [hdone', hdone, (at_active hat hr).1, Bool.false_or, hsize, hcount]

/-- The body of a response. -/
theorem at_body (hlen : rs.length = b.items.length) (hat : At b rs i s) (hr : rs[i]? = some r) :
    At b rs (i + 1) (({ s with state := bodyState r } : Core K).next (body r)) := by
  obtain ⟨item, hitem⟩ : ∃ item, s.items[i]? = some item := by
    refine ⟨_, List.getElem?_eq_getElem ?_⟩
    rw [hat.results.length, ← hlen]
    exact (List.getElem?_eq_some_iff.mp hr).1
  have hcount := hat.count
  subst hcount
  cases r with
  | success id =>
    have hid : getU64 (putU64 id) = id := by
      have hget := getU64_putU64 id []
      rwa [List.append_nil] at hget
    show At b rs _ (Core.onFixed _ (putU64 id))
    unfold Core.onFixed
    dsimp only
    rw [hitem, hid]
    exact at_advance hlen hat hr hitem rfl rfl rfl rfl rfl
  | error reason =>
    have hreason : getU16 (putU16 reason) = reason := by
      have hget := getU16_putU16 reason []
      rwa [List.append_nil] at hget
    show At b rs _ (Core.onError _ (putU16 reason))
    unfold Core.onError
    dsimp only
    rw [hitem, hreason]
    exact at_advance hlen hat hr hitem rfl rfl rfl rfl rfl

/-- A response is read in two parts. -/
theorem reads_front (hat : At b rs i s) (hr : rs[i]? = some r)
    (hstream : bs ++ left = r.bytes h ++ more) (hreads : Reads Core.stages s bs s' buf) :
    Within b rs i s' ∨ ∃ bs', bs = r.bytes h ++ bs' := by
  obtain ⟨hdone, hactive⟩ := at_active hat hr
  have hneed : s.need = 2 := need_of hactive (hat.reads hdone)
  have hnext : Core.stages.next s (head r) = { s with state := bodyState r } :=
    (next_of _ (hat.reads hdone)).trans (onHeader_head s r)
  have hneed' := need_body hactive r
  have hpos : 0 < s.need := hneed ▸ Nat.two_pos
  have hpos' : 0 < ({ s with state := bodyState r } : Core K).need := hneed' ▸ body_pos r
  have hseg : (head r).length = s.need := (length_head r).trans hneed.symm
  rw [bytes_eq, List.append_assoc] at hstream
  rcases hreads.front hpos hseg hstream with ⟨-, rfl⟩ | ⟨bs₁, rfl, hstream₁, hreads₁⟩
  · exact .inl ⟨hat.count, hdone, hat.thrown, hpos, hat.results⟩
  rw [hnext] at hreads₁
  rcases hreads₁.front hpos' hneed'.symm hstream₁ with ⟨-, rfl⟩ | ⟨bs₂, rfl, -, -⟩
  · exact .inl ⟨hat.count, hdone, hat.thrown, hpos', results_state hat.results _⟩
  · exact .inr ⟨bs₂, by rw [bytes_eq, List.append_assoc]⟩

theorem reads_whole (hlen : rs.length = b.items.length) (hr : rs[i]? = some r) (hat : At b rs i s) :
    ∃ s', At b rs (i + 1) s' ∧ Reads Core.stages s (r.bytes h) s' [] := by
  obtain ⟨hdone, hactive⟩ := at_active hat hr
  have hneed : s.need = 2 := need_of hactive (hat.reads hdone)
  have hnext : Core.stages.next s (head r) = { s with state := bodyState r } :=
    (next_of _ (hat.reads hdone)).trans (onHeader_head s r)
  have hneed' := need_body hactive r
  have hpos : 0 < s.need := hneed ▸ Nat.two_pos
  have hpos' : 0 < ({ s with state := bodyState r } : Core K).need := hneed' ▸ body_pos r
  have hseg : (head r).length = s.need := (length_head r).trans hneed.symm
  have hlast := Reads.go (m := Core.stages) hneed'.symm hpos' (.refl _)
  rw [List.append_nil] at hlast
  refine ⟨_, at_body hlen hat hr, ?_⟩
  rw [bytes_eq]
  refine .go hseg hpos ?_
  rw [hnext]
  exact hlast

theorem serves (h : Host) (hlen : rs.length = b.items.length) :
    (Connection.reader (K := K)).Serves (Core.start b) (Response.bytes h) rs (At b rs) (Within b rs) := by
  refine ⟨at_start hlen, fun i r s hr hat => reads_whole hlen hr hat,
    fun i r s bs s' buf hr hat hpre hlt hreads => ?_, fun i s hwithin => ⟨?_, hwithin.need⟩,
    fun s hat => ?_⟩
  · obtain ⟨left, hstream⟩ := hpre
    have hall : bs ++ left = r.bytes h ++ [] := hstream.trans (List.append_nil _).symm
    rcases reads_front hat hr hall hreads with hwithin | ⟨bs', rfl⟩
    · exact hwithin
    · rw [List.length_append] at hlt
      exact absurd hlt (Nat.not_lt.mpr (Nat.le_add_right _ _))
  · show (s.isDone || s.thrown) = false
    rw [hwithin.isDone, hwithin.thrown]
    rfl
  · have hhalted : s.halted = true := by
      rw [Core.halted, hat.isDone, beq_self_eq_true, Bool.true_or]
    exact ⟨hhalted, if_pos hhalted⟩

end MultiUpdateLemmas

open MultiUpdateLemmas

variable {h : Host} {b : Batch K} {rs : List Response} {rest left : Bytes} {c : Connection K}

theorem follows_start (h : Host) (b : Batch K) (rs : List Response) (rest : Bytes) :
    Connection.reader.Follows (Core.start b) (stream h rs rest) (Connection.start b)
      (stream h rs rest) :=
  ⟨[], [], rfl, .refl _, fun _ => rfl⟩

/-- A connection that follows the responses has given the items their outcomes. -/
theorem right_of_follows (hlen : rs.length = b.items.length)
    (hf : Connection.reader.Follows (Core.start b) (stream h rs rest) c left) :
    Right h b rs rest c.core left := by
  obtain ⟨i, hi, hsuffix, hstage⟩ := Reader.stage_of_follows (serves h hlen) hf
  change Within b rs i c.core ∧ _ ∨ At b rs i c.core ∧ _ at hstage
  rcases hstage with ⟨hwithin, hbehind⟩ | ⟨hat, hend, rfl⟩
  · refine ⟨hsuffix, hbehind.le, hwithin.count.trans hi, hwithin.count.symm ▸ hwithin.results, ?_,
      hwithin.thrown⟩
    rw [hwithin.isDone]
    exact ⟨fun h => absurd h Bool.false_ne_true, fun h => absurd h hbehind.ne'⟩
  · refine ⟨hsuffix, le_rfl, hat.count.trans hi, hat.count.symm ▸ hat.results, ?_, hat.thrown⟩
    rw [hat.isDone, hend, beq_self_eq_true]
    exact ⟨fun _ => rfl, fun _ => rfl⟩

theorem assigned (h : Host) (hlen : rs.length = b.items.length) (rest : Bytes) :
    Assigned h b rs rest := by
  intro t c left hrun
  have hf := Reader.follows_run loops hrun (follows_start h b rs rest)
  have hright := right_of_follows hlen hf
  refine ⟨hright, fun hactive grants hfed => ?_⟩
  have hactive : Connection.reader.halted c.core = false := by
    show (c.core.isDone || c.core.thrown) = false
    rw [hactive, hright.noThrow]
    rfl
  have hf' := Reader.call_follows grants loops hactive hf
  have hhalted := Reader.halted_of_blocked (serves h hlen) hf'
    (Reader.call_blocked loops hactive hf hfed)
  have hthrown := (right_of_follows hlen hf').noThrow
  exact (Bool.or_eq_true_iff.mp hhalted).resolve_right (hthrown ▸ Bool.false_ne_true)

end Xixi.MultiUpdate

namespace Xixi

open PeerCache

variable {K O : Type} {h : Host} {b : MultiGet.Batch K} {decode : Bytes → Int32 → Option (O × Int32)}
  {u : MultiUpdate.Batch K}

/-- A batch of `MultiGet` gets its items if and only if every item that has been found has data, and
not more than an array holds. A batch of updates always gets its outcomes. -/
theorem batches_assigned {rs : List MultiGet.Response} {us : List MultiUpdate.Response}
    (hget : rs.length = b.added.length) (hupdate : us.length = u.items.length) (rest : Bytes) :
    (MultiGet.Assigned h b decode rs rest ↔ ∀ r ∈ rs, r.Readable) ∧ MultiUpdate.Assigned h u us rest :=
  ⟨MultiGet.assigned_iff hget, MultiUpdate.assigned h hupdate rest⟩

/-- Byte arrays, as they are. -/
def bytesOnly (data : Bytes) (_ : Int32) : Option (Bytes × Int32) := some (data, .ofNat data.length)

/-- `key1` is the second key of two, and the first one is on another server. -/
def oneKey : MultiGet.Batch String := ⟨0, 2, [("key1", 1)], by decide, by decide, by decide⟩

/-- Of three keys the second is on another server. -/
def twoKeys : MultiGet.Batch String :=
  ⟨0, 3, [("key0", 0), ("key2", 2)], by decide, by decide, by decide⟩

def twoItems : MultiUpdate.Batch String := ⟨[⟨"key0", 0, 0⟩, ⟨"key1", 0, 0⟩], 0, by decide⟩

/-- In each batch one item succeeds and one does not. -/
theorem batches_assigned_two :
    MultiGet.Assigned .little twoKeys bytesOnly [.success 7 0 0 [120] (by decide), .error 2] [] ∧
      MultiUpdate.Assigned .little twoItems [.error 2, .success 8] [] :=
  have htwo : (MultiGet.Assigned .little twoKeys bytesOnly
      [.success 7 0 0 [120] (by decide), .error 2] [] ↔
        ∀ r ∈ [MultiGet.Response.success 7 0 0 [120] (by decide), .error 2], r.Readable) ∧
      MultiUpdate.Assigned .little twoItems [.error 2, .success 8] [] :=
    batches_assigned rfl rfl []
  ⟨htwo.1.mpr (by decide), htwo.2⟩

/-- An item of no bytes is never got over. -/
theorem batches_assigned_empty :
    ¬ MultiGet.Assigned .little oneKey bytesOnly [.success 7 0 0 [] (by decide)] [] :=
  fun hassigned => absurd ((MultiGet.assigned_iff rfl).mp hassigned) (by decide)

end Xixi
