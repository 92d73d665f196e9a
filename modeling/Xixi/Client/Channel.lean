import Xixi.Item
import Xixi.Lib.Run
import Xixi.Lib.Stages

/-!
# Reading without blocking (`TCPSocket.read`, `java.nio.ByteBuffer`)

The connections of `MultiGet` and `MultiUpdate` read in a loop of `if (state == ..)`, each with a
buffer of its own. A read that gets nothing ends the loop, and the next call goes on from there.

1. `Channel.read`: a read gets what has arrived, as far as there is room for it.
2. `Phase.run`: one of those `if`s. `Phase.outcome_run`: what it can do.
3. `Reader.Follows`: the connection is where the bytes that it has read lead to.
   `call_follows`: a call keeps it, however little arrives for each read.
4. `call_ends`: the loop ends, and `call_blocked`: when everything has arrived, only because the
   connection does not read any more or there is nothing left.
5. `Reader.Serves`: each response is read as a whole. `stage_of_follows`: which of them the
   connection reads is known from the number of the bytes.
-/

namespace Xixi.NonBlocking

open Lib

/-- `ByteBuffer` while it is filled: what has been put, and `limit()`. -/
structure ByteBuffer where
  content : Bytes
  limit : Nat
deriving DecidableEq, Repr

def ByteBuffer.allocate (capacity : Nat) : ByteBuffer := ⟨[], capacity⟩

/-- The socket in a call: what the server still sends, and how much has arrived for each of the next
reads. Behind the end of the list nothing has arrived. -/
structure Channel where
  left : Bytes
  grants : List Nat
deriving DecidableEq, Repr

/-- `read`: the number of the bytes, and `dst` with them. -/
def Channel.read (ch : Channel) (dst : ByteBuffer) : Nat × ByteBuffer × Channel :=
  let n := min (min (ch.grants.headD 0) (dst.limit - dst.content.length)) ch.left.length
  (n, { dst with content := dst.content ++ ch.left.take n }, ⟨ch.left.drop n, ch.grants.tail⟩)

/-- `if (state == ..)`: the buffer of the state, and what is done when it is full. `full` says with
it whether the loop goes on. -/
structure Phase (C : Type) where
  here : C → Bool
  buffer : C → ByteBuffer
  put : C → ByteBuffer → C
  full : C → Bytes → C × Bool

/-- The loop of `processResponse`; `run` is the local variable. -/
structure Call (C : Type) where
  conn : C
  channel : Channel
  run : Bool
deriving DecidableEq

variable {σ C : Type}

def Phase.run (p : Phase C) (x : Call C) : Call C :=
  if p.here x.conn then
    let (ret, dst, channel) := x.channel.read (p.buffer x.conn)
    let conn := p.put x.conn dst
    if ret = 0 then ⟨conn, channel, false⟩
    else if dst.content.length = dst.limit then
      let (conn, goOn) := p.full conn dst.content
      ⟨conn, channel, x.run && goOn⟩
    else ⟨conn, channel, x.run⟩
  else x

/-- The body of the loop: the `if`s one after the other. -/
def iteration (phases : List (Phase C)) (x : Call C) : Call C :=
  phases.foldl (fun x p => p.run x) x

def loop (phases : List (Phase C)) : Nat → Call C → Call C
  | 0, x => x
  | fuel + 1, x => if x.run then loop phases fuel (iteration phases x) else x

/-- `processResponse`. A read that gets something uses up one of `grants`. -/
def call (phases : List (Phase C)) (conn : C) (left : Bytes) (grants : List Nat) : Call C :=
  loop phases (grants.length + 1) ⟨conn, ⟨left, grants⟩, true⟩

/-- How a connection reads: the stages, what of the connection is the stage, the buffer of its
state, and whether it does not read any more. -/
structure Reader (σ C : Type) where
  stages : Stages σ UInt8
  core : C → σ
  buffer : C → ByteBuffer
  halted : σ → Bool

namespace Reader

variable (r : Reader σ C)

/-- The connection has read a part of the stream from the stage `start` on. -/
def Follows (start : σ) (stream : Bytes) (c : C) (left : Bytes) : Prop :=
  ∃ consumed buf, consumed ++ left = stream ∧ Reads r.stages start consumed (r.core c) buf ∧
    (r.halted (r.core c) = false → r.buffer c = ⟨buf, r.stages.need (r.core c)⟩)

/-- A call reads nothing any more, however much has arrived. -/
def Blocked (c : C) (left : Bytes) : Prop :=
  r.halted (r.core c) = true ∨ left = [] ∨ r.stages.need (r.core c) = 0

/-- What an `if` of the loop is for. -/
structure IsPhase (p : Phase C) : Prop where
  buffer_eq : ∀ c, p.here c = true → p.buffer c = r.buffer c
  core_put : ∀ c dst, r.core (p.put c dst) = r.core c
  buffer_put : ∀ c dst, p.here c = true → r.buffer (p.put c dst) = dst
  core_full : ∀ c dst bytes, p.here c = true →
    r.core (p.full (p.put c dst) bytes).1 = r.stages.next (r.core c) bytes
  fresh : ∀ c dst bytes, p.here c = true → r.halted (r.stages.next (r.core c) bytes) = false →
    r.buffer (p.full (p.put c dst) bytes).1 = ⟨[], r.stages.need (r.stages.next (r.core c) bytes)⟩
  goesOn : ∀ c dst bytes, p.here c = true → r.halted (r.core c) = false →
    (p.full (p.put c dst) bytes).2 = !r.halted (r.stages.next (r.core c) bytes)

/-- An `if` that ends the reading leaves nothing to the other one. -/
def Ends (p q : Phase C) : Prop :=
  ∀ c dst bytes, p.here c = true → r.halted (r.core c) = false →
    r.halted (r.stages.next (r.core c) bytes) = true → q.here (p.full (p.put c dst) bytes).1 = false

/-- What the `if`s are for together. -/
structure Loops (phases : List (Phase C)) : Prop where
  isPhase : ∀ p ∈ phases, r.IsPhase p
  covers : ∀ c, r.halted (r.core c) = false → ∃ p ∈ phases, p.here c = true
  ends : phases.Pairwise r.Ends

/-- A call, in which `grants` arrive, from a connection that still reads. -/
def Step (phases : List (Phase C)) (s : C × Bytes) (grants : List Nat) (s' : C × Bytes) : Prop :=
  r.halted (r.core s.1) = false ∧
    s' = ((call phases s.1 s.2 grants).conn, (call phases s.1 s.2 grants).channel.left)

end Reader

/-! ## One `if` -/

/-- What an `if` can do in its state, with `buf` in the buffer and `need` bytes to be read. -/
inductive Phase.Outcome (p : Phase C) (x : Call C) (buf : Bytes) (need : Nat) : Call C → Prop
  | nothing (h : x.channel.left = [] ∨ x.channel.grants.headD 0 = 0 ∨ need ≤ buf.length) :
      Outcome p x buf need
        ⟨p.put x.conn ⟨buf, need⟩, ⟨x.channel.left, x.channel.grants.tail⟩, false⟩
  | part {chunk left : Bytes} (hleft : x.channel.left = chunk ++ left) (hchunk : chunk ≠ [])
      (hgrants : x.channel.grants ≠ []) (hlen : (buf ++ chunk).length < need) :
      Outcome p x buf need
        ⟨p.put x.conn ⟨buf ++ chunk, need⟩, ⟨left, x.channel.grants.tail⟩, x.run⟩
  | full {chunk left : Bytes} (hleft : x.channel.left = chunk ++ left) (hchunk : chunk ≠ [])
      (hgrants : x.channel.grants ≠ []) (hlen : (buf ++ chunk).length = need) :
      Outcome p x buf need
        ⟨(p.full (p.put x.conn ⟨buf ++ chunk, need⟩) (buf ++ chunk)).1,
          ⟨left, x.channel.grants.tail⟩,
          x.run && (p.full (p.put x.conn ⟨buf ++ chunk, need⟩) (buf ++ chunk)).2⟩

namespace Channel

variable (ch : Channel) (dst : ByteBuffer)

theorem read_append : ∃ chunk, (ch.read dst).2.1 = ⟨dst.content ++ chunk, dst.limit⟩ ∧
    ch.left = chunk ++ (ch.read dst).2.2.left ∧ chunk.length = (ch.read dst).1 := by
  refine ⟨ch.left.take (ch.read dst).1, rfl, (List.take_append_drop _ _).symm, ?_⟩
  rw [List.length_take]
  exact Nat.min_eq_left (Nat.min_le_right _ _)

theorem read_le (h : dst.content.length ≤ dst.limit) :
    dst.content.length + (ch.read dst).1 ≤ dst.limit := by
  have hroom : (ch.read dst).1 ≤ dst.limit - dst.content.length :=
    (Nat.min_le_left _ _).trans (Nat.min_le_right _ _)
  omega

variable {ch dst}

/-- A read gets nothing for one of three reasons. -/
theorem of_read_zero (h : (ch.read dst).1 = 0) :
    ch.left = [] ∨ ch.grants.headD 0 = 0 ∨ dst.limit ≤ dst.content.length := by
  rcases Nat.min_eq_zero_iff.mp h with h | h
  · rcases Nat.min_eq_zero_iff.mp h with h | h
    · exact .inr (.inl h)
    · exact .inr (.inr (Nat.sub_eq_zero_iff_le.mp h))
  · exact .inl (List.length_eq_zero_iff.mp h)

theorem grants_ne_nil (h : (ch.read dst).1 ≠ 0) : ch.grants ≠ [] := by
  intro hnil
  refine h (Nat.le_zero.mp ?_)
  have hfirst : (ch.read dst).1 ≤ ch.grants.headD 0 :=
    (Nat.min_le_left _ _).trans (Nat.min_le_left _ _)
  rwa [hnil] at hfirst

end Channel

namespace Phase

variable {p : Phase C} {x : Call C} {buf : Bytes} {need : Nat}

theorem run_of_not_here (h : p.here x.conn = false) : p.run x = x := by
  rw [run, h]
  exact if_neg Bool.false_ne_true

theorem outcome_run (hhere : p.here x.conn = true) (hbuffer : p.buffer x.conn = ⟨buf, need⟩)
    (hle : buf.length ≤ need) : p.Outcome x buf need (p.run x) := by
  have hmax := x.channel.read_le ⟨buf, need⟩ hle
  have hzero : (x.channel.read ⟨buf, need⟩).1 = 0 → _ := Channel.of_read_zero
  have hsome : (x.channel.read ⟨buf, need⟩).1 ≠ 0 → _ := Channel.grants_ne_nil
  have htail : (x.channel.read ⟨buf, need⟩).2.2.grants = x.channel.grants.tail := rfl
  obtain ⟨chunk, hdst, hleft, hlen⟩ := x.channel.read_append ⟨buf, need⟩
  unfold run
  rw [if_pos hhere, hbuffer]
  generalize x.channel.read ⟨buf, need⟩ = res at *
  obtain ⟨ret, dst, left, grants⟩ := res
  dsimp only at *
  subst hdst htail
  split
  · next hret =>
    have hnil : chunk = [] := List.length_eq_zero_iff.mp (hlen.trans hret)
    subst hnil
    rw [List.nil_append] at hleft
    rw [List.append_nil, ← hleft]
    exact .nothing (hzero hret)
  · next hret =>
    have hchunk : chunk ≠ [] := by
      rintro rfl
      exact hret hlen.symm
    split
    · next hfull => exact .full hleft hchunk (hsome hret) hfull
    · next hpart =>
      refine .part hleft hchunk (hsome hret) (Nat.lt_of_le_of_ne ?_ hpart)
      rwa [List.length_append, hlen]

/-- The reads of an `if` use up grants. -/
theorem grants_run_le : (p.run x).channel.grants.length ≤ x.channel.grants.length := by
  have htail : x.channel.grants.tail.length ≤ x.channel.grants.length := by
    rw [List.length_tail]
    exact Nat.sub_le _ _
  unfold run
  split
  · dsimp only
    split
    · exact htail
    · split
      · exact htail
      · exact htail
  · exact le_rfl

theorem run_of_run_run (h : (p.run x).run = true) : x.run = true := by
  unfold run at h
  split at h
  · dsimp only at h
    split at h
    · exact absurd h Bool.false_ne_true
    · split at h
      · exact (Bool.and_eq_true_iff.mp h).1
      · exact h
  · exact h

end Phase

/-! ## The `if`s of a connection -/

namespace Reader

variable {r : Reader σ C} {start : σ} {stream : Bytes} {p : Phase C} {phases : List (Phase C)}
  {x : Call C}

/-- In the loop, in front of some of the `if`s. -/
structure Sound (r : Reader σ C) (start : σ) (stream : Bytes) (phases : List (Phase C))
    (x : Call C) : Prop where
  follows : r.Follows start stream x.conn x.channel.left
  goesOn : x.run = true → r.halted (r.core x.conn) = false
  skips : r.halted (r.core x.conn) = true → ∀ p ∈ phases, p.here x.conn = false

/-- Everything that is left arrives, though it may be a byte for each read. -/
structure Fed (ch : Channel) : Prop where
  arrives : ∀ n ∈ ch.grants, 0 < n
  enough : ch.left.length ≤ ch.grants.length

/-- The loop goes on until nothing is read any more. -/
structure Eager (r : Reader σ C) (x : Call C) : Prop where
  fed : x.run = true → Fed x.channel
  blocked : x.run = false → r.Blocked x.conn x.channel.left

/-- What an `if` in its state does to a connection that follows the stream. -/
theorem outcome_of_follows (hp : r.IsPhase p) (hhere : p.here x.conn = true)
    (hactive : r.halted (r.core x.conn) = false)
    (h : r.Follows start stream x.conn x.channel.left) :
    ∃ consumed buf, consumed ++ x.channel.left = stream ∧
      Reads r.stages start consumed (r.core x.conn) buf ∧
      p.Outcome x buf (r.stages.need (r.core x.conn)) (p.run x) := by
  obtain ⟨consumed, buf, hstream, hreads, hbuffer⟩ := h
  refine ⟨consumed, buf, hstream, hreads, ?_⟩
  refine Phase.outcome_run hhere ((hp.buffer_eq x.conn hhere).trans (hbuffer hactive)) ?_
  rcases hreads.buf_lt with rfl | hlt
  · exact Nat.zero_le _
  · exact hlt.le

theorem sound_run (hp : r.IsPhase p)
    (hends : ∀ q ∈ phases, r.Ends p q) (h : r.Sound start stream (p :: phases) x) :
    r.Sound start stream phases (p.run x) := by
  cases hhere : p.here x.conn with
  | false =>
    rw [Phase.run_of_not_here hhere]
    exact ⟨h.follows, h.goesOn, fun hhalted q hq => h.skips hhalted q (List.mem_cons_of_mem p hq)⟩
  | true =>
    have hactive : r.halted (r.core x.conn) = false := by
      cases hhalted : r.halted (r.core x.conn) with
      | false => rfl
      | true => exact absurd hhere (Bool.eq_false_iff.mp (h.skips hhalted p List.mem_cons_self))
    obtain ⟨consumed, buf, hstream, hreads, hout⟩ := outcome_of_follows hp hhere hactive h.follows
    generalize p.run x = x' at hout ⊢
    cases hout with
    | nothing _ =>
      refine ⟨⟨consumed, buf, hstream, ?_, fun _ => ?_⟩, fun hrun => ?_, fun hhalted => ?_⟩
      · rwa [hp.core_put]
      · rw [hp.buffer_put _ _ hhere, hp.core_put]
      · exact absurd hrun Bool.false_ne_true
      · rw [hp.core_put] at hhalted
        exact absurd hhalted (Bool.eq_false_iff.mp hactive)
    | @part chunk left hleft _ _ hlen =>
      rw [hleft, ← List.append_assoc] at hstream
      refine ⟨⟨consumed ++ chunk, buf ++ chunk, hstream, ?_, fun _ => ?_⟩, fun _ => ?_,
        fun hhalted => ?_⟩
      · rw [hp.core_put]
        exact hreads.part hlen
      · rw [hp.buffer_put _ _ hhere, hp.core_put]
      · rwa [hp.core_put]
      · rw [hp.core_put] at hhalted
        exact absurd hhalted (Bool.eq_false_iff.mp hactive)
    | @full chunk left hleft hchunk _ hlen =>
      rw [hleft, ← List.append_assoc] at hstream
      have hcore := hp.core_full x.conn ⟨buf ++ chunk, r.stages.need (r.core x.conn)⟩
        (buf ++ chunk) hhere
      refine ⟨⟨consumed ++ chunk, [], hstream, ?_, fun hhalted => ?_⟩, fun hrun => ?_,
        fun hhalted q hq => ?_⟩
      · rw [hcore]
        exact hreads.full hchunk hlen
      · rw [hcore] at hhalted ⊢
        exact hp.fresh _ _ _ hhere hhalted
      · have hgoOn := (Bool.and_eq_true_iff.mp hrun).2
        rw [hp.goesOn _ _ _ hhere hactive, Bool.not_eq_true'] at hgoOn
        rwa [hcore]
      · rw [hcore] at hhalted
        exact hends q hq _ _ _ hhere hactive hhalted

theorem eager_run (hp : r.IsPhase p) (h : r.Sound start stream (p :: phases) x)
    (heager : r.Eager x) : r.Eager (p.run x) := by
  cases hhere : p.here x.conn with
  | false => rwa [Phase.run_of_not_here hhere]
  | true =>
    have hactive : r.halted (r.core x.conn) = false := by
      cases hhalted : r.halted (r.core x.conn) with
      | false => rfl
      | true => exact absurd hhere (Bool.eq_false_iff.mp (h.skips hhalted p List.mem_cons_self))
    obtain ⟨consumed, buf, hstream, hreads, hout⟩ := outcome_of_follows hp hhere hactive h.follows
    -- what an `if` that reads something leaves behind is less by as much as it has read
    have hshorter : ∀ {chunk left : Bytes}, x.channel.left = chunk ++ left → chunk ≠ [] →
        Fed x.channel → Fed ⟨left, x.channel.grants.tail⟩ := by
      intro chunk left hleft hchunk hfed
      refine ⟨fun n hn => hfed.arrives n (List.mem_of_mem_tail hn), ?_⟩
      have hpos := List.length_pos_iff.mpr hchunk
      have hle := hfed.enough
      rw [hleft, List.length_append] at hle
      rw [List.length_tail]
      dsimp only
      omega
    -- a loop that has ended does not read
    have hover : ∀ {chunk left : Bytes}, x.channel.left = chunk ++ left → chunk ≠ [] →
        0 < r.stages.need (r.core x.conn) → x.run ≠ false := by
      intro chunk left hleft hchunk hneed hrun
      rcases heager.blocked hrun with hhalted | hnil | hzero
      · exact Bool.false_ne_true (hactive.symm.trans hhalted)
      · exact hchunk (List.append_eq_nil_iff.mp (hleft.symm.trans hnil)).1
      · exact hneed.ne' hzero
    generalize p.run x = x' at hout ⊢
    cases hout with
    | nothing hwhy =>
      refine ⟨fun hrun => absurd hrun Bool.false_ne_true, fun _ => .inr ?_⟩
      rw [hp.core_put]
      rcases hwhy with hnil | hgrants | hroom
      · exact .inl hnil
      · cases hrun : x.run with
        | false =>
          rcases heager.blocked hrun with hhalted | hrest
          · exact absurd (hactive.symm.trans hhalted) Bool.false_ne_true
          · exact hrest
        | true =>
          have hfed := heager.fed hrun
          cases hall : x.channel.grants with
          | nil =>
            have hle := hfed.enough
            rw [hall] at hle
            exact .inl (List.length_eq_zero_iff.mp (Nat.le_zero.mp hle))
          | cons n l =>
            have hpos := hfed.arrives n (hall ▸ List.mem_cons_self)
            rw [hall] at hgrants
            exact absurd hgrants hpos.ne'
      · rcases hreads.buf_lt with rfl | hlt
        · exact .inr (Nat.le_zero.mp hroom)
        · exact absurd hroom (Nat.not_le_of_lt hlt)
    | part hleft hchunk _ hlen =>
      have hrun := hover hleft hchunk (Nat.zero_lt_of_lt hlen)
      exact ⟨fun hrun => hshorter hleft hchunk (heager.fed hrun), fun hfalse => absurd hfalse hrun⟩
    | @full chunk left hleft hchunk _ hlen =>
      have hpos : 0 < r.stages.need (r.core x.conn) := by
        rw [← hlen, List.length_append]
        exact Nat.add_pos_right _ (List.length_pos_iff.mpr hchunk)
      have hrun := (Bool.not_eq_false _).mp (hover hleft hchunk hpos)
      refine ⟨fun _ => hshorter hleft hchunk (heager.fed hrun), fun hfalse => .inl ?_⟩
      dsimp only at hfalse ⊢
      rw [hrun, Bool.true_and, hp.goesOn _ _ _ hhere hactive, Bool.not_eq_false'] at hfalse
      rwa [hp.core_full _ _ _ hhere]

/-- In its state an `if` reads, and if the loop goes on it has got something. -/
theorem grants_run_lt (hp : r.IsPhase p) (hhere : p.here x.conn = true)
    (h : r.Sound start stream (p :: phases) x) (hrun : (p.run x).run = true) :
    (p.run x).channel.grants.length < x.channel.grants.length := by
  have hactive := h.goesOn (Phase.run_of_run_run hrun)
  obtain ⟨consumed, buf, -, -, hout⟩ := outcome_of_follows hp hhere hactive h.follows
  have htail : x.channel.grants ≠ [] → x.channel.grants.tail.length < x.channel.grants.length := by
    intro hne
    rw [List.length_tail]
    exact Nat.sub_lt (List.length_pos_iff.mpr hne) Nat.one_pos
  generalize p.run x = x' at hout hrun ⊢
  cases hout with
  | nothing _ => exact absurd hrun Bool.false_ne_true
  | part _ _ hgrants _ => exact htail hgrants
  | full _ _ hgrants _ => exact htail hgrants

/-! ## The loop -/

theorem sound_iteration {rest : List (Phase C)} (hp : ∀ p ∈ phases, r.IsPhase p)
    (hends : (phases ++ rest).Pairwise r.Ends) (h : r.Sound start stream (phases ++ rest) x) :
    r.Sound start stream rest (iteration phases x) ∧
      (r.Eager x → r.Eager (iteration phases x)) := by
  induction phases generalizing x with
  | nil => exact ⟨h, id⟩
  | cons p phases ih =>
    obtain ⟨hfirst, hlater⟩ := List.pairwise_cons.mp hends
    have hone := hp p List.mem_cons_self
    obtain ⟨hsound, heager⟩ := ih (x := p.run x)
      (fun q hq => hp q (List.mem_cons_of_mem p hq)) hlater (sound_run hone hfirst h)
    exact ⟨hsound, fun he => heager (eager_run hone h he)⟩

theorem grants_iteration_le (phases : List (Phase C)) (x : Call C) :
    (iteration phases x).channel.grants.length ≤ x.channel.grants.length := by
  induction phases generalizing x with
  | nil => exact le_rfl
  | cons p phases ih => exact (ih (p.run x)).trans Phase.grants_run_le

theorem run_of_iteration_run (h : (iteration phases x).run = true) : x.run = true := by
  induction phases generalizing x with
  | nil => exact h
  | cons p phases ih => exact Phase.run_of_run_run (ih h)

/-- Some `if` reads in every turn. -/
theorem grants_iteration_lt (hp : ∀ p ∈ phases, r.IsPhase p) (hx : ∃ p ∈ phases, p.here x.conn = true)
    (h : r.Sound start stream phases x) (hrun : (iteration phases x).run = true) :
    (iteration phases x).channel.grants.length < x.channel.grants.length := by
  induction phases with
  | nil =>
    obtain ⟨p, hmem, -⟩ := hx
    exact absurd hmem List.not_mem_nil
  | cons p phases ih =>
    cases hhere : p.here x.conn with
    | true =>
      have hlt := grants_run_lt (hp p List.mem_cons_self) hhere h (run_of_iteration_run hrun)
      exact (grants_iteration_le phases (p.run x)).trans_lt hlt
    | false =>
      have hskip : p.run x = x := Phase.run_of_not_here hhere
      have hrest : iteration (p :: phases) x = iteration phases x := congrArg (iteration phases) hskip
      obtain ⟨q, hmem, hq⟩ := hx
      have hmem' : q ∈ phases := by
        rcases List.mem_cons.mp hmem with rfl | hmem
        · exact absurd hhere (ne_of_eq_of_ne hq Bool.false_ne_true.symm)
        · exact hmem
      rw [hrest] at hrun ⊢
      exact ih (fun q hq => hp q (List.mem_cons_of_mem p hq)) ⟨q, hmem', hq⟩
        ⟨h.follows, h.goesOn, fun hhalted q hq => h.skips hhalted q (List.mem_cons_of_mem p hq)⟩ hrun

variable {fuel : Nat}

/-- Between two turns. -/
theorem sound_turn (hl : r.Loops phases) (hrun : x.run = true) (h : r.Sound start stream [] x) :
    r.Sound start stream phases x ∧ r.Sound start stream [] (iteration phases x) := by
  have hsound : r.Sound start stream phases x := by
    refine ⟨h.follows, h.goesOn, fun hhalted => ?_⟩
    exact absurd ((h.goesOn hrun).symm.trans hhalted) Bool.false_ne_true
  have hlist : phases ++ [] = phases := List.append_nil phases
  exact ⟨hsound, (sound_iteration hl.isPhase (hlist.symm ▸ hl.ends) (hlist.symm ▸ hsound)).1⟩

theorem sound_loop (hl : r.Loops phases) (h : r.Sound start stream [] x) :
    r.Sound start stream [] (loop phases fuel x) ∧
      (r.Eager x → r.Eager (loop phases fuel x)) := by
  induction fuel generalizing x with
  | zero => exact ⟨h, id⟩
  | succ fuel ih =>
    rw [loop]
    split
    · next hrun =>
      obtain ⟨hsound, hnext⟩ := sound_turn hl hrun h
      have hlist : phases ++ [] = phases := List.append_nil phases
      have heager := (sound_iteration hl.isPhase (hlist.symm ▸ hl.ends) (hlist.symm ▸ hsound)).2
      exact ⟨(ih hnext).1, fun he => (ih hnext).2 (heager he)⟩
    · exact ⟨h, id⟩

/-- A turn uses up a grant, or it is the last one. -/
theorem loop_ends (hl : r.Loops phases) (h : r.Sound start stream [] x)
    (hfuel : x.channel.grants.length < fuel) : (loop phases fuel x).run = false := by
  induction fuel generalizing x with
  | zero => exact absurd hfuel (Nat.not_lt_zero _)
  | succ fuel ih =>
    rw [loop]
    split
    · next hrun =>
      obtain ⟨hsound, hnext⟩ := sound_turn hl hrun h
      cases hgoesOn : (iteration phases x).run with
      | false =>
        cases fuel with
        | zero => exact hgoesOn
        | succ fuel =>
          rw [loop, hgoesOn]
          exact hgoesOn
      | true =>
        have hlt := grants_iteration_lt hl.isPhase (hl.covers _ (h.goesOn hrun)) hsound hgoesOn
        exact ih hnext (hlt.trans_le (Nat.le_of_lt_succ hfuel))
    · next hrun => exact Bool.eq_false_iff.mpr hrun

/-! ## A call, and many of them -/

variable {c : C} {left : Bytes} {grants : List Nat}

theorem sound_start (hactive : r.halted (r.core c) = false) (h : r.Follows start stream c left) :
    r.Sound start stream [] ⟨c, ⟨left, grants⟩, true⟩ :=
  ⟨h, fun _ => hactive, fun _ _ hp => absurd hp List.not_mem_nil⟩

/-- The connection stays where the bytes lead to, however they arrive. -/
theorem call_follows (grants : List Nat) (hl : r.Loops phases) (hactive : r.halted (r.core c) = false)
    (h : r.Follows start stream c left) :
    r.Follows start stream (call phases c left grants).conn (call phases c left grants).channel.left :=
  (sound_loop hl (sound_start hactive h)).1.follows

theorem call_ends (hl : r.Loops phases) (hactive : r.halted (r.core c) = false)
    (h : r.Follows start stream c left) : (call phases c left grants).run = false :=
  loop_ends hl (sound_start hactive h) (Nat.lt_succ_self _)

/-- When everything arrives in a call, it ends only because nothing more is read. -/
theorem call_blocked (hl : r.Loops phases) (hactive : r.halted (r.core c) = false)
    (h : r.Follows start stream c left) (hfed : Fed ⟨left, grants⟩) :
    r.Blocked (call phases c left grants).conn (call phases c left grants).channel.left := by
  refine Eager.blocked ?_ (call_ends hl hactive h)
  refine (sound_loop hl (sound_start hactive h)).2 ⟨fun _ => hfed, fun hrun => ?_⟩
  exact absurd hrun Bool.false_ne_true.symm

theorem follows_run {s s' : C × Bytes} {t : List ((C × Bytes) × List Nat)} (hl : r.Loops phases)
    (h : Run (r.Step phases) s t s') (h0 : r.Follows start stream s.1 s.2) :
    r.Follows start stream s'.1 s'.2 := by
  refine Run.invariant (I := fun s => r.Follows start stream s.1 s.2) (fun s grants s' hs hstep => ?_)
    h h0
  obtain ⟨hactive, rfl⟩ := hstep
  exact call_follows grants hl hactive hs

/-! ## Responses in turn -/

section Responses
variable {ρ : Type} {bytes : ρ → Bytes} {rs : List ρ} {rest : Bytes} {At Within : Nat → σ → Prop}

/-- The connection reads each of the responses as a whole, and nothing behind the last one. `At i` is
in front of the response with the number `i`, and `Within i` within it. -/
structure Serves (r : Reader σ C) (start : σ) (bytes : ρ → Bytes) (rs : List ρ)
    (At Within : Nat → σ → Prop) : Prop where
  first : At 0 start
  whole : ∀ i q s, rs[i]? = some q → At i s → ∃ s', At (i + 1) s' ∧ Reads r.stages s (bytes q) s' []
  part : ∀ i q s bs s' buf, rs[i]? = some q → At i s → bs <+: bytes q →
    bs.length < (bytes q).length → Reads r.stages s bs s' buf → Within i s'
  within : ∀ i s, Within i s → r.halted s = false ∧ 0 < r.stages.need s
  last : ∀ s, At rs.length s → r.halted s = true ∧ r.stages.need s = 0

/-- Where a connection is that follows the responses. -/
theorem stage_of_follows (hs : r.Serves start bytes rs At Within)
    (hf : r.Follows start (rs.flatMap bytes ++ rest) c left) :
    ∃ i, i = ended bytes rs ((rs.flatMap bytes ++ rest).length - left.length) ∧
      left <:+ rs.flatMap bytes ++ rest ∧
      (Within i (r.core c) ∧ rest.length < left.length ∨
        At i (r.core c) ∧ i = rs.length ∧ left = rest) := by
  obtain ⟨consumed, buf, hstream, hreads, -⟩ := hf
  have hlength := congrArg List.length hstream
  rw [List.length_append, List.length_append] at hlength
  have hconsumed : (rs.flatMap bytes ++ rest).length - left.length = consumed.length := by
    rw [List.length_append, ← hlength, Nat.add_sub_cancel_right]
  refine ⟨_, rfl, ⟨consumed, hstream⟩, ?_⟩
  rw [hconsumed]
  have hall := hreads.messages At Within hs.whole hs.part hs.first hstream
  rcases hall with ⟨hlt, hwithin⟩ | ⟨hend, s₁, bs, hat, hreads', hrest⟩
  · have hshort := lt_of_ended_lt hlt
    exact .inl ⟨hwithin, by omega⟩
  · obtain ⟨hsame, rfl, -⟩ := hreads'.of_zero (hs.last s₁ hat).2
    rw [hend, hsame]
    exact .inr ⟨hat, rfl, hrest⟩

/-- Where nothing more is read, every response has been. -/
theorem halted_of_blocked (hs : r.Serves start bytes rs At Within)
    (hf : r.Follows start (rs.flatMap bytes ++ rest) c left) (hb : r.Blocked c left) :
    r.halted (r.core c) = true := by
  obtain ⟨i, -, -, ⟨hwithin, hbehind⟩ | ⟨hat, rfl, -⟩⟩ := stage_of_follows hs hf
  · obtain ⟨hactive, hneed⟩ := hs.within i _ hwithin
    rcases hb with hhalted | rfl | hzero
    · exact hhalted
    · exact absurd hbehind (Nat.not_lt_zero _)
    · exact absurd hzero hneed.ne'
  · exact (hs.last _ hat).1

end Responses
end Reader
end Xixi.NonBlocking
