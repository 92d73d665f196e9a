import Xixi.Client.Multi
import Xixi.Client.TCPSocket
import Xixi.Peer.Serving

/-!
# From an operation to its response

1. `receiveAll`: operations that read their responses from one socket, one after the other.
2. `answers_of_serving`: the server answers a request in the format that its operation reads.
3. `replies_of_operations`: the bytes of operations go through a connection, those of its responses
   through a socket, both cut anyhow; what the operations return are the answers of a server that
   has been given the requests.
-/

namespace Xixi.Client
open Lib PeerCache

section ReceiveAll
variable {σ : Type} (readBytes : Nat → StateT σ Option Bytes)

def receiveAll : List Kind → StateT σ Option (List Reply)
  | [] => return []
  | k :: ks => do
    let r ← k.receive readBytes
    let rs ← receiveAll ks
    return r :: rs

end ReceiveAll

/-- What a peer reads of a request of the client. -/
structure FrameOf (q : Request) (r : PeerCache.Request) : Prop where
  pdu : r.pdu = q.pdu
  extras : r.extras = q.key ++ q.data

/-- The data of a response is as long as it says, and it is none of `CHECK_WATCH`. -/
def Regular : Res → Prop
  | .get _ _ _ n data => n = data.length
  | .checkWatch _ => False
  | _ => True

/-- A response that the operation understands. -/
def Suits (unset : UInt32) (q : Request) (r : Res) : Prop :=
  q.kind.Answered (r.pdu unset) ∧ Regular r

namespace RoundTripLemmas

variable {β : Type} {B : Backend β} {b : β} {q : Request} {a : PeerCache.Answer β} {unset : UInt32}
  {host : Host} {qs : List Request} {rs : List PeerCache.Request}

/-! ## The answers of the server -/

theorem suits_baseRes {res : Nat → Res} {x : Bool × Nat} (hres : ∀ id, Suits unset q (res id))
    (herror : ∀ reason, Suits unset q (.error reason)) :
    Suits unset q (PeerCache.Conn.baseRes res x) := by
  obtain ⟨_ | _, id⟩ := x
  · exact herror _
  · exact hres id

theorem suits_perform {key : Bytes} (ha : q.pdu.perform B b key = some a) :
    Suits unset q a.res := by
  cases q with
  | get | getTouch =>
    rw [Request.pdu, Pdu.perform] at ha
    split at ha
    · cases ha
      exact ⟨trivial, (CacheItem.length_data _).symm⟩
    · cases ha
      exact ⟨trivial, trivial⟩
  | getBase | delete | delta =>
    rw [Request.pdu, Pdu.perform] at ha
    split at ha
    · cases ha
      exact ⟨trivial, trivial⟩
    · cases ha
      exact ⟨trivial, trivial⟩
  | update =>
    rw [Request.pdu, Pdu.perform] at ha
    split at ha
    · cases ha
    · split at ha
      · cases ha
        exact ⟨trivial, trivial⟩
      · cases ha
        exact ⟨trivial, trivial⟩
  | updateFlags | updateExpiration =>
    cases ha
    exact suits_baseRes (fun _ => ⟨trivial, trivial⟩) fun _ => ⟨trivial, trivial⟩
  | flush | stats | createWatch =>
    cases ha
    exact ⟨trivial, trivial⟩
  | checkWatch => cases ha

theorem suits_complete {it : Ptr} {extras : Bytes} (ha : q.pdu.complete B b it extras = some a) :
    Suits unset q a.res := by
  cases q with
  | update =>
    rw [Request.pdu, Pdu.complete] at ha
    split at ha
    · split at ha
      · cases ha
        exact ⟨trivial, trivial⟩
      · cases ha
        exact ⟨trivial, trivial⟩
    · cases ha
      exact ⟨trivial, trivial⟩
  | get | getTouch | getBase | updateFlags | updateExpiration | delete | delta | flush | stats
  | createWatch | checkWatch => cases ha

/-- The requests that have been answered, and those that are to come. -/
def Halfway (unset : UInt32) (qs : List Request) (s : Serving β) : Prop :=
  ∃ done rest, qs = done ++ rest ∧ List.Forall₂ FrameOf rest s.requests ∧
    List.Forall₂ (Suits unset) done s.responses

theorem halfway_answered {s : Serving β} {r : PeerCache.Request} {rest : List PeerCache.Request}
    (h : Halfway unset qs s) (hnext : s.requests = r :: rest)
    (ha : ∀ q, r.pdu = q.pdu → Suits unset q a.res) : Halfway unset qs (s.answered rest a) := by
  obtain ⟨done, later, rfl, hframes, hsuits⟩ := h
  rw [hnext] at hframes
  cases hframes with
  | @cons q _ later _ hframe hframes =>
    exact ⟨done ++ [q], later, by rw [List.append_assoc]; rfl, hframes,
      List.rel_append hsuits (.cons (ha q hframe.pdu) .nil)⟩

theorem halfway_step {s s' : Serving β} {act : ServingAction} (h : Halfway unset qs s)
    (hstep : s.Step B act s') : Halfway unset qs s' := by
  rw [Serving.Step, Serving.next.eq_def] at hstep
  cases act with
  | perform =>
    dsimp only at hstep
    split at hstep
    · next r rest _ hnext =>
      obtain ⟨a, ha, rfl⟩ := Option.map_eq_some_iff.mp hstep
      refine halfway_answered h hnext fun q hpdu => ?_
      rw [hpdu] at ha
      exact suits_perform ha
    · cases hstep
  | allocate =>
    dsimp only at hstep
    split at hstep
    · obtain ⟨x, -, rfl⟩ := Option.map_eq_some_iff.mp hstep
      exact h
    · cases hstep
  | complete =>
    dsimp only at hstep
    split at hstep
    · next it r rest _ hnext =>
      obtain ⟨a, ha, rfl⟩ := Option.map_eq_some_iff.mp hstep
      refine halfway_answered h hnext fun q hpdu => ?_
      rw [hpdu] at ha
      exact suits_complete ha
    · cases hstep
  | release =>
    cases hstep
    exact h

/-- Every response suits the operation of its request. -/
theorem answers_of_serving (unset : UInt32) {t : List (Serving β × ServingAction)} {s : Serving β}
    (hframes : List.Forall₂ FrameOf qs rs) (hrun : Run (Serving.Step B) (.start b rs) t s) :
    List.Forall₂ (Suits unset) (qs.take s.responses.length) s.responses := by
  have h : Halfway unset qs s :=
    hrun.invariant (fun _ _ _ => halfway_step) ⟨[], qs, rfl, hframes, .nil⟩
  obtain ⟨done, rest, rfl, -, hsuits⟩ := h
  rw [← hsuits.length_eq, List.take_left]
  exact hsuits

/-! ## The bytes of the responses -/

theorem sendable_of_regular {r : Res} (hr : Regular r)
    (hlen : ((r.pdu unset).encode host).length < 2 ^ 31) : Sendable (r.pdu unset) := by
  rw [Res.length_encode host unset r (by rintro out rfl; exact hr.elim)] at hlen
  cases r with
  | get id fl x n data =>
    have hdata : data.length < 2 ^ 31 := (Nat.le_add_left _ _).trans_lt hlen
    have hn : n = data.length := hr
    refine ⟨?_, hdata⟩
    rw [hn, UInt32.toNat_ofNat', Nat.mod_eq_of_lt (hdata.trans (by norm_num))]
  | stats result =>
    refine lt_of_le_of_lt ?_ hlen
    exact (Nat.le_add_left _ _).trans (Nat.le_add_right _ _)
  | checkWatch => exact hr.elim
  | error _ | unknownCommand | hello | delete | getBase _ _ _ _ | update _ | updateFlags _
  | updateExpiration _ | delta _ _ | flush _ _ | createWatch _ => trivial

theorem sendable_of_suits {responses : List Res}
    (hsize : ∀ r ∈ responses, ((r.pdu unset).encode host).length < 2 ^ 31)
    (h : List.Forall₂ (Suits unset) qs responses) :
    List.Forall₂ (fun q r => q.kind.Answered (r.pdu unset) ∧ Sendable (r.pdu unset)) qs
      responses := by
  induction h with
  | nil => exact .nil
  | cons hr _ ih =>
    have hfirst := sendable_of_regular hr.2 (hsize _ List.mem_cons_self)
    exact .cons ⟨hr.1, hfirst⟩ (ih fun r hmem => hsize r (List.mem_cons_of_mem _ hmem))

theorem receiveAll_encode (host : Host) {responses : List Res} (rest : Bytes)
    (h : List.Forall₂ (fun q r => q.kind.Answered (r.pdu unset) ∧ Sendable (r.pdu unset)) qs
      responses) :
    receiveAll readBytes (qs.map Request.kind)
        (responses.flatMap (fun r => (r.pdu unset).encode host) ++ rest) =
      some (responses.map fun r => reply (r.pdu unset), rest) := by
  induction h with
  | nil => rfl
  | cons hr _ ih =>
    rw [List.map_cons, receiveAll, Realizes.bind_eq, receive_read, List.flatMap_cons,
      List.append_assoc, read_encode host _ hr.1 hr.2, Option.bind_some, Realizes.bind_eq, ih]
    rfl

theorem receiveAll_realizes (ks : List Kind) :
    Realizes TCPSocket.unread TCPSocket.Lively (receiveAll TCPSocket.readBytes ks)
      (receiveAll readBytes ks) := by
  induction ks with
  | nil => exact .pure _
  | cons k ks ih =>
    exact .bind (ReceiveLemmas.kind_receive_realizes readBytes_realizes k) fun _ =>
      .bind ih fun _ => .pure _

/-! ## The bytes of the operations -/

/-- The operations are written as frames. -/
theorem frames_of_operations (hqs : ∀ q ∈ qs, q.key.length < 65536 ∧ q.data.length < 2 ^ 31 ∧
    q.kind ≠ .checkWatch) : ∃ rs, List.Forall₂ FrameOf qs rs ∧ (∀ r ∈ rs, r.Framed) ∧
      encodeAll rs = (qs.map Request.bytes).flatten := by
  induction qs with
  | nil => exact ⟨[], .nil, fun r hr => absurd hr List.not_mem_nil, rfl⟩
  | cons q qs ih =>
    obtain ⟨hkey, hdata, hkind⟩ := hqs q List.mem_cons_self
    obtain ⟨rs, hframes, hframed, hall⟩ := ih fun q hq => hqs q (List.mem_cons_of_mem _ hq)
    have hlen : (q.frame hkey hdata).pdu.extrasLength < 2 ^ 32 := by
      rw [← (q.frame hkey hdata).length_extras]
      show (q.key ++ q.data).length < 2 ^ 32
      rw [List.length_append]
      omega
    refine ⟨q.frame hkey hdata :: rs, .cons ⟨rfl, rfl⟩ hframes, fun r hr => ?_, ?_⟩
    · rcases List.mem_cons.mp hr with rfl | hr
      · refine ⟨?_, ?_, hlen⟩
        all_goals
          cases q with
          | checkWatch => exact absurd rfl hkind
          | get | getTouch | getBase | update | updateFlags | updateExpiration | delete | delta
          | flush | stats | createWatch => rintro ⟨⟩
      · exact hframed r hr
    · rw [StreamLemmas.encodeAll_cons, hall, Request.encode_frame, List.map_cons,
        List.flatten_cons, Request.bytes]

end RoundTripLemmas

open RoundTripLemmas

/-- The bytes of operations reach a connection in any pieces, and those of its responses a socket.
Whatever the cache does: there is a server that takes whole requests, with the fields, the keys and
the data of the operations; it has done to the cache what the connection has, and each operation
returns what the server has answered to its request. -/
theorem replies_of_operations {β : Type} {B : Backend β} {qs : List Request} {b : β}
    {data socket : Bytes} {t : List (PeerCache.Conn β × PeerCache.Action)} {c : PeerCache.Conn β}
    (hqs : ∀ q ∈ qs, q.key.length < 65536 ∧ q.data.length < 2 ^ 31 ∧ q.kind ≠ .checkWatch)
    (hstream : data ++ socket = (qs.map Request.bytes).flatten)
    (hrun : Run (PeerCache.Conn.Step B) (.start b data socket) t c) :
    ∃ rs t' s, List.Forall₂ FrameOf qs rs ∧ Run (Serving.Step B) (.start b rs) t' s ∧
      c.ServedBy rs s ∧ ∀ (host : Host) (unset : UInt32) (client : TCPSocket),
        client.unread = s.responses.flatMap (fun r => (r.pdu unset).encode host) →
        (∀ r ∈ s.responses, ((r.pdu unset).encode host).length < 2 ^ 31) → client.Lively →
        ∃ client', receiveAll TCPSocket.readBytes
            ((qs.take s.responses.length).map Request.kind) client =
          some (s.responses.map fun r => reply (r.pdu unset), client') ∧ client'.unread = [] := by
  obtain ⟨rs, hframes, hframed, hall⟩ := frames_of_operations hqs
  obtain ⟨t', s, hserving, hserved⟩ :=
    PeerCache.Conn.servedBy_of_run hframed (hstream.trans hall.symm) hrun
  refine ⟨rs, t', s, hframes, hserving, hserved, fun host unset client hunread hsize hlively => ?_⟩
  have hanswers := answers_of_serving unset hframes hserving
  have hread := receiveAll_encode host [] (sendable_of_suits hsize hanswers)
  rw [List.append_nil, ← hunread] at hread
  have hrealizes := receiveAll_realizes ((qs.take s.responses.length).map Request.kind)
  cases hclient : receiveAll TCPSocket.readBytes
      ((qs.take s.responses.length).map Request.kind) client with
  | none => cases (hrealizes.returns hlively hclient).symm.trans hread
  | some x =>
    obtain ⟨replies, client'⟩ := x
    obtain ⟨rfl, hrest⟩ := Prod.mk.inj (Option.some.inj
      ((hrealizes.result hclient).symm.trans hread))
    exact ⟨client', rfl, hrest⟩

/-- A key is set and a group is flushed; the responses arrive in four pieces, one of them empty. -/
theorem replies_of_set_flush :
    let qs : List Request := [.update .set 0 0 0 0 0 [107] [118], .flush 7]
    let c := PeerCache.Conn.twoRequests.foldl (PeerCache.Conn.next PeerCache.Conn.smallBackend)
      (PeerCache.Conn.opened (qs.map Request.bytes).flatten [])
    let pieces : List Bytes :=
      [[2, 7, 0], [], [0, 0, 0, 0, 0, 0, 1, 2], [17, 0, 0, 0, 0, 0, 0, 0, 0, 0, 0, 0, 0]]
    let client : TCPSocket := ⟨32768, [], pieces⟩
    c.responses = [.update 1, .flush 0 0] ∧
      ∃ client', receiveAll TCPSocket.readBytes (qs.map Request.kind) client =
        some ([.cacheId 1, .flush 0 0], client') ∧ client'.unread = [] := by
  intro qs c pieces client
  have hturns : Admitted (fun (c : PeerCache.Conn (CacheMgr × Nat)) a => c.Permitted a)
      (PeerCache.Conn.next PeerCache.Conn.smallBackend)
      (PeerCache.Conn.opened (qs.map Request.bytes).flatten []) PeerCache.Conn.twoRequests := by
    decide +kernel
  have hqs : ∀ q ∈ qs, q.key.length < 65536 ∧ q.data.length < 2 ^ 31 ∧ q.kind ≠ .checkWatch := by
    decide
  have hresponses : c.responses = [.update 1, .flush 0 0] := by decide +kernel
  obtain ⟨rs, t, s, -, -, hserved, hall⟩ :=
    replies_of_operations hqs (List.append_nil _) hturns.run_trace
  rw [hserved.responses.trans hresponses] at hall
  exact ⟨hresponses, hall .little 0 client (by decide +kernel) (by decide +kernel) (by decide)⟩

end Xixi.Client
