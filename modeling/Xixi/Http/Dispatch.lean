import Mathlib.Data.List.TakeWhile
import Xixi.Http.Machine

/-!
# Commands (`Peer_Http::process_command`)

The name of a command stands between the base url and the last `?` of the uri, and is compared with
the commands of its length.

1. `commands`: the names and what they ask for.
2. `Dispatched`: what a uri with a name and a query is taken for.
3. `commandOf_name`: the table, for a name.
4. `dispatched_iff`: which uris are taken for what they say.
-/

namespace Xixi.Http
open Lib

/-- The commands. -/
def commands : List (Bytes × Operation) :=
  [(ascii "get", .get), (ascii "set", .update .set), (ascii "add", .update .add),
    (ascii "del", .delete), (ascii "incr", .delta true), (ascii "decr", .delta false),
    (ascii "flush", .flush), (ascii "touch", .touch), (ascii "flags", .updateFlags),
    (ascii "stats", .stats), (ascii "append", .update .append), (ascii "replace", .update .replace),
    (ascii "prepend", .update .prepend), (ascii "getbase", .getBase), (ascii "watch", .watch),
    (ascii "createwatch", .createWatch)]

/-- What a name asks for; the answer to an unknown name is 400. -/
def commandNamed (name : Bytes) : Operation :=
  (commands.lookup name).getD (.error .invalidParameter)

/-- The uri of a command, with a query or without. -/
def commandUri (base name : Bytes) (query : Option Bytes) : Bytes :=
  base ++ (name ++ query.elim [] (63 :: ·))

/-- `cmd_length`. -/
def cmdLength (s : Settings) (uri : Bytes) : Nat :=
  match strrchr (cString uri) 63 with
  | some (before, _) => (before.length + (2 ^ 32 - s.managerBaseUrl.length)) % 2 ^ 32
  | none => uri.length - s.managerBaseUrl.length

/-- `watch` is looked for where the length is ten. -/
def TakenForWatch (behind name : Bytes) : Prop :=
  name.length = 10 ∧ name = ascii "watch" ++ 0 :: behind.take 4

/-- The handler of the command runs, what is parsed is the query, and what is compared are bytes of
the uri. -/
structure Dispatched (s : Settings) (p : Params) (name : Bytes) (query : Option Bytes) : Prop where
  operation : (processCommand s p).1 = commandNamed name
  arguments : strrchr (cString p.http.uri) 63 = query.map fun q => (s.managerBaseUrl ++ name, q)
  params : (processCommand s p).2 = query.elim p fun q => (p.processRequestArg q).2
  inside : cmdLength s p.http.uri ≤ (p.http.uri.drop s.managerBaseUrl.length).length

namespace DispatchLemmas

open TextLemmas

variable {s : Settings} {p : Params} {name rest behind q x y : Bytes} {query : Option Bytes} {c : UInt8}

/-! ## The last question mark -/

theorem strrchr_eq_none : strrchr x c = none ↔ c ∉ x := by
  rw [strrchr, Option.map_eq_none_iff, cut_singleton_none, List.mem_reverse]

theorem strrchr_append (h : c ∉ q) (y : Bytes) : strrchr (y ++ c :: q) c = some (y, q) := by
  have hcut := cut_singleton (fun h' => h (List.mem_reverse.mp h')) y.reverse
  rw [strrchr, List.reverse_append, List.reverse_cons, List.append_assoc, List.singleton_append,
    hcut, Option.map_some, List.reverse_reverse, List.reverse_reverse]

theorem strrchr_eq_some (h : strrchr x c = some (y, q)) : x = y ++ c :: q ∧ c ∉ q := by
  -- a text with a `c` ends in the last one and what has none
  have hc : c ∈ x := Decidable.byContradiction fun hc => by
    rw [strrchr_eq_none.mpr hc] at h
    cases h
  obtain ⟨a, b, hx, hb⟩ := List.eq_append_cons_of_mem (List.mem_reverse.mpr hc)
  have hx' : x = b.reverse ++ c :: a.reverse := by
    rw [← List.reverse_reverse x, hx, List.reverse_append, List.reverse_cons, List.append_assoc,
      List.singleton_append]
  have ha : c ∉ a.reverse := fun h' => hb (List.mem_reverse.mp h')
  rw [hx', strrchr_append ha] at h
  cases h
  exact ⟨hx', ha⟩

/-! ## The table -/

theorem commandOf_of_mem {o : Operation} (h : (name, o) ∈ commands) (hw : name ≠ ascii "watch") :
    commandOf behind name.length (name ++ rest) = o := by
  simp only [commands, List.mem_cons, List.not_mem_nil, or_false, Prod.mk.injEq] at h
  rcases h with ⟨rfl, rfl⟩ | ⟨rfl, rfl⟩ | ⟨rfl, rfl⟩ | ⟨rfl, rfl⟩ | ⟨rfl, rfl⟩ | ⟨rfl, rfl⟩ |
    ⟨rfl, rfl⟩ | ⟨rfl, rfl⟩ | ⟨rfl, rfl⟩ | ⟨rfl, rfl⟩ | ⟨rfl, rfl⟩ | ⟨rfl, rfl⟩ | ⟨rfl, rfl⟩ |
    ⟨rfl, rfl⟩ | ⟨rfl, rfl⟩ | ⟨rfl, rfl⟩
  all_goals first | rfl | exact absurd rfl hw

theorem take_name {n : Nat} (h : name.length = n) (rest : Bytes) : (name ++ rest).take n = name :=
  h ▸ List.take_left

theorem commandOf_watch (rest : Bytes) :
    commandOf behind (ascii "watch").length (ascii "watch" ++ rest) = .error .invalidParameter :=
  rfl

theorem commandOf_of_takenForWatch (h : TakenForWatch behind name) (rest : Bytes) :
    commandOf behind name.length (name ++ rest) = .watch := by
  have htake := take_name h.1 rest
  rw [h.1]
  unfold commandOf
  rw [if_neg (by decide), if_neg (by decide), if_neg (by decide), if_neg (by decide),
    if_neg (by decide), if_pos rfl, if_pos (htake.trans h.2)]

theorem commandOf_of_unknown (h : name ∉ commands.map Prod.fst)
    (hw : ¬ TakenForWatch behind name) (rest : Bytes) :
    commandOf behind name.length (name ++ rest) = .error .invalidParameter := by
  have hne {n : Nat} {w : Bytes} (hn : name.length = n) (hmem : w ∈ commands.map Prod.fst) :
      (name ++ rest).take n ≠ w := fun heq => h (take_name hn rest ▸ heq ▸ hmem)
  unfold commandOf
  -- a branch for each command asks for its length and then for its bytes
  split_ifs
  all_goals first
    | rfl
    | exact absurd ⟨‹name.length = 10›, take_name ‹_› rest ▸ ‹_›⟩ hw
    | exact absurd ‹(name ++ rest).take _ = _› (hne ‹name.length = _› (by decide))

theorem commandNamed_cases (name : Bytes) :
    (name, commandNamed name) ∈ commands ∨
      name ∉ commands.map Prod.fst ∧ commandNamed name = .error .invalidParameter := by
  unfold commandNamed
  cases h : commands.lookup name with
  | none =>
    refine .inr ⟨fun hmem => ?_, rfl⟩
    obtain ⟨e, he, rfl⟩ := List.mem_map.mp hmem
    exact absurd (beq_self_eq_true e.1) (by simpa using List.lookup_eq_none_iff.mp h e he)
  | some o =>
    obtain ⟨a, b, hab, -⟩ := List.lookup_eq_some_iff.mp h
    exact .inl (hab ▸ List.mem_append_right a List.mem_cons_self)

/-- What the table makes of a name: the one of five letters is never found. -/
theorem commandOf_iff (rest : Bytes) :
    commandOf behind name.length (name ++ rest) = commandNamed name ↔
      name ≠ ascii "watch" ∧ ¬ TakenForWatch behind name := by
  constructor
  · intro h
    constructor
    · rintro rfl
      exact absurd h (by rw [commandOf_watch]; decide)
    · intro hw
      rw [commandOf_of_takenForWatch hw] at h
      rcases commandNamed_cases name with hmem | ⟨-, herror⟩
      · -- no command has this name
        rw [← h] at hmem
        have hwatch : name = ascii "watch" := by simpa [commands] using hmem
        rw [hwatch] at hw
        exact absurd hw.1 (by decide)
      · rw [herror] at h
        cases h
  · rintro ⟨hname, hw⟩
    rcases commandNamed_cases name with hmem | ⟨hunknown, herror⟩
    · exact commandOf_of_mem hmem hname
    · rw [herror]
      exact commandOf_of_unknown hunknown hw rest

/-! ## The uri -/

theorem commandUri_drop (base name : Bytes) (query : Option Bytes) :
    (commandUri base name query).drop base.length = name ++ query.elim [] (63 :: ·) :=
  List.drop_left

/-- A uri that is cut as it was put together is handled as it was put together. -/
theorem processCommand_of_arguments (hmethod : p.http.method ≠ some .head)
    (huri : p.http.uri = commandUri s.managerBaseUrl name query)
    (hlen : p.http.uri.length < 2 ^ 32)
    (hargs : ∀ q ∈ query, (p.processRequestArg q).1 = true)
    (h : strrchr (cString p.http.uri) 63 = query.map fun q => (s.managerBaseUrl ++ name, q)) :
    cmdLength s p.http.uri = name.length ∧
      processCommand s p =
        (commandOf s.behindWatch name.length (name ++ query.elim [] (63 :: ·)),
          query.elim p fun q => (p.processRequestArg q).2) := by
  have hbase : s.managerBaseUrl <+: p.http.uri := ⟨_, huri.symm⟩
  have hdrop := commandUri_drop s.managerBaseUrl name query
  unfold cmdLength processCommand
  rw [if_pos ⟨hmethod, hbase⟩, h]
  cases query with
  | none =>
    have hsub : p.http.uri.length - s.managerBaseUrl.length = name.length := by
      rw [huri, ← List.length_drop, hdrop, Option.elim_none, List.append_nil]
    simp only [Option.map_none, hsub]
    rw [huri, hdrop]
    exact ⟨trivial, rfl⟩
  | some q =>
    have hsub : ((s.managerBaseUrl ++ name).length + (2 ^ 32 - s.managerBaseUrl.length)) % 2 ^ 32 =
        name.length := by
      have hsum : p.http.uri.length = s.managerBaseUrl.length + (name.length + (q.length + 1)) := by
        rw [huri, commandUri, List.length_append, List.length_append, Option.elim_some,
          List.length_cons]
      rw [List.length_append]
      omega
    simp only [Option.map_some, hsub]
    obtain ⟨ok, p', harg⟩ : ∃ ok p', p.processRequestArg q = (ok, p') := ⟨_, _, rfl⟩
    have hok := hargs q rfl
    rw [harg] at hok
    cases hok
    have helim : ((some q).elim p fun q => (p.processRequestArg q).2) = p' := by
      rw [Option.elim_some, harg]
    rw [harg, huri, hdrop, helim]
    exact ⟨trivial, rfl⟩

/-- Where the last `?` is the one in front of the query. -/
theorem arguments_iff (hquery : ∀ q ∈ query, 0 ∉ q) (base name : Bytes) :
    (strrchr (cString (commandUri base name query)) 63 = query.map fun q => (base ++ name, q)) ↔
      (query = none → 63 ∉ cString (base ++ name)) ∧
        ∀ q ∈ query, 0 ∉ base ++ name ∧ 63 ∉ q := by
  cases query with
  | none =>
    rw [Option.map_none, strrchr_eq_none, commandUri, Option.elim_none, List.append_nil]
    exact ⟨fun h => ⟨fun _ => h, fun q hq => nomatch hq⟩, fun h => h.1 rfl⟩
  | some q =>
    have huri : commandUri base name (some q) = (base ++ name) ++ 63 :: q :=
      (List.append_assoc base name _).symm
    rw [Option.map_some, huri]
    constructor
    · intro h
      obtain ⟨hx, hq⟩ := strrchr_eq_some h
      refine ⟨nofun, ?_⟩
      rintro _ ⟨rfl⟩
      have h0 := zero_notMem_cString (base ++ name ++ 63 :: q)
      rw [hx] at h0
      exact ⟨fun hmem => h0 (List.mem_append_left _ hmem), hq⟩
    · rintro ⟨-, h⟩
      obtain ⟨h0, hq⟩ := h q rfl
      have hno : 0 ∉ base ++ name ++ 63 :: q := by
        rw [List.mem_append, List.mem_cons]
        rintro (hmem | hmem | hmem)
        · exact h0 hmem
        · exact absurd hmem (by decide)
        · exact hquery q rfl hmem
      rw [cString_eq hno]
      exact strrchr_append hq _

end DispatchLemmas

open DispatchLemmas

/-- Which commands are run as the uri asks for. -/
theorem dispatched_iff {s : Settings} {p : Params} {name : Bytes} {query : Option Bytes}
    (hmethod : p.http.method = some .get ∨ p.http.method = some .post)
    (huri : p.http.uri = commandUri s.managerBaseUrl name query)
    (hlen : p.http.uri.length < 2 ^ 32)
    (hquery : ∀ q ∈ query, 0 ∉ q ∧ 32 ∉ q)
    (hargs : ∀ q ∈ query, (p.processRequestArg q).1 = true) :
    Dispatched s p name query ↔
      (name ≠ ascii "watch" ∧ ¬ TakenForWatch s.behindWatch name) ∧
        (query = none → 63 ∉ cString (s.managerBaseUrl ++ name)) ∧
          ∀ q ∈ query, 0 ∉ s.managerBaseUrl ++ name ∧ 63 ∉ q := by
  have hhead : p.http.method ≠ some .head := by
    rcases hmethod with h | h
    · rw [h]; decide
    · rw [h]; decide
  have hcut := arguments_iff (fun q hq => (hquery q hq).1) s.managerBaseUrl name
  rw [← huri] at hcut
  constructor
  · intro h
    obtain ⟨-, hrun⟩ := processCommand_of_arguments hhead huri hlen hargs h.arguments
    have hop := h.operation
    rw [hrun] at hop
    exact ⟨(commandOf_iff _).mp hop, hcut.mp h.arguments⟩
  · rintro ⟨hnamed, h⟩
    obtain ⟨hlength, hrun⟩ := processCommand_of_arguments hhead huri hlen hargs (hcut.mpr h)
    refine ⟨?_, hcut.mpr h, ?_, ?_⟩
    · rw [hrun]
      exact (commandOf_iff _).mpr hnamed
    · rw [hrun]
    · rw [hlength, huri, commandUri_drop, List.length_append]
      exact Nat.le_add_right _ _

/-- What is parsed of a `GET` for a command of the small server. -/
def Params.asking (name : Bytes) (query : Option Bytes) : Params :=
  { http := { method := some .get, uri := commandUri Settings.small.managerBaseUrl name query } }

theorem dispatched_iff_get :
    Dispatched .small (.asking (ascii "get") (some (ascii "k=a"))) (ascii "get")
        (some (ascii "k=a")) ↔
      (ascii "get" ≠ ascii "watch" ∧ ¬ TakenForWatch Settings.small.behindWatch (ascii "get")) ∧
        ((some (ascii "k=a") = none →
            63 ∉ cString (Settings.small.managerBaseUrl ++ ascii "get")) ∧
          ∀ q ∈ some (ascii "k=a"), 0 ∉ Settings.small.managerBaseUrl ++ ascii "get" ∧ 63 ∉ q) :=
  dispatched_iff (.inl rfl) rfl (by decide)
    (fun q hq => Option.mem_some_iff.mp hq ▸ by decide)
    (fun q hq => Option.mem_some_iff.mp hq ▸ by decide +kernel)

/-- `/manager/watch` is answered with 400; of `/manager/get?k=a?b` all that is parsed is `b`. -/
theorem not_dispatched_watch :
    ¬ Dispatched .small (.asking (ascii "watch") none) (ascii "watch") none ∧
      ¬ Dispatched .small (.asking (ascii "get") (some (ascii "k=a?b"))) (ascii "get")
        (some (ascii "k=a?b")) :=
  ⟨fun h => absurd h.operation (by decide +kernel), fun h => absurd h.arguments (by decide +kernel)⟩

end Xixi.Http
