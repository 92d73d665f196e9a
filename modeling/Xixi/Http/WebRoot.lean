import Mathlib.Data.List.TakeWhile
import Xixi.Lib.Path
import Xixi.Http.Machine

/-!
# The web root (`Peer_Http::get_cache_item`)

A key that is not in the cache is a path below `webapps`, and is taken for a file name once a counter
over its elements has found that it does not lead out. The elements are those of
`boost::filesystem::path`.

1. `segments`, `Settings.IteratesPaths`: the elements of a key.
2. `locate`, `Inside`: where a file name leads to, without symbolic links.
3. `Backend.traced`: the file names that are used.
4. `web_root`: what the check says, and where the file names lead.
-/

namespace Xixi.Http
open Lib Place Element

/-- What stands between the slashes. -/
def segments (path : Bytes) : List Bytes := (path.splitOn 47).filter (· ≠ [])

/-- An iterator over a path that starts with a slash goes over the root and the segments that are not
empty, and then over a dot if the path ends with a slash (the root alone has none). -/
def Settings.IteratesPaths (s : Settings) : Prop :=
  ∀ x, 0 ∉ x → ∃ last, s.pathElements (47 :: x) = [47] :: (segments x ++ last) ∧
    (last = [] ∨ last = [ascii "."])

/-- Neither `..` nor `.`. -/
def Ordinary (e : Bytes) : Prop := e ≠ ascii ".." ∧ e ≠ ascii "."

instance (e : Bytes) : Decidable (Ordinary e) := inferInstanceAs (Decidable (_ ∧ _))

/-- An element, as the operating system follows it. -/
def element (e : Bytes) : Element Bytes :=
  if e = [] ∨ e = ascii "." then .stay else if e = ascii ".." then .up else .down e

def elements (path : Bytes) : List (Element Bytes) := (path.splitOn 47).map element

/-- Where a path leads to: from the root, or from the working directory. -/
def locate (path : Bytes) : Place Bytes :=
  walk (path.head? = some 47) ⟨0, []⟩ (elements path)

def webapps (s : Settings) : Bytes := s.homeDir ++ ascii "webapps"

/-- The file name leads to `webapps`, or to something below it. -/
def Inside (s : Settings) (filename : Bytes) : Prop := Below (locate (webapps s)) (locate filename)

instance (s : Settings) (filename : Bytes) : Decidable (Inside s filename) :=
  inferInstanceAs (Decidable (Below _ _))

/-- The file system with a record of the names that are used. -/
def Backend.traced {β : Type} (B : Backend β) (s : Settings) : Backend (β × List Bytes) where
  exec m k :=
    let (r, n) := B.exec m.1 k
    match k, r with
    | .cache _, r => (r, (n, m.2))
    | .loadFromFile _ key _ _, r => (r, (n, m.2 ++ [webapps s ++ cString key.mem]))
    | .status filename, r => (r, (n, m.2 ++ [filename]))
  item m := B.item m.1
  releaseReference m it := (B.releaseReference m.1 it, m.2)

namespace WebRootLemmas

open TextLemmas

variable {s : Settings} {x path : Bytes} {es : List Bytes} {β : Type} {B : Backend β}

/-! ## The counter -/

/-- The counter of the check is one above the level. -/
theorem escapes_eq (hes : [] ∉ es) (n : Nat) : escapes es (n + 1) = rises n (es.map element) := by
  induction es generalizing n with
  | nil => rfl
  | cons e es ih =>
    have hne : e ≠ [] := fun h => hes (h ▸ List.mem_cons_self)
    have hes' : [] ∉ es := fun h => hes (List.mem_cons_of_mem e h)
    rw [escapes, List.map_cons, element]
    by_cases hup : e = ascii ".."
    · have hdot : ¬ (e = [] ∨ e = ascii ".") := by
        rw [hup]
        decide
      rw [if_pos hup, if_neg hdot, if_pos hup, rises]
      cases n with
      | zero => rfl
      | succ n =>
        rw [Nat.add_sub_cancel, ih hes']
        rfl
    · rw [if_neg hup]
      by_cases hdot : e = ascii "."
      · rw [if_pos hdot, if_pos (.inr hdot), rises, ih hes']
      · rw [if_neg hdot, if_neg (not_or.mpr ⟨hne, hdot⟩), if_neg hup, rises, ih hes']

/-- Between two slashes nothing moves. -/
theorem rises_filter (n : Nat) (es : List Bytes) :
    rises n ((es.filter (· ≠ [])).map element) = rises n (es.map element) := by
  induction es generalizing n with
  | nil => rfl
  | cons e es ih =>
    cases e with
    | nil =>
      rw [List.filter_cons_of_neg (by decide), ih]
      rfl
    | cons c e =>
      have hkeep : ((c :: e) :: es).filter (· ≠ []) = (c :: e) :: es.filter (· ≠ []) :=
        List.filter_cons_of_pos (decide_eq_true (List.cons_ne_nil c e))
      rw [hkeep, List.map_cons, List.map_cons]
      cases element (c :: e) with
      | stay => exact ih n
      | up => exact congrArg (n == 0 || ·) (ih (n - 1))
      | down name => exact ih (n + 1)

theorem nil_notMem_segments (x : Bytes) : [] ∉ segments x := fun h =>
  absurd rfl (of_decide_eq_true (List.mem_filter.mp h).2)

theorem escapes_pathElements (hs : s.IteratesPaths) (hx : 0 ∉ x) :
    escapes (s.pathElements (47 :: x)) 0 = rises 0 (elements x) := by
  obtain ⟨last, hpath, hlast⟩ := hs x hx
  have hroot (es : List Bytes) : escapes ([47] :: es) 0 = escapes es 1 := by
    rw [escapes, if_neg (by decide), if_neg (by decide)]
  have hseg : rises 0 ((segments x ++ last).map element) = rises 0 (elements x) := by
    rw [List.map_append]
    refine Eq.trans ?_ (rises_filter 0 (x.splitOn 47))
    rcases hlast with rfl | rfl
    · rw [List.map_nil, List.append_nil, segments]
    · exact rises_append_stay 0 _
  have hnil : [] ∉ segments x ++ last := by
    rw [List.mem_append, not_or]
    refine ⟨nil_notMem_segments x, ?_⟩
    rcases hlast with rfl | rfl
    · exact List.not_mem_nil
    · decide
  rw [hpath, hroot, escapes_eq hnil, hseg]

theorem ups_map (es : List Bytes) : ups (es.map element) = es.count (ascii "..") := by
  rw [ups, List.countP_map, List.count]
  refine List.countP_congr fun e _ => ?_
  rw [Function.comp_apply, element, beq_iff_eq]
  by_cases hup : e = ascii ".."
  · rw [hup]
    decide
  · rw [if_neg hup]
    by_cases hstay : e = [] ∨ e = ascii "."
    · rw [if_pos hstay]
      exact iff_of_false (by rintro ⟨⟩) hup
    · rw [if_neg hstay]
      exact iff_of_false (by rintro ⟨⟩) hup

theorem downs_map (h : [] ∉ es) : downs (es.map element) = es.countP (Ordinary ·) := by
  rw [downs, List.countP_map]
  refine List.countP_congr fun e he => ?_
  have hne : e ≠ [] := fun h' => h (h' ▸ he)
  rw [Function.comp_apply, element, decide_eq_true_iff, Ordinary]
  by_cases hup : e = ascii ".."
  · rw [hup]
    decide
  · by_cases hdot : e = ascii "."
    · rw [hdot]
      decide
    · rw [if_neg (not_or.mpr ⟨hne, hdot⟩), if_neg hup]
      exact iff_of_true rfl ⟨hup, hdot⟩

/-- The check compares the elements that go up with those that go down. -/
theorem escapes_iff_count (hs : s.IteratesPaths) (hx : 0 ∉ x) :
    escapes (s.pathElements (47 :: x)) 0 = true ↔
      ∃ pre, pre <+: segments x ∧ pre.countP (Ordinary ·) < pre.count (ascii "..") := by
  rw [escapes_pathElements hs hx, elements, ← rises_filter, rises_iff]
  constructor
  · rintro ⟨pre, hpre, hlt⟩
    obtain ⟨pre', hpre', rfl⟩ := List.prefix_map_iff.mp hpre
    rw [Nat.zero_add, ups_map, downs_map fun h => nil_notMem_segments x (hpre'.subset h)] at hlt
    exact ⟨pre', hpre', hlt⟩
  · rintro ⟨pre, hpre, hlt⟩
    refine ⟨pre.map element, hpre.map element, ?_⟩
    rwa [Nat.zero_add, ups_map, downs_map fun h => nil_notMem_segments x (hpre.subset h)]

/-! ## Where the file names lead -/

theorem webapps_ne_nil (s : Settings) : webapps s ≠ [] :=
  List.append_ne_nil_of_right_ne_nil _ (by decide)

theorem locate_append (s : Settings) (x : Bytes) :
    locate (webapps s ++ 47 :: x) =
      (locate (webapps s)).walk ((webapps s).head? = some 47) (elements x) := by
  have hhead : (webapps s ++ 47 :: x).head? = (webapps s).head? := by
    cases h : webapps s with
    | nil => exact absurd h (webapps_ne_nil s)
    | cons c l => rfl
  rw [locate, locate, elements, List.splitOn_append_cons_self, List.map_append, walk_append, hhead]
  rfl

/-- The last element of `webapps` is a name. -/
theorem names_ne_nil (s : Settings) : (locate (webapps s)).names ≠ [] := by
  have hname : 47 ∉ ascii "webapps" := by decide
  have hlast : ∃ es e, (webapps s).splitOn 47 = es ++ [e ++ ascii "webapps"] := by
    rw [webapps]
    by_cases hmem : 47 ∈ s.homeDir
    · obtain ⟨b, a, hab, hb⟩ := List.eq_append_cons_of_mem (List.mem_reverse.mpr hmem)
      have hhome : s.homeDir = a.reverse ++ 47 :: b.reverse := by
        rw [← List.reverse_reverse s.homeDir, hab, List.reverse_append, List.reverse_cons,
          List.append_assoc, List.singleton_append]
      have hb' : 47 ∉ b.reverse ++ ascii "webapps" := by
        rw [List.mem_append, List.mem_reverse, not_or]
        exact ⟨hb, hname⟩
      refine ⟨a.reverse.splitOn 47, b.reverse, ?_⟩
      rw [hhome, List.append_assoc, List.cons_append, List.splitOn_append_cons_self,
        List.splitOn_eq_singleton hb']
    · have hno : 47 ∉ s.homeDir ++ ascii "webapps" := by
        rw [List.mem_append, not_or]
        exact ⟨hmem, hname⟩
      exact ⟨[], s.homeDir, List.splitOn_eq_singleton hno⟩
  obtain ⟨es, e, hsplit⟩ := hlast
  have hdown : element (e ++ ascii "webapps") = .down (e ++ ascii "webapps") := by
    have hlen (e' : Bytes) (h : e'.length < 7) : e ++ ascii "webapps" ≠ e' := by
      intro heq
      have hl := congrArg List.length heq
      rw [List.length_append] at hl
      have h7 : (ascii "webapps").length = 7 := by decide
      omega
    rw [element, if_neg (not_or.mpr ⟨hlen [] (by decide), hlen (ascii ".") (by decide)⟩),
      if_neg (hlen (ascii "..") (by decide))]
  rw [locate, elements, hsplit, List.map_append, walk_append, List.map_singleton, hdown]
  exact List.cons_ne_nil _ _

theorem inside_of_not_rises (h : rises 0 (elements x) = false) : Inside s (webapps s ++ 47 :: x) := by
  rw [Inside, locate_append]
  exact (below_walk_iff (names_ne_nil s)).mpr h _ (List.prefix_refl _)

/-- The check lets those keys pass that lead to no place outside on their way. -/
theorem escapes_iff_outside (hs : s.IteratesPaths) (hx : 0 ∉ x) :
    escapes (s.pathElements (47 :: x)) 0 = false ↔
      ∀ pre, pre <+: segments x → Below (locate (webapps s))
        ((locate (webapps s)).walk ((webapps s).head? = some 47) (pre.map element)) := by
  rw [escapes_pathElements hs hx, elements, ← rises_filter, ← below_walk_iff (names_ne_nil s)]
  constructor
  · exact fun h pre hpre => h _ (hpre.map element)
  · intro h pre hpre
    obtain ⟨pre', hpre', rfl⟩ := List.prefix_map_iff.mp hpre
    exact h pre' hpre'

/-! ## The file names -/

theorem lookup_traced (m : β) (files : List Bytes) (p : Params) (key : Text) (isBase : Bool) :
    (lookup (B.traced s) (m, files) p key isBase).2.2 = files := by
  by_cases h : p.touchFlag = true
  · have hif : lookup (B.traced s) (m, files) p key isBase = _ := if_pos h
    rw [hif]
    rfl
  · have hif : lookup (B.traced s) (m, files) p key isBase = _ := if_neg h
    rw [hif]
    rfl

theorem loadFromFile_traced (m : β) (files : List Bytes) (p : Params) (key : Text) :
    (loadFromFile (B.traced s) s (m, files) p key).2.2 = files ++ [webapps s ++ cString key.mem] :=
  rfl

/-- A welcome file is looked for under the key with its name behind it. -/
theorem getWelcomeFile_traced (p : Params) (isBase : Bool) (ws : List Bytes) (m : β × List Bytes) :
    ∀ f ∈ (getWelcomeFile (B.traced s) s p isBase m ws).2.2,
      f ∈ m.2 ∨ ∃ w ∈ ws, f = webapps s ++ cString (p.key.bytes ++ w) := by
  induction ws generalizing m with
  | nil => exact fun f hf => .inl hf
  | cons w ws ih =>
    intro f hf
    have hlookup := lookup_traced (s := s) (B := B) m.1 m.2 p (.copy (p.key.bytes ++ w)) isBase
    rw [getWelcomeFile] at hf
    generalize lookup (B.traced s) m p (.copy (p.key.bytes ++ w)) isBase = r at hf hlookup
    obtain ⟨⟨it, reason⟩, m', files⟩ := r
    cases hlookup
    cases it with
    | some it => exact .inl hf
    | none =>
      have hload := loadFromFile_traced (s := s) (B := B) m' m.2 p (.copy (p.key.bytes ++ w))
      rw [show cString (Text.copy (p.key.bytes ++ w)).mem = cString (p.key.bytes ++ w) from
        cString_concat _] at hload
      dsimp only at hf
      generalize loadFromFile (B.traced s) s (m', m.2) p (.copy (p.key.bytes ++ w)) = r at hf hload
      obtain ⟨result, m'', files⟩ := r
      cases hload
      have hnew (hf : f ∈ m.2 ++ [webapps s ++ cString (p.key.bytes ++ w)]) :
          f ∈ m.2 ∨ ∃ w' ∈ w :: ws, f = webapps s ++ cString (p.key.bytes ++ w') := by
        refine (List.mem_append.mp hf).imp_right fun h => ?_
        exact ⟨w, List.mem_cons_self, List.mem_singleton.mp h⟩
      split at hf
      · next hnot =>
        cases hnot
        rcases ih _ f hf with hf' | ⟨w', hw', rfl⟩
        · exact hnew hf'
        · exact .inr ⟨w', List.mem_cons_of_mem w hw', rfl⟩
      · next heq =>
        cases heq
        exact hnew hf

/-- The file names of a key: they are used once the check has let the key pass. -/
theorem getCacheItem_traced (p : Params) (isBase : Bool) (m : β) :
    ∀ f ∈ (getCacheItem (B.traced s) s (m, []) p isBase).2.2,
      p.key.mem.head? = some 47 ∧ escapes (s.pathElements (cString p.key.mem)) 0 = false ∧
        (f = webapps s ++ cString p.key.mem ∨ p.key.bytes.getLast? = some 47 ∧
          ∃ w ∈ s.welcomeFileList, f = webapps s ++ cString (p.key.bytes ++ w)) := by
  intro f hf
  have hlookup := lookup_traced (s := s) (B := B) m [] p p.key isBase
  rw [getCacheItem] at hf
  generalize lookup (B.traced s) (m, []) p p.key isBase = r at hf hlookup
  obtain ⟨⟨it, reason⟩, m', files⟩ := r
  cases hlookup
  cases it with
  | some it => exact absurd hf List.not_mem_nil
  | none =>
    dsimp only at hf
    split at hf
    · next hkey =>
      cases hesc : escapes (s.pathElements (cString p.key.mem)) 0 with
      | true =>
        rw [hesc] at hf
        exact absurd hf List.not_mem_nil
      | false =>
        rw [hesc, if_neg (by decide)] at hf
        refine ⟨hkey.2, rfl, ?_⟩
        have hstatus : ((B.traced s).exec (m', [])
            (.status (s.homeDir ++ ascii "webapps" ++ cString p.key.mem))).2.2 =
              [webapps s ++ cString p.key.mem] := rfl
        generalize (B.traced s).exec (m', [])
          (.status (s.homeDir ++ ascii "webapps" ++ cString p.key.mem)) = r at hf hstatus
        obtain ⟨status, m'', files⟩ := r
        cases hstatus
        have hkeyName (hf : f ∈ [webapps s ++ cString p.key.mem]) :
            f = webapps s ++ cString p.key.mem := List.mem_singleton.mp hf
        split at hf
        · next h =>
          cases h
          exact .inl (hkeyName hf)
        · next h =>
          cases h
          split at hf
          · next hlast =>
            rcases getWelcomeFile_traced p isBase s.welcomeFileList _ f hf with hf' | hf'
            · exact .inl (hkeyName hf')
            · exact .inr ⟨hlast, hf'⟩
          · exact .inl (hkeyName hf)
        · next h =>
          cases h
          have hload := loadFromFile_traced (s := s) (B := B) m'' [webapps s ++ cString p.key.mem] p p.key
          generalize loadFromFile (B.traced s) s (m'', [webapps s ++ cString p.key.mem]) p p.key = r
            at hf hload
          obtain ⟨result, m₃, files⟩ := r
          cases hload
          have hboth : f ∈ [webapps s ++ cString p.key.mem] ++ [webapps s ++ cString p.key.mem] := hf
          rcases List.mem_append.mp hboth with hf' | hf'
          · exact .inl (hkeyName hf')
          · exact .inl (hkeyName hf')
    · exact absurd hf List.not_mem_nil

theorem elements_append (a b : Bytes) : elements (a ++ 47 :: b) = elements a ++ elements b := by
  rw [elements, List.splitOn_append_cons_self, List.map_append]
  rfl

/-- A key that ends in a slash, and a file below it. -/
theorem inside_welcome {t : Text} {w : Bytes} (ht : cString t.mem = 47 :: x)
    (hx : rises 0 (elements x) = false) (hlast : t.bytes.getLast? = some 47)
    (hw : rises 0 (elements (cString w)) = false) : Inside s (webapps s ++ cString (t.bytes ++ w)) := by
  have hmem : t.bytes ++ t.mem.drop t.length = t.mem := List.take_append_drop _ _
  generalize t.mem.drop t.length = rest at hmem
  rw [← hmem] at ht
  by_cases h0 : 0 ∈ t.bytes
  · rw [cString_append_of_mem h0] at ht
    rw [cString_append_of_mem h0, ht]
    exact inside_of_not_rises hx
  · rw [cString_append_of_notMem h0] at ht
    rw [cString_append_of_notMem h0]
    obtain ⟨k, hk⟩ := List.getLast?_eq_some_iff.mp hlast
    rw [hk, List.append_assoc] at ht
    rw [hk, List.append_assoc]
    cases k with
    | nil => exact inside_of_not_rises hw
    | cons c k =>
      obtain ⟨rfl, rfl⟩ := List.cons.inj ht
      have hk' : rises 0 (elements k) = false := by
        have happ : elements (k ++ ([47] ++ cString rest)) = elements k ++ elements (cString rest) :=
          elements_append k _
        exact not_rises_of_append (happ ▸ hx)
      refine inside_of_not_rises ?_
      have happ : elements (k ++ ([47] ++ cString w)) = elements k ++ elements (cString w) :=
        elements_append k _
      exact happ ▸ not_rises_append hk' hw

end WebRootLemmas

open TextLemmas WebRootLemmas

/-- The check rejects the keys that lead out somewhere on their way, and every file name leads to
`webapps` or below, unless it ends in a welcome file that is configured to lead up. -/
theorem web_root {β : Type} {s : Settings} {p : Params} {x : Bytes} (hs : s.IteratesPaths)
    (hkey : cString p.key.mem = 47 :: x) (B : Backend β) (m : β) (isBase : Bool) :
    (escapes (s.pathElements (cString p.key.mem)) 0 = true ↔
      ∃ pre, pre <+: segments x ∧ pre.countP (Ordinary ·) < pre.count (ascii "..")) ∧
    (escapes (s.pathElements (cString p.key.mem)) 0 = false ↔
      ∀ pre, pre <+: segments x → Below (locate (webapps s))
        ((locate (webapps s)).walk ((webapps s).head? = some 47) (pre.map element))) ∧
    ∀ f ∈ (getCacheItem (B.traced s) s (m, []) p isBase).2.2, Inside s f ∨
      ∃ w ∈ s.welcomeFileList, rises 0 (elements (cString w)) = true ∧
        f = webapps s ++ cString (p.key.bytes ++ w) := by
  have hx : 0 ∉ x := fun h =>
    zero_notMem_cString p.key.mem (hkey ▸ List.mem_cons_of_mem 47 h)
  refine ⟨?_, ?_, fun f hf => ?_⟩
  · rw [hkey]
    exact escapes_iff_count hs hx
  · rw [hkey]
    exact escapes_iff_outside hs hx
  · obtain ⟨-, hesc, hname⟩ := getCacheItem_traced p isBase m f hf
    rw [hkey, escapes_pathElements hs hx] at hesc
    rcases hname with rfl | ⟨hlast, w, hw, rfl⟩
    · rw [hkey]
      exact .inl (inside_of_not_rises hesc)
    · cases hr : rises 0 (elements (cString w)) with
      | true => exact .inr ⟨w, hw, hr, rfl⟩
      | false => exact .inl (inside_welcome hkey hesc hlast hr)

/-- The settings of a server with files, and these welcome files. -/
def Settings.web (welcome : List Bytes) : Settings :=
  { Settings.small with
    welcomeFileList := welcome
    pathElements := fun path => [47] :: (segments path.tail ++
      if path.tail.getLast? = some 47 then [ascii "."] else []) }

theorem Settings.web_iteratesPaths (welcome : List Bytes) : (Settings.web welcome).IteratesPaths := by
  intro x _
  refine ⟨_, rfl, ?_⟩
  split
  · exact .inr rfl
  · exact .inl rfl

/-- The small manager, where every name is that of a directory. -/
def directories (s : Settings) : Backend (CacheMgr × Nat) :=
  cacheMgrBackend (.colliding .uint16) s (fun _ => some .directory) 7 (fun _ => .zeros)
    fun m _ _ _ => ([], m)

/-- A key with a step back. -/
def Params.reading (key : Bytes) : Params := { key := .copy key }

theorem web_root_small :
    let s := Settings.web [ascii "index.html"]
    let p := Params.reading (ascii "/a/../b/")
    (escapes (s.pathElements (cString p.key.mem)) 0 = true ↔
      ∃ pre, pre <+: segments (ascii "a/../b/") ∧
        pre.countP (Ordinary ·) < pre.count (ascii "..")) ∧
    (escapes (s.pathElements (cString p.key.mem)) 0 = false ↔
      ∀ pre, pre <+: segments (ascii "a/../b/") → Below (locate (webapps s))
        ((locate (webapps s)).walk ((webapps s).head? = some 47) (pre.map element))) ∧
    ∀ f ∈ (getCacheItem ((directories s).traced s) s (((Sys.small .uint16).mgr, 0), []) p false).2.2,
      Inside s f ∨ ∃ w ∈ s.welcomeFileList, rises 0 (elements (cString w)) = true ∧
        f = webapps s ++ cString (p.key.bytes ++ w) :=
  web_root (Settings.web_iteratesPaths _) (by decide) (directories _) ((Sys.small .uint16).mgr, 0) false

/-- With a welcome file that leads up, `/` is answered from outside `webapps`. -/
theorem not_inside_welcome :
    let s := Settings.web [ascii "../secret"]
    ∃ f ∈ (getCacheItem ((directories s).traced s) s (((Sys.small .uint16).mgr, 0), [])
      (.reading (ascii "/")) false).2.2, ¬ Inside s f :=
  ⟨webapps (Settings.web []) ++ ascii "/../secret", by decide +kernel, by decide +kernel⟩

end Xixi.Http
