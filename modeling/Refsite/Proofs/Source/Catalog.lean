import Mathlib.Data.List.Infix
import Mathlib.Data.List.Nodup
import Mathlib.Tactic.Tauto
import Refsite.Proofs.Text.Basic
import Refsite.Proofs.Text.Split
import Refsite.Site.Addresses
namespace Refsite.Source

open Refsite.Text

theorem normalize_normalize (path : String) : normalize (normalize path) = normalize path := by
  rw [normalize, normalize, onChars, onChars, String.toList_ofList, List.map_map]
  refine congrArg String.ofList (List.map_congr_left fun c _ => ?_)
  rw [Function.comp_apply]
  by_cases h : (c == '\\') = true
  · rw [if_pos h]
    rfl
  · rw [if_neg h, if_neg h]

theorem normalize_eq_empty_iff {path : String} : normalize path = "" ↔ path = "" := by
  rw [← String.toList_inj, ← String.toList_inj, normalize, onChars, String.toList_ofList]
  exact List.map_eq_nil_iff

theorem segments_eq (path : String) :
    ∃ last, splitAt '/' (normalize path).toList = directories path ++ [last] :=
  ⟨_, (List.dropLast_append_getLast (splitAt_ne_nil '/' _)).symm⟩

theorem commonFront_prefix_left (as bs : List (List Char)) : commonFront as bs <+: as := by
  induction as generalizing bs with
  | nil => cases bs <;> exact List.nil_prefix
  | cons a as ih =>
    cases bs with
    | nil => exact List.nil_prefix
    | cons b bs =>
      rw [commonFront]
      split
      · exact List.cons_prefix_cons.mpr ⟨rfl, ih bs⟩
      · exact List.nil_prefix

theorem commonFront_prefix_right (as bs : List (List Char)) : commonFront as bs <+: bs := by
  induction as generalizing bs with
  | nil => cases bs <;> exact List.nil_prefix
  | cons a as ih =>
    cases bs with
    | nil => exact List.nil_prefix
    | cons b bs =>
      rw [commonFront]
      split
      · next heq => exact List.cons_prefix_cons.mpr ⟨beq_iff_eq.mp heq, ih bs⟩
      · exact List.nil_prefix

theorem foldl_commonFront_prefix (paths : List String) (front : List (List Char)) :
    paths.foldl (fun front p => commonFront front (directories p)) front <+: front ∧
      ∀ path ∈ paths, paths.foldl (fun front p => commonFront front (directories p)) front <+:
        directories path := by
  induction paths generalizing front with
  | nil => exact ⟨List.prefix_rfl, nofun⟩
  | cons path paths ih =>
    obtain ⟨hfront, hpaths⟩ := ih (commonFront front (directories path))
    refine ⟨hfront.trans (commonFront_prefix_left _ _), ?_⟩
    intro p hp
    cases List.mem_cons.mp hp with
    | inl heq =>
      rw [heq]
      exact hfront.trans (commonFront_prefix_right _ _)
    | inr hmem => exact hpaths p hmem

/-- The shared directory is empty, or directories that come first in every path with a slash. -/
theorem commonPrefix_cases (paths : List String) :
    commonPrefix paths = "" ∨
      ∃ shared, shared ≠ [] ∧ (commonPrefix paths).toList = joinWith ['/'] shared ++ ['/'] ∧
        ∀ path ∈ paths, shared <+: directories path := by
  cases paths with
  | nil => exact .inl rfl
  | cons path paths =>
    obtain ⟨hfirst, hrest⟩ := foldl_commonFront_prefix paths (directories path)
    rw [commonPrefix]
    split
    · exact .inl rfl
    · next hne =>
      refine .inr ⟨_, fun hnil => hne (List.isEmpty_iff.mpr hnil), ?_, ?_⟩
      · rw [String.toList_append, String.toList_ofList]
        rfl
      · exact List.forall_mem_cons.mpr ⟨hfirst, hrest⟩

theorem commonPrefix_isPrefix {paths : List String} {path : String} (h : path ∈ paths) :
    (commonPrefix paths).toList <+: (normalize path).toList := by
  obtain hempty | ⟨shared, hne, heq, hshared⟩ := commonPrefix_cases paths
  · rw [hempty]
    exact List.nil_prefix
  · obtain ⟨more, hmore⟩ := hshared path h
    obtain ⟨last, hlast⟩ := segments_eq path
    have hjoin := joinWith_splitAt '/' (normalize path).toList
    rw [hlast, ← hmore, List.append_assoc,
      joinWith_append hne (List.append_ne_nil_of_right_ne_nil more (List.cons_ne_nil last []))]
      at hjoin
    rw [heq, ← hjoin]
    exact List.prefix_append _ _

theorem commonPrefix_append_shorten {paths : List String} {path : String} (h : path ∈ paths) :
    commonPrefix paths ++ shorten (commonPrefix paths) path = normalize path := by
  obtain ⟨rest, hrest⟩ := commonPrefix_isPrefix h
  rw [shorten, ← hrest, dropFront_append, ← String.toList_inj, String.toList_append, ← hrest,
    String.toList_ofList]

theorem shorten_ne_empty {paths : List String} {path : String} (h : path ∈ paths)
    (hne : path ≠ "") (hslash : (normalize path).toList.getLast? ≠ some '/') :
    shorten (commonPrefix paths) path ≠ "" := by
  intro hempty
  have hall := commonPrefix_append_shorten h
  rw [hempty, String.append_empty] at hall
  obtain hnone | ⟨shared, -, heq, -⟩ := commonPrefix_cases paths
  · exact hne (normalize_eq_empty_iff.mp (hall.symm.trans hnone))
  · rw [← hall, heq, List.getLast?_append] at hslash
    exact hslash rfl

theorem sourcePath_ne_empty {s : Symbol} {path : String} (h : s.sourcePath? = some path) :
    path ≠ "" := by
  have hjoined : ∀ a b : String, a ++ "/" ++ b ≠ "" := by
    intro a b heq
    have hlength := congrArg String.length heq
    rw [String.length_append, String.length_append] at hlength
    have hslash : "/".length = 1 := rfl
    have hempty : "".length = 0 := rfl
    omega
  have hname : ∀ name : String, (if name.isEmpty then none else some name) = some path →
      path ≠ "" := by
    intro name hname heq
    subst heq
    split at hname
    · cases hname
    · next hne => exact hne (Option.some.inj hname ▸ rfl)
  obtain ⟨origin, -, h⟩ := Option.bind_eq_some_iff.mp h
  split at h
  · split at h
    · cases h
      exact hjoined _ _
    · exact hname _ h
  · exact hname _ h

namespace Catalog

def NamesFiles (c : Catalog) : Prop := ∀ path ∈ c.paths, path.toList.getLast? ≠ some '/'

variable {symbols : List Symbol} {f g : File}

theorem mem_paths_add {c : Catalog} {path other : String} :
    other ∈ (c.add path).paths ↔ other ∈ c.paths ∨ other = path := by
  rw [add]
  split
  · next hold =>
    refine ⟨.inl, fun h => h.elim id fun heq => ?_⟩
    rw [heq]
    exact List.contains_iff_mem.mp hold
  · rw [paths, List.map_append, List.mem_append]
    exact or_congr_right List.mem_singleton

theorem nodup_paths_add {c : Catalog} (h : c.paths.Nodup) (path : String) :
    (c.add path).paths.Nodup := by
  rw [add]
  split
  · exact h
  · next hnew =>
    rw [paths, List.map_append]
    refine List.nodup_append.mpr ⟨h, List.nodup_singleton _, ?_⟩
    rintro p hp q hq rfl
    rw [List.mem_singleton.mp hq] at hp
    exact hnew (List.contains_iff_mem.mpr hp)

theorem nodup_paths_foldl {c : Catalog} (h : c.paths.Nodup) (more : List String) :
    (more.foldl add c).paths.Nodup := by
  induction more generalizing c with
  | nil => exact h
  | cons path more ih => exact ih (nodup_paths_add h path)

theorem mem_paths_foldl {c : Catalog} {more : List String} {path : String} :
    path ∈ (more.foldl add c).paths ↔ path ∈ c.paths ∨ path ∈ more := by
  induction more generalizing c with
  | nil => simp
  | cons first more ih => rw [List.foldl_cons, ih, mem_paths_add, List.mem_cons, or_assoc]

theorem paths_shorten (c : Catalog) (directory : String) :
    (c.shorten directory).paths = c.paths := by
  rw [paths, shorten, List.map_map]
  rfl

theorem nodup_paths_catalog (symbols : List Symbol) : (catalog symbols).1.paths.Nodup := by
  change ((collect symbols).shorten _).paths.Nodup
  rw [paths_shorten]
  exact nodup_paths_foldl (c := []) List.nodup_nil _

theorem mem_paths_catalog {path : String} :
    path ∈ (catalog symbols).1.paths ↔
      ∃ s ∈ symbols, ∃ given, s.sourcePath? = some given ∧ normalize given = path := by
  change path ∈ ((collect symbols).shorten _).paths ↔ _
  rw [paths_shorten, collect, mem_paths_foldl, List.mem_filterMap]
  simp [paths, Option.map_eq_some_iff]

theorem short_of_mem (h : f ∈ (catalog symbols).1) :
    f.short = some (Source.shorten (commonPrefix (catalog symbols).1.paths) f.path) := by
  obtain ⟨g, -, rfl⟩ := List.mem_map.mp h
  change some (Source.shorten (commonPrefix (collect symbols).paths) g.path) = _
  rw [← paths_shorten (collect symbols)]
  rfl

/-- Files of a catalog whose paths do not end in a slash have titles below the shared directory. -/
theorem title_of_mem (h : f ∈ (catalog symbols).1)
    (hslash : (catalog symbols).1.NamesFiles) :
    f.title = Source.shorten (commonPrefix (catalog symbols).1.paths) f.path ∧
      commonPrefix (catalog symbols).1.paths ++ f.title = f.path ∧ f.title ≠ "" := by
  have hmem : f.path ∈ (catalog symbols).1.paths := List.mem_map_of_mem h
  obtain ⟨s, -, given, hgiven, hpath⟩ := mem_paths_catalog.mp hmem
  have hnormal : normalize f.path = f.path := by rw [← hpath, normalize_normalize]
  have hne : f.path ≠ "" := by
    rw [← hpath]
    exact mt normalize_eq_empty_iff.mp (sourcePath_ne_empty hgiven)
  have hshort := shorten_ne_empty hmem hne (hnormal.symm ▸ hslash _ hmem)
  have htitle : f.title = Source.shorten (commonPrefix (catalog symbols).1.paths) f.path := by
    rw [File.title, short_of_mem h]
    exact if_neg (mt String.isEmpty_iff.mp hshort)
  rw [htitle]
  exact ⟨rfl, (commonPrefix_append_shorten hmem).trans hnormal, hshort⟩

theorem title_inj (hf : f ∈ (catalog symbols).1) (hg : g ∈ (catalog symbols).1)
    (hslash : (catalog symbols).1.NamesFiles)
    (h : f.title = g.title) : f = g := by
  have hpath : f.path = g.path := by
    rw [← (title_of_mem hf hslash).2.1, h, (title_of_mem hg hslash).2.1]
  exact List.inj_on_of_nodup_map (nodup_paths_catalog symbols) hf hg hpath

theorem find_of_mem {c : Catalog} (hc : c.paths.Nodup) (h : f ∈ c) : c.find? f.path = some f := by
  cases hfind : c.find? f.path with
  | none => exact absurd (beq_self_eq_true f.path) (List.find?_eq_none.mp hfind f h)
  | some g =>
    have hpath := List.find?_some hfind
    rw [List.inj_on_of_nodup_map hc (List.mem_of_find?_eq_some hfind) h (beq_iff_eq.mp hpath)]

theorem sourcePath_annotate (c : Catalog) (s : Symbol) :
    (c.annotate s).sourcePath? = s.sourcePath? := by
  rw [annotate]
  split
  · next origin _ horigin =>
    split
    · rfl
    · rw [Symbol.sourcePath?, Symbol.sourcePath?, horigin]
      rfl
  · rfl

theorem shortPath_annotate {s : Symbol} (hs : s ∈ symbols) {path : String}
    (hpath : s.sourcePath? = some path)
    (hslash : (catalog symbols).1.NamesFiles) :
    ∃ f ∈ (catalog symbols).1, f.path = normalize path ∧
      ∃ origin, ((catalog symbols).1.annotate s).origin = some origin ∧
        origin.shortPath = some f.title := by
  obtain ⟨f, hf, hfile⟩ := List.mem_map.mp (mem_paths_catalog.mpr ⟨s, hs, path, hpath, rfl⟩)
  obtain ⟨htitle, -, hne⟩ := title_of_mem hf hslash
  obtain ⟨origin, horigin, -⟩ := Option.bind_eq_some_iff.mp hpath
  have hfind := find_of_mem (nodup_paths_catalog symbols) hf
  have hshort := short_of_mem hf
  rw [← htitle] at hshort
  rw [hfile] at hfind
  refine ⟨f, hf, hfile, { origin with shortPath := some f.title }, ?_, rfl⟩
  rw [annotate, hpath, horigin, Option.bind_some, hfind, Option.bind_some, hshort]
  dsimp only
  rw [if_neg (mt String.isEmpty_iff.mp hne)]

end Catalog

/-- A text that ends where a directory ends. -/
def IsDirectory (text : List Char) : Prop := text = [] ∨ text.getLast? = some '/'

def fileName (path : String) : List Char := afterLast '/' (normalize path).toList

/-- A text that ends where a directory ends is its pieces, each with a slash. -/
theorem closed_of_isDirectory {text : List Char} (h : IsDirectory text) :
    closed '/' (splitAt '/' text).dropLast = text := by
  have htext := eq_closed_append '/' text
  have hnil : afterLast '/' text = [] := by
    obtain rfl | hslash := h
    · rfl
    · by_contra hne
      rw [htext, List.getLast?_append_of_ne_nil _ hne] at hslash
      exact notMem_afterLast '/' text (List.mem_of_getLast? hslash)
  rw [hnil, List.append_nil] at htext
  exact htext.symm

theorem isDirectory_closed (segments : List (List Char)) : IsDirectory (closed '/' segments) := by
  induction segments using List.reverseRecOn with
  | nil => exact .inl rfl
  | append_singleton before segment _ =>
    refine .inr ?_
    rw [closed_append, closed, closed, List.flatMap_singleton, ← List.append_assoc,
      List.getLast?_concat]

theorem normalize_eq_closed (path : String) :
    (normalize path).toList = closed '/' (directories path) ++ fileName path :=
  eq_closed_append '/' (normalize path).toList

theorem prefix_commonFront {front as bs : List (List Char)} (ha : front <+: as)
    (hb : front <+: bs) : front <+: commonFront as bs := by
  induction front generalizing as bs with
  | nil => exact List.nil_prefix
  | cons segment front ih =>
    obtain ⟨restA, rfl⟩ := ha
    obtain ⟨restB, rfl⟩ := hb
    rw [List.cons_append, List.cons_append, commonFront, if_pos (beq_self_eq_true segment),
      List.cons_prefix_cons]
    exact ⟨rfl, ih (List.prefix_append front restA) (List.prefix_append front restB)⟩

theorem prefix_commonFront_iff {front as bs : List (List Char)} :
    front <+: commonFront as bs ↔ front <+: as ∧ front <+: bs :=
  ⟨fun h => ⟨h.trans (commonFront_prefix_left as bs), h.trans (commonFront_prefix_right as bs)⟩,
    fun h => prefix_commonFront h.1 h.2⟩

def sharedDirectories : List String → List (List Char)
  | [] => []
  | path :: paths =>
    paths.foldl (fun front p => commonFront front (directories p)) (directories path)

theorem prefix_foldl_commonFront_iff {front start : List (List Char)} {paths : List String} :
    front <+: paths.foldl (fun front p => commonFront front (directories p)) start ↔
      front <+: start ∧ ∀ path ∈ paths, front <+: directories path := by
  induction paths generalizing start with
  | nil => simp
  | cons path paths ih =>
    rw [List.foldl_cons, ih, prefix_commonFront_iff, List.forall_mem_cons, and_assoc]

theorem prefix_sharedDirectories_iff {front : List (List Char)} {paths : List String}
    (h : paths ≠ []) :
    front <+: sharedDirectories paths ↔ ∀ path ∈ paths, front <+: directories path := by
  cases paths with
  | nil => exact absurd rfl h
  | cons path paths =>
    rw [sharedDirectories, prefix_foldl_commonFront_iff, List.forall_mem_cons]

theorem toList_commonPrefix (paths : List String) :
    (commonPrefix paths).toList = closed '/' (sharedDirectories paths) := by
  cases paths with
  | nil => rfl
  | cons path paths =>
    rw [commonPrefix, sharedDirectories]
    split
    · next hempty =>
      rw [List.isEmpty_iff.mp hempty]
      rfl
    · next hne =>
      rw [← joinWith_append_singleton (mt List.isEmpty_iff.mpr hne), String.toList_append,
        String.toList_ofList]
      rfl

/-- The shared directories depend on nothing but which paths there are. -/
theorem sharedDirectories_congr {paths others : List String} (h : paths ≠ [])
    (hsame : ∀ path, path ∈ others ↔ path ∈ paths) :
    sharedDirectories others = sharedDirectories paths := by
  have hothers : others ≠ [] := by
    rintro rfl
    exact h (List.eq_nil_iff_forall_not_mem.mpr fun path hpath =>
      List.not_mem_nil ((hsame path).mpr hpath))
  have hall : ∀ front, front <+: sharedDirectories others ↔ front <+: sharedDirectories paths := by
    intro front
    simp only [prefix_sharedDirectories_iff h, prefix_sharedDirectories_iff hothers, hsame]
  have hle := (hall _).mp List.prefix_rfl
  exact hle.eq_of_length_le ((hall _).mpr List.prefix_rfl).length_le

/-- The directory that some paths share ends where a directory ends, comes first in all of the
paths, and every other text of this kind comes first in it. The names of the files lie behind it,
and it depends on nothing but which paths there are. -/
theorem commonPrefix_longest {paths : List String} (h : paths ≠ []) :
    IsDirectory (commonPrefix paths).toList ∧
      (∀ path ∈ paths, (commonPrefix paths).toList <+: (normalize path).toList) ∧
      (∀ text, IsDirectory text → (∀ path ∈ paths, text <+: (normalize path).toList) →
        text <+: (commonPrefix paths).toList) ∧
      (∀ path ∈ paths, ∃ between, (normalize path).toList =
        (commonPrefix paths).toList ++ between ++ fileName path) ∧
      ∀ others : List String, (∀ path, path ∈ others ↔ path ∈ paths) →
        commonPrefix others = commonPrefix paths := by
  have hshared : ∀ path ∈ paths, sharedDirectories paths <+: directories path :=
    (prefix_sharedDirectories_iff h).mp List.prefix_rfl
  rw [toList_commonPrefix]
  refine ⟨isDirectory_closed _, fun path hpath => closed_isPrefix (hshared path hpath),
    ?_, ?_, ?_⟩
  · intro text htext hfront
    rw [← closed_of_isDirectory htext] at hfront ⊢
    have hpieces : (splitAt '/' text).dropLast <+: sharedDirectories paths :=
      (prefix_sharedDirectories_iff h).mpr fun path hpath =>
        (closed_isPrefix_iff (fun _ => notMem_of_mem_dropLast_splitAt) _).mp (hfront path hpath)
    obtain ⟨more, hmore⟩ := hpieces
    rw [← hmore, closed_append]
    exact List.prefix_append _ _
  · intro path hpath
    obtain ⟨more, hmore⟩ := hshared path hpath
    exact ⟨closed '/' more, by rw [normalize_eq_closed, ← hmore, closed_append]⟩
  · intro others hothers
    rw [← String.toList_inj, toList_commonPrefix, toList_commonPrefix,
      sharedDirectories_congr h hothers]

/-- Paths with empty pieces and backslashes, which share more characters than directories. -/
def mixedPaths : List String := ["//a\\b/cd.js", "\\/a/bc.js"]

/-- Another order and a path that comes again leave the directory as it is, and of the paths it is
no text that ends elsewhere. -/
theorem commonPrefix_mixedPaths :
    mixedPaths ≠ [] ∧ commonPrefix mixedPaths = "//a/" ∧
      commonPrefix ["\\/a/bc.js", "//a\\b/cd.js", "\\/a/bc.js"] = commonPrefix mixedPaths ∧
      ¬ IsDirectory "//a/b".toList := by
  have hne : mixedPaths ≠ [] := List.cons_ne_nil _ _
  obtain ⟨-, -, -, -, hsame⟩ := commonPrefix_longest hne
  refine ⟨hne, by decide, hsame _ fun path => ?_, by unfold IsDirectory; decide⟩
  simp only [mixedPaths, List.mem_cons, List.not_mem_nil, or_false]
  tauto

end Refsite.Source
