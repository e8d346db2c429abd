import Mathlib.Data.List.Forall2
import Refsite.Proofs.Source.Catalog
import Refsite.Proofs.Symbol.Listeners
namespace Refsite

/-- The path that a symbol notes for the file it is declared in. -/
def Symbol.notedPath? (s : Symbol) : Option String := s.origin.bind (·.shortPath)

namespace Source

def declaredIn? (s : Symbol) : Option String := s.sourcePath?.map normalize

namespace Catalog

variable {c : Catalog} {symbols noted : List Symbol} {s t : Symbol} {f g : File}
  {path short : String}

def shortOf? (c : Catalog) (s : Symbol) : Option String :=
  (declaredIn? s).bind fun path => (c.find? path).bind (·.short)

/-- What becomes of a symbol: it notes the short path of its file, unless it has no file or the
short path is empty. -/
inductive Notes (c : Catalog) (s : Symbol) : Symbol → Prop
  | nowhere (h : declaredIn? s = none) : Notes c s s
  | nameless (h : c.shortOf? s = some "") : Notes c s s
  | named {origin short} (horigin : s.origin = some origin) (h : c.shortOf? s = some short)
      (hshort : short ≠ "") :
      Notes c s { s with origin := some { origin with shortPath := some short } }

/-- What a catalog says of the files of some symbols, and what the symbols note of it. -/
structure AccountsFor (c : Catalog) (symbols noted : List Symbol) : Prop where
  /-- The files come in the order in which the symbols first name them, each once. -/
  paths_eq : c.paths = (symbols.filterMap declaredIn?).eraseDups
  nodup : c.paths.Nodup
  /-- Looking up a path finds the file of that path, and nothing for other paths. -/
  find_iff : ∀ path f, c.find? path = some f ↔ f ∈ c ∧ f.path = path
  /-- Every path is put together again from the shared directory and the short path. -/
  rejoined : ∀ f ∈ c, ∃ short, f.short = some short ∧ commonPrefix c.paths ++ short = f.path
  short_inj : ∀ f ∈ c, ∀ g ∈ c, f.short = g.short → f = g
  /-- Every symbol that is declared somewhere is declared in a file of the catalog. -/
  covered : ∀ s ∈ symbols, ∀ path, declaredIn? s = some path →
    ∃ f ∈ c, f.path = path ∧ c.shortOf? s = f.short
  notes : List.Forall₂ c.Notes symbols noted
  noted_iff : ∀ p ∈ symbols.zip noted, ∀ q ∈ symbols.zip noted,
    ∀ short short', c.shortOf? p.1 = some short → short ≠ "" →
      c.shortOf? q.1 = some short' → short' ≠ "" →
      (p.2.notedPath? = q.2.notedPath? ↔ declaredIn? p.1 = declaredIn? q.1)

theorem paths_add (c : Catalog) (path : String) :
    (c.add path).paths = Symbol.addNew c.paths path := by
  rw [add, Symbol.addNew]
  split
  · rfl
  · rw [paths, List.map_append]
    rfl

theorem paths_foldl_add (c : Catalog) (more : List String) :
    (more.foldl add c).paths = more.foldl Symbol.addNew c.paths := by
  induction more generalizing c with
  | nil => rfl
  | cons path more ih => rw [List.foldl_cons, ih, paths_add, List.foldl_cons]

theorem paths_catalog (symbols : List Symbol) :
    (catalog symbols).1.paths = (symbols.filterMap declaredIn?).eraseDups := by
  change ((collect symbols).shorten _).paths = _
  have hall : ((symbols.filterMap declaredIn?).filter fun path => path ∉ ([] : List String)) =
      symbols.filterMap declaredIn? := List.filter_eq_self.mpr fun _ _ => rfl
  rw [paths_shorten, collect, paths_foldl_add]
  exact (Symbol.foldl_addNew [] _).trans (congrArg List.eraseDups hall)

theorem find_eq_some_iff (hc : c.paths.Nodup) :
    c.find? path = some f ↔ f ∈ c ∧ f.path = path := by
  constructor
  · intro h
    have hpath := List.find?_some h
    exact ⟨List.mem_of_find?_eq_some h, beq_iff_eq.mp hpath⟩
  · rintro ⟨hf, rfl⟩
    exact find_of_mem hc hf

theorem rejoin_of_mem (h : f ∈ (catalog symbols).1) :
    ∃ short, f.short = some short ∧ commonPrefix (catalog symbols).1.paths ++ short = f.path := by
  have hmem : f.path ∈ (catalog symbols).1.paths := List.mem_map_of_mem h
  obtain ⟨s, -, given, -, hpath⟩ := mem_paths_catalog.mp hmem
  refine ⟨_, short_of_mem h, (commonPrefix_append_shorten hmem).trans ?_⟩
  rw [← hpath, normalize_normalize]

theorem short_inj_of_mem (hf : f ∈ (catalog symbols).1) (hg : g ∈ (catalog symbols).1)
    (h : f.short = g.short) : f = g := by
  obtain ⟨short, hshort, hpath⟩ := rejoin_of_mem hf
  obtain ⟨short', hshort', hpath'⟩ := rejoin_of_mem hg
  rw [hshort, hshort', Option.some_inj] at h
  have hsame : f.path = g.path := by rw [← hpath, h, hpath']
  exact List.inj_on_of_nodup_map (nodup_paths_catalog symbols) hf hg hsame

theorem exists_file (hs : s ∈ symbols) (h : declaredIn? s = some path) :
    ∃ f ∈ (catalog symbols).1, f.path = path ∧ (catalog symbols).1.shortOf? s = f.short := by
  obtain ⟨given, hgiven, hpath⟩ := Option.map_eq_some_iff.mp h
  obtain ⟨f, hf, hfile⟩ := List.mem_map.mp (mem_paths_catalog.mpr ⟨s, hs, given, hgiven, hpath⟩)
  have hfind := (find_eq_some_iff (nodup_paths_catalog symbols)).mpr ⟨hf, hfile⟩
  refine ⟨f, hf, hfile, ?_⟩
  rw [shortOf?, h, Option.bind_some, hfind, Option.bind_some]

theorem declared_of_shortOf (h : c.shortOf? s = some short) :
    ∃ path, declaredIn? s = some path := by
  obtain ⟨path, hpath, -⟩ := Option.bind_eq_some_iff.mp h
  exact ⟨path, hpath⟩

theorem shortOf_eq (c : Catalog) (s : Symbol) :
    c.shortOf? s = s.sourcePath?.bind fun path => (c.find? (normalize path)).bind (·.short) := by
  rw [shortOf?, declaredIn?, Option.bind_map]
  rfl

theorem annotate_of_shortOf_none (h : c.shortOf? s = none) : c.annotate s = s := by
  rw [annotate, ← shortOf_eq, h]

theorem annotate_of_empty (h : c.shortOf? s = some "") : c.annotate s = s := by
  rw [annotate, ← shortOf_eq, h]
  split
  · next heq _ =>
    cases heq
    rfl
  · rfl

theorem annotate_of_short {origin : Origin} (horigin : s.origin = some origin)
    (h : c.shortOf? s = some short) (hshort : short ≠ "") :
    c.annotate s = { s with origin := some { origin with shortPath := some short } } := by
  rw [annotate, ← shortOf_eq, h, horigin]
  exact if_neg (mt String.isEmpty_iff.mp hshort)

theorem exists_origin (h : declaredIn? s = some path) : ∃ origin, s.origin = some origin := by
  obtain ⟨given, hgiven, -⟩ := Option.map_eq_some_iff.mp h
  obtain ⟨origin, horigin, -⟩ := Option.bind_eq_some_iff.mp hgiven
  exact ⟨origin, horigin⟩

theorem notes_annotate (hs : s ∈ symbols) :
    (catalog symbols).1.Notes s ((catalog symbols).1.annotate s) := by
  cases hpath : declaredIn? s with
  | none =>
    have hnone : (catalog symbols).1.shortOf? s = none := by
      rw [shortOf?, hpath, Option.bind_none]
    rw [annotate_of_shortOf_none hnone]
    exact .nowhere hpath
  | some path =>
    obtain ⟨f, hf, -, hshort⟩ := exists_file hs hpath
    rw [short_of_mem hf] at hshort
    obtain ⟨origin, horigin⟩ := exists_origin hpath
    by_cases hempty : Source.shorten (commonPrefix (catalog symbols).1.paths) f.path = ""
    · rw [hempty] at hshort
      rw [annotate_of_empty hshort]
      exact .nameless hshort
    · rw [annotate_of_short horigin hshort hempty]
      exact .named horigin hshort hempty

theorem Notes.notedPath (h : c.Notes s t) (hs : c.shortOf? s = some short) (hshort : short ≠ "") :
    t.notedPath? = some short := by
  cases h with
  | nowhere hpath =>
    obtain ⟨path, hsome⟩ := declared_of_shortOf hs
    cases hpath.symm.trans hsome
  | nameless hempty => exact absurd (Option.some.inj (hs.symm.trans hempty)) hshort
  | named horigin hother =>
    cases hs.symm.trans hother
    rfl

theorem declaredIn_eq_iff (hs : s ∈ symbols) (ht : t ∈ symbols)
    (hshort : ((catalog symbols).1.shortOf? s).isSome)
    (hshort' : ((catalog symbols).1.shortOf? t).isSome) :
    (catalog symbols).1.shortOf? s = (catalog symbols).1.shortOf? t ↔
      declaredIn? s = declaredIn? t := by
  obtain ⟨short, hshort⟩ := Option.isSome_iff_exists.mp hshort
  obtain ⟨short', hshort'⟩ := Option.isSome_iff_exists.mp hshort'
  obtain ⟨path, hpath⟩ := declared_of_shortOf hshort
  obtain ⟨path', hpath'⟩ := declared_of_shortOf hshort'
  obtain ⟨f, hf, rfl, hfile⟩ := exists_file hs hpath
  obtain ⟨g, hg, rfl, hfile'⟩ := exists_file ht hpath'
  rw [hfile, hfile', hpath, hpath', Option.some_inj]
  constructor
  · intro h
    rw [short_inj_of_mem hf hg h]
  · intro h
    rw [List.inj_on_of_nodup_map (nodup_paths_catalog symbols) hf hg h]

/-- The catalog of some symbols accounts for their files. -/
theorem catalog_accountsFor (symbols : List Symbol) :
    (catalog symbols).1.AccountsFor symbols (catalog symbols).2 := by
  have hnodup := nodup_paths_catalog symbols
  have hnotes : List.Forall₂ (catalog symbols).1.Notes symbols (catalog symbols).2 :=
    List.forall₂_map_right_iff.mpr (List.forall₂_same.mpr fun s hs => notes_annotate hs)
  refine ⟨paths_catalog symbols, hnodup, fun _ _ => find_eq_some_iff hnodup,
    fun f hf => rejoin_of_mem hf, fun f hf g hg h => short_inj_of_mem hf hg h,
    fun s hs path h => exists_file hs h, hnotes, ?_⟩
  rintro ⟨s, s'⟩ hp ⟨t, t'⟩ hq short short' hshort hne hshort' hne'
  have hs : s ∈ symbols := (List.of_mem_zip hp).1
  have ht : t ∈ symbols := (List.of_mem_zip hq).1
  rw [(List.forall₂_zip hnotes hp).notedPath hshort hne,
    (List.forall₂_zip hnotes hq).notedPath hshort' hne', ← hshort, ← hshort']
  exact declaredIn_eq_iff hs ht (by rw [hshort]; rfl) (by rw [hshort']; rfl)

end Catalog

end Source

end Refsite
