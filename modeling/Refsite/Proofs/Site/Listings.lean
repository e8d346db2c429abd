import Refsite.Plain
import Refsite.Proofs.Disk.Runs
import Refsite.Proofs.Site.OwnAddress
import Refsite.Proofs.Site.Writing
import Refsite.Proofs.Source.Catalog
namespace Refsite.Site

open Registry

section Turns

variable [Host] {s : Site} {root out : Path} {t : Page.Theme} {nav encoding : String}

theorem writeListings_append (before after : Source.Catalog) :
    writeListings s root out t nav encoding (before ++ after) = (do
      let (written, skipped) ← writeListings s root out t nav encoding before
      let (more, others) ← writeListings s root out t nav encoding after
      return (written ++ more, skipped + others)) := by
  induction before with
  | nil =>
    simp only [List.nil_append, writeListings, pure_bind, Nat.zero_add]
    exact (bind_pure _).symm
  | cons f before ih =>
    rw [List.cons_append, writeListings, writeListings]
    cases s.registry.resolve? f.title with
    | none => exact ih
    | some url =>
      simp only [ih, bind_assoc]
      congr 1
      funext code
      cases code with
      | none => simp [Nat.add_right_comm]
      | some code => simp

def ListsAt (s : Site) (root out : Path) (t : Page.Theme) (nav encoding : String) (f : Source.File)
    (w : World) (written : List Path) (skipped : Nat) (w' : World) : Prop :=
  (∃ v, (readSource root encoding f).start w = (.ok none, v) ∧ written = [] ∧ skipped = 1 ∧
    w'.disk = w.disk) ∨
  ∃ code url markup v u, (readSource root encoding f).start w = (.ok (some code), v) ∧
    s.registry.resolve? f.title = some url ∧
    ((s.sourceSheet f url code).draw t nav).start v = (.ok markup, u) ∧
    written = [out.child (pageOfUrl url)] ∧ skipped = 0 ∧
    w'.disk.read (out.child (pageOfUrl url)) = .ok (Text.Utf8.encode markup.toList)

theorem listsAt_of_writeListings {f : Source.File} {url : String}
    (hurl : s.registry.resolve? f.title = some url) {w w' : World} {written : List Path}
    {skipped : Nat}
    (h : (writeListings s root out t nav encoding [f]).start w = (.ok (written, skipped), w')) :
    s.ListsAt root out t nav encoding f w written skipped w' := by
  rw [writeListings, hurl] at h
  obtain ⟨code, v, hcode, h⟩ := Run.of_start_bind h
  cases code with
  | none =>
    obtain ⟨_, _, hnil, h⟩ := Run.of_start_bind h
    obtain ⟨rfl, rfl⟩ := Run.of_start_pure hnil
    obtain ⟨heq, rfl⟩ := Run.of_start_pure h
    cases heq
    exact .inl ⟨v, hcode, rfl, rfl, (reads_readSource root encoding f).disk_eq hcode⟩
  | some code =>
    obtain ⟨markup, u, hdraw, h⟩ := Run.of_start_bind h
    obtain ⟨_, _, hwrite, h⟩ := Run.of_start_bind h
    obtain ⟨_, _, hnil, h⟩ := Run.of_start_bind h
    obtain ⟨rfl, rfl⟩ := Run.of_start_pure hnil
    obtain ⟨heq, rfl⟩ := Run.of_start_pure h
    cases heq
    exact .inr ⟨code, url, markup, v, u, hcode, hurl, hdraw, rfl, rfl,
      (Run.of_start_write hwrite).2.1⟩

theorem turn_of_writeListings {files : Source.Catalog}
    (hurls : ∀ f ∈ files, ∃ url, s.registry.resolve? f.title = some url) {w w' : World}
    {result : List Path × Nat}
    (h : (writeListings s root out t nav encoding files).start w = (.ok result, w'))
    {before after : Source.Catalog} {f : Source.File} (hfiles : files = before ++ f :: after) :
    ∃ written skipped v listed passed u,
      (writeListings s root out t nav encoding before).start w = (.ok (written, skipped), v) ∧
      s.ListsAt root out t nav encoding f v listed passed u ∧
      (writeListings s root out t nav encoding (before ++ [f])).start w =
        (.ok (written ++ listed, skipped + passed), u) := by
  have hsplit : files = (before ++ [f]) ++ after := by
    rw [hfiles, List.append_assoc]
    rfl
  rw [hsplit, writeListings_append] at h
  obtain ⟨_, _, hturn, -⟩ := Run.of_start_bind h
  have hboth := hturn
  rw [writeListings_append] at hboth
  obtain ⟨⟨written, skipped⟩, v, hbefore, hboth⟩ := Run.of_start_bind hboth
  obtain ⟨⟨listed, passed⟩, u, hone, hboth⟩ := Run.of_start_bind hboth
  obtain ⟨rfl, rfl⟩ := Run.of_start_pure hboth
  obtain ⟨url, hurl⟩ := hurls f (hfiles ▸ List.mem_append_right before List.mem_cons_self)
  exact ⟨written, skipped, v, listed, passed, u, hbefore, listsAt_of_writeListings hurl hone, hturn⟩

end Turns

theorem listingFile_of_populated {symbols : List Symbol} {files : Source.Catalog}
    {tutorials : List Tutorial} {r : Registry} (hr : Populated symbols files tutorials r)
    {s : Site} (hs : s.registry = r) {f : Source.File} (hf : f ∈ files) :
    ∃ url, r.resolve? f.title = some url ∧ r.pages.lookup f.title = some (pageOfUrl url) ∧
      s.listingFile? f = some (pageOfUrl url) := by
  obtain ⟨g, hg, hlast⟩ := Placement.last_all_of_title symbols (List.mem_map_of_mem hf)
  obtain ⟨url, hurl, hpage⟩ := hr.page_of_url hlast
  change r.pages.lookup g.title = _ at hpage
  refine ⟨url, hurl, hg ▸ hpage, ?_⟩
  rw [listingFile?, hs, resolve?, hurl, Option.map_some]

/-- Where no source path ends in a slash, each file has a listing file of its own, to which the short
path of every symbol of the file leads; a run writes the listing there, or passes over a file that
cannot be read. -/
theorem listings_of_catalog [Host] {symbols : List Symbol}
    (hslash : ∀ s ∈ symbols, ∀ path, s.sourcePath? = some path →
      (Source.normalize path).toList.getLast? ≠ some '/')
    (tutorials : List Tutorial) :
    let files := (Source.catalog symbols).1
    let shown := (Source.catalog symbols).2
    ∃ r, populate shown files tutorials = .ok r ∧ r.frozen = true ∧
      ∀ site : Site, site.registry = r →
        (∀ f ∈ files, ∀ g ∈ files, f.path ≠ g.path → site.listingFile? f ≠ site.listingFile? g) ∧
        (∀ s ∈ shown, ∀ path, s.sourcePath? = some path →
          ∃ f ∈ files, f.path = Source.normalize path ∧ ∃ origin short url,
            s.origin = some origin ∧ origin.shortPath = some short ∧
            r.resolve? short = some url ∧ site.listingFile? f = some (pageOfUrl url)) ∧
        ∀ root out t nav encoding result w w',
          (site.writeListings root out t nav encoding files).start w = (.ok result, w') →
          ∀ before f after, files = before ++ f :: after →
            ∃ written skipped v listed passed u,
              (site.writeListings root out t nav encoding before).start w =
                (.ok (written, skipped), v) ∧
              site.ListsAt root out t nav encoding f v listed passed u ∧
              (site.writeListings root out t nav encoding (before ++ [f])).start w =
                (.ok (written ++ listed, skipped + passed), u) := by
  intro files shown
  have hnames : files.NamesFiles := by
    intro path hpath
    obtain ⟨s, hs, given, hgiven, rfl⟩ := Source.Catalog.mem_paths_catalog.mp hpath
    exact hslash s hs given hgiven
  obtain ⟨r, hpop, hr⟩ := populate_spec shown files tutorials
  refine ⟨r, hpop, hr.frozen, fun site hsite => ⟨?_, ?_, ?_⟩⟩
  · intro f hf g hg hne heq
    obtain ⟨url, -, hpage, hfile⟩ := listingFile_of_populated hr hsite hf
    obtain ⟨other, -, hpage', hfile'⟩ := listingFile_of_populated hr hsite hg
    rw [hfile, hfile', Option.some_inj] at heq
    rw [heq] at hpage
    exact hne (congrArg _ (Source.Catalog.title_inj hf hg hnames (hr.sound.page_inj hpage hpage')))
  · intro s hs path hpath
    obtain ⟨given, hgiven, rfl⟩ := List.mem_map.mp hs
    rw [Source.Catalog.sourcePath_annotate] at hpath
    obtain ⟨f, hf, hfile, origin, horigin, hshort⟩ :=
      Source.Catalog.shortPath_annotate hgiven hpath hnames
    obtain ⟨url, hurl, -, hlisting⟩ := listingFile_of_populated hr hsite hf
    exact ⟨f, hf, hfile, origin, f.title, url, horigin, hshort, hurl, hlisting⟩
  · intro root out t nav encoding result w w' hrun before f after hsplit
    have hurls : ∀ f ∈ files, ∃ url, site.registry.resolve? f.title = some url := fun f hf =>
      (listingFile_of_populated hr hsite hf).imp fun url h => hsite ▸ h.1
    exact turn_of_writeListings hurls hrun hsplit

def functionIn (filename name : String) : Symbol :=
  declaredIn filename (.bare (.function ⟨[], [], []⟩) name name none)

def likeSources : List Symbol := [functionIn "a/b.js" "f", functionIn "a_b.js" "g"]

open scoped Plain in
theorem likeSources_listed_apart :
    (∀ s ∈ likeSources, ∀ path, s.sourcePath? = some path →
      (Source.normalize path).toList.getLast? ≠ some '/') ∧
      ∃ r, populate (Source.catalog likeSources).2 (Source.catalog likeSources).1 [] = .ok r ∧
        ∀ site : Site, site.registry = r →
          site.listingFile? ⟨"/p/a/b.js", some "a/b.js"⟩ ≠
            site.listingFile? ⟨"/p/a_b.js", some "a_b.js"⟩ := by
  have hslash : ∀ s ∈ likeSources, ∀ path, s.sourcePath? = some path →
      (Source.normalize path).toList.getLast? ≠ some '/' := by
    have hgiven : ∀ s ∈ likeSources, ∀ path ∈ s.sourcePath?,
        (Source.normalize path).toList.getLast? ≠ some '/' := by
      decide
    exact fun s hs path hpath => hgiven s hs path hpath
  obtain ⟨r, hpop, -, hlisted⟩ := listings_of_catalog hslash []
  refine ⟨hslash, r, hpop, fun site hsite => ?_⟩
  exact (hlisted site hsite).1 _ (by decide) _ (by decide) (by decide)

/-- A path that ends in a backslash is all directory, so its symbol notes no short path. -/
theorem no_short_path_of_backslash :
    (functionIn "a\\" "f").sourcePath? = some "/p/a\\" ∧ "/p/a\\".toList.getLast? ≠ some '/' ∧
      (Source.catalog [functionIn "a\\" "f"]).2.map (fun s => s.origin.bind (·.shortPath)) =
        [none] := by
  decide

end Refsite.Site
