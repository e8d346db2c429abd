import Refsite.Plain
import Refsite.Proofs.Disk.Runs
import Refsite.Proofs.Site.Files
import Refsite.Proofs.Tutorial.Loader
import Refsite.Site.Publish
namespace Refsite

namespace Page

namespace Sheet

variable [Engine] (t : Theme) (nav : String) (s : Sheet)

theorem start_draw (w : World) :
    (s.draw t nav).start w = ((s.rendering w.chance t.layoutName nav).run (t.find? w.disk), w) := by
  change (Run.ofExcept id ((s.rendering w.chance t.layoutName nav).run (t.find? w.disk))).start w = _
  cases (s.rendering w.chance t.layoutName nav).run (t.find? w.disk) <;> rfl

theorem reads_draw : (s.draw t nav).Reads := fun w => by rw [start_draw]

end Sheet

end Page

namespace Site

open Registry

theorem child_injective (out : Path) : Function.Injective out.child := by
  intro a b h
  have hnames := congrArg Path.names h
  exact List.singleton_injective (List.append_cancel_left hnames)

section Host

variable [Host]

theorem writeSheets_spec {s : Site} {t : Page.Theme} {nav : String} {out : Path}
    {sheets : List Page.Sheet} {paths : List Path} {w w' : World}
    (h : (writeSheets s t nav out sheets).start w = (.ok paths, w')) :
    paths = (sheets.map (·.file)).map out.child ∧ w.disk.Changes paths w'.disk ∧
      (sheets ≠ [] → w'.disk.isDirectory out = true) := by
  induction sheets generalizing paths w with
  | nil =>
    obtain ⟨rfl, rfl⟩ := Run.of_start_pure h
    exact ⟨rfl, .refl _, absurd rfl⟩
  | cons sheet sheets ih =>
    obtain ⟨markup, u, hdraw, h⟩ := Run.of_start_bind h
    obtain ⟨_, v, hwrite, h⟩ := Run.of_start_bind h
    obtain ⟨rest, _, hrest, h⟩ := Run.of_start_bind h
    obtain ⟨rfl, rfl⟩ := Run.of_start_pure h
    obtain ⟨hchanges, -, hparent⟩ := Run.of_start_write hwrite
    rw [(sheet.reads_draw t nav).disk_eq hdraw] at hchanges
    obtain ⟨rfl, hothers, -⟩ := ih hrest
    have hout : v.disk.isDirectory out = true := by
      rwa [Path.parent, Path.child, List.dropLast_concat] at hparent
    exact ⟨rfl, hchanges.trans hothers, fun _ => hothers.grows.isDirectory hout⟩

theorem reads_readSource (root : Path) (encoding : String) (f : Source.File) :
    (readSource root encoding f).Reads := by
  have hunreadable : ∀ r, (do
      Run.remark r
      return none : Run (Option String)).Reads :=
    fun r => (Run.reads_remark r).bind fun _ => Run.reads_pure _
  refine Run.reads_disk.bind fun d => ?_
  split
  · exact Run.reads_pure _
  · split
    · exact Run.reads_fail _
    · exact hunreadable _
  · exact hunreadable _
  · exact Run.reads_fail _

theorem writeListings_spec {s : Site} {root out : Path} {t : Page.Theme} {nav encoding : String}
    {files : Source.Catalog} {written : List Path} {skipped : Nat} {w w' : World}
    (h : (writeListings s root out t nav encoding files).start w = (.ok (written, skipped), w')) :
    (∃ shown : Source.Catalog, shown.Sublist files ∧
      written = (s.listingFiles shown).map out.child) ∧ w.disk.Changes written w'.disk := by
  induction files generalizing written skipped w with
  | nil =>
    obtain ⟨heq, rfl⟩ := Run.of_start_pure h
    cases heq
    exact ⟨⟨[], List.Sublist.slnil, rfl⟩, .refl _⟩
  | cons f files ih =>
    rw [writeListings] at h
    split at h
    · obtain ⟨⟨shown, hshown, hwritten⟩, hchanges⟩ := ih h
      exact ⟨⟨shown, hshown.cons f, hwritten⟩, hchanges⟩
    · next url hurl =>
      obtain ⟨code, u, hcode, h⟩ := Run.of_start_bind h
      rw [← (reads_readSource root encoding f).disk_eq hcode]
      cases code with
      | none =>
        obtain ⟨⟨rest, others⟩, _, hrest, h⟩ := Run.of_start_bind h
        obtain ⟨heq, rfl⟩ := Run.of_start_pure h
        cases heq
        obtain ⟨⟨shown, hshown, hwritten⟩, hchanges⟩ := ih hrest
        exact ⟨⟨shown, hshown.cons f, hwritten⟩, hchanges⟩
      | some code =>
        obtain ⟨markup, v, hdraw, h⟩ := Run.of_start_bind h
        rw [← (Page.Sheet.reads_draw _ _ _).disk_eq hdraw]
        obtain ⟨_, _, hwrite, h⟩ := Run.of_start_bind h
        obtain ⟨⟨rest, others⟩, _, hrest, h⟩ := Run.of_start_bind h
        obtain ⟨heq, rfl⟩ := Run.of_start_pure h
        cases heq
        obtain ⟨⟨shown, hshown, rfl⟩, hchanges⟩ := ih hrest
        have hfile : s.listingFile? f = some (pageOfUrl url) := by
          rw [listingFile?, hurl, Option.map_some]
        have hcons : s.listingFiles (f :: shown) = pageOfUrl url :: s.listingFiles shown :=
          List.filterMap_cons_some hfile
        refine ⟨⟨f :: shown, hshown.cons_cons f, ?_⟩, (Run.of_start_write hwrite).1.trans hchanges⟩
        rw [hcons]
        rfl

theorem write_spec {s : Site} {raw : List Doclet} {settings : Settings} {root out : Path}
    {summary : Summary} {w w' : World}
    (h : (s.write raw settings root out).start w = (.ok summary, w')) :
    ∃ (shown : Source.Catalog) (snapshots statics : List Path),
      shown.Sublist (listed settings s.sources) ∧
      summary.artifacts = snapshots ++ s.sheetFiles.map out.child ++ statics ++
        (s.listingFiles shown).map out.child := by
  obtain ⟨snapshots, _, -, h⟩ := Run.of_start_bind h
  obtain ⟨pages, _, hpages, h⟩ := Run.of_start_bind h
  obtain ⟨_, _, -, h⟩ := Run.of_start_bind h
  obtain ⟨_, _, -, h⟩ := Run.of_start_bind h
  obtain ⟨tutorials, _, htutorials, h⟩ := Run.of_start_bind h
  obtain ⟨_, _, -, h⟩ := Run.of_start_bind h
  obtain ⟨statics, _, -, h⟩ := Run.of_start_bind h
  obtain ⟨_, _, -, h⟩ := Run.of_start_bind h
  have hsheets : s.sheetFiles.map out.child = pages ++ tutorials := by
    rw [(writeSheets_spec hpages).1, (writeSheets_spec htutorials).1, sheetFiles, List.map_append,
      List.map_append]
  rw [hsheets]
  split at h
  · next hsources =>
    obtain ⟨⟨listings, skipped⟩, _, hlistings, h⟩ := Run.of_start_bind h
    obtain ⟨_, _, -, h⟩ := Run.of_start_bind h
    obtain ⟨rfl, -⟩ := Run.of_start_pure h
    obtain ⟨result, _, hlistings, hanswer⟩ := Run.of_start_bind hlistings
    obtain ⟨_, _, -, hanswer⟩ := Run.of_start_bind hanswer
    obtain ⟨rfl, -⟩ := Run.of_start_pure hanswer
    obtain ⟨⟨shown, hshown, rfl⟩, -⟩ := writeListings_spec hlistings
    refine ⟨shown, snapshots, statics, ?_, ?_⟩
    · rw [listed, if_pos hsources]
      exact hshown
    · rw [← List.append_assoc]
  · obtain ⟨rfl, -⟩ := Run.of_start_pure h
    refine ⟨[], snapshots, statics, List.nil_sublist _, ?_⟩
    rw [← List.append_assoc]
    exact (List.append_nil _).symm

/-- A site that was loaded is made of the symbols of the dump that are published, and of tutorials
of which none stands in the forest twice. -/
theorem of_load {root input : Path} {settings : Settings} {tutorials : Option Path}
    {raw : List Doclet} {s : Site} {w w' : World}
    (h : (load root input settings tutorials raw).start w = (.ok s, w')) :
    ∃ symbols ts, (Doclet.symbols raw).2 = .ok symbols ∧
      ofSymbols settings (select settings.visibility symbols).1 ts
        (select settings.visibility symbols).2 = .ok s ∧
      (Tutorial.namesOfAll ts).Nodup := by
  obtain ⟨symbols, _, hsymbols, h⟩ := Run.of_start_bind h
  obtain ⟨_, _, -, hsymbols⟩ := Run.of_start_bind hsymbols
  obtain ⟨hsymbols, -⟩ := Run.of_start_ofExcept hsymbols
  obtain ⟨_, _, -, h⟩ := Run.of_start_bind h
  obtain ⟨_, _, -, h⟩ := Run.of_start_bind h
  have hmade : ∀ {ts v}, (Tutorial.namesOfAll ts).Nodup →
      (do
        let site ← Run.ofExcept failure (ofSymbols settings
          (select settings.visibility symbols).1 ts (select settings.visibility symbols).2)
        Run.remarkAll site.treeRemarks
        return site).start v = (.ok s, w') →
      ∃ symbols ts, (Doclet.symbols raw).2 = .ok symbols ∧
        ofSymbols settings (select settings.visibility symbols).1 ts
          (select settings.visibility symbols).2 = .ok s ∧
        (Tutorial.namesOfAll ts).Nodup := by
    intro ts v hts h
    obtain ⟨site, _, hsite, h⟩ := Run.of_start_bind h
    obtain ⟨_, _, -, h⟩ := Run.of_start_bind h
    obtain ⟨rfl, -⟩ := Run.of_start_pure h
    obtain ⟨hsite, -⟩ := Run.of_start_ofExcept hsite
    exact ⟨symbols, ts, hsymbols, hsite, hts⟩
  dsimp only at h
  split at h
  · obtain ⟨ts, _, htutorials, h⟩ := Run.of_start_bind h
    exact hmade (Tutorial.nodup_of_load htutorials) h
  · have hnone : (Tutorial.namesOfAll []).Nodup := List.nodup_nil
    exact hmade hnone h

theorem load_spec {root input : Path} {settings : Settings} {tutorials : Option Path}
    {raw : List Doclet} {s : Site} {w w' : World}
    (h : (load root input settings tutorials raw).start w = (.ok s, w')) :
    ∃ symbols sources ts, ofSymbols settings sources ts symbols = .ok s ∧
      (Tutorial.namesOfAll s.tutorials).Nodup := by
  obtain ⟨symbols, ts, -, hsite, hts⟩ := of_load h
  obtain ⟨-, -, -, heq, -⟩ := ofSymbols_spec hsite
  exact ⟨_, _, ts, hsite, heq ▸ hts⟩

/-- Where the published symbols have different longnames, the files of pages, tutorials and listings
lie apart exactly if no longname has its page written twice: a container's page, the page that shows
the globals, or a listing under its title. The index is never one of them, and the global page only
under its own name. What is written are these files, with the listings that can be read. -/
theorem loaded_files_apart_iff {root input : Path} {settings : Settings} {tutorials : Option Path}
    {raw : List Doclet} {s : Site} {w w₁ : World}
    (hload : (load root input settings tutorials raw).start w = (.ok s, w₁))
    (hnames : (s.symbols.map (·.longname)).Nodup) :
    (∀ shown, shown ⊆ listed settings s.sources →
      ((s.files shown).Nodup ↔ (s.pageOwners (listed settings s.sources) shown).Nodup) ∧
        indexUrl ∉ s.containerFiles ++ s.listingFiles shown ∧
        (globalUrl ∈ s.containerFiles ++ s.listingFiles shown ↔
          globalName ∈ s.containers ++ shown.map Source.File.title)) ∧
      ∀ {out : Path} {summary : Summary} {v v' : World},
        (s.write raw settings root out).start v = (.ok summary, v') →
        ∃ (shown : Source.Catalog) (snapshots statics : List Path),
          shown ⊆ listed settings s.sources ∧
            summary.artifacts = snapshots ++ s.sheetFiles.map out.child ++ statics ++
              (s.listingFiles shown).map out.child ∧
            ((s.sheetFiles.map out.child ++ (s.listingFiles shown).map out.child).Nodup ↔
              (s.pageOwners (listed settings s.sources) shown).Nodup) := by
  obtain ⟨symbols, sources, ts, hsite, htutorials⟩ := load_spec hload
  have haddressed := addressed_of_ofSymbols hsite
  constructor
  · intro shown hshown
    exact ⟨haddressed.nodup_files_iff hnames htutorials hshown,
      haddressed.reserved_spec hnames hshown⟩
  · intro out summary v v' hwrite
    obtain ⟨shown, snapshots, statics, hshown, hartifacts⟩ := write_spec hwrite
    refine ⟨shown, snapshots, statics, hshown.subset, hartifacts, ?_⟩
    rw [← List.map_append, List.nodup_map_iff (child_injective out)]
    exact haddressed.nodup_files_iff hnames htutorials hshown.subset

theorem exists_load (root input : Path) {settings : Settings} {raw : List Doclet}
    {remarks : List Remark} {symbols : List Symbol} {s : Site}
    (hraw : Doclet.symbols raw = (remarks, .ok symbols)) (htutorials : settings.tutorials = none)
    (hsite : ofSymbols settings (select settings.visibility symbols).1 []
      (select settings.visibility symbols).2 = .ok s) (w : World) :
    ∃ w₁, (load root input settings none raw).start w = (.ok s, w₁) ∧ w₁.disk = w.disk ∧
      w₁.chance = w.chance := by
  have hsymbols : ∃ remarks,
      (Doclet.loadSymbols raw).start w = (.ok symbols, { w with remarks }) := by
    rw [Doclet.loadSymbols, hraw]
    exact ⟨_, rfl⟩
  obtain ⟨remarks, hsymbols⟩ := hsymbols
  rw [load, Run.start_bind, hsymbols]
  dsimp only
  rw [Run.start_bind, Run.start_remark]
  dsimp only
  rw [Run.start_bind, Run.start_remarkAll, htutorials]
  dsimp only [Settings.pathBelow, Option.none_or]
  rw [pure_bind, hsite]
  exact ⟨_, rfl, rfl, rfl⟩

end Host

theorem symbol_of_read {d : Doclet} {s : Symbol} (word : String)
    (hkind : d.value "kind" = .string word)
    (hknown : ((Kind.ofWord? word).isSome && (d.value "longname").isPresent) = true)
    (hread : Symbol.read (.object d) = .ok s) : d.symbol? = .ok (some s) := by
  rw [Doclet.symbol?, hkind]
  dsimp only
  rw [if_pos hknown, hread]

def plainDoclet (kind name : String) : Doclet :=
  [("kind", .string kind), ("name", .string name), ("longname", .string name),
    ("description", .string "described")]

def plainFunction (name : String) : Symbol := .bare (.function ⟨[], [], []⟩) name name none

def plainClass (name : String) : Symbol := .bare (.classType ⟨[], [], []⟩ none []) name name none

theorem symbols_functionAndClass {f c : String} (hf : f.isEmpty = false) (hc : c.isEmpty = false) :
    Doclet.symbols [plainDoclet "function" f, plainDoclet "class" c] =
      ([], .ok [plainFunction f, plainClass c]) := by
  have hfunction : Doclet.symbol? (plainDoclet "function" f) = .ok (some (plainFunction f)) := by
    refine symbol_of_read "function" rfl ?_ ?_
    · change (true && !f.isEmpty) = true
      rw [hf]
      rfl
    · rw [Symbol.read]
      rfl
  have hclass : Doclet.symbol? (plainDoclet "class" c) = .ok (some (plainClass c)) := by
    refine symbol_of_read "class" rfl ?_ ?_
    · change (true && !c.isEmpty) = true
      rw [hc]
      rfl
    · rw [Symbol.read]
      rfl
  rw [Doclet.symbols, Doclet.symbolsFrom, hfunction]
  dsimp only
  rw [Doclet.symbolsFrom, hclass]
  rfl

theorem prune_functionAndClass {f c : String}
    (hle : Symbol.le (plainFunction f) (plainClass c) = true) :
    Symbol.prune .standard [plainFunction f, plainClass c] = [plainFunction f, plainClass c] := by
  rw [Symbol.prune, Symbol.sort]
  refine (List.mergeSort_of_pairwise ?_).trans ?_
  · exact List.Pairwise.sublist List.filter_sublist (List.pairwise_pair.mpr hle)
  · rfl

theorem select_functionAndClass {f c : String}
    (hle : Symbol.le (plainFunction f) (plainClass c) = true) :
    select .standard [plainFunction f, plainClass c] = ([], [plainFunction f, plainClass c]) := by
  rw [select, prune_functionAndClass hle]
  rfl

theorem load_functionAndClass [Host] {α : Type} {f c : String} {a : α} (look : Site → α)
    (hf : f.isEmpty = false) (hc : c.isEmpty = false)
    (hle : Symbol.le (plainFunction f) (plainClass c) = true)
    (hsite : (ofSymbols .standard [] [] [plainFunction f, plainClass c]).map look = .ok a) :
    ∃ s w, (load .top .top .standard none
      [plainDoclet "function" f, plainDoclet "class" c]).start { disk := .empty } = (.ok s, w) ∧
        look s = a := by
  cases hs : ofSymbols .standard [] [] [plainFunction f, plainClass c] with
  | error e =>
    rw [hs] at hsite
    cases hsite
  | ok s =>
    rw [hs] at hsite
    have hselect : ofSymbols .standard
        (select .standard [plainFunction f, plainClass c]).1 []
        (select .standard [plainFunction f, plainClass c]).2 = .ok s := by
      rw [select_functionAndClass hle]
      exact hs
    obtain ⟨w, hload, -⟩ :=
      exists_load .top .top (symbols_functionAndClass hf hc) rfl hselect { disk := .empty }
    exact ⟨s, w, hload, Except.ok.inj hsite⟩

section Plain

open scoped Plain

/-- A class called `global` and the globals have the same page, and it is written for both. -/
theorem global_page_written_twice :
    ∃ s w, (load .top .top .standard none
      [plainDoclet "function" "f", plainDoclet "class" "global"]).start { disk := .empty } =
        (.ok s, w) ∧
      (s.symbols.map (·.longname), s.sheetFiles) =
        (["f", "global"], ["global.html", "global.html", "index.html"]) :=
  load_functionAndClass (fun s => (s.symbols.map (·.longname), s.sheetFiles)) rfl rfl (by decide)
    rfl

/-- Under any other name the class has a page of its own. -/
theorem class_beside_globals_apart :
    ∃ s w, (load .top .top .standard none
      [plainDoclet "function" "f", plainDoclet "class" "shape"]).start { disk := .empty } =
        (.ok s, w) ∧
      s.sheetFiles = ["shape.html", "global.html", "index.html"] ∧ (s.files []).Nodup := by
  obtain ⟨s, w, hload, hlook⟩ := load_functionAndClass (f := "f") (c := "shape")
    (a := (["f", "shape"], ["shape.html", "global.html", "index.html"], ["shape", "global"]))
    (fun s => (s.symbols.map (·.longname), s.sheetFiles, s.pageOwners s.sources [])) rfl rfl
    (by decide) rfl
  obtain ⟨hnames, hlook⟩ := Prod.mk.inj hlook
  obtain ⟨hfiles, howners⟩ := Prod.mk.inj hlook
  have hnodup : (s.symbols.map (·.longname)).Nodup := by
    rw [hnames]
    decide
  have hapart := ((loaded_files_apart_iff hload hnodup).1 [] (List.nil_subset _)).1
  refine ⟨s, w, hload, hfiles, hapart.mpr ?_⟩
  change (s.pageOwners s.sources []).Nodup
  rw [howners]
  decide

end Plain

end Site

end Refsite
