import Refsite.Proofs.Disk.Mirror
import Refsite.Proofs.Site.Steadiness
namespace Refsite

open Refsite.Path Run

variable {m : Mirror} {root : Path}

namespace Asset

variable {source : Path} {patterns : List String} {ignore : Option Ignore} {w : World}

theorem mirrors_copyAll {files : List (List String)}
    (hfiles : ∀ names ∈ files, Copied m.Written m.goal source names) :
    Mirrors m w (copyAll source m.out files) (copyAll source m.scratch files) :=
  holds_copyAll (tracking m) fun names hnames _ => Run.mirrors_copy
    (hfiles names hnames).isEntryName (hfiles names hnames).ne_nil (hfiles names hnames).apart

theorem mirrors_files (hgoal : m.goal.IsTree) (h : m.goal.TreeApart m.Written source) :
    Mirrors m w (files source patterns ignore >>= copyAll source m.out)
      (files source patterns ignore >>= copyAll source m.scratch) :=
  (steady_files hgoal h).tracks.bind fun found found' _ _ hfound => by
    obtain ⟨rfl, hcopied⟩ := hfound
    exact mirrors_copyAll hcopied

theorem steady_isFile_name {p : Path} (hp : p.IsProper)
    (h : m.goal.Apart m.Written p) : (Run.isFile p).SteadyTo m.Written m.goal fun isFile =>
      isFile = true → IsEntryName p.name := by
  intro w w' v isFile hw hw' hstart
  obtain ⟨v', hstart', hv, hv', -⟩ := steady_isFile h _ _ _ _ hw hw' hstart
  refine ⟨v', hstart', hv, hv', fun htrue => ?_⟩
  obtain ⟨rfl, -⟩ := of_start_isFile hstart
  exact hw.tree.isEntryName_of_isFile hp htrue

theorem mirrors_copyIncluded (hgoal : m.goal.IsTree) (hroot : root.IsProper) {included : String}
    (h : m.goal.TreeApart m.Written (root.join included)) :
    Mirrors m w (copyIncluded root m.out patterns ignore included)
      (copyIncluded root m.scratch patterns ignore included) := by
  refine (steady_isFile_name (hroot.join included) h.path).tracks.bind fun isFile _ _ _ hname => ?_
  obtain ⟨rfl, hname⟩ := hname
  split
  · next hisFile =>
    split
    · exact mirrors_pure _ _
    · have hnames : ∀ name ∈ [(root.join included).name], IsEntryName name :=
        List.forall_mem_singleton.mpr (hname hisFile)
      exact (Run.mirrors_copy hnames (List.cons_ne_nil _ _) h.path).bind fun _ _ _ _ _ =>
        mirrors_pure _ _
  · refine (steady_isDirectory h.path).tracks.bind fun isDirectory _ _ _ heq => ?_
    obtain ⟨rfl, -⟩ := heq
    split
    · exact mirrors_files hgoal h
    · exact (mirrors_remark _ _).bind fun _ _ _ _ _ => mirrors_pure _ _

end Asset

namespace Site

variable [Host] {s : Site} {t : Page.Theme} {nav encoding : String} {raw : List Doclet}
  {settings : Settings} {w : World}

/-- What is read while a site is written stands apart from some places, and its pages do not depend
on chance. -/
structure WritesApart (bad : Place → Prop) (d : Disk) (root : Path) (settings : Settings)
    (s : Site) : Prop where
  sheets : ∀ sheet ∈ s.symbolSheets ++ s.tutorialSheets,
    sheet.DrawsApart bad d (themeOf root settings) (Nav.markup s.nav)
  rules : d.Apart bad (root.child Asset.ignoreName)
  theme : ∀ directory ∈ (themeOf root settings).base, d.TreeApart bad (directory.child "static")
  included : ∀ text ∈ settings.pages.staticFiles.included, d.TreeApart bad (root.join text)
  sources : ∀ f ∈ listed settings s.sources, d.Apart bad (root.join f.path)
  listings : ∀ f ∈ listed settings s.sources, ∀ url code, s.registry.resolve? f.title = some url →
    textOf settings.encoding (d.read (root.join f.path)) = .ok code →
    (s.sourceSheet f url code).DrawsApart bad d (themeOf root settings) (Nav.markup s.nav)

theorem mirrors_writeSnapshots (snapshots : List Snapshot) :
    Mirrors m w (writeSnapshots s raw m.out snapshots)
      (writeSnapshots s raw m.scratch snapshots) := by
  have hdirectory : IsEntryName Snapshot.directory := by decide
  have hfile : ∀ (base : Path) (snapshot : Snapshot),
      snapshot.path base = base.below [Snapshot.directory, snapshot.fileName] := by
    intro base snapshot
    exact (below_append base [Snapshot.directory] [snapshot.fileName]).symm
  refine holds_writeSnapshots (tracking m) (fun u => ?_) (fun x _ u => ?_) fun x _ u bytes => ?_
  · exact mirrors_makeDirectories (List.forall_mem_singleton.mpr hdirectory)
  · exact (steady_ofExcept (Q := fun _ => True) fun _ _ => trivial).mirrored
  · rw [hfile, hfile]
    exact Run.mirrors_write (List.forall_mem_cons.mpr ⟨hdirectory,
      List.forall_mem_singleton.mpr (isEntryName_fileName x)⟩) (List.cons_ne_nil _ _) bytes

omit [Host] in
theorem mirrors_writePage {file : String} (hfile : IsPageName file) (bytes : List UInt8) :
    Mirrors m w (Run.write (m.out.child file) bytes) (Run.write (m.scratch.child file) bytes) := by
  have hnames : ∀ name ∈ [file], IsEntryName name :=
    List.forall_mem_singleton.mpr hfile.isEntryName
  exact Run.mirrors_write hnames (List.cons_ne_nil _ _) bytes

theorem mirrors_writeSheets {sheets : List Page.Sheet}
    (hdraw : ∀ sheet ∈ sheets, sheet.DrawsApart m.Written m.goal t nav)
    (hsheets : ∀ sheet ∈ sheets, IsPageName sheet.file) :
    Mirrors m w (writeSheets s t nav m.out sheets) (writeSheets s t nav m.scratch sheets) := by
  refine holds_writeSheets (tracking m) (fun before sheet after _ u heq _ => ?_)
    fun sheet hsheet u bytes => mirrors_writePage (hsheets sheet hsheet) bytes
  refine (Page.Sheet.steady_draw (hdraw sheet ?_)).mirrored
  rw [heq]
  exact List.mem_append_right before List.mem_cons_self

theorem mirrors_writeStatic (hgoal : m.goal.IsTree) (hroot : root.IsProper) {files : StaticFiles}
    (hrules : m.goal.Apart m.Written (root.child Asset.ignoreName))
    (htheme : ∀ directory ∈ t.base, m.goal.TreeApart m.Written (directory.child "static"))
    (hincluded : ∀ text ∈ files.included, m.goal.TreeApart m.Written (root.join text)) :
    Mirrors m w (writeStatic root m.out t files) (writeStatic root m.scratch t files) := by
  have hstatic : ∀ u, Mirrors m u (Asset.copyStatic root m.out files)
      (Asset.copyStatic root m.scratch files) := fun u =>
    (Asset.steady_ignoreRules hrules).tracks.bind fun ignore _ _ _ heq => by
      obtain ⟨rfl, -⟩ := heq
      exact Asset.holds_copyAllIncluded (tracking m) fun text htext _ =>
        Asset.mirrors_copyIncluded hgoal hroot (hincluded text htext)
  rw [writeStatic, writeStatic]
  dsimp only
  split
  · next directory hdirectory =>
    exact (Asset.mirrors_files hgoal (htheme directory hdirectory)).bind fun _ _ u _ _ =>
      (hstatic u).bind fun _ _ _ _ _ => mirrors_pure _ _
  · refine (Run.mirrors_write ?_ (List.cons_ne_nil _ _) _).bind fun _ _ _ _ _ =>
      (mirrors_pure _ _).bind fun _ _ u _ _ => (hstatic u).bind fun _ _ _ _ _ => mirrors_pure _ _
    exact List.forall_mem_cons.mpr ⟨by decide, List.forall_mem_singleton.mpr (by decide)⟩

theorem of_readSource {f : Source.File} {code : String} {u v : World}
    (h : (readSource root encoding f).start u = (.ok (some code), v)) :
    textOf encoding (u.disk.read (root.join f.path)) = .ok code ∧ v.disk = u.disk := by
  refine ⟨?_, (reads_readSource root encoding f).disk_eq h⟩
  rw [← readText_fst _ _ { disk := u.disk }]
  have hunreadable : ∀ (r : Remark) (u : World), (do
      Run.remark r
      return none : Run (Option String)).start u ≠ (.ok (some code), v) := by
    intro r u heq
    cases heq
  rw [readSource, start_bind_ok (start_disk u)] at h
  split at h
  · next found _ hread =>
    cases (of_start_pure h).1
    rw [hread]
  · split at h
    · cases h
    · exact absurd h (hunreadable _ _)
  · exact absurd h (hunreadable _ _)
  · cases h

theorem mirrors_writeListings {files : Source.Catalog}
    (hread : ∀ f ∈ files, m.goal.Apart m.Written (root.join f.path))
    (hdraw : ∀ f ∈ files, ∀ url code, s.registry.resolve? f.title = some url →
      textOf encoding (m.goal.read (root.join f.path)) = .ok code →
      (s.sourceSheet f url code).DrawsApart m.Written m.goal t nav)
    (hfiles : ∀ f ∈ files, ∀ url, s.registry.resolve? f.title = some url →
      IsPageName (pageOfUrl url)) :
    Mirrors m w (writeListings s root m.out t nav encoding files)
      (writeListings s root m.scratch t nav encoding files) := by
  refine holds_writeListings (tracking m) (fun f hf _ => (steady_readSource (hread f hf)).mirrored)
    (fun before f after url code _ u v heq hurl _ hcode => ?_)
    fun f hf url hurl _ bytes => mirrors_writePage (hfiles f hf url hurl) bytes
  have hf : f ∈ files := by
    rw [heq]
    exact List.mem_append_right before List.mem_cons_self
  obtain ⟨hcode, hv⟩ := of_readSource hcode
  refine tracks_of_fits fun hfits => (Page.Sheet.steady_draw (hdraw f hf url code hurl ?_)).mirrored
  rw [← (hread f hf).read hfits.like.agrees, hv, hcode]

/-- A site that is written to one directory can be written to the other, with the same files. -/
theorem mirrors_write (hgoal : m.goal.IsTree) (hroot : root.IsProper)
    (hs : s.NamesPages (listed settings s.sources))
    (h : WritesApart m.Written m.goal root settings s) :
    Mirrors m w (s.write raw settings root m.out) (s.write raw settings root m.scratch) := by
  refine (mirrors_writeSnapshots _).bind fun _ _ _ _ _ => ?_
  refine (mirrors_writeSheets (fun sheet hsheet => h.sheets sheet (List.mem_append_left _ hsheet))
    hs.symbol).bind fun _ _ _ _ _ => ?_
  refine (mirrors_remark _ _).bind fun _ _ _ _ _ => (mirrors_remark _ _).bind fun _ _ _ _ _ => ?_
  refine (mirrors_writeSheets (fun sheet hsheet => h.sheets sheet (List.mem_append_right _ hsheet))
    hs.tutorial).bind fun _ _ _ _ _ => ?_
  refine (mirrors_remark _ _).bind fun _ _ _ _ _ => ?_
  refine (mirrors_writeStatic hgoal hroot h.rules h.theme h.included).bind fun _ _ _ _ _ => ?_
  refine (mirrors_remark _ _).bind fun _ _ _ _ _ => ?_
  dsimp only
  split
  · next hsources =>
    have hlisted : listed settings s.sources = s.sources := by rw [listed, if_pos hsources]
    have hread := h.sources
    have hdraw := h.listings
    have hnamed := hs.listing
    rw [hlisted] at hread hdraw hnamed
    have hwritten : ∀ u, Mirrors m u (s.writeSources root m.out (themeOf root settings)
        (Nav.markup s.nav) settings.encoding) (s.writeSources root m.scratch
          (themeOf root settings) (Nav.markup s.nav) settings.encoding) := by
      refine fun u => (mirrors_writeListings hread hdraw hnamed).bind fun _ _ _ _ _ => ?_
      refine (Run.mirrors_write ?_ (List.cons_ne_nil _ _) _).bind fun _ _ _ _ _ => mirrors_pure _ _
      exact List.forall_mem_cons.mpr ⟨by decide, List.forall_mem_singleton.mpr (by decide)⟩
    exact (hwritten _).bind fun _ _ _ _ _ => (mirrors_remark _ _).bind fun _ _ _ _ _ =>
      mirrors_pure _ _
  · exact mirrors_pure _ _

end Site

end Refsite
