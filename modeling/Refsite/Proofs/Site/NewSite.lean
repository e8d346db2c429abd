import Refsite.Proofs.Disk.Laid
import Refsite.Proofs.Site.Failures
import Refsite.Proofs.Site.Republishing
namespace Refsite

open Refsite.Path Run

namespace Settings

variable {root : Path} {w w' : World}

theorem start_load_none (h : w.disk.look (root.child fileName) = .ok none) :
    (load root).start w = (.ok standard, w) := by
  rw [load, start_bind_ok (start_isFile h)]
  rfl

theorem start_load_some {text : List Char} {settings : Settings}
    (h : w.disk.look (root.child fileName) = .ok (some (.file (Text.Utf8.encode text))))
    (hsettings : ofToml (root.child fileName) text = .ok settings) :
    (load root).start w = (.ok settings, w) := by
  rw [load, start_bind_ok (start_isFile h)]
  change (Run.disk >>= _).start w = _
  rw [start_bind_ok (start_disk w), Disk.read_of_look h]
  change ((Run.ofExcept .decode (Text.Encoding.ofOption (Text.Utf8.decode? _))) >>= _).start w = _
  rw [Text.Utf8.decode?_encode]
  change (Run.ofExcept id (ofToml _ text)).start w = _
  rw [hsettings]
  rfl

theorem eq_standard {settings : Settings} (h : (load root).start w = (.ok settings, w'))
    (hfile : w.disk.isFile (root.child fileName) = false) : settings = standard := by
  obtain ⟨isFile, v, hisFile, h⟩ := of_start_bind h
  obtain ⟨rfl, -⟩ := of_start_isFile hisFile
  rw [hfile, if_neg Bool.false_ne_true] at h
  exact (of_start_pure h).1.symm

end Settings

namespace Site

section Host

variable [Host] {P Q : Disk → Prop} {s : Site} {root out : Path} {t : Page.Theme} {nav : String}
  {raw : List Doclet} {settings : Settings} {w : World}

/-- Without a theme of its own, a site without tutorials and listings is written where its pages
and the two style sheets can be, and no rules say what is ignored. -/
theorem exists_write (htheme : (themeOf root settings).base = none)
    (hstatics : settings.pages.staticFiles = .standard) (htutorials : s.tutorialSheets = [])
    (hsources : s.sources = []) (hsnapshots : (writeSnapshots s raw out Snapshot.all).Completes P)
    (hpages : ∀ v : World, P v.disk → v.chance = w.chance → ∃ pages v',
      (writeSheets s (themeOf root settings) (Nav.markup s.nav) out s.symbolSheets).start v =
        (.ok pages, v') ∧ Q v'.disk)
    (hstyle : ∀ bytes,
      (Run.write (out.below [Page.styleDirectory, Page.styleName]) bytes).Completes Q)
    (hlisting : ∀ bytes,
      (Run.write (out.below [Page.styleDirectory, Page.listingStyleName]) bytes).Completes Q)
    (hrules : ∀ d, Q d → d.look (root.child Asset.ignoreName) = .ok none) (hw : P w.disk) :
    ∃ summary w', (s.write raw settings root out).start w = (.ok summary, w') ∧ Q w'.disk := by
  have hignore : (Asset.ignoreRules root).Completes Q := completes_of_start fun w hw => by
    rw [Asset.ignoreRules, start_bind_ok (start_isFile (hrules _ hw))]
    rfl
  have hstatic : (writeStatic root out (themeOf root settings) .standard).Completes Q := by
    rw [writeStatic, htheme]
    exact (hstyle _).bind fun _ => (completes_pure _).bind fun _ =>
      (hignore.bind fun _ => completes_pure _).bind fun _ => completes_pure _
  have hlistings : ∀ nav encoding, (writeListings s root out (themeOf root settings) nav encoding
      s.sources).Completes Q := by
    rw [hsources]
    exact fun _ _ => completes_pure _
  obtain ⟨snapshots, v, hfirst, hv, hchance⟩ := hsnapshots w hw
  obtain ⟨pages, v', hsecond, hv'⟩ := hpages v hv hchance
  rw [write, start_bind_ok hfirst]
  dsimp only
  rw [← themeOf, start_bind_ok hsecond, htutorials, hstatics]
  suffices hrest : ∀ {x : Run Summary}, x.Completes Q →
      ∃ summary w', x.start v' = (.ok summary, w') ∧ Q w'.disk by
    refine hrest ?_
    refine (completes_remark _).bind fun _ => (completes_remark _).bind fun _ => ?_
    refine (completes_pure _).bind fun _ => (completes_remark _).bind fun _ => ?_
    refine hstatic.bind fun _ => (completes_remark _).bind fun _ => ?_
    split
    · exact ((hlistings _ _).bind fun _ => (hlisting _).bind fun _ => completes_pure _).bind
        fun _ => (completes_remark _).bind fun _ => completes_pure _
    · exact completes_pure _
  intro x hx
  obtain ⟨summary, w', hstart, hw', -⟩ := hx v' hv'
  exact ⟨summary, w', hstart, hw'⟩

end Host

section Plain

open scoped Plain

def siteRooms (names : List String) : List (List String) :=
  names.inits ++ [names ++ [Snapshot.directory], names ++ [Page.styleDirectory]]

def siteFiles (names pages : List String) : List (List String) :=
  Snapshot.all.map (fun x => names ++ [Snapshot.directory, x.fileName]) ++
    pages.map (fun page => names ++ [page]) ++
    [Page.styleName, Page.listingStyleName].map fun style => names ++ [Page.styleDirectory, style]

/-- What a disk is like while the site is written. -/
abbrev HoldsSite (before : Disk) (names pages : List String) (d : Disk) : Prop :=
  Disk.Laid before .top [] (siteRooms names) (siteFiles names pages) d

theorem holdsSite_self {d : Disk} {names pages : List String} (htree : d.IsTree)
    (hfree : ∀ q target, d.entry? q ≠ some (.link target))
    (hroom : ∀ more ∈ siteRooms names, d.entry? more = none ∨ d.entry? more = some .directory)
    (hfile : ∀ more ∈ siteFiles names pages, d.entry? more ≠ some .directory) :
    HoldsSite d names pages d where
  opened :=
    { tree := htree
      proper := by decide
      leads := Disk.locate_of_isPlainPath rfl
      directory := d.entry?_top
      free := fun q _ => hfree q }
  room := hroom
  file := hfile
  kept := fun _ _ => rfl

section Write

variable {before : Disk} {names pages : List String} {s : Site} {raw : List Doclet} {w : World}
  (hplan : Disk.IsPlan .top (siteRooms names) (siteFiles names pages))

include hplan

theorem completes_writePage {page : String} (hpage : page ∈ pages) (bytes : List UInt8) :
    (Run.write ((Path.top.below names).child page) bytes).Completes
      (HoldsSite before names pages) := by
  have hmem : names ++ [page] ∈ siteFiles names pages :=
    List.mem_append_left _ (List.mem_append_right _ (List.mem_map_of_mem hpage))
  exact Run.completes_write hplan hmem bytes

/-- With a plan for it, a site is written if its pages are, and these keep their bytes. -/
theorem exists_write_planned (settings : Settings) (known : List (List String × List UInt8))
    (hknown : ∀ file ∈ known, file.1 ∈ pages.map fun page => names ++ [page])
    (htheme : (themeOf .top settings).base = none)
    (hstatics : settings.pages.staticFiles = .standard) (htutorials : s.tutorialSheets = [])
    (hsources : s.sources = [])
    (hprint : ∀ x, ∃ y text, s.snapshot raw x = .ok y ∧ y.print = .ok text)
    (hpages : ∀ v : World, HoldsSite before names pages v.disk → v.chance = w.chance →
      ∃ paths v', (writeSheets s (themeOf .top settings) (Nav.markup s.nav) (Path.top.below names)
          s.symbolSheets).start v = (.ok paths, v') ∧ HoldsSite before names pages v'.disk ∧
        ∀ file ∈ known, v'.disk.read (Path.top.below file.1) = .ok file.2)
    (hrules : ∀ d, HoldsSite before names pages d →
      d.look (Path.top.child Asset.ignoreName) = .ok none)
    (hw : HoldsSite before names pages w.disk) :
    ∃ summary w', (s.write raw settings .top (Path.top.below names)).start w =
        (.ok summary, w') ∧ HoldsSite before names pages w'.disk ∧
      ∀ file ∈ known, w'.disk.read (Path.top.below file.1) = .ok file.2 := by
  have hmake : (makeDirectories (Path.top.below (names ++ [Snapshot.directory]))).Completes
      (HoldsSite before names pages) :=
    completes_makeDirectories hplan (List.mem_append_right _ List.mem_cons_self)
  have hsnapshot : ∀ x bytes, (Run.write (Snapshot.path (Path.top.below names) x) bytes).Completes
      (HoldsSite before names pages) := by
    intro x bytes
    have hmem : names ++ [Snapshot.directory, x.fileName] ∈ siteFiles names pages := by
      refine List.mem_append_left _ (List.mem_append_left _ (List.mem_map.mpr ⟨x, ?_, rfl⟩))
      cases x <;> decide
    have hpath : Snapshot.path (Path.top.below names) x =
        Path.top.below (names ++ [Snapshot.directory, x.fileName]) := by
      simp [Snapshot.path, Path.child, Path.below]
    rw [hpath]
    exact Run.completes_write hplan hmem bytes
  let Q (d : Disk) : Prop := HoldsSite before names pages d ∧
    ∀ file ∈ known, d.read (Path.top.below file.1) = .ok file.2
  have hstyle : ∀ style ∈ [Page.styleName, Page.listingStyleName], ∀ bytes,
      (Run.write ((Path.top.below names).below [Page.styleDirectory, style]) bytes).Completes Q := by
    intro style hstyle bytes
    have hmem : names ++ [Page.styleDirectory, style] ∈ siteFiles names pages :=
      List.mem_append_right _ (List.mem_map.mpr ⟨style, hstyle, rfl⟩)
    refine completes_write_beside hplan hmem (fun file hfile => ?_) bytes
    refine ⟨List.mem_append_left _ (List.mem_append_right _ (hknown file hfile)), ?_⟩
    obtain ⟨page, -, heq⟩ := List.mem_map.mp (hknown file hfile)
    simp [← heq]
  exact exists_write (Q := Q) htheme hstatics htutorials hsources
    (completes_writeSnapshots hmake hsnapshot hprint) hpages
    (hstyle _ List.mem_cons_self) (hstyle _ (List.mem_cons_of_mem _ List.mem_cons_self))
    (fun d hd => hrules d hd.1) hw

end Write

/-- A dump of a function and a class whose names look like ways out of a directory, and nothing else
but a directory for what is needed for a while. -/
def hostileProject : World where
  disk :=
    { entries :=
        [(["in.json"], .file (Text.Utf8.encode
          (pairText (plainText "function" "..%2ff") (plainText "class" "../a%2fb")).toList)),
          (["tmp"], .directory)] }

def hostileDump : List Doclet := [plainDoclet "function" "..%2ff", plainDoclet "class" "../a%2fb"]

def hostilePages : List String := ["._a%2fb.html", "global.html", "index.html"]

abbrev HoldsHostile (d : Disk) : Prop := HoldsSite hostileProject.disk ["out"] hostilePages d

theorem isPlan_hostile : Disk.IsPlan .top (siteRooms ["out"]) (siteFiles ["out"] hostilePages) := by
  decide

theorem holdsHostile_hostileProject : HoldsHostile hostileProject.disk :=
  holdsSite_self (by decide)
    (fun q => Disk.isClear_of_entries (by simp [hostileProject]) q q (.inl List.prefix_rfl))
    (by decide) (by decide)

theorem start_load_hostileProject :
    (Settings.load .top).start hostileProject = (.ok .standard, hostileProject) :=
  Settings.start_load_none
    (holdsHostile_hostileProject.look_child (by decide) (by decide) (by decide))

theorem start_hostileDump :
    (Doclet.load dumpPath).start hostileProject = (.ok hostileDump, hostileProject) :=
  Doclet.start_load_of_entry rfl rfl (by decide +kernel)

theorem symbols_hostileDump : Doclet.symbols hostileDump =
    ([], .ok [plainFunction "..%2ff", plainClass "../a%2fb"]) :=
  symbols_functionAndClass rfl rfl

theorem select_hostileDump :
    select .standard [plainFunction "..%2ff", plainClass "../a%2fb"] =
      ([], [plainFunction "..%2ff", plainClass "../a%2fb"]) :=
  select_functionAndClass (by decide)

/-- Its site, which can be written with the standard theme. -/
theorem exists_load_hostileProject : ∃ s v,
    (load .top dumpPath .standard none hostileDump).start hostileProject = (.ok s, v) ∧
      s.symbolSheets.map (·.file) = hostilePages ∧ s.tutorialSheets = [] ∧ s.sources = [] ∧
      (∀ sheet ∈ s.symbolSheets, ∃ content, sheet.body = .ok content) ∧
      ∀ x, ∃ y text, s.snapshot hostileDump x = .ok y ∧ y.print = .ok text := by
  have houtline : (ofSymbols .standard [] []
      [plainFunction "..%2ff", plainClass "../a%2fb"]).map (outline hostileDump) =
        .ok (hostilePages, true, true, true) := by
    decide +kernel
  obtain ⟨s, hs, hfiles, htutorials, hbody, hprint⟩ := exists_site_of_outline houtline
  have hsite : ofSymbols .standard
      (select Settings.standard.visibility [plainFunction "..%2ff", plainClass "../a%2fb"]).1 []
      (select Settings.standard.visibility [plainFunction "..%2ff", plainClass "../a%2fb"]).2 =
        .ok s := by
    rw [show Settings.standard.visibility = .standard from rfl, select_hostileDump]
    exact hs
  obtain ⟨v, hload, -⟩ := exists_load .top dumpPath symbols_hostileDump rfl hsite hostileProject
  exact ⟨s, v, hload, hfiles, htutorials, (ofSymbols_spec hs).2.2.1, hbody, hprint⟩

theorem exists_published_hostileProject : ∃ summary w',
    (publish .top dumpPath (some sitePath) none none).start hostileProject =
        (.ok (.written summary), w') ∧
      sitePath.child "._a%2fb.html" ∈ summary.artifacts ∧ HoldsHostile w'.disk := by
  obtain ⟨s, v, hload, hfiles, htutorials, hsources, hbody, hprint⟩ := exists_load_hostileProject
  have hpages : (writeSheets s (themeOf .top .standard) (Nav.markup s.nav) sitePath
      s.symbolSheets).Completes HoldsHostile := by
    refine completes_writeSheets (fun sheet hsheet => ?_) fun sheet hsheet => ?_
    · exact completes_writePage isPlan_hostile (hfiles ▸ List.mem_map_of_mem hsheet)
    · obtain ⟨content, hcontent⟩ := hbody sheet hsheet
      exact start_draw_standard _ hcontent
  have hv : v.disk = hostileProject.disk := (reads_load _ _ _ _ _).disk_eq hload
  obtain ⟨summary, w', (hwrite : (s.write _ _ _ sitePath).start v = _), hholds, -⟩ :=
    exists_write_planned isPlan_hostile .standard [] nofun rfl rfl
      htutorials hsources hprint
      (fun u hu _ => by
        obtain ⟨paths, u', hstart, hu', -⟩ := hpages u hu
        exact ⟨paths, u', hstart, hu', nofun⟩)
      (fun d hd => hd.look_child (by decide) (by decide) (by decide))
      (hv ▸ holdsHostile_hostileProject)
  obtain ⟨shown, snapshots, statics, -, hartifacts⟩ := write_spec hwrite
  refine ⟨summary, w', ?_, ?_, hholds⟩
  · rw [publish_eq]
    change (Settings.load .top >>= _).start hostileProject = _
    rw [start_bind_ok start_load_hostileProject, start_publish start_hostileDump hload hwrite]
  · have hmem : "._a%2fb.html" ∈ s.sheetFiles := by
      rw [sheetFiles, List.map_append, hfiles]
      exact List.mem_append_left _ (by decide)
    rw [hartifacts]
    exact List.mem_append_left _ (List.mem_append_left _
      (List.mem_append_right _ (List.mem_map_of_mem hmem)))

end Plain

end Site

end Refsite
