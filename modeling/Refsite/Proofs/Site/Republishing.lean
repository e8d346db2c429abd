import Refsite.Plain
import Refsite.Proofs.Disk.Laid
import Refsite.Proofs.Site.Loading
import Refsite.Proofs.Site.Writing
namespace Refsite

theorem Doclet.start_load_of_read {file : Path} {bytes : List UInt8} {x : Json}
    {raw : List Doclet} {w : World} (hread : w.disk.read file = .ok bytes)
    (hjson : Json.ofBytes? bytes = some x) (hraw : ofJson? x = some raw) :
    (load file).start w = (.ok raw, w) := by
  rw [load, Run.start_bind_ok (Run.start_disk w), hread]
  dsimp only
  rw [hjson]
  dsimp only
  rw [hraw]
  rfl

theorem Doclet.ofItems?_map_object (raw : List Doclet) :
    ofItems? (raw.map Json.object) = some raw := by
  induction raw with
  | nil => rfl
  | cons es raw ih =>
    rw [List.map_cons, ofItems?, ih]
    rfl

theorem Doclet.start_load_of_entry {file : Path} {bytes : List UInt8} {raw : List Doclet}
    {w : World} (hplain : w.disk.isPlainPath file = true)
    (hentry : w.disk.entry? file.names = some (.file bytes))
    (hjson : Json.ofBytes? bytes = some (.array (raw.map Json.object))) :
    (load file).start w = (.ok raw, w) :=
  start_load_of_read
    (Disk.read_ok_iff.mpr ⟨file.names, Disk.locate_of_isPlainPath hplain, hentry⟩) hjson
    (ofItems?_map_object raw)

namespace Page

section Find

variable {t : Theme} {directory : Path} {d : Disk}

theorem Standard.piecesOf?_fileName (template : Standard) :
    Template.piecesOf? template.fileName = some [template.fileName] := by
  cases template <;> decide +kernel

theorem Template.ofPieces?_fileName (template : Standard) :
    ofPieces? [template.fileName] = some (.standard template) := by
  cases template <;> decide +kernel

theorem Theme.find?_standard (template : Standard)
    (hfile : ∀ directory ∈ t.directories,
      d.isFile (directory.child template.fileName) = false) :
    t.find? d template.fileName = .ok (some (.standard template)) := by
  have hnone : t.file? d template.fileName = none := by
    rw [file?, template.piecesOf?_fileName]
    refine List.find?_eq_none.mpr fun p hp => ?_
    obtain ⟨directory, hdirectory, rfl⟩ := List.mem_map.mp hp
    exact Bool.eq_false_iff.mp (hfile directory hdirectory)
  rw [find?, hnone, template.piecesOf?_fileName]
  exact congrArg Except.ok (Template.ofPieces?_fileName template)

theorem Theme.find?_text {name : String} {text : List Char} (ht : t.directories = [directory])
    (hname : Template.piecesOf? name = some [name])
    (hread : d.read (directory.child name) = .ok (Text.Utf8.encode text)) :
    t.find? d name = .ok (some (.text (Text.unixLines text))) := by
  have hfound : t.file? d name = some (directory.child name) := by
    rw [file?, hname, ht]
    exact List.find?_cons_of_pos (Disk.isFile_of_read hread)
  rw [find?, hfound]
  dsimp only
  rw [hread]
  dsimp only
  rw [Text.Utf8.decode?_encode]

end Find

section Engine

variable [Engine] {chance : Nat} {page : String} {links : Registry}
  {find? : String → Except Failure (Option Template)}

omit [Engine] in
theorem Rendering.run_ofResult (r : Result) :
    (ofResult r).run find? = r.mapError Failure.misfit := by
  cases r <;> rfl

theorem run_fill {name : String} {template : Template} (h : find? name = .ok (some template))
    (context : Context) : (fill chance page links name context).run find? =
      (template.render chance page links context).run find? := by
  rw [fill, Rendering.run, h]

/-- A standard template is rendered as it is where the details template is the standard one. -/
theorem Template.run_render_standard (template : Standard) (context : Context)
    (hdetails : find? Standard.details.fileName = .ok (some (.standard .details))) :
    ((Template.standard template).render chance page links context).run find? =
      (template.markup links context).mapError Failure.misfit := by
  cases template with
  | container =>
    rw [render, Rendering.run, hdetails]
    dsimp only
    rw [if_pos (beq_self_eq_true _)]
    exact Rendering.run_ofResult _
  | details | home | layout | source | tutorial =>
    rw [render]
    · exact Rendering.run_ofResult _
    · exact Standard.noConfusion

end Engine

end Page

namespace Site

section Host

variable [Host] {P : Disk → Prop} {s : Site} {root out : Path} {t : Page.Theme} {nav : String}
  {raw : List Doclet} {w : World}

omit [Host] in
theorem completes_jsonText {x : Except Misfit Json} {y : Json} {text : String} (hx : x = .ok y)
    (hprint : y.print = .ok text) : (jsonText x).Completes P := Run.completes_of_start fun w _ => by
  rw [jsonText, hx]
  change (Run.ofExcept Failure.misfit y.print).start w = _
  rw [hprint]
  rfl

theorem completes_writeSheets {sheets : List Page.Sheet}
    (hwrite : ∀ sheet ∈ sheets, ∀ bytes, (Run.write (out.child sheet.file) bytes).Completes P)
    (hdraw : ∀ sheet ∈ sheets, ∃ markup, ∀ v, (sheet.draw t nav).start v = (.ok markup, v)) :
    (writeSheets s t nav out sheets).Completes P := by
  have hdrawn : ∀ sheet ∈ sheets, (sheet.draw t nav).Completes P := by
    intro sheet hsheet
    obtain ⟨markup, hmarkup⟩ := hdraw sheet hsheet
    exact Run.completes_of_start fun v _ => hmarkup v
  intro w
  have hall : (Run.completing P).logic.Along w (writeSheets s t nav out sheets)
      (writeSheets s t nav out sheets) := by
    refine holds_writeSheets _ (fun before sheet after _ u heq _ => ?_)
      fun sheet hsheet u bytes => Run.Invariant.along (hwrite sheet hsheet bytes u)
    refine Run.Invariant.alike (hdrawn sheet ?_ u)
    rw [heq]
    exact List.mem_append_right before List.mem_cons_self
  exact hall.1

theorem completes_writeSnapshots
    (hmake : (Run.makeDirectories (out.child Snapshot.directory)).Completes P)
    (hsnapshot : ∀ x bytes, (Run.write (Snapshot.path out x) bytes).Completes P)
    (hprint : ∀ x, ∃ y text, s.snapshot raw x = .ok y ∧ y.print = .ok text) :
    (writeSnapshots s raw out Snapshot.all).Completes P := fun w =>
  (holds_writeSnapshots (Run.completing P).logic (fun u => Run.Invariant.along (hmake u))
    (fun x _ u => by
      obtain ⟨y, text, hy, htext⟩ := hprint x
      exact Run.Invariant.alike (completes_jsonText hy htext u))
    fun x _ u bytes => Run.Invariant.along (hsnapshot x bytes u)).1

theorem exists_writeSnapshots
    (hdirectory : w.disk.isDirectory (out.child Snapshot.directory) = true)
    (hfiles : ∀ x, w.disk.isFile (Snapshot.path out x) = true)
    (hprint : ∀ x, ∃ y text, s.snapshot raw x = .ok y ∧ y.print = .ok text) :
    ∃ w', (writeSnapshots s raw out Snapshot.all).start w =
        (.ok (Snapshot.all.map (Snapshot.path out)), w') ∧ w.disk.Alike w'.disk := by
  have hmake : (Run.makeDirectories (out.child Snapshot.directory)).Completes w.disk.Alike :=
    Run.completes_of_start fun v hv =>
      Run.start_change (Disk.makeDirectories_of_isDirectory (hv.grows.isDirectory hdirectory))
  have hparent : ∀ x, (Snapshot.path out x).parent = out.child Snapshot.directory := by
    simp [Snapshot.path, Path.parent, Path.child]
  obtain ⟨paths, w', hstart, halike, -⟩ := completes_writeSnapshots hmake
    (fun x => Run.completes_overwrite (hparent x ▸ hdirectory) (hfiles x)) hprint w (.refl _)
  rw [(writeSnapshots_spec hstart).1] at hstart
  exact ⟨w', hstart, halike⟩

theorem start_writeSheets_cons {sheet : Page.Sheet} {sheets : List Page.Sheet} {markup : String}
    {paths : List Path} {v w' : World} (hdraw : (sheet.draw t nav).start w = (.ok markup, w))
    (hwrite : (Run.write (out.child sheet.file)
      (Text.Utf8.encode (s.registry.resolveTags markup).toList)).start w = (.ok (), v))
    (hrest : (writeSheets s t nav out sheets).start v = (.ok paths, w')) :
    (writeSheets s t nav out (sheet :: sheets)).start w =
      (.ok (out.child sheet.file :: paths), w') := by
  rw [writeSheets, Run.start_bind_ok hdraw]
  change (Run.write (out.child sheet.file)
    (Text.Utf8.encode (s.registry.resolveTags markup).toList) >>= fun _ => _).start w = _
  rw [Run.start_bind_ok hwrite, Run.start_bind_ok hrest]
  rfl

theorem exists_writeSheet {sheet : Page.Sheet} {markup : String}
    (hout : w.disk.isDirectory out = true) (hfile : w.disk.isFile (out.child sheet.file) = true)
    (hdraw : (sheet.draw t nav).start w = (.ok markup, w)) :
    ∃ v, w.disk.Alike v.disk ∧ v.disk.read (out.child sheet.file) =
        .ok (Text.Utf8.encode (s.registry.resolveTags markup).toList) ∧
      ∀ {sheets paths w'}, (writeSheets s t nav out sheets).start v = (.ok paths, w') →
        (writeSheets s t nav out (sheet :: sheets)).start w =
          (.ok (out.child sheet.file :: paths), w') := by
  have hparent : (out.child sheet.file).parent = out := by
    simp [Path.parent, Path.child]
  obtain ⟨_, v, hwrite, halike, -⟩ := Run.completes_overwrite (by rwa [hparent]) hfile
    (Text.Utf8.encode (s.registry.resolveTags markup).toList) w (.refl _)
  exact ⟨v, halike, (Run.of_start_write hwrite).2.1, start_writeSheets_cons hdraw hwrite⟩

theorem exists_writeSheets {sheets : List Page.Sheet} (hout : w.disk.isDirectory out = true)
    (hfiles : ∀ sheet ∈ sheets, w.disk.isFile (out.child sheet.file) = true)
    (hdraw : ∀ sheet ∈ sheets, ∃ markup, ∀ v, (sheet.draw t nav).start v = (.ok markup, v)) :
    ∃ w', (writeSheets s t nav out sheets).start w =
        (.ok ((sheets.map (·.file)).map out.child), w') ∧ w.disk.Alike w'.disk := by
  have hparent : ∀ file, (out.child file).parent = out := by
    simp [Path.parent, Path.child]
  obtain ⟨paths, w', hstart, halike, -⟩ := completes_writeSheets (s := s)
    (fun sheet hsheet => Run.completes_overwrite (by rwa [hparent]) (hfiles sheet hsheet)) hdraw
    w (.refl _)
  rw [(writeSheets_spec hstart).1] at hstart
  exact ⟨w', hstart, halike⟩

theorem start_draw_standard {sheet : Page.Sheet} {content : String} (nav : String)
    (hbody : sheet.body = .ok content) : ∃ markup, ∀ v : World,
      (sheet.draw (.ofPaths none none) nav).start v = (.ok markup, v) := by
  refine ⟨Page.layout sheet.title nav content, fun v => ?_⟩
  have hfind : ∀ template : Page.Standard,
      (Page.Theme.ofPaths none none).find? v.disk template.fileName =
        .ok (some (.standard template)) :=
    fun template => Page.Theme.find?_standard template (List.forall_mem_nil _)
  have hbodies : (Page.fill v.chance sheet.file sheet.links sheet.topic.template.fileName
      (.body sheet.title sheet.topic)).run ((Page.Theme.ofPaths none none).find? v.disk) =
        .ok content := by
    rw [Page.run_fill (hfind _), Page.Template.run_render_standard _ _ (hfind .details)]
    exact congrArg (Except.mapError Failure.misfit) hbody
  rw [Page.Sheet.start_draw, Page.Sheet.rendering, Page.Rendering.run_andThen, hbodies]
  change ((Page.fill _ _ _ Page.Standard.layout.fileName _).run _, v) = _
  rw [Page.run_fill (hfind _), Page.Template.run_render_standard _ _ (hfind .details)]
  rfl

theorem start_drawHome {t : Page.Theme} {directory : Path} {text : List Char} {v : World}
    (nav : String) (ht : t.directories = [directory])
    (hhome : v.disk.isFile (directory.child Page.Standard.home.fileName) = false)
    (hlayout : Page.Template.piecesOf? t.layoutName = some [t.layoutName])
    (hread : v.disk.read (directory.child t.layoutName) = .ok (Text.Utf8.encode text)) :
    (s.homeSheet.draw t nav).start v = ((Page.Engine.render v.chance s.homeSheet.file s.registry
      (.text (Text.unixLines text)) (.frame "Documentation" nav
        (Page.home s.registry (homeCategories s.members)))).run (t.find? v.disk), v) := by
  have hfile : ∀ directory ∈ t.directories,
      v.disk.isFile (directory.child Page.Standard.home.fileName) = false := by
    rw [ht]
    exact List.forall_mem_singleton.mpr hhome
  have hbody : (Page.fill v.chance s.homeSheet.file s.registry Page.Standard.home.fileName
      (.body "Documentation" (.home (homeCategories s.members)))).run (t.find? v.disk) =
        .ok (Page.home s.registry (homeCategories s.members)) := by
    rw [Page.run_fill (Page.Theme.find?_standard .home hfile)]
    exact Page.Rendering.run_ofResult (.ok (Page.home s.registry (homeCategories s.members)))
  rw [Page.Sheet.start_draw]
  change (Page.Rendering.run _ (Page.Rendering.andThen _ _), v) = _
  rw [Page.Rendering.run_andThen]
  refine congrArg (·, v) ((congrArg (Except.bind · _) hbody).trans ?_)
  exact Page.run_fill (Page.Theme.find?_text ht hlayout hread) _

/-- The style sheet of the standard theme, where no other static files are included. -/
theorem exists_writeStatic {place : Place} (htheme : t.base = none)
    (hdirectory : w.disk.isDirectory (out.child Page.styleDirectory) = true)
    (hfile : w.disk.isFile (out.below [Page.styleDirectory, Page.styleName]) = true)
    (hignore : w.disk.locate (root.child Asset.ignoreName) = .ok place)
    (hnone : w.disk.entry? place = none) :
    ∃ w', (writeStatic root out t .standard).start w =
        (.ok [out.below [Page.styleDirectory, Page.styleName]], w') ∧ w.disk.Alike w'.disk := by
  have hparent : (out.below [Page.styleDirectory, Page.styleName]).parent =
      out.child Page.styleDirectory := by
    simp [Path.parent, Path.child, Path.below]
  obtain ⟨_, v, hwrite, halike, -⟩ := Run.completes_overwrite (by rwa [hparent]) hfile
    (Text.Utf8.encode Page.style.toList) w (.refl _)
  have hlook : v.disk.look (root.child Asset.ignoreName) = .ok none := by
    rw [Disk.look_of_locate (halike.grows.locate hignore), halike.entry?_none hnone]
  have hrules : (Asset.ignoreRules root).start v = (.ok none, v) := by
    rw [Asset.ignoreRules, Run.start_bind_ok (Run.start_isFile hlook)]
    rfl
  refine ⟨v, ?_, halike⟩
  rw [writeStatic, htheme]
  dsimp only
  change (Run.write (out.below [Page.styleDirectory, Page.styleName])
    (Text.Utf8.encode Page.style.toList) >>= fun _ => _).start w = _
  have hcopied : (Asset.copyStatic root out .standard).start v = (.ok [], v) := by
    rw [Asset.copyStatic, Run.start_bind_ok hrules]
    rfl
  rw [Run.start_bind_ok hwrite]
  change (Asset.copyStatic root out .standard >>= fun _ => _).start v = _
  rw [Run.start_bind_ok hcopied]
  rfl

def withoutListings : Settings :=
  { Settings.standard with pages := { PageSettings.standard with sourcePages := false } }

/-- The disk holds all directories and files that a site with some pages is written to. -/
structure HoldsPages (d : Disk) (root out : Path) (pages : List String) : Prop where
  output : d.isDirectory out = true
  directory : d.isDirectory (out.child Snapshot.directory) = true
  styles : d.isDirectory (out.child Page.styleDirectory) = true
  snapshot : ∀ x, d.isFile (Snapshot.path out x) = true
  page : ∀ file ∈ pages, d.isFile (out.child file) = true
  style : d.isFile (out.below [Page.styleDirectory, Page.styleName]) = true
  ignore : ∃ place, d.locate (root.child Asset.ignoreName) = .ok place ∧ d.entry? place = none

def pagesSummary (s : Site) (out : Path) : Summary where
  symbols := s.symbols.length
  pages := ((s.symbolSheets.map (·.file)).map out.child).length
  tutorials := 0
  statics := 1
  sources := none
  artifacts := Snapshot.all.map (Snapshot.path out) ++
    (s.symbolSheets.map (·.file)).map out.child ++
    [out.below [Page.styleDirectory, Page.styleName]]

/-- Where all files are there already, a site is written if its pages are; after them nothing is
written but the style sheet. -/
theorem HoldsPages.exists_write (settings : Settings) (P : Disk → Prop)
    (h : HoldsPages w.disk root out (s.symbolSheets.map (·.file)))
    (htemplate : settings.template = none) (hstatics : settings.pages.staticFiles = .standard)
    (hsources : settings.pages.sourcePages = false) (htutorials : s.tutorialSheets = [])
    (hprint : ∀ x, ∃ y text, s.snapshot raw x = .ok y ∧ y.print = .ok text)
    (hsheets : ∀ v, (writeSnapshots s raw out Snapshot.all).start w =
        (.ok (Snapshot.all.map (Snapshot.path out)), v) → w.disk.Alike v.disk →
      ∃ v', (writeSheets s (themeOf root settings) (Nav.markup s.nav) out s.symbolSheets).start v =
        (.ok ((s.symbolSheets.map (·.file)).map out.child), v') ∧
          v.disk.Alike v'.disk ∧ P v'.disk) :
    ∃ w', (s.write raw settings root out).start w = (.ok (pagesSummary s out), w') ∧
      w.disk.Alike w'.disk ∧ ∃ d, P d ∧
        d.Changes [out.below [Page.styleDirectory, Page.styleName]] w'.disk := by
  obtain ⟨place, hplace, hnone⟩ := h.ignore
  obtain ⟨v₁, hsnapshots, h₁⟩ :=
    exists_writeSnapshots h.directory h.snapshot hprint
  obtain ⟨v₂, hpages, h₂, hP⟩ := hsheets v₁ hsnapshots h₁
  replace h₂ := h₁.trans h₂
  rw [write, Run.start_bind_ok hsnapshots]
  dsimp only
  rw [← themeOf, Run.start_bind_ok hpages, htutorials, hstatics, hsources]
  refine Run.exists_start_bind (Run.exists_start_remark _ _) fun v₃ h₃ => ?_
  refine Run.exists_start_bind (Run.exists_start_remark _ _) fun v₄ h₄ => ?_
  rw [writeSheets, pure_bind]
  refine Run.exists_start_bind (Run.exists_start_remark _ _) fun v₅ h₅ => ?_
  rw [← h₃, ← h₄, ← h₅] at h₂ hP
  obtain ⟨v₆, hstyle, h₆⟩ := exists_writeStatic (t := themeOf root settings)
    (by rw [themeOf, htemplate]; rfl) (h₂.grows.isDirectory h.styles) (h₂.grows.isFile h.style)
    (h₂.grows.locate hplace) (h₂.entry?_none hnone)
  rw [Run.start_bind_ok hstyle]
  refine Run.exists_start_bind (Run.exists_start_remark _ _) fun v₇ h₇ => ?_
  rw [if_neg Bool.false_ne_true, List.append_nil]
  refine ⟨v₇, rfl, ?_, v₅.disk, hP, ?_⟩
  · rw [h₇]
    exact h₂.trans h₆
  · rw [h₇]
    exact changes_writeStatic hstyle

theorem HoldsPages.exists_write_drawn (settings : Settings)
    (h : HoldsPages w.disk root out (s.symbolSheets.map (·.file)))
    (htemplate : settings.template = none) (hlayout : settings.pages.layoutFile = none)
    (hstatics : settings.pages.staticFiles = .standard)
    (hsources : settings.pages.sourcePages = false) (htutorials : s.tutorialSheets = [])
    (hprint : ∀ x, ∃ y text, s.snapshot raw x = .ok y ∧ y.print = .ok text)
    (hdraw : ∀ sheet ∈ s.symbolSheets, ∃ markup, ∀ v : World,
      (sheet.draw (.ofPaths none none) (Nav.markup s.nav)).start v = (.ok markup, v)) :
    ∃ w', (s.write raw settings root out).start w = (.ok (pagesSummary s out), w') ∧
      w.disk.Alike w'.disk := by
  have htheme : themeOf root settings = .ofPaths none none := by
    rw [themeOf, htemplate, hlayout]
    rfl
  obtain ⟨w', hwrite, halike, -⟩ := h.exists_write settings (fun _ => True) htemplate hstatics
    hsources htutorials hprint fun v _ hv => by
      rw [htheme]
      obtain ⟨v', hstart, halike⟩ := exists_writeSheets (hv.grows.isDirectory h.output)
        (fun sheet hsheet => hv.grows.isFile (h.page _ (List.mem_map_of_mem hsheet))) hdraw
      exact ⟨v', hstart, halike, trivial⟩
  exact ⟨w', hwrite, halike⟩

def plainSummary (out : Path) : Summary where
  symbols := 0
  pages := 1
  tutorials := 0
  statics := 1
  sources := none
  artifacts := Snapshot.all.map (Snapshot.path out) ++
    [out.child Registry.indexUrl, out.below [Page.styleDirectory, Page.styleName]]

omit [Host] in
theorem pagesSummary_eq (out : Path) (hsymbols : s.symbols = [])
    (hsheets : s.symbolSheets = [s.homeSheet]) : pagesSummary s out = plainSummary out := by
  rw [pagesSummary, hsymbols, hsheets]
  rfl

theorem start_publish {input directory : Path} {settings : Settings} {tutorials : Option Path}
    {summary : Summary} {v w' : World} (hraw : (Doclet.load input).start w = (.ok raw, w))
    (hload : (load root input settings tutorials raw).start w = (.ok s, v))
    (hwrite : (s.write raw settings root directory).start v = (.ok summary, w')) :
    (publish root input (some directory) (some settings) tutorials).start w =
      (.ok (.written summary), w') := by
  rw [publish, pure_bind, Run.start_bind_ok hraw, Run.start_bind_ok hload]
  change (s.write raw settings root directory >>= fun _ => _).start v = _
  rw [Run.start_bind_ok hwrite]
  rfl

omit [Host] in
theorem select_nil (v : Visibility) : select v [] = ([], []) := by
  have hpruned : Symbol.prune v [] = [] := List.mergeSort_nil
  rw [select, hpruned]
  rfl

end Host

section Plain

open scoped Plain

variable {root out : Path} {raw : List Doclet} {w : World}

theorem run_render_text {chance : Nat} {page : String} {links : Registry} {source text : List Char}
    {context : Page.Context} {find? : String → Except Failure (Option Page.Template)}
    (h : Plain.fill? chance (Plain.values context) none source = some text) :
    (Page.Engine.render chance page links (.text source) context).run find? =
      .ok (String.ofList text) := by
  change (Plain.render _ _ (.text _)).run find? = _
  rw [Plain.render, h]
  rfl

/-- Without symbols there is a site, and nothing but its doclets can keep it from being written. -/
theorem exists_site_nil {settings : Settings} {text : String}
    (hnames : settings.pages.longnamesInNav = false)
    (hprint : (Json.array (raw.map Json.object)).print = .ok text) :
    ∃ s, ofSymbols settings [] [] [] = .ok s ∧ s.symbols = [] ∧ s.sources = [] ∧
      s.symbolSheets = [s.homeSheet] ∧ s.tutorialSheets = [] ∧
      ∀ x, ∃ y text, s.snapshot raw x = .ok y ∧ y.print = .ok text := by
  rw [ofSymbols, ite_self, hnames]
  refine ⟨_, rfl, rfl, rfl, rfl, rfl, fun x => ?_⟩
  cases x with
  | docsRaw => exact ⟨_, _, rfl, hprint⟩
  | _ => exact ⟨_, _, rfl, rfl⟩

/-- What is looked up of a site that can be written: the files of its pages, and that it has no
tutorials, that all pages have bodies and all snapshots texts. -/
def outline (raw : List Doclet) (s : Site) : List String × Bool × Bool × Bool :=
  (s.symbolSheets.map (·.file), s.tutorialSheets.isEmpty, s.symbolSheets.all (·.body.isOk),
    Snapshot.all.all fun x => ((s.snapshot raw x).bind Json.print).isOk)

theorem exists_site_of_outline {settings : Settings} {symbols : List Symbol} {files : List String}
    (h : (ofSymbols settings [] [] symbols).map (outline raw) = .ok (files, true, true, true)) :
    ∃ s, ofSymbols settings [] [] symbols = .ok s ∧ s.symbolSheets.map (·.file) = files ∧
      s.tutorialSheets = [] ∧ (∀ sheet ∈ s.symbolSheets, ∃ content, sheet.body = .ok content) ∧
      ∀ x, ∃ y text, s.snapshot raw x = .ok y ∧ y.print = .ok text := by
  obtain ⟨s, hs, hlook⟩ := exists_of_map_ok h
  obtain ⟨hfiles, hlook⟩ := Prod.mk.inj hlook
  obtain ⟨htutorials, hlook⟩ := Prod.mk.inj hlook
  obtain ⟨hbodies, hsnapshots⟩ := Prod.mk.inj hlook
  refine ⟨s, hs, hfiles, List.isEmpty_iff.mp htutorials, fun sheet hsheet => ?_, fun x => ?_⟩
  · exact exists_of_isOk (List.all_eq_true.mp hbodies sheet hsheet)
  · obtain ⟨text, hprint⟩ :=
      exists_of_isOk (List.all_eq_true.mp hsnapshots x (by cases x <;> decide))
    obtain ⟨y, hy, htext⟩ := of_bind_ok hprint
    exact ⟨y, text, hy, htext⟩

theorem exists_site_functionAndClass :
    ∃ s, ofSymbols withoutListings [] [] [plainFunction "f", plainClass "shape"] = .ok s ∧
      s.symbolSheets.map (·.file) = ["shape.html", "global.html", "index.html"] ∧
      s.tutorialSheets = [] ∧ (∀ sheet ∈ s.symbolSheets, ∃ content, sheet.body = .ok content) ∧
      ∀ x, ∃ y text,
        s.snapshot [plainDoclet "function" "f", plainDoclet "class" "shape"] x = .ok y ∧
          y.print = .ok text :=
  exists_site_of_outline (by decide +kernel)

def dumpPath : Path := ⟨false, ["in.json"]⟩

def sitePath : Path := ⟨false, ["out"]⟩

def firstDump : Path := ⟨false, ["a.json"]⟩

def secondDump : Path := ⟨false, ["b.json"]⟩

/-- Two dumps beside an old site with a page of a class and one of the globals, whose files are
empty. -/
def twoDumps (a b : String) : World where
  disk :=
    { entries :=
        [(["a.json"], .file (Text.Utf8.encode a.toList)),
          (["b.json"], .file (Text.Utf8.encode b.toList)), (["out"], .directory),
          (["out", "dist"], .directory), (["out", "dist", "docs_raw.json"], .file []),
          (["out", "dist", "docs.json"], .file []), (["out", "dist", "members.json"], .file []),
          (["out", "dist", "nav.json"], .file []), (["out", "dist", "tree.json"], .file []),
          (["out", "shape.html"], .file []), (["out", "global.html"], .file []),
          (["out", "index.html"], .file []), (["out", "styles"], .directory),
          (["out", "styles", "docgraft.css"], .file [])] }

theorem holdsPages_twoDumps (a b : String) {pages : List String}
    (hpages : pages ⊆ ["shape.html", "global.html", "index.html"]) :
    HoldsPages (twoDumps a b).disk .top sitePath pages where
  output := Disk.isDirectory_of_isPlainPath rfl rfl
  directory := Disk.isDirectory_of_isPlainPath rfl rfl
  styles := Disk.isDirectory_of_isPlainPath rfl rfl
  snapshot := by
    intro x
    cases x <;> exact Disk.isFile_of_isPlainPath rfl rfl
  page := by
    intro file hfile
    have hmem := hpages hfile
    simp only [List.mem_cons, List.not_mem_nil, or_false] at hmem
    obtain rfl | rfl | rfl := hmem <;> exact Disk.isFile_of_isPlainPath rfl rfl
  style := Disk.isFile_of_isPlainPath rfl rfl
  ignore := ⟨[".gitignore"], Disk.locate_of_isPlainPath rfl, rfl⟩

/-- Beside the old site paths lead where they led before it was published over. -/
theorem locate_twoDumps {a b : String} {d : Disk} (p : Path) (h : (twoDumps a b).disk.Alike d)
    (hp : (twoDumps a b).disk.isPlainPath p = true) : d.locate p = .ok p.names :=
  h.grows.locate (Disk.locate_of_isPlainPath hp)

def plainText (kind name : String) : String :=
  "\x7b\"kind\":\"" ++ kind ++ "\",\"name\":\"" ++ name ++ "\",\"longname\":\"" ++ name ++
    "\",\"description\":\"described\"\x7d"

def pairText (a b : String) : String := "[" ++ a ++ "," ++ b ++ "]"

/-- A dump of a function and a class, and one of the class and the function. -/
def describedDumps : World :=
  twoDumps (pairText (plainText "function" "f") (plainText "class" "shape"))
    (pairText (plainText "class" "shape") (plainText "function" "f"))

theorem start_functionFirst : (Doclet.load firstDump).start describedDumps =
    (.ok [plainDoclet "function" "f", plainDoclet "class" "shape"], describedDumps) :=
  Doclet.start_load_of_entry rfl rfl (by decide +kernel)

theorem start_classFirst : (Doclet.load secondDump).start describedDumps =
    (.ok [plainDoclet "class" "shape", plainDoclet "function" "f"], describedDumps) :=
  Doclet.start_load_of_entry rfl rfl (by decide +kernel)

/-- A constant with a unit, which no symbol has a field for, and a type with more than names. -/
def measuredDoclet : Doclet :=
  [("kind", .string "constant"), ("name", .string "pi"), ("longname", .string "pi"),
    ("description", .string "described"),
    ("type", .object [("names", .array [.string "number"]), ("parsed", .array [.null])]),
    ("unit", .object [("base", .null)])]

def measured : Symbol :=
  { Symbol.bare (.constant ⟨some ⟨["number"], [("parsed", .array [.null])]⟩, false, none, none⟩)
      "pi" "pi" none with
    extra := [("unit", .object [("base", .null)])] }

theorem symbol?_measuredDoclet : Doclet.symbol? measuredDoclet = .ok (some measured) := by
  refine symbol_of_read "constant" rfl rfl ?_
  rw [Symbol.read]
  rfl

theorem symbols_measuredDoclet : Doclet.symbols [measuredDoclet] = ([], .ok [measured]) := by
  rw [Doclet.symbols, Doclet.symbolsFrom, symbol?_measuredDoclet]
  rfl

def measuredDump : World :=
  twoDumps ("[\x7b\"kind\":\"constant\",\"name\":\"pi\",\"longname\":\"pi\"," ++
    "\"description\":\"described\",\"type\":\x7b\"names\":[\"number\"],\"parsed\":[null]\x7d," ++
    "\"unit\":\x7b\"base\":null\x7d\x7d]") "[]"

theorem start_measuredDump :
    (Doclet.load firstDump).start measuredDump = (.ok [measuredDoclet], measuredDump) :=
  Doclet.start_load_of_entry rfl rfl (by decide +kernel)

theorem exists_publish_measured : ∃ s w',
    (publish .top firstDump (some sitePath) (some withoutListings) none).start measuredDump =
      (.ok (.written (pagesSummary s sitePath)), w') ∧
    (pagesSummary s sitePath).symbols = 1 ∧
    s.symbolSheets.map (·.file) = ["global.html", "index.html"] := by
  have hselect : select .standard [measured] = ([], [measured]) := by
    have hfilter : [measured].filter (Symbol.isPublished .standard) = [measured] := rfl
    rw [select, Symbol.prune, hfilter, Symbol.sort, List.mergeSort_singleton]
    rfl
  have houtline : (ofSymbols withoutListings [] [] [measured]).map (outline [measuredDoclet]) =
      .ok (["global.html", "index.html"], true, true, true) := by
    decide +kernel
  obtain ⟨s, hs, hfiles, htutorials, hbodies, hprint⟩ := exists_site_of_outline houtline
  have hsymbols : s.symbols.length = 1 := by
    have hcount : (ofSymbols withoutListings [] [] [measured]).map (·.symbols.length) = .ok 1 := by
      decide +kernel
    rw [hs] at hcount
    exact Except.ok.inj hcount
  have hsite : ofSymbols withoutListings (select withoutListings.visibility [measured]).1 []
      (select withoutListings.visibility [measured]).2 = .ok s := by
    rw [show withoutListings.visibility = .standard from rfl, hselect]
    exact hs
  obtain ⟨v, hload, hdisk, -⟩ :=
    exists_load .top firstDump symbols_measuredDoclet rfl hsite measuredDump
  have hpages : HoldsPages v.disk .top sitePath (s.symbolSheets.map (·.file)) := by
    rw [hdisk, hfiles]
    exact holdsPages_twoDumps _ _ (by decide)
  obtain ⟨w', hwrite, -⟩ := hpages.exists_write_drawn withoutListings rfl rfl rfl rfl
    htutorials hprint fun sheet hsheet => by
      obtain ⟨content, hbody⟩ := hbodies sheet hsheet
      exact start_draw_standard _ hbody
  exact ⟨s, w', start_publish start_measuredDump hload hwrite, hsymbols, hfiles⟩

def measuredPaths : List Path :=
  Snapshot.all.map (Snapshot.path sitePath) ++ ["global.html", "index.html"].map sitePath.child ++
    [sitePath.below [Page.styleDirectory, Page.styleName]]

theorem written_measured {s : Site}
    (hfiles : s.symbolSheets.map (·.file) = ["global.html", "index.html"]) :
    (pagesSummary s sitePath).written sitePath = measuredPaths := by
  rw [Summary.written, pagesSummary, hfiles]
  rfl

theorem staticFiles_measured {s : Site}
    (hfiles : s.symbolSheets.map (·.file) = ["global.html", "index.html"]) :
    (pagesSummary s sitePath).staticFiles =
      [sitePath.below [Page.styleDirectory, Page.styleName]] := by
  rw [Summary.staticFiles, pagesSummary, hfiles]
  rfl

end Plain

end Site

end Refsite
