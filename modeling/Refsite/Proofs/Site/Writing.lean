import Mathlib.Data.List.Find
import Refsite.Proofs.Disk.Runs
import Refsite.Proofs.Site.Publish
namespace Refsite

open Run (Reads)

def Snapshot.path (out : Path) (s : Snapshot) : Path := (out.child directory).child s.fileName

theorem Snapshot.path_injective (out : Path) : Function.Injective (Snapshot.path out) := by
  intro a b h
  have hname := Site.child_injective _ h
  cases a <;> cases b <;> first | rfl | exact absurd hname (by decide)

namespace Summary

def staticFiles (s : Summary) : List Path :=
  (s.artifacts.drop (Snapshot.all.length + s.pages + s.tutorials)).take s.statics

theorem staticFiles_eq {s : Summary} {snapshots pages tutorials statics rest : List Path}
    (hsnapshots : snapshots.length = Snapshot.all.length) (hpages : s.pages = pages.length)
    (htutorials : s.tutorials = tutorials.length) (hstatics : s.statics = statics.length)
    (hartifacts : s.artifacts = snapshots ++ pages ++ tutorials ++ statics ++ rest) :
    s.staticFiles = statics := by
  have hlength : Snapshot.all.length + s.pages + s.tutorials =
      (snapshots ++ pages ++ tutorials).length := by
    rw [List.length_append, List.length_append, hsnapshots, hpages, htutorials]
  rw [staticFiles, hartifacts, hlength, hstatics, List.append_assoc _ statics, List.drop_left,
    List.take_left]

/-- All files that were written to a directory: the artifacts, and the style sheet that listings
come with. -/
def written (out : Path) (s : Summary) : List Path :=
  s.artifacts ++
    if s.sources.isSome then [out.below [Page.styleDirectory, Page.listingStyleName]] else []

end Summary

namespace Page

namespace Rendering

variable {find? find?' : String → Except Failure (Option Template)}

/-- The names that a rendering asks for where templates are found in some way. -/
def asked (find? : String → Except Failure (Option Template)) : Rendering → List String
  | done _ => []
  | failed _ => []
  | ask name answer => name ::
    match find? name with
    | .ok found => (answer found).asked find?
    | .error _ => []

theorem run_congr {r : Rendering} (h : ∀ name ∈ r.asked find?, find?' name = find? name) :
    r.run find?' = r.run find? := by
  induction r with
  | done text => rfl
  | failed trouble => rfl
  | ask name answer ih =>
    rw [asked, List.forall_mem_cons] at h
    rw [run, run, h.1]
    cases hfound : find? name with
    | error e => rfl
    | ok found =>
      rw [hfound] at h
      exact ih found h.2

theorem run_andThen (r : Rendering) (next : String → Rendering) :
    (r.andThen next).run find? = (r.run find?).bind fun text => (next text).run find? := by
  induction r with
  | done text => rfl
  | failed trouble => rfl
  | ask name answer ih =>
    rw [andThen, run, run]
    cases find? name with
    | error e => rfl
    | ok found => exact ih found

theorem of_run_error {P : Failure → Prop} {r : Rendering} {e : Failure}
    (h : r.run find? = .error e) (htrouble : ∀ trouble : Trouble, P trouble.failure)
    (hfind : ∀ name e, find? name = .error e → P e) : P e := by
  induction r with
  | done text => cases h
  | failed trouble =>
    cases h
    exact htrouble trouble
  | ask name answer ih =>
    rw [run] at h
    split at h
    · exact ih _ h
    · next failure hfailure =>
      cases h
      exact hfind name _ hfailure

end Rendering

namespace Theme

variable {t : Theme} {d d' : Disk} {name : String}

def candidates (t : Theme) (name : String) : List Path :=
  (Template.piecesOf? name).elim [] fun pieces => t.directories.map (·.below pieces)

theorem file?_eq (t : Theme) (d : Disk) (name : String) :
    t.file? d name = (t.candidates name).find? d.isFile := by
  rw [file?, candidates]
  cases Template.piecesOf? name <;> rfl

theorem candidates_standard (name : String) : (ofPaths none none).candidates name = [] := by
  rw [candidates]
  cases Template.piecesOf? name <;> rfl

/-- Which template is found depends on which of its paths are files, and on what the file holds that
is found. -/
theorem find?_congr (hfile : ∀ p ∈ t.candidates name, d'.isFile p = d.isFile p)
    (hread : ∀ p, t.file? d name = some p → d'.read p = d.read p) :
    t.find? d' name = t.find? d name := by
  have hsame : t.file? d' name = t.file? d name := by
    rw [file?_eq, file?_eq]
    exact List.find?_congr hfile
  rw [find?, find?, hsame]
  cases hfound : t.file? d name with
  | none => rfl
  | some p =>
    dsimp only
    rw [hread p hfound]

end Theme

end Page

namespace Asset

theorem reads_ignoreRules [Text.Codecs] (root : Path) : (ignoreRules root).Reads := by
  refine (Run.reads_isFile _).bind fun isFile => ?_
  split
  · exact (Run.reads_readText _ _).bind fun text =>
      (Run.reads_ofExcept _ _).bind fun rules => Run.reads_pure _
  · exact Run.reads_pure _

theorem reads_files (directory : Path) (excluded : List String) (ignore : Option Ignore) :
    (files directory excluded ignore).Reads := by
  refine (Run.reads_isDirectory _).bind fun isDirectory => ?_
  split
  · exact Run.reads_disk.bind fun d => Run.reads_ofExcept _ _
  · exact Run.reads_pure _

variable {root out source target : Path} {excluded : List String} {ignore : Option Ignore}
  {copies : List Path} {w w' : World}

theorem copyAll_spec {files : List (List String)}
    (h : (copyAll source target files).start w = (.ok copies, w')) :
    copies = files.map target.below ∧ w.disk.Changes copies w'.disk := by
  induction files generalizing copies w with
  | nil =>
    obtain ⟨rfl, rfl⟩ := Run.of_start_pure h
    exact ⟨rfl, .refl _⟩
  | cons names files ih =>
    obtain ⟨_, v, hcopy, h⟩ := Run.of_start_bind h
    obtain ⟨rest, _, hrest, h⟩ := Run.of_start_bind h
    obtain ⟨rfl, rfl⟩ := Run.of_start_pure h
    obtain ⟨rfl, hchanges⟩ := ih hrest
    exact ⟨rfl, (Run.of_start_copy hcopy).trans hchanges⟩

theorem changes_copyIncluded {included : String}
    (h : (copyIncluded root out excluded ignore included).start w = (.ok copies, w')) :
    w.disk.Changes copies w'.disk := by
  obtain ⟨isFile, v, hfile, h⟩ := Run.of_start_bind h
  rw [← (Run.reads_isFile _).disk_eq hfile]
  split at h
  · split at h
    · obtain ⟨rfl, rfl⟩ := Run.of_start_pure h
      exact .refl _
    · obtain ⟨_, _, hcopy, h⟩ := Run.of_start_bind h
      obtain ⟨rfl, rfl⟩ := Run.of_start_pure h
      exact Run.of_start_copy hcopy
  · obtain ⟨isDirectory, u, hdirectory, h⟩ := Run.of_start_bind h
    rw [← (Run.reads_isDirectory _).disk_eq hdirectory]
    split at h
    · obtain ⟨files, _, hfiles, h⟩ := Run.of_start_bind h
      rw [← (reads_files _ _ _).disk_eq hfiles]
      exact (copyAll_spec h).2
    · obtain ⟨_, _, hremark, h⟩ := Run.of_start_bind h
      rw [← (Run.reads_remark _).disk_eq hremark]
      obtain ⟨rfl, rfl⟩ := Run.of_start_pure h
      exact .refl _

theorem changes_copyAllIncluded {included : List String}
    (h : (copyAllIncluded root out excluded ignore included).start w = (.ok copies, w')) :
    w.disk.Changes copies w'.disk := by
  induction included generalizing copies w with
  | nil =>
    obtain ⟨rfl, rfl⟩ := Run.of_start_pure h
    exact .refl _
  | cons first included ih =>
    obtain ⟨copied, v, hcopied, h⟩ := Run.of_start_bind h
    obtain ⟨rest, _, hrest, h⟩ := Run.of_start_bind h
    obtain ⟨rfl, rfl⟩ := Run.of_start_pure h
    exact (changes_copyIncluded hcopied).trans (ih hrest)

theorem holds_copyAll (L : Run.Logic) {target' : Path} {files : List (List String)}
    (hcopy : ∀ names ∈ files, ∀ u, L.Along u (Run.copy (source.below names) (target.below names))
      (Run.copy (source.below names) (target'.below names))) :
    L.Along w (copyAll source target files) (copyAll source target' files) := by
  induction files generalizing w with
  | nil => exact L.pure w trivial
  | cons names files ih =>
    obtain ⟨hfirst, hrest⟩ := List.forall_mem_cons.mp hcopy
    exact L.bind (hfirst w) fun _ _ _ _ _ => L.bind (ih hrest) fun _ _ u _ _ => L.pure u trivial

theorem holds_copyAllIncluded (L : Run.Logic) {out' : Path} {included : List String}
    (hcopy : ∀ text ∈ included, ∀ u, L.Along u (copyIncluded root out excluded ignore text)
      (copyIncluded root out' excluded ignore text)) :
    L.Along w (copyAllIncluded root out excluded ignore included)
      (copyAllIncluded root out' excluded ignore included) := by
  induction included generalizing w with
  | nil => exact L.pure w trivial
  | cons first included ih =>
    obtain ⟨hfirst, hrest⟩ := List.forall_mem_cons.mp hcopy
    exact L.bind (hfirst w) fun _ _ _ _ _ => L.bind (ih hrest) fun _ _ u _ _ => L.pure u trivial

theorem changes_copyStatic [Text.Codecs] {files : StaticFiles}
    (h : (copyStatic root out files).start w = (.ok copies, w')) :
    w.disk.Changes copies w'.disk := by
  obtain ⟨ignore, v, hignore, h⟩ := Run.of_start_bind h
  rw [← (reads_ignoreRules root).disk_eq hignore]
  exact changes_copyAllIncluded h

theorem changes_copyTheme (h : (copyTheme source out).start w = (.ok copies, w')) :
    w.disk.Changes copies w'.disk := by
  obtain ⟨names, v, hnames, h⟩ := Run.of_start_bind h
  rw [← (reads_files _ _ _).disk_eq hnames]
  exact (copyAll_spec h).2

end Asset

namespace Site

variable [Host] {s : Site} {root out : Path} {t : Page.Theme} {nav encoding : String}
  {raw : List Doclet} {paths : List Path} {w w' : World}

theorem changes_writeStatic {files : StaticFiles}
    (h : (writeStatic root out t files).start w = (.ok paths, w')) :
    w.disk.Changes paths w'.disk := by
  have hrest : ∀ {ofTheme : List Path} {v : World}, w.disk.Changes ofTheme v.disk →
      (do return ofTheme ++ (← Asset.copyStatic root out files) : Run (List Path)).start v =
        (.ok paths, w') → w.disk.Changes paths w'.disk := by
    intro ofTheme v hchanges h
    obtain ⟨copies, _, hcopies, h⟩ := Run.of_start_bind h
    obtain ⟨rfl, rfl⟩ := Run.of_start_pure h
    exact hchanges.trans (Asset.changes_copyStatic hcopies)
  rw [writeStatic] at h
  split at h
  · obtain ⟨ofTheme, v, htheme, h⟩ := Run.of_start_bind h
    exact hrest (Asset.changes_copyTheme htheme) h
  · obtain ⟨_, v, hwrite, h⟩ := Run.of_start_bind h
    exact hrest (Run.of_start_write hwrite).1 h

omit [Host] in
theorem of_jsonText {x : Except Misfit Json} {text : String}
    (h : (jsonText x).start w = (.ok text, w')) : ∃ y, x = .ok y ∧ y.print = .ok text ∧ w = w' := by
  obtain ⟨hprint, rfl⟩ := Run.of_start_ofExcept h
  obtain ⟨y, hy, hprint⟩ := of_bind_ok hprint
  exact ⟨y, hy, hprint, rfl⟩

def Holds (s : Site) (raw : List Doclet) (out : Path) (d : Disk) (snapshot : Snapshot) : Prop :=
  ∃ x text, s.snapshot raw snapshot = .ok x ∧ x.print = .ok text ∧
    d.read (snapshot.path out) = .ok (Text.Utf8.encode text.toList)

theorem Holds.kept {d d' : Disk} {snapshot : Snapshot} {written : List Path}
    (h : s.Holds raw out d snapshot) (hchanges : d.Changes written d')
    (hother : ∀ p ∈ written, d'.isSame p (snapshot.path out) = false) :
    s.Holds raw out d' snapshot := by
  obtain ⟨x, text, hx, htext, hread⟩ := h
  exact ⟨x, text, hx, htext, hchanges.read hread hother⟩

/-- A snapshot stands in its file once it was written, unless one that was written later went to the
same file. -/
theorem writeSnapshots_spec {snapshots : List Snapshot}
    (h : (writeSnapshots s raw out snapshots).start w = (.ok paths, w')) :
    paths = snapshots.map (Snapshot.path out) ∧ w.disk.Changes paths w'.disk ∧
      (∀ x ∈ snapshots, ∃ y text, s.snapshot raw x = .ok y ∧ y.print = .ok text) ∧
      ∀ {before after snapshot}, snapshots = before ++ snapshot :: after →
        (∀ later ∈ after, w'.disk.isSame (later.path out) (snapshot.path out) = false) →
        s.Holds raw out w'.disk snapshot := by
  induction snapshots generalizing paths w with
  | nil =>
    obtain ⟨rfl, rfl⟩ := Run.of_start_pure h
    refine ⟨rfl, .refl _, List.forall_mem_nil _, fun heq _ => ?_⟩
    simp at heq
  | cons first snapshots ih =>
    obtain ⟨_, u, hmade, h⟩ := Run.of_start_bind h
    obtain ⟨hmade, -⟩ := Run.of_start_makeDirectories hmade
    replace h := Run.of_start_bind h
    obtain ⟨text, _, htext, h⟩ := h
    obtain ⟨x, hx, hprint, rfl⟩ := of_jsonText htext
    obtain ⟨_, v, hwrite, h⟩ := Run.of_start_bind h
    obtain ⟨hwrite, hread, -⟩ := Run.of_start_write hwrite
    obtain ⟨rest, _, hrest, h⟩ := Run.of_start_bind h
    obtain ⟨rfl, rfl⟩ := Run.of_start_pure h
    obtain ⟨rfl, hothers, htexts, hholds⟩ := ih hrest
    refine ⟨rfl, (hmade.trans hwrite).trans hothers,
      List.forall_mem_cons.mpr ⟨⟨x, text, hx, hprint⟩, htexts⟩, ?_⟩
    intro before after snapshot heq hapart
    cases before with
    | nil =>
      obtain ⟨rfl, rfl⟩ := List.cons.inj heq
      have hheld : s.Holds raw out v.disk first := ⟨x, text, hx, hprint, hread⟩
      refine hheld.kept hothers fun p hp => ?_
      obtain ⟨later, hlater, rfl⟩ := List.mem_map.mp hp
      exact hapart later hlater
    | cons _ before => exact hholds (List.cons.inj heq).2 hapart

section Rules

variable (L : Run.Logic) {out' : Path}

theorem holds_writeSnapshots {snapshots : List Snapshot}
    (hmake : ∀ u, L.Along u (Run.makeDirectories (out.child Snapshot.directory))
      (Run.makeDirectories (out'.child Snapshot.directory)))
    (htext : ∀ x ∈ snapshots, ∀ u, L.Alike u (jsonText (s.snapshot raw x))
      (jsonText (s.snapshot raw x)))
    (hwrite : ∀ x ∈ snapshots, ∀ u bytes, L.Along u (Run.write (Snapshot.path out x) bytes)
      (Run.write (Snapshot.path out' x) bytes)) :
    L.Along w (writeSnapshots s raw out snapshots) (writeSnapshots s raw out' snapshots) := by
  induction snapshots generalizing w with
  | nil => exact L.pure w trivial
  | cons x snapshots ih =>
    rw [List.forall_mem_cons] at htext hwrite
    refine L.bind (hmake w) fun _ _ u _ _ => L.bind (htext.1 u) fun text _ u _ heq => ?_
    subst heq
    exact L.bind (hwrite.1 u _) fun _ _ _ _ _ => L.bind (ih htext.2 hwrite.2)
      fun _ _ u _ _ => L.pure u trivial

theorem holds_writeSheets {sheets : List Page.Sheet}
    (hdraw : ∀ before sheet after written u, sheets = before ++ sheet :: after →
      (writeSheets s t nav out before).start w = (.ok written, u) →
      L.Alike u (sheet.draw t nav) (sheet.draw t nav))
    (hwrite : ∀ sheet ∈ sheets, ∀ u bytes, L.Along u (Run.write (out.child sheet.file) bytes)
      (Run.write (out'.child sheet.file) bytes)) :
    L.Along w (writeSheets s t nav out sheets) (writeSheets s t nav out' sheets) := by
  induction sheets generalizing w with
  | nil => exact L.pure w trivial
  | cons sheet sheets ih =>
    rw [List.forall_mem_cons] at hwrite
    refine L.bind (hdraw [] sheet sheets [] w rfl rfl) fun markup _ u hmarkup heq => ?_
    subst heq
    refine L.bind (hwrite.1 u _) fun _ _ v hwritten _ => L.bind (ih ?_ hwrite.2)
      fun _ _ u _ _ => L.pure u trivial
    intro before other after written u' heq hbefore
    refine hdraw (sheet :: before) other after (out.child sheet.file :: written) u' ?_ ?_
    · rw [heq, List.cons_append]
    · rw [writeSheets, Run.start_bind_ok hmarkup]
      dsimp only
      rw [Run.start_bind_ok hwritten, Run.start_bind_ok hbefore]
      rfl

theorem holds_writeListings {files : Source.Catalog}
    (hread : ∀ f ∈ files, ∀ u, L.Alike u (readSource root encoding f) (readSource root encoding f))
    (hdraw : ∀ before f after url code written u v, files = before ++ f :: after →
      s.registry.resolve? f.title = some url →
      (writeListings s root out t nav encoding before).start w = (.ok written, u) →
      (readSource root encoding f).start u = (.ok (some code), v) →
      L.Alike v ((s.sourceSheet f url code).draw t nav) ((s.sourceSheet f url code).draw t nav))
    (hwrite : ∀ f ∈ files, ∀ url, s.registry.resolve? f.title = some url → ∀ u bytes,
      L.Along u (Run.write (out.child (pageOfUrl url)) bytes)
        (Run.write (out'.child (pageOfUrl url)) bytes)) :
    L.Along w (writeListings s root out t nav encoding files)
      (writeListings s root out' t nav encoding files) := by
  induction files generalizing w with
  | nil => exact L.pure w trivial
  | cons f files ih =>
    rw [List.forall_mem_cons] at hread hwrite
    -- What was written up to some world before the other files goes on to be written from there.
    have hrest : ∀ {v} (more : List Path × Nat → List Path × Nat), (∀ before written u,
        (writeListings s root out t nav encoding before).start v = (.ok written, u) →
        (writeListings s root out t nav encoding (f :: before)).start w =
          (.ok (more written), u)) →
        L.Along v (writeListings s root out t nav encoding files)
          (writeListings s root out' t nav encoding files) := by
      intro v more hmore
      refine ih hread.2 (fun before g after url code written u u' heq hurl hbefore => ?_) hwrite.2
      refine hdraw (f :: before) g after url code _ u u' ?_ hurl (hmore _ _ _ hbefore)
      rw [heq, List.cons_append]
    rw [writeListings, writeListings]
    cases hurl : s.registry.resolve? f.title with
    | none =>
      refine hrest id fun before written u hbefore => ?_
      rw [writeListings, hurl]
      exact hbefore
    | some url =>
      refine L.bind (hread.1 w) fun code _ u hcode heq => ?_
      subst heq
      cases code with
      | none =>
        refine L.bind (hrest (fun written => (written.1, written.2 + 1))
          fun before written v hbefore => ?_) fun _ _ v _ _ => L.pure v trivial
        rw [writeListings, hurl]
        dsimp only
        rw [Run.start_bind_ok hcode]
        dsimp only
        rw [Run.start_bind_ok hbefore]
        rfl
      | some code =>
        refine L.bind (hdraw [] f files url code ([], 0) w u rfl hurl rfl hcode)
          fun markup _ v hmarkup heq => ?_
        subst heq
        refine L.bind (hwrite.1 url hurl v _) fun _ _ v' hwritten _ => L.bind
          (hrest (fun written => (out.child (pageOfUrl url) :: written.1, written.2))
            fun before written u' hbefore => ?_) fun _ _ v _ _ => L.pure v trivial
        rw [writeListings, hurl]
        dsimp only
        rw [Run.start_bind_ok hcode]
        dsimp only
        rw [Run.start_bind_ok hmarkup]
        rw [Run.start_bind_ok hwritten, Run.start_bind_ok hbefore]
        rfl

end Rules

theorem changes_writeSources {skipped : Nat}
    (h : (writeSources s root out t nav encoding).start w = (.ok (paths, skipped), w')) :
    w.disk.Changes (paths ++ [out.below [Page.styleDirectory, Page.listingStyleName]]) w'.disk ∧
      ∀ p ∈ paths, ∃ file, p = out.child file := by
  obtain ⟨result, v, hlistings, h⟩ := Run.of_start_bind h
  obtain ⟨_, _, hstyle, h⟩ := Run.of_start_bind h
  obtain ⟨rfl, rfl⟩ := Run.of_start_pure h
  obtain ⟨⟨shown, -, rfl⟩, hchanges⟩ := writeListings_spec hlistings
  refine ⟨hchanges.trans (Run.of_start_write hstyle).1, fun p hp => ?_⟩
  obtain ⟨file, -, rfl⟩ := List.mem_map.mp hp
  exact ⟨file, rfl⟩

def themeOf (root : Path) (settings : Settings) : Page.Theme :=
  .ofPaths (Settings.pathBelow root settings.template)
    (Settings.pathBelow root settings.pages.layoutFile)

/-- A run that writes a site writes the snapshots first; whatever it writes later stands in the
directory itself, is a static file, or is the style sheet of the listings. -/
theorem of_write {settings : Settings} {summary : Summary}
    (h : (s.write raw settings root out).start w = (.ok summary, w')) :
    ∃ snapshots later v, (writeSnapshots s raw out Snapshot.all).start w = (.ok snapshots, v) ∧
      v.disk.Changes later w'.disk ∧ w'.disk.isDirectory out = true ∧
      summary.written out = snapshots ++ later ∧
      ∀ p ∈ later, (∃ file, p = out.child file) ∨ p ∈ summary.staticFiles ∨
        p = out.below [Page.styleDirectory, Page.listingStyleName] := by
  obtain ⟨snapshots, v, hsnapshots, h⟩ := Run.of_start_bind h
  obtain ⟨pages, v₁, hpages, h⟩ := Run.of_start_bind h
  obtain ⟨_, v₂, hpagesRemark, h⟩ := Run.of_start_bind h
  obtain ⟨_, v₃, hpagesCount, h⟩ := Run.of_start_bind h
  obtain ⟨tutorials, v₄, htutorials, h⟩ := Run.of_start_bind h
  obtain ⟨_, v₅, htutorialsCount, h⟩ := Run.of_start_bind h
  obtain ⟨statics, v₆, hstatics, h⟩ := Run.of_start_bind h
  obtain ⟨_, v₇, hstaticsCount, h⟩ := Run.of_start_bind h
  cases hpagesRemark
  cases hpagesCount
  cases htutorialsCount
  cases hstaticsCount
  obtain ⟨hpageFiles, hpagesChange, hout⟩ := writeSheets_spec hpages
  obtain ⟨htutorialFiles, htutorialsChange, -⟩ := writeSheets_spec htutorials
  have hstaticsChange := changes_writeStatic hstatics
  have hchanges := (hpagesChange.trans htutorialsChange).trans hstaticsChange
  have hdirectory : v₆.disk.isDirectory out = true :=
    (htutorialsChange.trans hstaticsChange).grows.isDirectory (hout (by simp [symbolSheets]))
  have hlength : snapshots.length = Snapshot.all.length := by
    rw [(writeSnapshots_spec hsnapshots).1, List.length_map]
  have hplaced : ∀ p ∈ pages ++ tutorials ++ statics,
      (∃ file, p = out.child file) ∨ p ∈ statics := by
    intro p hp
    rw [hpageFiles, htutorialFiles, ← List.map_append] at hp
    refine (List.mem_append.mp hp).imp_left fun hp => ?_
    obtain ⟨file, -, rfl⟩ := List.mem_map.mp hp
    exact ⟨file, rfl⟩
  split at h
  · obtain ⟨⟨listings, skipped⟩, v₈, hlistings, h⟩ := Run.of_start_bind h
    obtain ⟨_, v₉, hlistingsCount, h⟩ := Run.of_start_bind h
    cases hlistingsCount
    obtain ⟨rfl, rfl⟩ := Run.of_start_pure h
    obtain ⟨hlistingsChange, hlisted⟩ := changes_writeSources hlistings
    refine ⟨snapshots, pages ++ tutorials ++ statics ++
      (listings ++ [out.below [Page.styleDirectory, Page.listingStyleName]]), v, hsnapshots,
      hchanges.trans hlistingsChange, hlistingsChange.grows.isDirectory hdirectory, ?_, ?_⟩
    · simp [Summary.written]
    · intro p hp
      rw [Summary.staticFiles_eq hlength rfl rfl rfl rfl]
      obtain hp | hp := List.mem_append.mp hp
      · exact (hplaced p hp).imp_right .inl
      · obtain hp | hp := List.mem_append.mp hp
        · exact .inl (hlisted p hp)
        · exact .inr (.inr (List.mem_singleton.mp hp))
  · obtain ⟨rfl, rfl⟩ := Run.of_start_pure h
    refine ⟨snapshots, pages ++ tutorials ++ statics, v, hsnapshots, hchanges, hdirectory, ?_, ?_⟩
    · simp [Summary.written]
    · intro p hp
      rw [Summary.staticFiles_eq hlength rfl rfl rfl (List.append_nil _).symm]
      exact (hplaced p hp).imp_right .inl

theorem grows_of_write {settings : Settings} {summary : Summary}
    (h : (s.write raw settings root out).start w = (.ok summary, w')) :
    w.disk.Grows w'.disk := by
  obtain ⟨snapshots, later, v, hsnapshots, hchanges, -⟩ := of_write h
  exact (writeSnapshots_spec hsnapshots).2.1.grows.trans hchanges.grows

/-- A snapshot of a site that was written stands in its file in the end, unless a static file came
over it, or another path that was written leads to the same file. -/
theorem Holds.written {settings : Settings} {summary : Summary} {snapshot : Snapshot}
    (h : (s.write raw settings root out).start w = (.ok summary, w'))
    (hstatic : snapshot.path out ∉ summary.staticFiles)
    (hapart : ∀ p ∈ summary.written out, p ≠ snapshot.path out →
      w'.disk.isSame p (snapshot.path out) = false) : s.Holds raw out w'.disk snapshot := by
  obtain ⟨snapshots, later, v, hsnapshots, hchanges, -, hwritten, hlater⟩ := of_write h
  obtain ⟨rfl, -, -, hholds⟩ := writeSnapshots_spec hsnapshots
  rw [hwritten] at hapart
  have hname : ∀ p ∈ later, p ≠ snapshot.path out := by
    rintro p hp rfl
    obtain ⟨file, hfile⟩ | hmem | hstyle := hlater _ hp
    · have := congrArg (fun p => p.names.length) hfile
      simp [Snapshot.path, Path.child] at this
    · exact hstatic hmem
    · have hnames := congrArg Path.names hstyle
      simp only [Snapshot.path, Path.child, Path.below, List.append_assoc] at hnames
      exact absurd (List.head_eq_of_cons_eq (List.append_cancel_left hnames)) (by decide)
  have hmem : ∀ snapshot, snapshot ∈ Snapshot.all := fun snapshot => by cases snapshot <;> decide
  obtain ⟨before, after, hall⟩ := List.append_of_mem (hmem snapshot)
  have hheld : s.Holds raw out v.disk snapshot := by
    refine hholds hall fun other hother => ?_
    have hne : other ≠ snapshot := by
      have hnodup : (before ++ snapshot :: after).Nodup := hall ▸ (by decide)
      have hafter := (List.nodup_cons.mp (List.nodup_append.mp hnodup).2.1).1
      exact fun heq => hafter (heq ▸ hother)
    have hlast := hapart _ (List.mem_append_left _ (List.mem_map_of_mem (hmem other)))
      fun heq => hne (Snapshot.path_injective out heq)
    exact Bool.eq_false_iff.mpr fun hsame =>
      Bool.false_ne_true (hlast.symm.trans (hchanges.grows.isSame hsame))
  exact hheld.kept hchanges fun p hp => hapart p (List.mem_append_right _ hp) (hname p hp)

end Site

end Refsite
