import Refsite.Proofs.Disk.Blind
import Refsite.Proofs.Site.Loading
import Refsite.Proofs.Site.Writing
namespace Refsite

open Run

/-- No file is hidden that is read as a template where a page is drawn on a world. -/
def Page.Sheet.Shown [Page.Engine] (hidden : Place → Bool) (t : Page.Theme) (nav : String)
    (w : World) (s : Page.Sheet) : Prop :=
  ∀ name ∈ (s.rendering w.chance t.layoutName nav).asked (t.find? w.disk),
    ∀ file ∈ t.file? w.disk name, w.disk.Shows hidden file

theorem Page.Sheet.blind_draw [Page.Engine] {hidden : Place → Bool} {goal : Disk} {t : Page.Theme}
    {nav : String} {w : World} {s : Page.Sheet} (h : s.Shown hidden t nav w) :
    (s.draw t nav).Blind hidden goal w := by
  constructor
  · intro markup v hdraw
    rw [start_draw] at hdraw
    obtain rfl := congrArg Prod.snd hdraw
    exact .refl _
  · intro w' markup v hdraw _ _ htwins
    rw [start_draw, Prod.mk.injEq] at hdraw
    obtain ⟨hrun, rfl⟩ := hdraw
    refine ⟨w', ?_, htwins⟩
    rw [start_draw, ← htwins.chance, Rendering.run_congr fun name hname => ?_, hrun]
    exact Theme.find?_congr (fun p _ => htwins.disk.alike.isFile p)
      fun file hfile => htwins.disk.read (h name hname file hfile)

namespace Asset

variable {hidden : Place → Bool} {goal d d' : Disk} {root out source target : Path}
  {excluded : List String} {ignore : Option Ignore} {copies : List Path} {w w' v : World}

theorem blind_ignoreRules [Text.Codecs] (hrules : goal.Shows hidden (root.child ignoreName)) :
    (ignoreRules root).Blind hidden goal w := by
  refine (blind_isFile _).bind fun isFile _ _ => ?_
  split
  · exact (blind_readText _ hrules).bind fun text _ _ =>
      (blind_ofExcept _ _).bind fun rules _ _ => blind_pure _
  · exact blind_pure _

theorem keep_congr (h : d.Alike d') (directory : Path) {es es' : List (List String × DiskEntry)}
    (hes : es'.map (fun e => (e.1, e.2.isFile)) = es.map fun e => (e.1, e.2.isFile)) :
    keep d' directory excluded ignore es' = keep d directory excluded ignore es := by
  induction es generalizing es' with
  | nil =>
    rw [List.map_eq_nil_iff.mp hes]
    rfl
  | cons e es ih =>
    cases es' with
    | nil => cases hes
    | cons e' es' =>
      obtain ⟨names, entry⟩ := e
      obtain ⟨names', entry'⟩ := e'
      rw [List.map_cons, List.map_cons, List.cons.injEq] at hes
      obtain ⟨hfirst, hrest⟩ := hes
      obtain ⟨rfl, hfile⟩ := Prod.mk.inj hfirst
      dsimp only at hfile
      rw [keep, keep, hfile, isWithin, isWithin, h.resolve, h.resolve, ih hrest]

theorem blind_files (directory : Path) (excluded : List String) (ignore : Option Ignore) :
    (files directory excluded ignore).Blind hidden goal w := by
  refine (blind_isDirectory _).bind fun isDirectory _ _ => ?_
  split
  · refine blind_ask _ fun d' _ htwins => ?_
    rw [scan, scan, keep_congr htwins.alike directory (htwins.scan directory)]
  · exact blind_pure _

theorem blind_copyAll (target : Path) {files : List (List String)}
    (hfiles : ∀ names ∈ files, goal.Shows hidden (source.below names)) :
    (copyAll source target files).Blind hidden goal w :=
  (holds_copyAll (blinding hidden goal).logic fun names hnames _ =>
    Invariant.along (blind_copy _ (hfiles names hnames))).1

def OriginalsShown (hidden : Place → Bool) (goal : Disk) (out source : Path)
    (copies : List Path) : Prop :=
  ∀ names, out.below names ∈ copies → goal.Shows hidden (source.below names)

/-- What is copied from a path, as a file or from below it, is not copied from a hidden file. -/
structure SourceShown (hidden : Place → Bool) (goal : Disk) (out source : Path)
    (copies : List Path) : Prop where
  file : out.child source.name ∈ copies → goal.Shows hidden source
  below : OriginalsShown hidden goal out source copies

theorem SourceShown.mono {some all : List Path} (h : SourceShown hidden goal out source all)
    (hsubset : some ⊆ all) : SourceShown hidden goal out source some :=
  ⟨fun hfile => h.file (hsubset hfile), fun names hnames => h.below names (hsubset hnames)⟩

theorem blindFor_copyAll (source out : Path) (files : List (List String)) :
    (copyAll source out files).BlindFor hidden goal w (OriginalsShown hidden goal out source) := by
  refine ⟨fun h => (copyAll_spec h).2.grows, fun h hcopies => ?_⟩
  refine (blind_copyAll out fun names hnames => hcopies names ?_).follows h trivial
  rw [(copyAll_spec h).1]
  exact List.mem_map_of_mem hnames

theorem blindFor_copyTheme (directory out : Path) :
    (copyTheme directory out).BlindFor hidden goal w (OriginalsShown hidden goal out directory) :=
  (blind_files _ _ _).bind fun files _ _ => blindFor_copyAll directory out files

theorem blindFor_copyIncluded (root out : Path) (excluded : List String) (ignore : Option Ignore)
    (included : String) : (copyIncluded root out excluded ignore included).BlindFor hidden goal w
      (SourceShown hidden goal out (root.join included)) := by
  refine (blind_isFile _).bind fun isFile _ _ => ?_
  split
  · split
    · exact (blind_pure _).weaken
    · refine (blindFor_copy _ _).bind (fun _ _ _ => (blind_pure _).weaken) fun h hcopies => ?_
      obtain ⟨rfl, -⟩ := of_start_pure h
      exact hcopies.file (List.mem_singleton_self _)
  · refine (blind_isDirectory _).bind fun isDirectory _ _ => ?_
    split
    · refine (blind_files _ _ _).bind fun files _ _ => ?_
      exact (blindFor_copyAll _ _ _).mono fun copies hcopies => hcopies.below
    · exact (blind_remark _).bind fun _ _ _ => (blind_pure _).weaken

theorem blindFor_copyAllIncluded (root out : Path) (excluded : List String)
    (ignore : Option Ignore) (included : List String) :
    (copyAllIncluded root out excluded ignore included).BlindFor hidden goal w fun copies =>
      ∀ text ∈ included, SourceShown hidden goal out (root.join text) copies := by
  induction included generalizing w with
  | nil => exact (blind_pure _).weaken
  | cons first included ih =>
    refine (blindFor_copyIncluded root out excluded ignore first).bind (fun copied _ _ => ?_) ?_
    · refine ih.bind (fun rest _ _ => (blind_pure _).weaken) fun h hcopies text htext => ?_
      obtain ⟨rfl, -⟩ := of_start_pure h
      exact (hcopies text (List.mem_cons_of_mem _ htext)).mono (List.subset_append_right _ _)
    · intro copied w copies v h hcopies
      obtain ⟨rest, _, -, h⟩ := of_start_bind h
      obtain ⟨rfl, -⟩ := of_start_pure h
      exact (hcopies first List.mem_cons_self).mono (List.subset_append_left _ _)

end Asset

namespace Site

variable [Host] {hidden : Place → Bool} {goal : Disk} {s : Site} {root out : Path} {t : Page.Theme}
  {nav encoding : String} {raw : List Doclet} {w w' v : World}

/-- No static file is copied from a hidden one. -/
structure StaticsShown (hidden : Place → Bool) (goal : Disk) (root out : Path) (t : Page.Theme)
    (files : StaticFiles) (statics : List Path) : Prop where
  theme : ∀ directory ∈ t.base,
    Asset.OriginalsShown hidden goal out (directory.child "static") statics
  included : ∀ text ∈ files.included, Asset.SourceShown hidden goal out (root.join text) statics

omit [Host] in
theorem blind_jsonText (x : Except Misfit Json) : (jsonText x).Blind hidden goal w :=
  blind_ofExcept _ _

theorem blind_writeSnapshots (snapshots : List Snapshot) :
    (writeSnapshots s raw out snapshots).Blind hidden goal w :=
  (holds_writeSnapshots (blinding hidden goal).logic
    (fun _ => Invariant.along (blind_makeDirectories _))
    (fun _ _ _ => Invariant.alike (blind_jsonText _))
    fun _ _ _ _ => Invariant.along (Run.blind_write _ _)).1

theorem blind_writeSheets {sheets : List Page.Sheet}
    (hshown : ∀ before sheet after written u, sheets = before ++ sheet :: after →
      (writeSheets s t nav out before).start w = (.ok written, u) → sheet.Shown hidden t nav u) :
    (writeSheets s t nav out sheets).Blind hidden goal w :=
  (holds_writeSheets (blinding hidden goal).logic
    (fun before sheet after written u heq hbefore =>
      Invariant.alike (Page.Sheet.blind_draw (hshown before sheet after written u heq hbefore)))
    fun _ _ _ _ => Invariant.along (Run.blind_write _ _)).1

theorem blindFor_copyStatic (hrules : goal.Shows hidden (root.child Asset.ignoreName))
    (files : StaticFiles) : (Asset.copyStatic root out files).BlindFor hidden goal w fun copies =>
      ∀ text ∈ files.included, Asset.SourceShown hidden goal out (root.join text) copies :=
  (Asset.blind_ignoreRules hrules).bind fun ignore _ _ =>
    Asset.blindFor_copyAllIncluded root out files.excluded ignore files.included

theorem blindFor_writeStatic (hrules : goal.Shows hidden (root.child Asset.ignoreName))
    (files : StaticFiles) : (writeStatic root out t files).BlindFor hidden goal w
      (StaticsShown hidden goal root out t files) := by
  have hrest : ∀ (ofTheme : List Path) (v : World), (do
      return ofTheme ++ (← Asset.copyStatic root out files) : Run (List Path)).BlindFor hidden goal
        v (StaticsShown hidden goal root out t files) := by
    intro ofTheme v
    refine (blindFor_copyStatic hrules files).bind (fun _ _ _ => (blind_pure _).weaken) ?_
    intro copies w statics v h hstatics text htext
    obtain ⟨rfl, -⟩ := of_start_pure h
    exact (hstatics.included text htext).mono (List.subset_append_right _ _)
  rw [writeStatic]
  dsimp only
  cases hbase : t.base with
  | some directory =>
    refine (Asset.blindFor_copyTheme (directory.child "static") out).bind
      (fun ofTheme u _ => hrest ofTheme u) ?_
    intro ofTheme w statics v h hstatics names hnames
    obtain ⟨copies, _, -, h⟩ := of_start_bind h
    obtain ⟨rfl, -⟩ := of_start_pure h
    exact hstatics.theme directory hbase names (List.mem_append_left _ hnames)
  | none =>
    exact (Run.blind_write _ _).bind fun _ _ _ => (blind_pure _).bind fun ofTheme u _ =>
      hrest ofTheme u

theorem blind_readSource {f : Source.File} (hf : goal.Shows hidden (root.join f.path)) :
    (readSource root encoding f).Blind hidden goal w := by
  have hunreadable : ∀ r : Remark, (do
      Run.remark r
      return none : Run (Option String)).Blind hidden goal w :=
    fun r => (blind_remark r).bind fun _ _ _ => blind_pure _
  refine blind_disk (fun d => ?_) fun d' hgoal htwins => ?_
  · split
    · exact blind_pure _
    · split
      · exact blind_fail _
      · exact hunreadable _
    · exact hunreadable _
    · exact blind_fail _
  · -- The text is read on either disk with the same outcome.
    have hsame := (readText_fst (root.join f.path) encoding { disk := d' }).trans
      ((congrArg (textOf encoding) (htwins.read (hf.of_grows hgoal))).trans
        (readText_fst (root.join f.path) encoding { disk := w.disk }).symm)
    cases hread : (readText (root.join f.path) encoding).start { disk := w.disk } with
    | mk result u =>
      cases hread' : (readText (root.join f.path) encoding).start { disk := d' } with
      | mk result' u' =>
        rw [hread, hread'] at hsame
        obtain rfl : result' = result := hsame
        cases result' with
        | ok code => rfl
        | error e =>
          cases e with
          | decode fault => cases fault <;> rfl
          | _ => rfl

theorem blind_writeListings {files : Source.Catalog}
    (hfiles : ∀ f ∈ files, goal.Shows hidden (root.join f.path))
    (hshown : ∀ before f after url code written u v, files = before ++ f :: after →
      s.registry.resolve? f.title = some url →
      (writeListings s root out t nav encoding before).start w = (.ok written, u) →
      (readSource root encoding f).start u = (.ok (some code), v) →
      (s.sourceSheet f url code).Shown hidden t nav v) :
    (writeListings s root out t nav encoding files).Blind hidden goal w :=
  (holds_writeListings (blinding hidden goal).logic
    (fun f hf _ => Invariant.alike (blind_readSource (hfiles f hf)))
    (fun before f after url code written u v heq hurl hbefore hcode =>
      Invariant.alike (Page.Sheet.blind_draw
        (hshown before f after url code written u v heq hurl hbefore hcode)))
    fun _ _ _ _ _ _ => Invariant.along (Run.blind_write _ _)).1

theorem writeSnapshots_congr {raw' : List Doclet} {snapshots : List Snapshot}
    (h : Snapshot.docsRaw ∉ snapshots) :
    writeSnapshots s raw' out snapshots = writeSnapshots s raw out snapshots := by
  induction snapshots with
  | nil => rfl
  | cons snapshot snapshots ih =>
    rw [List.mem_cons, not_or] at h
    have hsnapshot : s.snapshot raw' snapshot = s.snapshot raw snapshot := by
      cases snapshot with
      | docsRaw => exact absurd rfl h.1
      | _ => rfl
    rw [writeSnapshots, writeSnapshots, hsnapshot, ih h.2]

theorem follows_writeSnapshots {raw' : List Doclet} {paths : List Path}
    (h : (writeSnapshots s raw out Snapshot.all).start w = (.ok paths, v))
    (hgoal : v.disk.Grows goal)
    (hhidden : ∀ place, goal.locate (Snapshot.path out .docsRaw) = .ok place → hidden place = true)
    (hprint : ∀ text, (Json.array (raw.map Json.object)).print = .ok text →
      ∃ text', (Json.array (raw'.map Json.object)).print = .ok text')
    (htwins : w.Twins hidden w') :
    ∃ v', (writeSnapshots s raw' out Snapshot.all).start w' = (.ok paths, v') ∧
      v.Twins hidden v' := by
  obtain ⟨_, w₁, hmade, h⟩ := of_start_bind h
  replace h := of_start_bind h
  obtain ⟨text, w₂, htext, h⟩ := h
  obtain ⟨x, hx, hprinted, rfl⟩ := of_jsonText htext
  cases hx
  obtain ⟨text', htext'⟩ := hprint text hprinted
  obtain ⟨_, w₃, hwrite, h⟩ := of_start_bind h
  -- The other snapshots are made of the site alone, so they are blind to the one just written.
  have hrest : (do
      return Snapshot.path out .docsRaw ::
        (← writeSnapshots s raw out [.docs, .members, .nav, .tree]) : Run _).Blind hidden goal
          w₃ :=
    (blind_writeSnapshots _).bind fun rest _ _ => blind_pure _
  have h₃ := (hrest.grows h).trans hgoal
  have h₂ := (Run.of_start_write hwrite).1.grows.trans h₃
  obtain ⟨w₁', hmade', htwins⟩ := (blind_makeDirectories _).follows hmade trivial h₂ htwins
  have htext' : (jsonText (s.snapshot raw' .docsRaw)).start w₁' = (.ok text', w₁') := by
    change (Run.ofExcept Failure.misfit (Json.array (raw'.map Json.object)).print).start w₁' = _
    rw [htext']
    rfl
  obtain ⟨w₃', hwrite', htwins⟩ :=
    follows_write hwrite h₃ hhidden htwins (Text.Utf8.encode text'.toList)
  obtain ⟨v', hrest', htwins⟩ := hrest.follows h trivial hgoal htwins
  refine ⟨v', ?_, htwins⟩
  rw [Snapshot.all, writeSnapshots, start_bind_ok hmade', start_bind_ok htext',
    writeSnapshots_congr (by decide)]
  exact (start_bind_ok hwrite').trans hrest'

/-- While a site is written, a page is drawn on a world: one of a symbol, of a tutorial or of a
source file. What was remarked until then does not matter. -/
inductive Draws (s : Site) (raw : List Doclet) (settings : Settings) (root out : Path)
    (w : World) : Page.Sheet → World → Prop
  | symbol {before after sheet snapshots written v u}
      (hsnapshots : (writeSnapshots s raw out Snapshot.all).start w = (.ok snapshots, v))
      (hsheets : s.symbolSheets = before ++ sheet :: after)
      (hbefore : (writeSheets s (themeOf root settings) (Nav.markup s.nav) out before).start v =
        (.ok written, u)) : Draws s raw settings root out w sheet u
  | tutorial {before after sheet snapshots pages written v₁ v₂ remarks u}
      (hsnapshots : (writeSnapshots s raw out Snapshot.all).start w = (.ok snapshots, v₁))
      (hpages : (writeSheets s (themeOf root settings) (Nav.markup s.nav) out s.symbolSheets).start
        v₁ = (.ok pages, v₂))
      (hsheets : s.tutorialSheets = before ++ sheet :: after)
      (hbefore : (writeSheets s (themeOf root settings) (Nav.markup s.nav) out before).start
        { v₂ with remarks := remarks } = (.ok written, u)) : Draws s raw settings root out w sheet u
  | listing {before after f url code snapshots pages tutorials statics written v₁ v₂ v₃ v₄ v u}
      {remarks₂ remarks₃ remarks₄ : List Remark}
      (hsnapshots : (writeSnapshots s raw out Snapshot.all).start w = (.ok snapshots, v₁))
      (hpages : (writeSheets s (themeOf root settings) (Nav.markup s.nav) out s.symbolSheets).start
        v₁ = (.ok pages, v₂))
      (htutorials : (writeSheets s (themeOf root settings) (Nav.markup s.nav) out
        s.tutorialSheets).start { v₂ with remarks := remarks₂ } = (.ok tutorials, v₃))
      (hstatics : (writeStatic root out (themeOf root settings) settings.pages.staticFiles).start
        { v₃ with remarks := remarks₃ } = (.ok statics, v₄))
      (hlisted : listed settings s.sources = before ++ f :: after)
      (hurl : s.registry.resolve? f.title = some url)
      (hbefore : (writeListings s root out (themeOf root settings) (Nav.markup s.nav)
        settings.encoding before).start { v₄ with remarks := remarks₄ } = (.ok written, v))
      (hcode : (readSource root settings.encoding f).start v = (.ok (some code), u)) :
      Draws s raw settings root out w (s.sourceSheet f url code) u

/-- Nothing that is read while a site is written is hidden. -/
structure ReadsShown (hidden : Place → Bool) (d : Disk) (s : Site) (raw : List Doclet)
    (settings : Settings) (root out : Path) (w : World) (summary : Summary) : Prop where
  templates : ∀ sheet u, s.Draws raw settings root out w sheet u →
    sheet.Shown hidden (themeOf root settings) (Nav.markup s.nav) u
  rules : d.Shows hidden (root.child Asset.ignoreName)
  statics : StaticsShown hidden d root out (themeOf root settings) settings.pages.staticFiles
    summary.staticFiles
  listings : ∀ f ∈ listed settings s.sources, d.Shows hidden (root.join f.path)

theorem follows_write {raw' : List Doclet} {settings : Settings} {summary : Summary}
    (h : (s.write raw settings root out).start w = (.ok summary, v))
    (hhidden : ∀ place, v.disk.locate (Snapshot.path out .docsRaw) = .ok place →
      hidden place = true)
    (hshown : ReadsShown hidden v.disk s raw settings root out w summary)
    (hprint : ∀ text, (Json.array (raw.map Json.object)).print = .ok text →
      ∃ text', (Json.array (raw'.map Json.object)).print = .ok text')
    (htwins : w.Twins hidden w') :
    ∃ v', (s.write raw' settings root out).start w' = (.ok summary, v') ∧ v.Twins hidden v' := by
  -- The static files are known only once they are copied; the summary that is returned at the end
  -- tells which they were.
  let kept (summary : Summary) : Prop := StaticsShown hidden v.disk root out (themeOf root settings)
    settings.pages.staticFiles summary.staticFiles
  have hkept : kept summary := hshown.statics
  refine follows_bind h hkept (.refl _) (fun snapshots u hsnapshots => ?_)
    fun snapshots u hsnapshots hgoal =>
      follows_writeSnapshots hsnapshots hgoal hhidden hprint htwins
  have hlength : snapshots.length = Snapshot.all.length := by
    rw [(writeSnapshots_spec hsnapshots).1, List.length_map]
  refine (blind_writeSheets fun before sheet after written u' heq hbefore =>
    hshown.templates _ _ (.symbol hsnapshots heq hbefore)).bind fun pages u₁ hpages => ?_
  refine (blind_remark _).bind fun _ u₂ h₂ => (blind_remark _).bind fun _ u₃ h₃ => ?_
  cases h₂
  cases h₃
  refine (blind_writeSheets fun before sheet after written u' heq hbefore =>
    hshown.templates _ _ (.tutorial hsnapshots hpages heq hbefore)).bind
      fun tutorials u₄ htutorials => ?_
  refine (blind_remark _).bind fun _ u₅ h₅ => ?_
  cases h₅
  refine (blindFor_writeStatic hshown.rules _).bind (fun statics u₆ hstatics => ?_) ?_
  · refine (blind_remark _).bind fun _ u₇ h₇ => ?_
    cases h₇
    dsimp only
    split
    · next hsources =>
      have hlisted : listed settings s.sources = s.sources := by rw [listed, if_pos hsources]
      have hwritten : ∀ remarks, (s.writeSources root out (themeOf root settings)
          (Nav.markup s.nav) settings.encoding).Blind hidden v.disk
            { u₆ with remarks := remarks } := fun remarks =>
        (blind_writeListings (hlisted ▸ hshown.listings)
          fun before f after url code written u u' heq hurl hbefore hcode =>
            hshown.templates _ _ (.listing hsnapshots hpages htutorials hstatics
              (hlisted.trans heq) hurl hbefore hcode)).bind fun result _ _ =>
          (Run.blind_write _ _).bind fun _ _ _ => blind_pure _
      exact (hwritten _).bind fun listings _ _ => (blind_remark _).bind fun _ _ _ =>
        (blind_pure _).weaken
    · exact (blind_pure _).weaken
  · intro statics w summary v h hsummary
    have hstatics : summary.staticFiles = statics := by
      obtain ⟨_, _, -, h⟩ := of_start_bind h
      dsimp only at h
      split at h
      · obtain ⟨listings, _, -, h⟩ := of_start_bind h
        obtain ⟨_, _, -, h⟩ := of_start_bind h
        obtain ⟨rfl, -⟩ := of_start_pure h
        exact Summary.staticFiles_eq hlength rfl rfl rfl rfl
      · obtain ⟨rfl, -⟩ := of_start_pure h
        exact Summary.staticFiles_eq hlength rfl rfl rfl (List.append_nil _).symm
    rw [← hstatics]
    exact hsummary

end Site

end Refsite
