import Refsite.Proofs.Disk.Stops
import Refsite.Proofs.Site.Loading
import Refsite.Proofs.Site.Serving
import Refsite.Proofs.Site.Writing
namespace Refsite

namespace Page

open Run

theorem Trouble.isLate_failure (trouble : Trouble) : trouble.failure.isLate = true := by
  cases trouble <;> rfl

theorem Theme.isLate_of_find? {t : Theme} {d : Disk} {name : String} {e : Failure}
    (h : t.find? d name = .error e) : e.isLate = true := by
  rw [find?] at h
  split at h
  · split at h
    · split at h
      · cases h
      · cases h
        rfl
    · cases h
      rfl
  · cases h

theorem Sheet.late_draw [Engine] (t : Theme) (nav : String) (s : Sheet) :
    (s.draw t nav).StopsLate := by
  intro w f v h
  rw [start_draw] at h
  exact Rendering.of_run_error (congrArg Prod.fst h) Trouble.isLate_failure
    fun _ _ he => Theme.isLate_of_find? he

end Page

namespace Asset

open Run

theorem late_ignoreRules [Text.Codecs] (root : Path) : (ignoreRules root).StopsLate := by
  refine (late_isFile _).bind fun isFile => ?_
  split
  · exact (late_readText _ _).bind fun text => (late_ignore _).bind fun rules => stops_pure _
  · exact stops_pure _

theorem late_files (directory : Path) (excluded : List String) (ignore : Option Ignore) :
    (files directory excluded ignore).StopsLate := by
  refine (late_isDirectory _).bind fun isDirectory => ?_
  split
  · exact stops_disk.bind fun d => late_ignore _
  · exact stops_pure _

theorem late_copyAll (source target : Path) (files : List (List String)) :
    (copyAll source target files).StopsLate := fun _ =>
  (holds_copyAll (stopping fun f => f.isLate = true).logic
    fun _ _ u => Invariant.along (late_copy _ _ u)).1

theorem late_copyIncluded (root out : Path) (excluded : List String) (ignore : Option Ignore)
    (included : String) : (copyIncluded root out excluded ignore included).StopsLate := by
  refine (late_isFile _).bind fun isFile => ?_
  split
  · split
    · exact stops_pure _
    · exact (late_copy _ _).bind fun _ => stops_pure _
  · refine (late_isDirectory _).bind fun isDirectory => ?_
    split
    · exact (late_files _ _ _).bind fun files => late_copyAll _ _ files
    · exact (stops_remark _).bind fun _ => stops_pure _

theorem late_copyAllIncluded (root out : Path) (excluded : List String) (ignore : Option Ignore)
    (included : List String) : (copyAllIncluded root out excluded ignore included).StopsLate :=
  fun _ => (holds_copyAllIncluded (stopping fun f => f.isLate = true).logic
    fun _ _ u => Invariant.along (late_copyIncluded _ _ _ _ _ u)).1

end Asset

namespace Site

open Run

variable [Host] (s : Site) (root out : Path) (t : Page.Theme) (nav encoding : String)

omit [Host] in
theorem late_jsonText (x : Except Misfit Json) : (jsonText x).StopsLate := Run.late_misfit _

theorem late_writeSnapshots (raw : List Doclet) (snapshots : List Snapshot) :
    (writeSnapshots s raw out snapshots).StopsLate := fun _ =>
  (holds_writeSnapshots (stopping fun f => f.isLate = true).logic
    (fun u => Invariant.along (late_change _ u))
    (fun _ _ u => Invariant.alike (late_jsonText _ u))
    fun _ _ u _ => Invariant.along (late_write _ _ u)).1

theorem late_writeSheets (sheets : List Page.Sheet) :
    (writeSheets s t nav out sheets).StopsLate := fun _ =>
  (holds_writeSheets (stopping fun f => f.isLate = true).logic
    (fun _ sheet _ _ u _ _ => Invariant.alike (sheet.late_draw t nav u))
    fun _ _ u _ => Invariant.along (late_write _ _ u)).1

theorem late_writeStatic (files : StaticFiles) : (writeStatic root out t files).StopsLate := by
  have hincluded : (Asset.copyStatic root out files).StopsLate :=
    (Asset.late_ignoreRules root).bind fun ignore => Asset.late_copyAllIncluded _ _ _ _ _
  rw [writeStatic]
  dsimp only
  split
  · have htheme : ∀ directory, (Asset.copyTheme directory out).StopsLate := fun directory =>
      (Asset.late_files _ _ _).bind fun names => Asset.late_copyAll _ _ names
    exact (htheme _).bind fun ofTheme => hincluded.bind fun rest => stops_pure _
  · exact (late_write _ _).bind fun _ => (stops_pure _).bind fun ofTheme =>
      hincluded.bind fun rest => stops_pure _

theorem late_readSource (f : Source.File) : (readSource root encoding f).StopsLate := by
  have hunreadable : ∀ r : Remark, (do
      Run.remark r
      return none : Run (Option String)).StopsLate :=
    fun r => (stops_remark r).bind fun _ => stops_pure _
  refine stops_disk.bind fun d => ?_
  split
  · exact stops_pure _
  · split
    · exact stops_fail rfl
    · exact hunreadable _
  · exact hunreadable _
  · next failure w' _ _ hrun => exact stops_fail (late_readText _ _ _ _ _ hrun)

theorem late_writeListings (files : Source.Catalog) :
    (writeListings s root out t nav encoding files).StopsLate := fun _ =>
  (holds_writeListings (stopping fun f => f.isLate = true).logic
    (fun f _ u => Invariant.alike (late_readSource root encoding f u))
    (fun _ _ _ _ _ _ _ v _ _ _ _ => Invariant.alike (Page.Sheet.late_draw t nav _ v))
    fun _ _ _ _ u _ => Invariant.along (late_write _ _ u)).1

theorem late_write (raw : List Doclet) (settings : Settings) :
    (s.write raw settings root out).StopsLate := by
  refine (late_writeSnapshots s out raw _).bind fun snapshots => ?_
  refine (late_writeSheets s out _ _ _).bind fun pages => ?_
  refine (stops_remark _).bind fun _ => (stops_remark _).bind fun _ => ?_
  refine (late_writeSheets s out _ _ _).bind fun tutorials => (stops_remark _).bind fun _ => ?_
  refine (late_writeStatic root out _ _).bind fun statics => (stops_remark _).bind fun _ => ?_
  dsimp only
  split
  · have hsources : (s.writeSources root out (.ofPaths (Settings.pathBelow root settings.template)
        (Settings.pathBelow root settings.pages.layoutFile)) (Nav.markup s.nav)
        settings.encoding).StopsLate :=
      (late_writeListings s root out _ _ _ _).bind fun result =>
        (Run.late_write _ _).bind fun _ => stops_pure _
    exact hsources.bind fun listings => (stops_remark _).bind fun _ => stops_pure _
  · exact stops_pure _

end Site

open Run

theorem Settings.links_load (root : Path) : (load root).Links := by
  refine (late_isFile _).links.bind fun isFile => ?_
  split
  · refine stops_disk.bind fun d => (late_disk _).links.bind fun bytes => ?_
    refine (late_decode _).links.bind fun text => stops_ofExcept fun e he => ?_
    rw [ofToml] at he
    split at he
    · cases he
      rfl
    · cases he
      rfl
    · split at he
      · cases he
      · cases he
        rfl
  · exact stops_pure _

theorem Settings.links_destinationOf (root : Path) (destination : String) :
    (destinationOf root destination).Links := by
  have hresolve : (do
      Run.ofExcept .config (resolveDestination (← Run.disk) root destination) : Run Path).Links :=
    stops_disk.bind fun d => stops_ofExcept fun _ _ => rfl
  rw [destinationOf]
  dsimp only
  split
  · refine StopsAt.bind ?_ fun _ => hresolve
    exact stops_fail rfl
  · exact hresolve

theorem Settings.reads_destinationOf (root : Path) (destination : String) :
    (destinationOf root destination).Reads := by
  have hresolve : (do
      Run.ofExcept .config (resolveDestination (← Run.disk) root destination) : Run Path).Reads :=
    reads_disk.bind fun d => reads_ofExcept _ _
  rw [destinationOf]
  dsimp only
  split
  · exact (reads_fail _).bind fun _ => hresolve
  · exact hresolve

namespace Doclet

theorem reads_load (file : Path) : (load file).Reads := by
  refine reads_disk.bind fun d => ?_
  split
  · exact reads_fail _
  · split
    · exact reads_fail _
    · exact reads_ofExcept _ _

theorem links_load (file : Path) : (load file).Links := by
  refine stops_disk.bind fun d => ?_
  split
  · refine stops_fail ?_
    split <;> rfl
  · split
    · exact stops_fail rfl
    · refine stops_ofExcept fun f hf => ?_
      cases hitems : ofJson? _ with
      | none =>
        rw [hitems] at hf
        cases hf
        rfl
      | some raw =>
        rw [hitems] at hf
        cases hf

theorem links_loadSymbols (raw : List Doclet) : (loadSymbols raw).Links := by
  refine (stops_remarkAll _).bind fun _ => stops_ofExcept fun e _ => ?_
  cases e <;> rfl

end Doclet

namespace Tutorial

variable [Text.Codecs]

theorem late_readFiles (directory : Path) (encoding : String) (files : List String)
    (ts : List Tutorial) : (readFiles directory encoding ts files).StopsLate := fun _ =>
  (holds_readFiles (stopping fun f => f.isLate = true).logic
    (fun _ _ u => Invariant.alike (late_isFile _ u))
    (fun _ _ u => Invariant.alike (late_readText _ _ u)) ts).1

theorem links_load (directory : Path) (encoding : String) : (load directory encoding).Links := by
  refine stops_disk.bind fun d => (late_disk _).links.bind fun files => ?_
  refine (late_readFiles _ _ _ _).links.bind fun ts => stops_disk.bind fun d => ?_
  refine StopsAt.bind (stops_ofExcept fun _ _ => rfl) fun configs => ?_
  exact (stops_remarkAll _).bind fun _ => (late_misfit _).links.bind fun parents => stops_pure _

end Tutorial

namespace Site

variable [Host]

theorem links_load (root input : Path) (settings : Settings) (tutorials : Option Path)
    (raw : List Doclet) : (load root input settings tutorials raw).Links := by
  refine (Doclet.links_loadSymbols raw).bind fun symbols => ?_
  refine (stops_remark _).bind fun _ => (stops_remarkAll _).bind fun _ => ?_
  -- Links are first asked for where the site is made, of a registry that serves them all.
  have hmake : ∀ {sources symbols ts}, (do
      let site ← Run.ofExcept failure (ofSymbols settings sources ts symbols)
      Run.remarkAll site.treeRemarks
      return site).Links := by
    intro sources symbols ts
    refine StopsAt.bind (stops_ofExcept fun e he => ?_) fun site =>
      (stops_remarkAll _).bind fun _ => stops_pure _
    cases e with
    | link e => exact absurd he ((ofSymbols_serves settings sources ts symbols).1 e)
    | misfit m => rfl
  dsimp only
  split
  · exact (Tutorial.links_load _ _).bind fun ts => hmake
  · exact (stops_pure _).bind fun ts => hmake

/-- The settings of a run that publishes: those that it is given, or else those of the project. -/
def settingsOf (root : Path) : Option Settings → Run Settings
  | some settings => pure settings
  | none => Settings.load root

omit [Host] in
theorem reads_settingsOf (root : Path) (given : Option Settings) :
    (settingsOf root given).Reads := by
  cases given with
  | some settings => exact reads_pure settings
  | none => exact Settings.reads_load root

theorem publish_eq (root input : Path) (out : Option Path) (given : Option Settings)
    (tutorials : Option Path) :
    publish root input out given tutorials =
      settingsOf root given >>= fun settings =>
        publish root input out (some settings) tutorials := by
  cases given <;> rfl

/-- Brings a site to where it is published. -/
def deliver (s : Site) (raw : List Doclet) (root : Path) (out : Option Path) (settings : Settings) :
    Run Published :=
  match out, settings.toConsole with
  | none, true => do
    Run.print ((← jsonText s.docs) ++ "\n")
    return .printed s.symbols.length
  | none, false => do
    let directory ← Settings.destinationOf root settings.destination
    return .written (← s.write raw settings root directory)
  | some directory, _ => return .written (← s.write raw settings root directory)

theorem publish_given_eq (root input : Path) (out : Option Path) (settings : Settings)
    (tutorials : Option Path) : publish root input out (some settings) tutorials = (do
      let raw ← Doclet.load input
      (← load root input settings tutorials raw).deliver raw root out settings) := by
  rw [publish, pure_bind]
  rfl

omit [Host] in
theorem start_outputOf {root : Path} {given : Option Settings} {settings : Settings} {w u : World}
    (h : (settingsOf root given).start w = (.ok settings, u)) (out : Option Path) :
    (outputOf root out given).start w = (outputOf root out (some settings)).start u := by
  cases given with
  | some given =>
    obtain ⟨rfl, rfl⟩ := of_start_pure h
    rfl
  | none =>
    change (Settings.load root >>= fun settings => outputOf root out (some settings)).start w = _
    exact start_bind_ok h

theorem careful_publish_given (root input : Path) (out : Option Path) (settings : Settings)
    (tutorials : Option Path) : (publish root input out (some settings) tutorials).Careful := by
  have hwrite : ∀ (s : Site) raw directory, (do
      return Published.written (← s.write raw settings root directory)).Careful :=
    fun s raw directory => StopsLate.careful
      ((late_write s root directory raw settings).bind fun _ => stops_pure _)
  rw [publish, pure_bind]
  refine .after (Doclet.reads_load input) (Doclet.links_load input) fun raw => ?_
  refine .after (reads_load _ _ _ _ _) (links_load _ _ _ _ _) fun s => ?_
  split
  · exact StopsLate.careful
      ((late_jsonText _).bind fun text => (stops_print _).bind fun _ => stops_pure _)
  · refine .after (Settings.reads_destinationOf _ _) (Settings.links_destinationOf _ _) fun _ => ?_
    exact hwrite s raw _
  · exact hwrite s raw _

theorem careful_publish (root input : Path) (out : Option Path) (given : Option Settings)
    (tutorials : Option Path) : (publish root input out given tutorials).Careful := by
  rw [publish_eq]
  cases given with
  | some settings =>
    exact .after (reads_pure _) (stops_pure _) fun _ => careful_publish_given _ _ _ _ _
  | none =>
    exact .after (Settings.reads_load root) (Settings.links_load root) fun _ =>
      careful_publish_given _ _ _ _ _

/-- A run that prints leaves the disk as it is. -/
theorem reads_publish_console (root input : Path) {settings : Settings} (tutorials : Option Path)
    (hconsole : settings.toConsole = true) :
    (publish root input none (some settings) tutorials).Reads := by
  rw [publish, pure_bind]
  refine (Doclet.reads_load input).bind fun raw => (reads_load _ _ _ _ _).bind fun s => ?_
  rw [hconsole]
  exact (reads_ofExcept _ _).bind fun text => (reads_print _).bind fun _ => reads_pure _

/-- A run that publishes never stops at a link; where it stops at its settings, its dump or its
tutorials, and where it only prints, it leaves the disk as it was. The registry of a site is frozen
once it is populated, and holds every address that the site and its pages are made with. -/
theorem publish_failures (root input : Path) (out : Option Path) (given : Option Settings)
    (tutorials : Option Path) (w : World) :
    (∀ e, ((publish root input out given tutorials).start w).1 ≠ .error (.link e)) ∧
    (∀ f, ((publish root input out given tutorials).start w).1 = .error f → f.isGiven = true →
      ((publish root input out given tutorials).start w).2.disk = w.disk) ∧
    (∀ settings, ((settingsOf root given).start w).1 = .ok settings → settings.toConsole = true →
      out = none → ((publish root input out given tutorials).start w).2.disk = w.disk) ∧
    ∀ settings sources ts symbols,
      (∀ e, ofSymbols settings sources ts symbols ≠ .error (.link e)) ∧
        ∃ r, Registry.populate symbols (listed settings sources) ts = .ok r ∧
          r.Serves symbols ∧
            ∀ s, ofSymbols settings sources ts symbols = .ok s → s.registry = r := by
  have hcareful := careful_publish root input out given tutorials
  refine ⟨fun e he => ?_, fun f hf hgiven => hcareful.untouched (Prod.ext hf rfl) hgiven, ?_,
    ofSymbols_serves⟩
  · have hlink := hcareful.links w _ _ (Prod.ext he rfl)
    cases hlink
  · rintro settings hsettings hconsole rfl
    rw [publish_eq]
    cases hrun : (settingsOf root given).start w with
    | mk result v =>
      rw [hrun] at hsettings
      cases hsettings
      have hdisk : v.disk = w.disk := (reads_settingsOf root given).disk_eq hrun
      rw [Run.start_bind_ok hrun]
      exact (reads_publish_console root input tutorials hconsole v).trans hdisk

end Site

end Refsite
