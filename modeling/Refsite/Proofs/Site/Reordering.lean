import Refsite.Proofs.Json.Sorted
import Refsite.Proofs.Site.Blindness
import Refsite.Proofs.Site.Failures
import Refsite.Proofs.Site.Republishing
import Refsite.Proofs.Symbol.Order
namespace Refsite

open Run

namespace Disk

def nothing : Place → Bool := fun _ => false

theorem veil_nothing (d : Disk) : d.veil nothing = d := by
  rw [veil]
  simp [veilEntry, nothing]

theorem Twins.eq_of_nothing {d d' : Disk} (h : d.Twins nothing d') : d = d' := by
  rwa [Twins, veil_nothing, veil_nothing] at h

theorem shows_nothing (d : Disk) (p : Path) : d.Shows nothing p := fun _ _ => rfl

def isPlaceOf (d : Disk) (p : Path) (place : Place) : Bool := (d.locate p).toOption == some place

theorem isPlaceOf_iff {d : Disk} {p : Path} {place : Place} :
    d.isPlaceOf p place = true ↔ d.locate p = .ok place := by
  rw [isPlaceOf, beq_iff_eq]
  cases d.locate p with
  | error obstacle => exact ⟨nofun, nofun⟩
  | ok found => exact ⟨fun h => congrArg Except.ok (Option.some.inj h),
      fun h => congrArg some (Except.ok.inj h)⟩

end Disk

theorem World.Twins.of_nothing {w w' : World} (h : w.Twins Disk.nothing w')
    (hidden : Place → Bool) : w.Twins hidden w' :=
  ⟨h.disk.eq_of_nothing ▸ .refl hidden w.disk, h.printed, h.chance⟩

namespace Doclet

theorem start_load {file : Path} {raw : List Doclet} {w u : World}
    (h : ((load file).start w).1 = .ok raw) (hdisk : u.disk = w.disk) :
    (load file).start u = (.ok raw, u) := by
  have hresult : ((load file).start u).1 = .ok raw := by
    rw [← h, load, start_bind_ok (start_disk u), start_bind_ok (start_disk w), hdisk]
    split
    · rfl
    · split
      · rfl
      · next x _ => cases ofJson? x <;> rfl
  obtain ⟨hworld, -⟩ := load_spec (Prod.ext hresult rfl)
  exact Prod.ext hresult hworld.symm

theorem start_loadSymbols {raw : List Doclet} {symbols : List Symbol}
    (h : (Doclet.symbols raw).2 = .ok symbols) (w : World) :
    (loadSymbols raw).start w =
      (.ok symbols, { w with remarks := w.remarks ++ (Doclet.symbols raw).1 }) := by
  rw [loadSymbols]
  dsimp only
  rw [start_bind_ok (start_remarkAll _ w), h]
  rfl

end Doclet

namespace Tutorial

variable [Text.Codecs]

theorem blind_readFiles (goal : Disk) (directory : Path) (encoding : String) (files : List String)
    (ts : List Tutorial) (w : World) :
    (readFiles directory encoding ts files).Blind Disk.nothing goal w :=
  (holds_readFiles (blinding Disk.nothing goal).logic
    (fun _ _ _ => Invariant.alike (blind_isFile _))
    (fun _ _ _ => Invariant.alike (blind_readText _ (goal.shows_nothing _))) ts).1

theorem blind_load (goal : Disk) (directory : Path) (encoding : String) (w : World) :
    (load directory encoding).Blind Disk.nothing goal w := by
  have hsame : ∀ {α : Type} {w : World} (k : Disk → Run α) (d' : Disk), w.disk.Grows goal →
      w.disk.Twins Disk.nothing d' → k d' = k w.disk := by
    intro α w k d' _ htwins
    rw [htwins.eq_of_nothing]
  refine blind_disk (fun d => (blind_ofExcept _ _).bind fun files u _ => ?_) (hsame _)
  refine Blind.bind (blind_readFiles goal directory encoding _ [] u) fun ts _ _ =>
    blind_disk (fun d => ?_) (hsame _)
  refine (blind_ofExcept _ _).bind fun configs _ _ => (blind_remarkAll _).bind fun _ _ _ => ?_
  exact (blind_ofExcept _ _).bind fun parents _ _ => blind_pure _

end Tutorial

namespace Site

variable {root input input' : Path} {out : Option Path} {settings : Settings}
  {given : Option Settings} {tutorials : Option Path} {raw raw' : List Doclet}
  {symbols : List Symbol} {s : Site} {published : Published} {w w₁ u : World}

section Host

variable [Host]

/-- Makes a site of symbols that were selected, and of the tutorials of a project. -/
def make (root : Path) (settings : Settings) (tutorials : Option Path)
    (selected : Source.Catalog × List Symbol) : Run Site := do
  let tutorials ← match tutorials.or (Settings.pathBelow root settings.tutorials) with
    | some directory => Tutorial.load directory settings.encoding
    | none => pure []
  let site ← Run.ofExcept failure (ofSymbols settings selected.1 tutorials selected.2)
  Run.remarkAll site.treeRemarks
  return site

theorem load_eq (root input : Path) (settings : Settings) (tutorials : Option Path)
    (raw : List Doclet) : load root input settings tutorials raw = (do
      let symbols ← Doclet.loadSymbols raw
      Run.remark ⟨.info, part, s!"loaded {symbols.length} symbols from " ++ input.text⟩
      Run.remarkAll (selectRemarks settings.visibility symbols)
      make root settings tutorials (select settings.visibility symbols)) := by
  rw [load]
  unfold make
  congr

theorem blind_make (goal : Disk) (root : Path) (settings : Settings) (tutorials : Option Path)
    (selected : Source.Catalog × List Symbol) (w : World) :
    (make root settings tutorials selected).Blind Disk.nothing goal w := by
  have hmade : ∀ ts (w : World), (do
      let site ← Run.ofExcept failure (ofSymbols settings selected.1 ts selected.2)
      Run.remarkAll site.treeRemarks
      return site).Blind Disk.nothing goal w :=
    fun ts w => (blind_ofExcept _ _).bind fun site _ _ =>
      (blind_remarkAll _).bind fun _ _ _ => blind_pure _
  rw [make]
  split
  · exact (Tutorial.blind_load _ _ _ _).bind fun ts u _ => hmade ts u
  · exact (blind_pure _).bind fun ts u _ => hmade ts u

theorem follows_load {symbols' : List Symbol} {v : World} (input' : Path)
    (h : (load root input settings tutorials raw).start w = (.ok s, v))
    (hsymbols : (Doclet.symbols raw).2 = .ok symbols)
    (hsymbols' : (Doclet.symbols raw').2 = .ok symbols')
    (hprune : Symbol.prune settings.visibility symbols =
      Symbol.prune settings.visibility symbols') :
    ∃ v', (load root input' settings tutorials raw').start w = (.ok s, v') ∧
      v.Twins Disk.nothing v' := by
  have hselect : select settings.visibility symbols' = select settings.visibility symbols := by
    rw [select, select, hprune]
  rw [load_eq, start_bind_ok (Doclet.start_loadSymbols hsymbols w),
    start_bind_ok (start_remark _ _), start_bind_ok (start_remarkAll _ _)] at h
  rw [load_eq, start_bind_ok (Doclet.start_loadSymbols hsymbols' w),
    start_bind_ok (start_remark _ _), start_bind_ok (start_remarkAll _ _), hselect]
  exact (blind_make v.disk root settings tutorials _ _).follows h trivial (.refl _)
    ⟨.refl _ _, rfl, rfl⟩

theorem follows_written {directory : Path} {u u' : World}
    (h : (do return Published.written (← s.write raw settings root directory)).start u =
      (.ok published, w₁))
    (hshown : ∀ summary, published = .written summary →
      ReadsShown (w₁.disk.isPlaceOf (Snapshot.path directory .docsRaw)) w₁.disk s raw settings root
        directory u summary)
    (hprint : ∀ text, (Json.array (raw.map Json.object)).print = .ok text →
      ∃ text', (Json.array (raw'.map Json.object)).print = .ok text')
    (htwins : u.Twins Disk.nothing u') :
    ∃ w₂, (do return Published.written (← s.write raw' settings root directory)).start u' =
        (.ok published, w₂) ∧ (∃ summary, published = .written summary) ∧
      w₁.Twins (w₁.disk.isPlaceOf (Snapshot.path directory .docsRaw)) w₂ := by
  obtain ⟨summary, _, hwrite, h⟩ := of_start_bind h
  obtain ⟨rfl, rfl⟩ := of_start_pure h
  obtain ⟨w₂, hwrite', hw₂⟩ := follows_write hwrite (fun place => Disk.isPlaceOf_iff.mpr)
    (hshown summary rfl) hprint (htwins.of_nothing _)
  refine ⟨w₂, ?_, ⟨summary, rfl⟩, hw₂⟩
  rw [start_bind_ok hwrite']
  rfl

theorem follows_deliver {u v v' : World} (hdisk : u.disk = v.disk)
    (h : (s.deliver raw root out settings).start v = (.ok published, w₁))
    (hshown : ∀ summary directory, published = .written summary →
      ((outputOf root out (some settings)).start u).1 = .ok directory →
      ReadsShown (w₁.disk.isPlaceOf (Snapshot.path directory .docsRaw)) w₁.disk s raw settings root
        directory v summary)
    (hprint : ∀ text, (Json.array (raw.map Json.object)).print = .ok text →
      ∃ text', (Json.array (raw'.map Json.object)).print = .ok text')
    (htwins : v.Twins Disk.nothing v') :
    ∃ w₂, (s.deliver raw' root out settings).start v' = (.ok published, w₂) ∧
      ∃ hidden : Place → Bool, w₁.Twins hidden w₂ ∧ ∀ place, hidden place = true →
        ∃ summary directory, published = .written summary ∧
          ((outputOf root out (some settings)).start u).1 = .ok directory ∧
          w₁.disk.locate (Snapshot.path directory .docsRaw) = .ok place := by
  unfold deliver at h ⊢
  cases out with
  | some directory =>
    obtain ⟨w₂, hstart, ⟨summary, hsummary⟩, hw₂⟩ := follows_written h
      (fun summary hsummary => hshown summary directory hsummary rfl) hprint htwins
    refine ⟨w₂, hstart, _, hw₂, fun place hplace => ?_⟩
    exact ⟨summary, directory, hsummary, rfl, Disk.isPlaceOf_iff.mp hplace⟩
  | none =>
    cases hconsole : settings.toConsole with
    | true =>
      rw [hconsole] at h
      have hprints : (do
          Run.print ((← jsonText s.docs) ++ "\n")
          return Published.printed s.symbols.length).Blind Disk.nothing w₁.disk v :=
        (blind_jsonText _).bind fun text _ _ => (blind_print _).bind fun _ _ _ => blind_pure _
      obtain ⟨w₂, hstart, hw₂⟩ := hprints.follows h trivial (.refl _) htwins
      exact ⟨w₂, hstart, Disk.nothing, hw₂, nofun⟩
    | false =>
      rw [hconsole] at h
      obtain ⟨directory, _, hdirectory, hwritten⟩ := of_start_bind h
      obtain ⟨rfl, hanywhere⟩ := Settings.of_destinationOf hdirectory
      have houtput : ((outputOf root none (some settings)).start u).1 = .ok directory :=
        congrArg Prod.fst (hanywhere u hdisk)
      obtain ⟨w₂, hstart, ⟨summary, hsummary⟩, hw₂⟩ := follows_written hwritten
        (fun summary hsummary => hshown summary directory hsummary houtput) hprint htwins
      refine ⟨w₂, ?_, _, hw₂, fun place hplace => ?_⟩
      · dsimp only
        rw [start_bind_ok (hanywhere v' htwins.disk.eq_of_nothing.symm)]
        exact hstart
      · exact ⟨summary, directory, hsummary, houtput, Disk.isPlaceOf_iff.mp hplace⟩

/-- With standard settings and no listings nothing is read but the rules about what is ignored. -/
theorem readsShown_withoutListings {hidden : Place → Bool} {d : Disk} {directory : Path}
    (summary : Summary) (hrules : d.Shows hidden (root.child Asset.ignoreName)) :
    ReadsShown hidden d s raw withoutListings root directory w summary where
  templates sheet u _ name _ file hfile := by
    have htheme : themeOf root withoutListings = .ofPaths none none := rfl
    rw [htheme, Page.Theme.file?_eq, Page.Theme.candidates_standard] at hfile
    cases hfile
  rules := hrules
  statics := ⟨nofun, nofun⟩
  listings := nofun

/-- The order of a dump shows only in the file of the doclets as they were read, where the published
symbols have different longnames, versions or dates, and nothing that is read while the site is
written leads to that file. -/
theorem publish_reordered (hraw : ((Doclet.load input).start w).1 = .ok raw)
    (hraw' : ((Doclet.load input').start w).1 = .ok raw') (hperm : raw.Perm raw')
    (hsettings : (settingsOf root given).start w = (.ok settings, u))
    (hsymbols : (Doclet.symbols raw).2 = .ok symbols)
    (hkeys : ((Symbol.prune settings.visibility symbols).map Symbol.key).Nodup)
    (hpublish : (publish root input out given tutorials).start w = (.ok published, w₁))
    (hshown : ∀ s v summary directory,
      (load root input settings tutorials raw).start u = (.ok s, v) →
      published = .written summary → ((outputOf root out given).start w).1 = .ok directory →
      ReadsShown (w₁.disk.isPlaceOf (Snapshot.path directory .docsRaw)) w₁.disk s raw settings root
        directory v summary) :
    ∃ w₂, (publish root input' out given tutorials).start w = (.ok published, w₂) ∧
      w₂.printed = w₁.printed ∧
      ∀ place, (∀ summary directory, published = .written summary →
          ((outputOf root out given).start w).1 = .ok directory →
          w₁.disk.locate (Snapshot.path directory .docsRaw) ≠ .ok place) →
        w₂.disk.entry? place = w₁.disk.entry? place := by
  have hdisk : u.disk = w.disk := (reads_settingsOf root given).disk_eq hsettings
  have houtput := start_outputOf hsettings out
  rw [publish_eq, start_bind_ok hsettings, publish_given_eq,
    start_bind_ok (Doclet.start_load hraw hdisk)] at hpublish
  obtain ⟨s, v, hload, hdeliver⟩ := of_start_bind hpublish
  have hv : v.disk = u.disk := (reads_load _ _ _ _ _).disk_eq hload
  -- The symbols that are published are the same, so the site is.
  obtain ⟨symbols', hsymbols', hsame⟩ := Doclet.symbols_perm hperm hsymbols
  obtain ⟨v', hload', htwins⟩ :=
    follows_load input' hload hsymbols hsymbols' (Symbol.prune_eq_of_perm hsame hkeys)
  rw [houtput] at hshown ⊢
  obtain ⟨w₂, hdeliver', hidden, htwins, hhidden⟩ := follows_deliver hv.symm hdeliver
    (fun summary directory => hshown s v summary directory hload)
    (fun _ => Json.exists_print_of_perm (hperm.map Json.object)) htwins
  refine ⟨w₂, ?_, htwins.printed.symm, fun place hplace => ?_⟩
  · rw [publish_eq, start_bind_ok hsettings, publish_given_eq,
      start_bind_ok (Doclet.start_load hraw' hdisk), start_bind_ok hload', hdeliver']
  · symm
    apply htwins.disk.entry?_eq
    rw [← Bool.not_eq_true]
    intro hraw
    obtain ⟨summary, directory, hsummary, hdirectory, hlocate⟩ := hhidden place hraw
    exact hplace summary directory hsummary hdirectory hlocate

end Host

section Plain

open scoped Plain

/-- A function and a class are published as the same site in either order. -/
theorem publish_classFirst : ∃ published w₁ w₂,
    (publish .top firstDump (some sitePath) (some withoutListings) none).start describedDumps =
      (.ok published, w₁) ∧
    (publish .top secondDump (some sitePath) (some withoutListings) none).start describedDumps =
      (.ok published, w₂) ∧
    ∀ place, place ≠ ["out", "dist", "docs_raw.json"] →
      w₂.disk.entry? place = w₁.disk.entry? place := by
  have hsymbols := symbols_functionAndClass (f := "f") (c := "shape") rfl rfl
  have hprune : Symbol.prune withoutListings.visibility [plainFunction "f", plainClass "shape"] =
      [plainFunction "f", plainClass "shape"] := prune_functionAndClass (by decide)
  have hselect : select withoutListings.visibility [plainFunction "f", plainClass "shape"] =
      ([], [plainFunction "f", plainClass "shape"]) := select_functionAndClass (by decide)
  have hkeys : ((Symbol.prune withoutListings.visibility
      [plainFunction "f", plainClass "shape"]).map Symbol.key).Nodup := by
    rw [hprune]
    decide
  obtain ⟨s, hs, hfiles, htutorials, hbodies, hprint⟩ := exists_site_functionAndClass
  obtain ⟨v, hload, hdisk, -⟩ :=
    exists_load .top firstDump hsymbols rfl (by rw [hselect]; exact hs) describedDumps
  have hpages : HoldsPages v.disk .top sitePath (s.symbolSheets.map (·.file)) := by
    rw [hdisk, hfiles]
    exact holdsPages_twoDumps _ _ (List.Subset.refl _)
  obtain ⟨w₁, hwrite, halike⟩ := hpages.exists_write_drawn withoutListings rfl rfl rfl rfl
    htutorials hprint fun sheet hsheet => by
      obtain ⟨content, hbody⟩ := hbodies sheet hsheet
      exact start_draw_standard _ hbody
  have hpublish := start_publish start_functionFirst hload hwrite
  rw [hdisk] at halike
  have hraw := locate_twoDumps (Snapshot.path sitePath .docsRaw) halike rfl
  have hrules : w₁.disk.Shows (w₁.disk.isPlaceOf (Snapshot.path sitePath .docsRaw))
      (Path.top.child Asset.ignoreName) := by
    intro place hplace
    rw [locate_twoDumps _ halike rfl] at hplace
    cases hplace
    rw [Disk.isPlaceOf, hraw]
    decide
  obtain ⟨w₂, hpublish', -, hsame⟩ := publish_reordered (congrArg Prod.fst start_functionFirst)
    (congrArg Prod.fst start_classFirst) (List.Perm.swap _ _ _) rfl (congrArg Prod.snd hsymbols)
    hkeys hpublish fun s v summary directory _ _ houtput => by
      cases houtput
      exact readsShown_withoutListings summary hrules
  refine ⟨_, w₁, w₂, hpublish, hpublish', fun place hplace => ?_⟩
  refine hsame place fun summary directory _ houtput hlocate => ?_
  cases houtput
  rw [hraw] at hlocate
  exact hplace (Except.ok.inj hlocate).symm

def withRawLayout : Settings :=
  { withoutListings with
    pages := { withoutListings.pages with layoutFile := some "out/dist/docs_raw.json" } }

section Layout

variable {a b text : String} {v : World}

theorem themeOf_withRawLayout :
    themeOf .top withRawLayout = ⟨[⟨false, ["out", "dist"]⟩], "docs_raw.json", none⟩ := by
  decide +kernel

theorem holds_docsRaw {paths : List Path} (halike : (twoDumps a b).disk.Alike v.disk)
    (h : (writeSnapshots s raw sitePath Snapshot.all).start w = (.ok paths, v)) :
    s.Holds raw sitePath v.disk .docsRaw := by
  refine (writeSnapshots_spec h).2.2.2
    (show Snapshot.all = [] ++ .docsRaw :: [.docs, .members, .nav, .tree] from rfl) ?_
  intro later hlater
  refine Disk.isSame_eq_false (locate_twoDumps _ halike ?_) (locate_twoDumps _ halike rfl) ?_
  · cases later <;> rfl
  · cases later with
    | docsRaw => exact absurd hlater (by decide)
    | _ => decide

theorem exists_writeHome (hsheets : s.symbolSheets = [s.homeSheet])
    (halike : (twoDumps a b).disk.Alike v.disk)
    (hread : v.disk.read (Snapshot.path sitePath .docsRaw) = .ok (Text.Utf8.encode text.toList))
    (hfill : ∀ chance title nav content, Plain.fill? chance
      [("title", title), ("nav", nav), ("content", content)] none (Text.unixLines text.toList) =
        some text.toList)
    (htags : s.registry.resolveTags text = text) :
    ∃ v', (writeSheets s (themeOf .top withRawLayout) (Nav.markup s.nav) sitePath
        s.symbolSheets).start v =
      (.ok ((s.symbolSheets.map (·.file)).map sitePath.child), v') ∧ v.disk.Alike v'.disk ∧
      v'.disk.read (sitePath.child Registry.indexUrl) = .ok (Text.Utf8.encode text.toList) := by
  have hpages := holdsPages_twoDumps a b (show [Registry.indexUrl] ⊆ _ by decide)
  have hhome : v.disk.isFile ⟨false, ["out", "dist", "home.html"]⟩ = false := by
    rw [Disk.isFile, Disk.find?, locate_twoDumps _ halike rfl]
    dsimp only
    rw [halike.entry?_none rfl]
    rfl
  have hdraw := start_drawHome (s := s) (Nav.markup s.nav)
    (congrArg Page.Theme.directories themeOf_withRawLayout) hhome
    (by rw [themeOf_withRawLayout]; decide +kernel)
    (by rw [themeOf_withRawLayout]; exact hread)
  rw [run_render_text (hfill _ _ _ _), String.ofList_toList] at hdraw
  obtain ⟨v', hwritten, hindex, hcons⟩ := exists_writeSheet (s := s)
    (halike.grows.isDirectory hpages.output)
    (halike.grows.isFile (hpages.page _ (List.mem_singleton_self _))) hdraw
  rw [htags] at hindex
  rw [hsheets]
  exact ⟨v', hcons rfl, hwritten, hindex⟩

theorem exists_publish_rawLayout {input : Path}
    (hraw : (Doclet.load input).start (twoDumps a b) = (.ok raw, twoDumps a b))
    (hsymbols : (Doclet.symbols raw).2 = .ok [])
    (hprint : (Json.array (raw.map Json.object)).print = .ok text)
    (hfill : ∀ chance title nav content, Plain.fill? chance
      [("title", title), ("nav", nav), ("content", content)] none (Text.unixLines text.toList) =
        some text.toList)
    (htags : ∀ r : Registry, r.resolveTags text = text) :
    ∃ w', (publish .top input (some sitePath) (some withRawLayout) none).start (twoDumps a b) =
        (.ok (.written (plainSummary sitePath)), w') ∧
      w'.disk.read (sitePath.child Registry.indexUrl) = .ok (Text.Utf8.encode text.toList) := by
  obtain ⟨s, hs, hnone, -, hsheets, htutorials, hsnapshots⟩ :=
    exists_site_nil (rfl : withRawLayout.pages.longnamesInNav = false) hprint
  obtain ⟨v, hload, hdisk, -⟩ := exists_load .top input (Prod.ext rfl hsymbols) rfl
    (show ofSymbols withRawLayout _ [] _ = .ok s by rw [select_nil]; exact hs) (twoDumps a b)
  have hpages : HoldsPages v.disk .top sitePath (s.symbolSheets.map (·.file)) := by
    rw [hdisk, hsheets]
    exact holdsPages_twoDumps a b (show [Registry.indexUrl] ⊆ _ by decide)
  obtain ⟨w', hwrite, halike, d, hindex, hchanges⟩ := hpages.exists_write withRawLayout
    (fun d => d.read (sitePath.child Registry.indexUrl) = .ok (Text.Utf8.encode text.toList))
    rfl rfl rfl htutorials hsnapshots fun v₁ hstart halike => by
      rw [hdisk] at halike
      obtain ⟨x, found, hx, hfound, hread⟩ := holds_docsRaw halike hstart
      cases hx
      rw [hprint] at hfound
      cases hfound
      exact exists_writeHome hsheets halike hread hfill (htags _)
  rw [hdisk] at halike
  rw [pagesSummary_eq sitePath hnone hsheets] at hwrite
  refine ⟨w', start_publish hraw hload hwrite, hchanges.read hindex ?_⟩
  -- The style sheet is written after the start page, and to another file.
  intro q hq
  rw [List.mem_singleton.mp hq]
  exact Disk.isSame_eq_false (locate_twoDumps _ halike rfl) (locate_twoDumps _ halike rfl)
    (by decide)

end Layout

def bareDumps : World :=
  twoDumps "[\x7b\x7d,\x7b\"b\":null\x7d]" "[\x7b\"b\":null\x7d,\x7b\x7d]"

/-- A layout that is the file of the doclets shows the order of the dump on the start page. -/
theorem rawLayout_shows_order : ∃ raw raw' symbols published w₁ w₂,
    ((Doclet.load firstDump).start bareDumps).1 = .ok raw ∧
    ((Doclet.load secondDump).start bareDumps).1 = .ok raw' ∧ raw.Perm raw' ∧
    (Doclet.symbols raw).2 = .ok symbols ∧ (Doclet.symbols raw').2 = .ok symbols ∧
    ((Symbol.prune withRawLayout.visibility symbols).map Symbol.key).Nodup ∧
    (publish .top firstDump (some sitePath) (some withRawLayout) none).start bareDumps =
      (.ok published, w₁) ∧
    (publish .top secondDump (some sitePath) (some withRawLayout) none).start bareDumps =
      (.ok published, w₂) ∧
    w₁.disk.read (sitePath.child Registry.indexUrl) ≠
      w₂.disk.read (sitePath.child Registry.indexUrl) := by
  have hfirst : (Doclet.load firstDump).start bareDumps =
      (.ok [[], [("b", .null)]], bareDumps) :=
    Doclet.start_load_of_entry rfl rfl (by decide +kernel)
  have hsecond : (Doclet.load secondDump).start bareDumps =
      (.ok [[("b", .null)], []], bareDumps) :=
    Doclet.start_load_of_entry rfl rfl (by decide +kernel)
  have hprint₁ : (Json.array ([[], [("b", .null)]].map Json.object)).print =
      .ok "[\n  \x7b\x7d,\n  \x7b\n    \"b\": null\n  \x7d\n]" := by
    decide +kernel
  have hprint₂ : (Json.array ([[("b", .null)], []].map Json.object)).print =
      .ok "[\n  \x7b\n    \"b\": null\n  \x7d,\n  \x7b\x7d\n]" := by
    decide +kernel
  obtain ⟨w₁, hpublish₁, hread₁⟩ :=
    exists_publish_rawLayout hfirst rfl hprint₁ (fun _ _ _ _ => rfl) fun _ => rfl
  obtain ⟨w₂, hpublish₂, hread₂⟩ :=
    exists_publish_rawLayout hsecond rfl hprint₂ (fun _ _ _ _ => rfl) fun _ => rfl
  refine ⟨_, _, [], _, w₁, w₂, congrArg Prod.fst hfirst, congrArg Prod.fst hsecond,
    List.Perm.swap _ _ _, rfl, rfl, ?_, hpublish₁, hpublish₂, ?_⟩
  · have hprune : Symbol.prune withRawLayout.visibility [] = [] := List.mergeSort_nil
    rw [hprune]
    exact List.nodup_nil
  · rw [hread₁, hread₂]
    decide +kernel

end Plain

end Site

end Refsite
