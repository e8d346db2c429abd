import Refsite.Proofs.Asset.Scan
import Refsite.Proofs.Disk.Steps
import Refsite.Proofs.Site.Failures
import Refsite.Proofs.Site.NewSite
namespace Refsite

open Refsite.Path Run

def marks : List Char := "/\\?*:|'\"<>~#".toList

def IsPageName (file : String) : Prop :=
  (∃ stem, file = stem ++ ".html") ∧ ∀ c ∈ file.toList, c ∉ marks

theorem IsPageName.isEntryName {file : String} (h : IsPageName file) : IsEntryName file := by
  obtain ⟨⟨stem, rfl⟩, hmarks⟩ := h
  have hletter : 'h' ∈ (stem ++ ".html").toList := by
    rw [String.toList_append]
    exact List.mem_append_right _ (by decide)
  have hne : ∀ {name : String}, 'h' ∉ name.toList → stem ++ ".html" ≠ name :=
    fun hname heq => hname (heq ▸ hletter)
  exact ⟨⟨hne (by decide), hne (by decide), fun hslash => hmarks '/' hslash (by decide)⟩,
    hne (by decide)⟩

/-- A path leads to a page that stands in a directory itself. -/
def IsPageIn (out p : Path) : Prop := ∃ file, IsPageName file ∧ p = out.child file

theorem IsPageIn.inside {out p : Path} (h : IsPageIn out p) : out.Inside p := by
  obtain ⟨file, hfile, rfl⟩ := h
  exact inside_child out hfile.isEntryName

theorem IsPageIn.isProper {out p : Path} (hout : out.IsProper) (h : IsPageIn out p) : p.IsProper :=
  h.inside.isProper hout

namespace Registry

theorem notMem_marks_of_isSafe {c : Char} (h : Link.Stem.isSafe c = true) : c ∉ marks := by
  have hall : (marks.all fun c => !Link.Stem.isSafe c) = true := by decide
  intro hmem
  have hunsafe := List.all_eq_true.mp hall c hmem
  rw [h] at hunsafe
  cases hunsafe

theorem isPageName_fileFor (r : Registry) (text : String) : IsPageName (r.fileFor text) :=
  ⟨⟨_, rfl⟩, fun _ hc => notMem_marks_of_isSafe (isSafe_of_mem_fileFor hc)⟩

theorem tutorial_mem_files {r : Registry} {name url : String}
    (h : r.tutorials.lookup name = some url) : pageOfUrl url ∈ r.files :=
  List.mem_cons_of_mem _ (List.mem_append_right _
    (List.mem_map.mpr ⟨_, Bindings.mem_of_lookup h, rfl⟩))

/-- The files of a registry are names of pages. -/
def NamesPages (r : Registry) : Prop := ∀ file ∈ r.files, IsPageName file

theorem NamesPages.extend {r r' : Registry} {text : String} (hr : r.NamesPages)
    (hfiles : r'.files.Perm (r.fileFor text :: r.files)) : r'.NamesPages := by
  intro file hfile
  obtain rfl | hfile := List.mem_cons.mp (hfiles.mem_iff.mp hfile)
  · exact isPageName_fileFor r text
  · exact hr file hfile

theorem Change.namesPages {r r' : Registry} {file : Option String} (h : Change r file r')
    (hr : r.NamesPages) : r'.NamesPages := by
  cases h with
  | page hf new => exact hr.extend (files_openPage r _)
  | tutorial hf new => exact hr.extend (files_openTutorial r _)
  | idle | claim hf text | url hf longname url | freeze => exact hr

theorem Later.namesPages {r r' : Registry} (h : Later r r') (hr : r.NamesPages) :
    r'.NamesPages := by
  induction h with
  | refl => exact hr
  | tail _ hstep ih =>
    obtain ⟨file, hchange⟩ := hstep
    exact hchange.namesPages ih

theorem namesPages_initial : initial.NamesPages := by
  have hall : ∀ stem ∈ [indexName, globalName], IsPageName (stem ++ fileExtension) := by
    have hchars : ∀ chars : List Char, (chars.all fun c => !marks.contains c) = true →
        ∀ c ∈ chars, c ∉ marks := by
      intro chars hall c hc hmem
      have hfree := List.all_eq_true.mp hall c hc
      rw [List.contains_iff_mem.mpr hmem] at hfree
      cases hfree
    exact List.forall_mem_cons.mpr ⟨⟨⟨_, rfl⟩, hchars _ (by decide)⟩,
      List.forall_mem_singleton.mpr ⟨⟨_, rfl⟩, hchars _ (by decide)⟩⟩
  intro file hfile
  obtain rfl | hfile := List.mem_cons.mp hfile
  · exact hall indexName List.mem_cons_self
  · rw [List.mem_singleton.mp hfile]
    exact hall globalName (List.mem_cons_of_mem _ List.mem_cons_self)

end Registry

namespace Site

variable {s : Site} {listed : Source.Catalog}

theorem namesPages_of_ofSymbols {settings : Settings} {sources : Source.Catalog}
    {tutorials : List Tutorial} {symbols : List Symbol}
    (h : ofSymbols settings sources tutorials symbols = .ok s) : s.registry.NamesPages := by
  obtain ⟨hpopulate, -⟩ := ofSymbols_spec h
  exact (Registry.later_of_populate hpopulate).namesPages Registry.namesPages_initial

theorem exists_shownOn (listed : Source.Catalog) {symbol : Symbol} (h : symbol ∈ s.symbols) :
    ∃ owner, s.shownOn? listed symbol.longname = some owner := by
  rw [shownOn?]
  split
  · exact ⟨_, rfl⟩
  · obtain ⟨last, -, -, hlast⟩ := Registry.Placement.exists_getLast_filter
      (p := (·.longname == symbol.longname)) h (beq_self_eq_true _)
    exact ⟨last.owner, by rw [hlast, Option.map_some]⟩

theorem Addressed.isPageName_symbolSheets (h : s.Addressed listed)
    (hnames : s.registry.NamesPages) : ∀ sheet ∈ s.symbolSheets, IsPageName sheet.file := by
  intro sheet hsheet
  rw [symbolSheets, List.mem_append, List.mem_append] at hsheet
  obtain (hcontainer | hglobal) | hhome := hsheet
  · obtain ⟨⟨longname, url⟩, hurl, hsheet⟩ := List.mem_filterMap.mp hcontainer
    have hfile := file_containerSheet (s := s) longname url
    dsimp only at hsheet
    rw [hsheet, Option.map_some] at hfile
    split at hfile
    · next hopen =>
      rw [Option.some.inj hfile]
      rw [Bool.not_eq_true', List.isEmpty_eq_false_iff_exists_mem] at hopen
      obtain ⟨symbol, hsymbol⟩ := hopen
      obtain ⟨hmem, hshared⟩ := List.mem_filter.mp hsymbol
      obtain rfl := beq_iff_eq.mp (Bool.and_eq_true_iff.mp hshared).2
      obtain ⟨owner, howner⟩ := exists_shownOn listed hmem
      obtain ⟨url', hurl', hpage, hlookup⟩ := h.lookup_of_shownOn howner
      cases (Bindings.lookup_eq_some_of_mem h.sound.urls_nodup hurl).symm.trans hurl'
      rw [hpage]
      exact hnames _ (Registry.page_mem_files hlookup)
    · cases hfile
  · rw [globalSheet?] at hglobal
    split at hglobal
    · cases hglobal
    · obtain ⟨hpage, hlookup⟩ := h.globalOwner_spec
      rw [List.mem_singleton.mp hglobal]
      dsimp only
      rw [hpage]
      exact hnames _ (Registry.page_mem_files hlookup)
  · rw [List.mem_singleton.mp hhome]
    exact hnames _ List.mem_cons_self

theorem file_tutorialSheet (t : Tutorial) :
    (s.tutorialSheet? t).map (·.file) = (s.registry.tutorialUrl? t.name).map pageOfUrl := by
  rw [tutorialSheet?]
  cases s.registry.tutorialUrl? t.name <;> rfl

theorem isPageName_tutorialSheets (hnames : s.registry.NamesPages) :
    ∀ sheet ∈ s.tutorialSheets, IsPageName sheet.file := by
  intro sheet hsheet
  obtain ⟨t, -, hsheet⟩ := List.mem_filterMap.mp hsheet
  have hfile := file_tutorialSheet (s := s) t
  rw [hsheet, Option.map_some] at hfile
  obtain ⟨url, hurl, hpage⟩ := Option.map_eq_some_iff.mp hfile.symm
  rw [← hpage]
  exact hnames _ (Registry.tutorial_mem_files hurl)

theorem Addressed.isPageName_listing (h : s.Addressed listed) (hnames : s.registry.NamesPages)
    {f : Source.File} (hf : f ∈ listed) {url : String}
    (hurl : s.registry.resolve? f.title = some url) : IsPageName (pageOfUrl url) := by
  obtain ⟨url', hurl', hpage, hlookup⟩ := h.lookup_of_shownOn (shownOn_title hf)
  cases hurl.symm.trans hurl'
  rw [hpage]
  exact hnames _ (Registry.page_mem_files hlookup)

end Site

variable {P : Path → Prop} {root out directory : Path} {w : World}

namespace Disk

variable {d : Disk} {p : Path}

theorem IsTree.isEntryName_of_isFile (hd : d.IsTree) (hp : p.IsProper) (h : d.isFile p = true) :
    IsEntryName p.name := by
  have hlast : ∀ {through links here names place bytes},
      d.Leads through links here names place → d.entry? place = some (.file bytes) →
      names ≠ [] → names.getLast? ≠ some Path.up := by
    intro through links here names place bytes hleads hfile
    have hmore : ∀ {name : String} {rest : List String}, name ≠ Path.up →
        (rest ≠ [] → rest.getLast? ≠ some Path.up) → (name :: rest).getLast? ≠ some Path.up := by
      intro name rest hname hrest
      cases rest with
      | nil => exact fun heq => hname (Option.some.inj heq)
      | cons next rest =>
        rw [List.getLast?_cons_cons]
        exact hrest (List.cons_ne_nil _ _)
    induction hleads with
    | done => exact absurd rfl
    | @up _ here rest place hhere hrest ih =>
      intro _
      cases rest with
      | nil =>
        cases hrest
        rw [hd.parent_of_entry hhere] at hfile
        cases hfile
      | cons next rest =>
        rw [List.getLast?_cons_cons]
        exact ih hfile (List.cons_ne_nil _ _)
    | atLink _ hname => exact fun _ => hmore hname (absurd rfl)
    | @follow _ _ _ rest target _ _ hname _ _ _ _ ih =>
      refine fun _ => hmore hname fun hrest hup => ih hfile ?_ ?_
      · exact List.append_ne_nil_of_right_ne_nil _ hrest
      · rw [List.getLast?_append_of_ne_nil _ hrest]
        exact hup
    | down _ hname _ _ _ ih => exact fun _ => hmore hname (ih hfile)
  obtain ⟨place, bytes, hplace, hfile⟩ := isFile_iff.mp h
  obtain ⟨-, -, hleads⟩ := of_reach_ok hplace
  have hne : p.names ≠ [] := by
    intro heq
    rw [heq] at hleads
    cases hleads
    cases hfile
  have hname : p.names.getLast? = some p.name := by
    rw [name, List.getLast?_eq_some_getLast hne, Option.getD_some]
  refine ⟨hp _ (List.mem_of_getLast? hname), fun hup => ?_⟩
  exact hlast hleads hfile hne (hup ▸ hname)

end Disk

namespace Asset

/-- The files that are to be copied have names that may stand in directories. -/
theorem confined_files (directory : Path) (excluded : List String) (ignore : Option Ignore) :
    (files directory excluded ignore).Confined P fun found =>
      ∀ names ∈ found, names ≠ [] ∧ ∀ name ∈ names, IsEntryName name := by
  intro w hw
  have hreads := (reads_files directory excluded ignore).confined (P := P) w hw
  refine ⟨hreads.1, fun found hfound => ?_⟩
  obtain ⟨isDirectory, v, hlook, hfound⟩ := of_start_bind (Prod.ext hfound rfl)
  have hv : v.disk.IsTree := (reads_isDirectory directory).disk_eq hlook ▸ hw
  split at hfound
  · obtain ⟨d, _, hdisk, hfound⟩ := of_start_bind hfound
    obtain ⟨rfl, rfl⟩ := of_start_disk hdisk
    obtain ⟨hscan, -⟩ := of_start_ofExcept hfound
    obtain ⟨kept, hkept, rfl⟩ := exists_of_map_ok hscan
    intro names hnames
    obtain ⟨e, he, rfl⟩ := mem_of_keep hkept names (List.mem_mergeSort.mp hnames)
    exact hv.names_of_mem_scan he
  · obtain ⟨rfl, -⟩ := of_start_pure hfound
    exact List.forall_mem_nil _

theorem inside_isProper (hout : out.IsProper) : ∀ p, out.Inside p → p.IsProper :=
  fun _ h => h.isProper hout

variable (hout : out.IsProper)

include hout

theorem writes_copyAll (source : Path) {files : List (List String)}
    (hfiles : ∀ names ∈ files, names ≠ [] ∧ ∀ name ∈ names, IsEntryName name) :
    (copyAll source out files).Writes out.Inside := by
  have hproper := inside_isProper hout
  have hcopy : ∀ names ∈ files, out.Inside (out.below names) := fun names hnames =>
    ⟨names, (hfiles names hnames).1, (hfiles names hnames).2, rfl⟩
  refine confined_of_holds hproper (fun w => (holds_copyAll (confining hproper).logic
    fun names hnames u =>
      (confined_copy hproper _ (hcopy names hnames)).along hproper u).1) ?_
  intro w paths v h p hp
  rw [(copyAll_spec h).1] at hp
  obtain ⟨names, hnames, rfl⟩ := List.mem_map.mp hp
  exact hcopy names hnames

theorem writes_copyTheme (source : Path) : (copyTheme source out).Writes out.Inside :=
  (confined_files _ _ _).bind (inside_isProper hout) fun _ hfiles => writes_copyAll hout _ hfiles

variable (hroot : root.IsProper) (excluded : List String) (ignore : Option Ignore)

include hroot

theorem writes_copyIncluded (included : String) :
    (copyIncluded root out excluded ignore included).Writes out.Inside := by
  have hproper := inside_isProper hout
  have hfile : (Run.isFile (root.join included)).Confined out.Inside fun isFile =>
      isFile = true → IsEntryName (root.join included).name := by
    refine fun w hw => ⟨((reads_isFile _).confined w hw).1, fun isFile hstart htrue => ?_⟩
    obtain ⟨rfl, -⟩ := of_start_isFile (Prod.ext hstart rfl)
    exact hw.isEntryName_of_isFile (hroot.join included) htrue
  refine hfile.bind hproper fun isFile hname => ?_
  split
  · next hisFile =>
    split
    · exact writes_nil
    · have hcopy := inside_child out (hname hisFile)
      exact (confined_copy hproper _ hcopy).bind hproper fun _ _ =>
        confined_pure (List.forall_mem_singleton.mpr hcopy)
  · refine (reads_isDirectory _).confined.bind hproper fun isDirectory _ => ?_
    split
    · exact (confined_files _ _ _).bind hproper fun files hfiles => writes_copyAll hout _ hfiles
    · exact (reads_remark _).confined.bind hproper fun _ _ => writes_nil

theorem writes_copyAllIncluded (included : List String) :
    (copyAllIncluded root out excluded ignore included).Writes out.Inside := by
  have hproper := inside_isProper hout
  induction included with
  | nil => exact writes_nil
  | cons first included ih =>
    exact (writes_copyIncluded hout hroot excluded ignore first).bind hproper fun _ hcopied =>
      ih.append hproper hcopied

end Asset

namespace Site

variable {s : Site} {t : Page.Theme} {nav encoding : String} {raw : List Doclet}
  {listed : Source.Catalog} {settings : Settings}

theorem isEntryName_fileName (snapshot : Snapshot) : IsEntryName snapshot.fileName := by
  cases snapshot <;> decide

theorem inside_below_two (out : Path) {first last : String} (hfirst : IsEntryName first)
    (hlast : IsEntryName last) : out.Inside (out.below [first, last]) :=
  ⟨_, List.cons_ne_nil _ _,
    List.forall_mem_cons.mpr ⟨hfirst, List.forall_mem_singleton.mpr hlast⟩, rfl⟩

theorem inside_snapshot (out : Path) (snapshot : Snapshot) : out.Inside (snapshot.path out) := by
  have hdirectory : IsEntryName Snapshot.directory := by decide
  have h := inside_below_two out hdirectory (isEntryName_fileName snapshot)
  rwa [below, ← List.singleton_append, ← List.append_assoc] at h

section Host

variable [Host]

theorem writes_writeSheets (hP : ∀ p, P p → p.IsProper) {sheets : List Page.Sheet}
    (hsheets : ∀ sheet ∈ sheets, P (out.child sheet.file)) :
    (writeSheets s t nav out sheets).Writes P := by
  refine confined_of_holds hP (fun w => (holds_writeSheets (confining hP).logic
    (fun _ sheet _ _ u _ _ => (sheet.reads_draw t nav).confined.alike hP u)
    fun sheet hsheet u bytes =>
      (Run.confined_write hP (hsheets sheet hsheet) bytes).along hP u).1) ?_
  intro w paths v h p hp
  rw [(writeSheets_spec h).1, List.map_map] at hp
  obtain ⟨sheet, hsheet, rfl⟩ := List.mem_map.mp hp
  exact hsheets sheet hsheet

/-- A run that writes listings at some paths only, and answers with such paths. -/
abbrev WritesListings (P : Path → Prop) (x : Run (List Path × Nat)) : Prop :=
  x.Confined P fun result => ∀ p ∈ result.1, P p

theorem writes_writeListings (hP : ∀ p, P p → p.IsProper) {files : Source.Catalog}
    (hfiles : ∀ f ∈ files, ∀ url, s.registry.resolve? f.title = some url →
      P (out.child (pageOfUrl url))) :
    WritesListings P (writeListings s root out t nav encoding files) := by
  refine confined_of_holds hP (fun w => (holds_writeListings (confining hP).logic
    (fun f _ u => (reads_readSource root encoding f).confined.alike hP u)
    (fun _ _ _ _ _ _ _ v _ _ _ _ => (Page.Sheet.reads_draw t nav _).confined.alike hP v)
    fun f hf url hurl u bytes =>
      (Run.confined_write hP (hfiles f hf url hurl) bytes).along hP u).1) ?_
  intro w result v h p hp
  obtain ⟨⟨shown, hshown, hpaths⟩, -⟩ := writeListings_spec h
  rw [hpaths] at hp
  obtain ⟨file, hfile, rfl⟩ := List.mem_map.mp hp
  obtain ⟨f, hf, hfile⟩ := List.mem_filterMap.mp hfile
  obtain ⟨url, hurl, rfl⟩ := Option.map_eq_some_iff.mp hfile
  exact hfiles f (hshown.mem hf) url hurl

/-- The files of a site's pages are names of pages. -/
structure NamesPages (s : Site) (listed : Source.Catalog) : Prop where
  symbol : ∀ sheet ∈ s.symbolSheets, IsPageName sheet.file
  tutorial : ∀ sheet ∈ s.tutorialSheets, IsPageName sheet.file
  listing : ∀ f ∈ listed, ∀ url, s.registry.resolve? f.title = some url →
    IsPageName (pageOfUrl url)

theorem namesPages_of_load {input : Path} {tutorials : Option Path} {w w' : World}
    (h : (load root input settings tutorials raw).start w = (.ok s, w')) :
    s.NamesPages (Site.listed settings s.sources) := by
  obtain ⟨symbols, sources, ts, hsite, -⟩ := load_spec h
  have haddressed := addressed_of_ofSymbols hsite
  have hnames := namesPages_of_ofSymbols hsite
  exact ⟨haddressed.isPageName_symbolSheets hnames, isPageName_tutorialSheets hnames,
    fun f hf url hurl => haddressed.isPageName_listing hnames hf hurl⟩

section Generators

variable (hs : s.NamesPages listed) (hout : out.IsProper)

include hs hout

theorem NamesPages.writes_symbolSheets :
    (writeSheets s t nav out s.symbolSheets).Writes (IsPageIn out) :=
  writes_writeSheets (fun _ => IsPageIn.isProper hout) fun sheet hsheet =>
    ⟨_, hs.symbol sheet hsheet, rfl⟩

theorem NamesPages.writes_tutorialSheets :
    (writeSheets s t nav out s.tutorialSheets).Writes (IsPageIn out) :=
  writes_writeSheets (fun _ => IsPageIn.isProper hout) fun sheet hsheet =>
    ⟨_, hs.tutorial sheet hsheet, rfl⟩

theorem NamesPages.writes_listings :
    WritesListings (IsPageIn out) (writeListings s root out t nav encoding listed) :=
  writes_writeListings (fun _ => IsPageIn.isProper hout) fun f hf url hurl =>
    ⟨_, hs.listing f hf url hurl, rfl⟩

end Generators

omit [Host] in
theorem writes_inside {x : Run (List Path)} (hx : x.Writes (IsPageIn out)) :
    x.Writes out.Inside :=
  hx.mono (fun _ => IsPageIn.inside) fun _ hpaths p hp => IsPageIn.inside (hpaths p hp)

variable (hout : out.IsProper)

include hout

theorem writes_writeSnapshots (raw : List Doclet) (snapshots : List Snapshot) :
    (writeSnapshots s raw out snapshots).Writes out.Inside := by
  have hproper := Asset.inside_isProper hout
  have hdirectory : out.Inside ((out.child Snapshot.directory).below []) := by
    rw [below_nil]
    exact inside_child out (by decide)
  refine confined_of_holds hproper (fun w => (holds_writeSnapshots (confining hproper).logic
    (fun u => (confined_makeDirectories hdirectory).along hproper u)
    (fun _ _ u => (reads_ofExcept Failure.misfit _).confined.alike hproper u)
    fun x _ u bytes =>
      (Run.confined_write hproper (inside_snapshot out x) bytes).along hproper u).1) ?_
  intro w paths v h p hp
  rw [(writeSnapshots_spec h).1] at hp
  obtain ⟨x, -, rfl⟩ := List.mem_map.mp hp
  exact inside_snapshot out x

variable (hroot : root.IsProper)

include hroot

theorem writes_writeStatic (files : StaticFiles) :
    (writeStatic root out t files).Writes out.Inside := by
  have hproper := Asset.inside_isProper hout
  have hstatic : (Asset.copyStatic root out files).Writes out.Inside :=
    (Asset.reads_ignoreRules root).confined.bind hproper fun ignore _ =>
      Asset.writes_copyAllIncluded hout hroot _ ignore _
  rw [writeStatic]
  dsimp only
  split
  · exact (Asset.writes_copyTheme hout _).bind hproper fun _ hcopies =>
      hstatic.append hproper hcopies
  · have hstyle : out.Inside (out.below [Page.styleDirectory, Page.styleName]) :=
      inside_below_two out (by decide) (by decide)
    exact (Run.confined_write hproper hstyle _).bind hproper fun _ _ =>
      hstatic.append hproper (List.forall_mem_singleton.mpr hstyle)

theorem NamesPages.confined_write (hs : s.NamesPages (Site.listed settings s.sources)) :
    (s.write raw settings root out).Confined out.Inside fun summary =>
      ∀ p ∈ summary.written out, out.Inside p := by
  have hproper := Asset.inside_isProper hout
  refine (writes_writeSnapshots hout raw _).bind hproper fun snapshots hsnapshots => ?_
  refine (writes_inside (hs.writes_symbolSheets hout)).bind hproper fun pages hpages => ?_
  refine (reads_remark _).confined.bind hproper fun _ _ => ?_
  refine (reads_remark _).confined.bind hproper fun _ _ => ?_
  refine (writes_inside (hs.writes_tutorialSheets hout)).bind hproper fun tutorials htutorials => ?_
  refine (reads_remark _).confined.bind hproper fun _ _ => ?_
  refine (writes_writeStatic hout hroot _).bind hproper fun statics hstatics => ?_
  refine (reads_remark _).confined.bind hproper fun _ _ => ?_
  have hall : ∀ p ∈ snapshots ++ pages ++ tutorials ++ statics, out.Inside p := by
    simp only [List.forall_mem_append]
    exact ⟨⟨⟨hsnapshots, hpages⟩, htutorials⟩, hstatics⟩
  split
  · next hsources =>
    have hstyle : out.Inside (out.below [Page.styleDirectory, Page.listingStyleName]) :=
      inside_below_two out (by decide) (by decide)
    rw [listed, if_pos hsources] at hs
    have hsourcesWritten : WritesListings out.Inside
        (writeSources s root out (themeOf root settings) (Nav.markup s.nav) settings.encoding) :=
      (Run.Confined.mono (hs.writes_listings hout) (fun _ => IsPageIn.inside)
        fun _ hpaths p hp => IsPageIn.inside (hpaths p hp)).bind hproper fun _ hpaths =>
          (Run.confined_write hproper hstyle _).bind hproper fun _ _ => confined_pure hpaths
    refine hsourcesWritten.bind hproper fun listings hlistings => ?_
    refine (reads_remark _).confined.bind hproper fun _ _ => confined_pure ?_
    change ∀ p ∈ (snapshots ++ pages ++ tutorials ++ statics ++ listings.1) ++
      [out.below [Page.styleDirectory, Page.listingStyleName]], out.Inside p
    rw [List.forall_mem_append, List.forall_mem_append]
    exact ⟨⟨hall, hlistings⟩, List.forall_mem_singleton.mpr hstyle⟩
  · refine confined_pure ?_
    change ∀ p ∈ (snapshots ++ pages ++ tutorials ++ statics) ++ [], out.Inside p
    rwa [List.append_nil]

end Host

end Site

theorem Disk.within_of_resolveDestination {d : Disk} {destination : String}
    (hroot : root.IsProper) (h : Settings.resolveDestination d root destination = .ok directory) :
    (d.resolve root).Within directory := by
  unfold Settings.resolveDestination at h
  split at h
  · cases h
  · split at h
    · cases h
    · split at h
      · cases h
      · dsimp only at h
        split at h
        · next hbelow =>
          cases h
          obtain ⟨-, habove⟩ := Bool.and_eq_true_iff.mp hbelow
          obtain ⟨names, hnames⟩ := List.isPrefixOf_iff_prefix.mp habove
          have hproper := (isProper_resolve (d := d) hroot).join destination
          refine ⟨names, fun name hname => ?_, congrArg (Path.mk false) hnames.symm⟩
          refine isEntryName_resolve (d := d) hproper name ?_
          rw [← hnames]
          exact List.mem_append_right _ hname
        · cases h

/-- A directory that a destination names is the root or lies in it, once all links are followed. -/
theorem within_of_destinationOf {destination : String} {w' : World} (hroot : root.IsProper)
    (h : (Settings.destinationOf root destination).start w = (.ok directory, w')) :
    (w.disk.resolve root).Within directory := by
  rw [Settings.destinationOf] at h
  dsimp only at h
  split at h
  · cases h
  · obtain ⟨d, _, hdisk, h⟩ := of_start_bind h
    obtain ⟨rfl, rfl⟩ := of_start_disk hdisk
    exact Disk.within_of_resolveDestination hroot (of_start_ofExcept h).1

namespace Site

variable {s : Site} {input : Path} {out : Option Path} {settings : Settings}
  {given : Option Settings} {tutorials : Option Path} {raw : List Doclet}

/-- What a run has done that publishes to some directory: all that it writes is inside. Where there
is no such directory it writes nothing. -/
structure KeepsTo (d : Disk) (output : Except Failure Path)
    (x : Except Failure Published × World) : Prop where
  untouched : ∀ f, output = .error f → x.2.disk = d
  steps : ∀ directory, output = .ok directory → d.Steps directory.Inside x.2.disk
  written : ∀ directory summary, output = .ok directory → x.1 = .ok (.written summary) →
    ∀ p ∈ summary.written directory, directory.Inside p

section Host

variable [Host]

omit [Host] in
/-- A run that leaves the disk alone and writes no site keeps to anything. -/
theorem keepsTo_of_disk {d : Disk} {output : Except Failure Path}
    {result : Except Failure Published} {v : World} (hdisk : v.disk = d)
    (hresult : ∀ summary, result ≠ .ok (.written summary)) : KeepsTo d output (result, v) :=
  ⟨fun _ _ => hdisk, fun _ _ => by rw [hdisk]; exact .refl d,
    fun _ summary _ h => absurd h (hresult summary)⟩

theorem NamesPages.keepsTo_write (hs : s.NamesPages (listed settings s.sources))
    (hroot : root.IsProper) (hdirectory : directory.IsProper) {v : World} (hv : v.disk.IsTree) :
    KeepsTo v.disk (.ok directory)
      ((do return Published.written (← s.write raw settings root directory)).start v) := by
  have hconfined : (s.write raw settings root directory).Confined directory.Inside _ :=
    hs.confined_write hdirectory hroot
  obtain ⟨hsteps, hpaths⟩ := hconfined v hv
  rw [Run.start_bind]
  cases hrun : (s.write raw settings root directory).start v with
  | mk result v' =>
    rw [hrun] at hsteps hpaths
    cases result with
    | error e =>
      refine ⟨nofun, ?_, nofun⟩
      rintro _ ⟨⟩
      exact hsteps
    | ok summary =>
      refine ⟨nofun, ?_, ?_⟩
      · rintro _ ⟨⟩
        exact hsteps
      · rintro _ _ ⟨⟩ ⟨⟩
        exact hpaths summary rfl

theorem NamesPages.keepsTo_deliver (hs : s.NamesPages (listed settings s.sources))
    (hroot : root.IsProper) (hout : ∀ p ∈ out, p.IsProper) {u v : World} (hv : v.disk.IsTree)
    (hu : u.disk = v.disk) :
    KeepsTo v.disk ((outputOf root out (some settings)).start u).1
      ((s.deliver raw root out settings).start v) := by
  unfold deliver
  cases out with
  | some directory => exact hs.keepsTo_write hroot (hout directory rfl) hv
  | none =>
    cases settings.toConsole with
    | true =>
      have hreads : (do
          Run.print ((← jsonText s.docs) ++ "\n")
          return Published.printed s.symbols.length : Run Published).Reads :=
        (reads_ofExcept _ _).bind fun _ => (reads_print _).bind fun _ => reads_pure _
      refine keepsTo_of_disk (hreads v) fun summary hwritten => ?_
      obtain ⟨_, _, -, h⟩ := of_start_bind (Prod.ext hwritten rfl)
      obtain ⟨_, _, -, h⟩ := of_start_bind h
      cases (of_start_pure h).1
    | false =>
      dsimp only
      rw [Run.start_bind]
      cases hrun : (Settings.destinationOf root settings.destination).start v with
      | mk result v' =>
        cases result with
        | error e =>
          exact keepsTo_of_disk ((Settings.reads_destinationOf root _).disk_eq hrun) nofun
        | ok directory =>
          obtain ⟨rfl, hanywhere⟩ := Settings.of_destinationOf hrun
          have houtput : ((outputOf root none (some settings)).start u).1 = .ok directory :=
            congrArg Prod.fst (hanywhere u hu)
          have hproper : directory.IsProper :=
            (within_of_destinationOf hroot hrun).isProper (Disk.isProper_resolve hroot)
          rw [houtput]
          exact hs.keepsTo_write hroot hproper hv

theorem keepsTo_publish_given (hroot : root.IsProper) (hout : ∀ p ∈ out, p.IsProper)
    (hw : w.disk.IsTree) : KeepsTo w.disk ((outputOf root out (some settings)).start w).1
      ((publish root input out (some settings) tutorials).start w) := by
  rw [publish_given_eq, Run.start_bind]
  cases hraw : (Doclet.load input).start w with
  | mk result u =>
    have hu : u.disk = w.disk := (Doclet.reads_load input).disk_eq hraw
    cases result with
    | error e => exact keepsTo_of_disk hu nofun
    | ok raw =>
      dsimp only
      rw [Run.start_bind]
      cases hload : (load root input settings tutorials raw).start u with
      | mk result v =>
        have hv : v.disk = w.disk := ((reads_load _ _ _ _ _).disk_eq hload).trans hu
        cases result with
        | error e => exact keepsTo_of_disk hv nofun
        | ok s =>
          dsimp only
          rw [← hv] at hw ⊢
          exact (namesPages_of_load hload).keepsTo_deliver hroot hout hw hv.symm

theorem keepsTo_publish (hroot : root.IsProper) (hout : ∀ p ∈ out, p.IsProper)
    (hw : w.disk.IsTree) : KeepsTo w.disk ((outputOf root out given).start w).1
      ((publish root input out given tutorials).start w) := by
  rw [publish_eq, Run.start_bind]
  cases hgiven : (settingsOf root given).start w with
  | mk result u =>
    have hu : u.disk = w.disk := (reads_settingsOf root given).disk_eq hgiven
    cases result with
    | error e => exact keepsTo_of_disk hu nofun
    | ok settings =>
      rw [start_outputOf hgiven, ← hu]
      exact keepsTo_publish_given hroot hout (hu ▸ hw)

omit [Host] in
theorem within_of_outputOf (hroot : root.IsProper)
    (h : ((outputOf root none given).start w).1 = .ok directory) :
    (w.disk.resolve root).Within directory := by
  have heq : outputOf root none given = settingsOf root given >>= fun settings =>
      Settings.destinationOf root settings.destination := by
    cases given <;> rfl
  rw [heq] at h
  obtain ⟨settings, u, hsettings, hdirectory⟩ := of_start_bind (Prod.ext h rfl)
  have hu : u.disk = w.disk := (reads_settingsOf root given).disk_eq hsettings
  rw [← hu]
  exact within_of_destinationOf hroot hdirectory

/-- Whatever a run that publishes is given, it writes inside the directory that it publishes to and
nowhere else, also where it fails; where there is none, it writes nothing. A directory that the
settings name lies in the root once links are followed. Where no link stands on the way to the
directory or in it, nothing changes outside but for directories that are made on the way. The pages
of symbols, tutorials and source files stand in the directory itself, under names that end alike and
hold no mark that means something elsewhere. -/
theorem publish_stays_inside (root input : Path) (out : Option Path) (given : Option Settings)
    (tutorials : Option Path) (w : World) (hroot : root.IsProper) (hout : ∀ p ∈ out, p.IsProper)
    (hw : w.disk.IsTree) :
    KeepsTo w.disk ((outputOf root out given).start w).1
      ((publish root input out given tutorials).start w) ∧
    (∀ directory, ((outputOf root out given).start w).1 = .ok directory →
      (out = none → (∀ name ∈ directory.names, name ≠ Path.up) ∧
        (w.disk.resolve root).Within directory ∧ w.disk.Steps (w.disk.resolve root).Inside
          ((publish root input out given tutorials).start w).2.disk) ∧
      ((∀ name ∈ directory.names, name ≠ Path.up) → w.disk.IsClear directory.names →
        Disk.KeepsOutside directory.names w.disk
          ((publish root input out given tutorials).start w).2.disk)) ∧
    ∀ settings raw s u v, (load root input settings tutorials raw).start u = (.ok s, v) →
      ∀ t nav encoding directory, directory.IsProper →
        (writeSheets s t nav directory s.symbolSheets).Writes (IsPageIn directory) ∧
        (writeSheets s t nav directory s.tutorialSheets).Writes (IsPageIn directory) ∧
        WritesListings (IsPageIn directory) (writeListings s root directory t nav encoding
          (listed settings s.sources)) := by
  have hkeeps : KeepsTo w.disk ((outputOf root out given).start w).1
      ((publish root input out given tutorials).start w) := keepsTo_publish hroot hout hw
  refine ⟨hkeeps, fun directory hdirectory => ⟨?_, fun hup hclear => ?_⟩, ?_⟩
  · rintro rfl
    have hwithin := within_of_outputOf hroot hdirectory
    refine ⟨?_, hwithin, (hkeeps.steps _ hdirectory).mono fun _ => hwithin.inside⟩
    obtain ⟨names, hnames, rfl⟩ := hwithin
    exact List.forall_mem_append.mpr
      ⟨fun name hname => (Disk.isEntryName_resolve hroot name hname).2,
        fun name hname => (hnames name hname).2⟩
  · exact ((hkeeps.steps _ hdirectory).inside hup hclear).2
  · intro settings raw s u v hload t nav encoding directory hproper
    have hs := namesPages_of_load hload
    exact ⟨hs.writes_symbolSheets hproper, hs.writes_tutorialSheets hproper,
      hs.writes_listings hproper⟩

end Host

section Plain

open scoped Plain

/-- Names that look like ways out of a directory lead nowhere else. -/
theorem hostileProject_stays_inside : ∃ summary w',
    (publish .top dumpPath (some sitePath) none none).start hostileProject =
      (.ok (.written summary), w') ∧
    sitePath.child "._a%2fb.html" ∈ summary.artifacts ∧
    (∀ p ∈ summary.written sitePath, sitePath.Inside p) ∧
    hostileProject.disk.Steps sitePath.Inside w'.disk ∧
    w'.disk.entry? dumpPath.names = hostileProject.disk.entry? dumpPath.names := by
  obtain ⟨summary, w', hpublish, hpage, -⟩ := exists_published_hostileProject
  obtain ⟨hkeeps, houtside, -⟩ := publish_stays_inside .top dumpPath (some sitePath) none none
    hostileProject (by decide) (fun p hp => Option.some.inj hp ▸ by decide) (by decide)
  have houtput : ((outputOf .top (some sitePath) none).start hostileProject).1 = .ok sitePath := by
    have hsettings : (settingsOf .top none).start hostileProject = (.ok .standard, hostileProject) :=
      start_load_hostileProject
    rw [start_outputOf hsettings]
    rfl
  rw [hpublish] at hkeeps houtside
  have hclear : hostileProject.disk.IsClear sitePath.names :=
    Disk.isClear_of_entries (by simp [hostileProject]) _
  refine ⟨summary, w', hpublish, hpage, hkeeps.written _ _ houtput rfl, hkeeps.steps _ houtput, ?_⟩
  refine (((houtside _ houtput).2 (by decide) hclear) _ (.inl (by decide))).resolve_right ?_
  exact fun h => absurd h.1 (by decide)

end Plain

end Site

end Refsite
