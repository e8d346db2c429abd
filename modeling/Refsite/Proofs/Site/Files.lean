import Refsite.Page.Sheet
import Refsite.Proofs.Site.Decorate
import Refsite.Proofs.Site.OwnPage
import Refsite.Proofs.Tutorial.Forest
namespace Refsite.Site

open Registry

/-- The longname on whose page a longname is shown: a listing has a page of its own, and of the
symbols with that longname the last one counts. -/
def shownOn? (s : Site) (listed : Source.Catalog) (longname : String) : Option String :=
  if longname ∈ listed.map Source.File.title then some longname
  else (s.symbols.filter (·.longname == longname)).getLast?.map Symbol.owner

def containers (s : Site) : List String := (s.symbols.filter (·.kind.hasPage)).map (·.longname)

def globalOwner (s : Site) (listed : Source.Catalog) : String :=
  (s.shownOn? listed globalName).getD globalName

/-- The longnames whose pages are written, given the listings that are. -/
def pageOwners (s : Site) (listed shown : Source.Catalog) : List String :=
  s.containers ++ (if s.members.globals.isEmpty then [] else [s.globalOwner listed]) ++
    shown.map Source.File.title

def containerFiles (s : Site) : List String :=
  (s.registry.urls.filterMap fun (longname, url) => s.containerSheet? longname url).map (·.file)

def listingFile? (s : Site) (f : Source.File) : Option String :=
  (s.registry.resolve? f.title).map pageOfUrl

def listingFiles (s : Site) (shown : Source.Catalog) : List String :=
  shown.filterMap s.listingFile?

def sheetFiles (s : Site) : List String := (s.symbolSheets ++ s.tutorialSheets).map (·.file)

def files (s : Site) (shown : Source.Catalog) : List String := s.sheetFiles ++ s.listingFiles shown

/-- What the addresses of a site are like, whatever it was made of. -/
structure Addressed (s : Site) (listed : Source.Catalog) : Prop where
  sound : s.registry.Sound
  /-- A longname leads to the page on which it is shown. -/
  url : ∀ longname owner, s.shownOn? listed longname = some owner →
    ∃ url, s.registry.urls.lookup longname = some url ∧
      s.registry.pages.lookup owner = some (pageOfUrl url)
  /-- What is not shown anywhere is bound as it was from the start. -/
  kept : ∀ longname url, s.shownOn? listed longname = none →
    initial.urls.lookup longname = some url → s.registry.urls.lookup longname = some url
  globalPage : s.registry.pages.lookup globalName = some globalUrl
  tutorial : ∀ t ∈ Tutorial.walkAll s.tutorials,
    ∃ url, s.registry.tutorials.lookup t.name = some url

theorem lastOwner_eq (symbols : List Symbol) (longname : String) :
    (symbols.filter (·.longname == longname)).getLast?.map Symbol.owner =
      (((symbols.map Symbol.standing).filter (·.longname == longname)).getLast?).map (·.owner) := by
  rw [List.filter_map, List.getLast?_map, Option.map_map]
  rfl

theorem shownOn_eq {s : Site} {symbols : List Symbol}
    (h : s.symbols.map Symbol.standing = symbols.map Symbol.standing) (listed : Source.Catalog)
    (longname : String) :
    s.shownOn? listed longname =
      (Placement.last? (Placement.all symbols listed) longname).map (·.owner) := by
  rw [shownOn?]
  split
  · next htitle =>
    obtain ⟨f, hf, hlast⟩ := Placement.last_all_of_title symbols htitle
    rw [hlast, Option.map_some]
    exact congrArg some hf.symm
  · next htitle =>
    rw [Placement.last_all_of_not_title symbols htitle, Option.map_map, lastOwner_eq, h,
      ← lastOwner_eq]
    rfl

theorem addressed_of_ofSymbols {settings : Settings} {sources : Source.Catalog}
    {tutorials : List Tutorial} {symbols : List Symbol} {s : Site}
    (h : ofSymbols settings sources tutorials symbols = .ok s) :
    s.Addressed (listed settings s.sources) := by
  obtain ⟨hpop, hstanding, hsources, htutorials, -⟩ := ofSymbols_spec h
  obtain ⟨r, hpop', hr⟩ := populate_spec symbols (listed settings sources) tutorials
  cases hpop.symm.trans hpop'
  rw [hsources]
  refine ⟨hr.sound, ?_, ?_, hr.globalPage, htutorials ▸ hr.tutorial⟩
  · intro longname owner howner
    rw [shownOn_eq hstanding] at howner
    obtain ⟨p, hp, rfl⟩ := Option.map_eq_some_iff.mp howner
    exact hr.page_of_url hp
  · intro longname url hnone hurl
    rw [shownOn_eq hstanding, Option.map_eq_none_iff, Placement.last?, List.getLast?_eq_none_iff,
      List.filter_eq_nil_iff] at hnone
    refine hr.kept ?_ hurl
    intro hmem
    obtain ⟨p, hp, hkey⟩ := List.mem_map.mp hmem
    exact hnone p hp (beq_iff_eq.mpr hkey)

def pageFile (s : Site) (longname : String) : String :=
  (s.registry.pages.lookup longname).getD ""

def tutorialFile (s : Site) (name : String) : String :=
  ((s.registry.tutorials.lookup name).map pageOfUrl).getD ""

/-- The containers in the order in which their pages are written. -/
def openedContainers (s : Site) : List String :=
  (s.registry.urls.filter fun e => !(s.sharing e.1).isEmpty).map (·.1)

section Pages

variable {s : Site} {listed shown : Source.Catalog}

theorem shownOn_title {f : Source.File} (h : f ∈ listed) :
    s.shownOn? listed f.title = some f.title := by
  rw [shownOn?, if_pos (List.mem_map_of_mem h)]

theorem shownOn_container (hnames : (s.symbols.map (·.longname)).Nodup) {longname : String}
    (h : longname ∈ s.containers) : s.shownOn? listed longname = some longname := by
  obtain ⟨c, hc, rfl⟩ := List.mem_map.mp h
  obtain ⟨hmem, hkind⟩ := List.mem_filter.mp hc
  rw [shownOn?]
  split
  · rfl
  · obtain ⟨t, ht, hname, hlast⟩ := Placement.exists_getLast_filter
      (p := (·.longname == c.longname)) hmem (beq_self_eq_true _)
    have heq := List.inj_on_of_nodup_map hnames ht hmem (beq_iff_eq.mp hname)
    rw [hlast, heq, Option.map_some, Symbol.owner_of_hasPage hkind]

theorem Addressed.lookup_of_shownOn (h : s.Addressed listed) {longname owner : String}
    (howner : s.shownOn? listed longname = some owner) :
    ∃ url, s.registry.urls.lookup longname = some url ∧ pageOfUrl url = s.pageFile owner ∧
      s.registry.pages.lookup owner = some (s.pageFile owner) := by
  obtain ⟨url, hurl, hpage⟩ := h.url longname owner howner
  have hfile : s.pageFile owner = pageOfUrl url := by
    rw [pageFile, hpage, Option.getD_some]
  exact ⟨url, hurl, hfile.symm, hfile ▸ hpage⟩

theorem Addressed.globalOwner_spec (h : s.Addressed listed) :
    pageOfUrl ((s.registry.resolve? globalName).getD globalUrl) =
        s.pageFile (s.globalOwner listed) ∧
      s.registry.pages.lookup (s.globalOwner listed) =
        some (s.pageFile (s.globalOwner listed)) := by
  rw [globalOwner, resolve?]
  cases howner : s.shownOn? listed globalName with
  | some owner =>
    obtain ⟨url, hurl, hfile, hpage⟩ := h.lookup_of_shownOn howner
    rw [hurl]
    exact ⟨hfile, hpage⟩
  | none =>
    have hfile : s.pageFile globalName = globalUrl := by
      rw [pageFile, h.globalPage, Option.getD_some]
    rw [h.kept globalName globalUrl howner rfl, Option.getD_none, hfile]
    exact ⟨by decide, h.globalPage⟩

theorem mem_openedContainers {longname : String} :
    longname ∈ s.openedContainers ↔
      longname ∈ s.registry.urls.keys ∧ longname ∈ s.containers := by
  have hsharing : (!(s.sharing longname).isEmpty) = true ↔ longname ∈ s.containers := by
    rw [Bool.not_eq_true', List.isEmpty_eq_false_iff_exists_mem]
    constructor
    · rintro ⟨c, hc⟩
      obtain ⟨hmem, hboth⟩ := List.mem_filter.mp hc
      rw [Bool.and_eq_true] at hboth
      exact List.mem_map.mpr ⟨c, List.mem_filter.mpr ⟨hmem, hboth.1⟩, beq_iff_eq.mp hboth.2⟩
    · intro h
      obtain ⟨c, hc, rfl⟩ := List.mem_map.mp h
      obtain ⟨hmem, hkind⟩ := List.mem_filter.mp hc
      refine ⟨c, List.mem_filter.mpr ⟨hmem, ?_⟩⟩
      rw [hkind, beq_self_eq_true, Bool.and_self]
  rw [openedContainers, List.mem_map]
  constructor
  · rintro ⟨e, he, rfl⟩
    obtain ⟨hmem, hopen⟩ := List.mem_filter.mp he
    exact ⟨List.mem_map_of_mem hmem, hsharing.mp hopen⟩
  · rintro ⟨hkey, hcontainer⟩
    obtain ⟨e, he, rfl⟩ := List.mem_map.mp hkey
    exact ⟨e, List.mem_filter.mpr ⟨he, hsharing.mpr hcontainer⟩, rfl⟩

theorem Addressed.openedContainers_perm (h : s.Addressed listed)
    (hnames : (s.symbols.map (·.longname)).Nodup) : s.openedContainers.Perm s.containers := by
  have hopened : s.openedContainers.Nodup :=
    (List.filter_sublist.map Prod.fst).nodup h.sound.urls_nodup
  have hcontainers : s.containers.Nodup := (List.filter_sublist.map Symbol.longname).nodup hnames
  apply (List.perm_ext_iff_of_nodup hopened hcontainers).mpr
  intro longname
  rw [mem_openedContainers]
  constructor
  · exact And.right
  · intro hmem
    obtain ⟨url, hurl, -⟩ := h.lookup_of_shownOn (shownOn_container hnames hmem)
    exact ⟨List.mem_map_of_mem (f := Prod.fst) (Bindings.mem_of_lookup hurl), hmem⟩

theorem file_containerSheet (longname url : String) :
    (s.containerSheet? longname url).map (·.file) =
      if !(s.sharing longname).isEmpty then some (pageOfUrl url) else none := by
  rw [containerSheet?]
  cases s.sharing longname <;> rfl

theorem Addressed.containerFiles_eq (h : s.Addressed listed)
    (hnames : (s.symbols.map (·.longname)).Nodup) :
    s.containerFiles = s.openedContainers.map s.pageFile := by
  rw [containerFiles, List.map_filterMap, openedContainers, List.map_map, ← List.filterMap_eq_map',
    List.filterMap_filter]
  apply List.filterMap_congr
  rintro ⟨longname, url⟩ he
  rw [file_containerSheet]
  split
  · next hopen =>
    have hmem : longname ∈ s.openedContainers :=
      List.mem_map.mpr ⟨_, List.mem_filter.mpr ⟨he, hopen⟩, rfl⟩
    obtain ⟨url', hurl, hfile, -⟩ :=
      h.lookup_of_shownOn (shownOn_container hnames (mem_openedContainers.mp hmem).2)
    cases (Bindings.lookup_eq_some_of_mem h.sound.urls_nodup he).symm.trans hurl
    exact congrArg some hfile
  · rfl

theorem Addressed.globalFile_eq (h : s.Addressed listed) :
    s.globalSheet?.toList.map (·.file) =
      (if s.members.globals.isEmpty then [] else [s.globalOwner listed]).map s.pageFile := by
  rw [globalSheet?]
  split
  · rfl
  · exact congrArg ([·]) h.globalOwner_spec.1

theorem Addressed.listingFiles_eq (h : s.Addressed listed) (hshown : shown ⊆ listed) :
    s.listingFiles shown = (shown.map Source.File.title).map s.pageFile := by
  rw [listingFiles, List.map_map, List.filterMap_eq_map_iff_forall_eq_some]
  intro f hf
  obtain ⟨url, hurl, hfile, -⟩ := h.lookup_of_shownOn (shownOn_title (hshown hf))
  rw [listingFile?, resolve?, hurl]
  exact congrArg some hfile

theorem Addressed.tutorialFile_spec (h : s.Addressed listed) {name : String}
    (hname : name ∈ Tutorial.namesOfAll s.tutorials) :
    ∃ url, s.registry.tutorials.lookup name = some url ∧ s.tutorialFile name = pageOfUrl url := by
  obtain ⟨t, ht, rfl⟩ := List.mem_map.mp hname
  obtain ⟨url, hurl⟩ := h.tutorial t ht
  refine ⟨url, hurl, ?_⟩
  rw [tutorialFile, hurl]
  rfl

theorem Addressed.tutorialFiles_eq (h : s.Addressed listed) :
    s.tutorialSheets.map (·.file) =
      (Tutorial.namesOfAll s.tutorials).map s.tutorialFile := by
  rw [tutorialSheets, List.map_filterMap, Tutorial.namesOfAll, List.map_map,
    List.filterMap_eq_map_iff_forall_eq_some]
  intro t ht
  obtain ⟨url, hurl, hfile⟩ := h.tutorialFile_spec (List.mem_map_of_mem ht)
  rw [tutorialSheet?, tutorialUrl?, hurl, Function.comp_apply, hfile]
  rfl

theorem Addressed.pages_lookup (h : s.Addressed listed)
    (hnames : (s.symbols.map (·.longname)).Nodup) (hshown : shown ⊆ listed) {owner : String}
    (howner : owner ∈ s.pageOwners listed shown) :
    s.registry.pages.lookup owner = some (s.pageFile owner) := by
  rw [pageOwners, List.mem_append, List.mem_append] at howner
  obtain (hcontainer | hglobal) | htitle := howner
  · obtain ⟨_, -, -, hpage⟩ := h.lookup_of_shownOn (shownOn_container hnames hcontainer)
    exact hpage
  · split at hglobal
    · cases hglobal
    · rw [List.mem_singleton.mp hglobal]
      exact h.globalOwner_spec.2
  · obtain ⟨f, hf, rfl⟩ := List.mem_map.mp htitle
    obtain ⟨_, -, -, hpage⟩ := h.lookup_of_shownOn (shownOn_title (hshown hf))
    exact hpage

theorem Addressed.files_perm (h : s.Addressed listed)
    (hnames : (s.symbols.map (·.longname)).Nodup) (hshown : shown ⊆ listed) :
    (s.files shown).Perm ((s.pageOwners listed shown).map s.pageFile ++
      indexUrl :: (Tutorial.namesOfAll s.tutorials).map s.tutorialFile) := by
  rw [files, sheetFiles, symbolSheets, List.map_append, List.map_append, List.map_append,
    h.globalFile_eq, h.tutorialFiles_eq, h.listingFiles_eq hshown, pageOwners, List.map_append,
    List.map_append]
  have hcontainers : s.containerFiles.Perm (s.containers.map s.pageFile) :=
    h.containerFiles_eq hnames ▸ (h.openedContainers_perm hnames).map s.pageFile
  generalize (if s.members.globals.isEmpty then [] else [s.globalOwner listed]).map s.pageFile = gs
  generalize (shown.map Source.File.title).map s.pageFile = ls
  generalize (Tutorial.namesOfAll s.tutorials).map s.tutorialFile = ts
  calc
    _ = s.containerFiles ++ gs ++ (indexUrl :: ts ++ ls) := by
      rw [containerFiles, List.append_assoc (_ ++ gs), List.append_assoc (_ ++ gs)]
      rfl
    List.Perm _ (s.containers.map s.pageFile ++ gs ++ (ls ++ indexUrl :: ts)) :=
      (hcontainers.append_right gs).append List.perm_append_comm
    _ = _ := (List.append_assoc _ _ _).symm

theorem Addressed.nodup_tutorialFiles (h : s.Addressed listed)
    (htutorials : (Tutorial.namesOfAll s.tutorials).Nodup) :
    ((Tutorial.namesOfAll s.tutorials).map s.tutorialFile).Nodup := by
  apply htutorials.map_on
  intro name hname other hother heq
  obtain ⟨url, hurl, hfile⟩ := h.tutorialFile_spec hname
  obtain ⟨url', hurl', hfile'⟩ := h.tutorialFile_spec hother
  rw [hfile, hfile'] at heq
  exact h.sound.tutorial_inj hurl hurl' heq

/-- The files lie apart exactly if no longname has its page written twice. -/
theorem Addressed.nodup_files_iff (h : s.Addressed listed)
    (hnames : (s.symbols.map (·.longname)).Nodup)
    (htutorials : (Tutorial.namesOfAll s.tutorials).Nodup) (hshown : shown ⊆ listed) :
    (s.files shown).Nodup ↔ (s.pageOwners listed shown).Nodup := by
  rw [(h.files_perm hnames hshown).nodup_iff]
  constructor
  · intro hnodup
    exact List.Nodup.of_map s.pageFile (List.nodup_append.mp hnodup).1
  · intro howners
    refine List.nodup_append.mpr
      ⟨?_, List.nodup_cons.mpr ⟨?_, h.nodup_tutorialFiles htutorials⟩, ?_⟩
    · apply howners.map_on
      intro owner howner other hother heq
      have hpage := h.pages_lookup hnames hshown howner
      rw [heq] at hpage
      exact h.sound.page_inj hpage (h.pages_lookup hnames hshown hother)
    · intro hindex
      obtain ⟨name, hname, heq⟩ := List.mem_map.mp hindex
      obtain ⟨url, hurl, hfile⟩ := h.tutorialFile_spec hname
      exact h.sound.tutorial_ne_index hurl (hfile.symm.trans heq)
    · rintro file hfile file' hfile' rfl
      obtain ⟨owner, howner, rfl⟩ := List.mem_map.mp hfile
      have hpage := h.pages_lookup hnames hshown howner
      cases List.mem_cons.mp hfile' with
      | inl hindex => exact h.sound.page_ne_index hpage hindex
      | inr hmem =>
        obtain ⟨name, hname, heq⟩ := List.mem_map.mp hmem
        obtain ⟨url, hurl, hfile⟩ := h.tutorialFile_spec hname
        exact h.sound.page_ne_tutorial (Bindings.mem_of_lookup hpage) hurl (heq.symm.trans hfile)

/-- The containers' pages and the listings leave the index alone, and the global page as well unless
one of them is called for it. -/
theorem Addressed.reserved_spec (h : s.Addressed listed)
    (hnames : (s.symbols.map (·.longname)).Nodup) (hshown : shown ⊆ listed) :
    indexUrl ∉ s.containerFiles ++ s.listingFiles shown ∧
      (globalUrl ∈ s.containerFiles ++ s.listingFiles shown ↔
        globalName ∈ s.containers ++ shown.map Source.File.title) := by
  have hmem : ∀ file, file ∈ s.containerFiles ++ s.listingFiles shown ↔
      ∃ owner ∈ s.containers ++ shown.map Source.File.title, s.pageFile owner = file := by
    intro file
    rw [h.containerFiles_eq hnames, h.listingFiles_eq hshown, ← List.map_append, List.mem_map]
    have hperm := (h.openedContainers_perm hnames).append_right (shown.map Source.File.title)
    exact exists_congr fun owner => and_congr_left fun _ => hperm.mem_iff
  have hpage : ∀ owner ∈ s.containers ++ shown.map Source.File.title,
      s.registry.pages.lookup owner = some (s.pageFile owner) := by
    intro owner howner
    apply h.pages_lookup hnames hshown
    rw [pageOwners]
    cases List.mem_append.mp howner with
    | inl hcontainer => exact List.mem_append_left _ (List.mem_append_left _ hcontainer)
    | inr htitle => exact List.mem_append_right _ htitle
  rw [hmem, hmem]
  constructor
  · rintro ⟨owner, howner, heq⟩
    exact h.sound.page_ne_index (hpage owner howner) heq
  · constructor
    · rintro ⟨owner, howner, heq⟩
      rw [← h.sound.page_inj (heq ▸ hpage owner howner) h.globalPage]
      exact howner
    · intro hglobal
      refine ⟨globalName, hglobal, ?_⟩
      rw [pageFile, h.globalPage, Option.getD_some]

end Pages

end Refsite.Site
