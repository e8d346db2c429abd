import Refsite.Plain
import Refsite.Proofs.Site.Publish
namespace Refsite

open Registry

/-- What a page of symbols shows: the symbols that it is about and those in its sections. -/
structure Content where
  file : String
  docs : List Symbol
  sections : Sections

namespace Content

def Shows (c : Content) (s : Symbol) : Prop := s ∈ c.docs ∨ ∃ e ∈ c.sections.entries, s ∈ e.2

def body (r : Registry) (c : Content) : Page.Result :=
  if c.docs.isEmpty then Page.globals r c.sections else Page.container r c.docs c.sections

end Content

theorem Sections.mem_group {kinds : List (Kind × String)} {symbols : List Symbol} {s : Symbol} :
    (∃ e ∈ group kinds symbols, s ∈ e.2) ↔ s ∈ symbols ∧ s.kind ∈ kinds.map (·.1) := by
  constructor
  · rintro ⟨e, he, hs⟩
    obtain ⟨⟨kind, heading⟩, hkind, rfl⟩ := List.mem_map.mp (List.mem_of_mem_filter he)
    obtain ⟨hmem, heq⟩ := List.mem_filter.mp hs
    exact ⟨hmem, List.mem_map.mpr ⟨_, hkind, (beq_iff_eq.mp heq).symm⟩⟩
  · rintro ⟨hmem, hkind⟩
    obtain ⟨⟨kind, heading⟩, hkind, rfl⟩ := List.mem_map.mp hkind
    have hs : s ∈ symbols.filter (·.kind == s.kind) := by simp [hmem]
    refine ⟨(heading, symbols.filter (·.kind == s.kind)), ?_, hs⟩
    refine List.mem_filter.mpr ⟨List.mem_map.mpr ⟨_, hkind, rfl⟩, ?_⟩
    simpa using ⟨s, hmem, rfl⟩

namespace Symbol

theorem kind_asMember_ne (s : Symbol) : s.asMember.kind ≠ .constant := by
  unfold asMember kind
  cases hd : s.detail <;> simp [hd, Detail.kind]

theorem kind_attachExports (all : List Symbol) (s : Symbol) :
    (attachExports all s).kind = s.kind := by
  unfold attachExports kind
  cases hd : s.detail with
  | moduleUnit attached =>
    dsimp only
    split <;> simp [hd, Detail.kind]
  | _ => simp [hd]

theorem kind_withPlainName (s : Symbol) : s.withPlainName.kind = s.kind := by
  unfold withPlainName
  split <;> rfl

theorem kind_mem_entryKinds {s : Symbol} (hpage : s.kind.hasPage = false)
    (hconstant : s.kind ≠ .constant) : s.kind ∈ Sections.entryKinds.map (·.1) := by
  cases hk : s.kind <;> simp_all [Kind.hasPage, Sections.entryKinds]

end Symbol

namespace Site

open Refsite.Symbol

theorem kind_settle_ne {symbols : List Symbol} {s : Symbol} (h : s ∈ settle symbols) :
    s.kind ≠ .constant := by
  obtain ⟨t, ht, rfl⟩ := List.mem_map.mp h
  obtain ⟨u, hu, rfl⟩ := List.mem_map.mp ht
  obtain ⟨v, -, rfl⟩ := List.mem_map.mp hu
  rw [kind_withPlainName, kind_attachExports]
  exact kind_asMember_ne v

theorem kind_ne_of_ofSymbols {settings : Settings} {sources : Source.Catalog}
    {tutorials : List Tutorial} {symbols : List Symbol} {site : Site}
    (h : ofSymbols settings sources tutorials symbols = .ok site) {s : Symbol}
    (hs : s ∈ site.symbols) : s.kind ≠ .constant := by
  obtain ⟨registry, -, h⟩ := of_bind_ok h
  obtain ⟨decorated, -, h⟩ := of_bind_ok h
  cases h
  exact kind_settle_ne hs

def containerContent? (s : Site) (longname url : String) : Option Content :=
  if (s.sharing longname).isEmpty then none
  else some ⟨pageOfUrl url, s.sharing longname, s.sectionsOf longname⟩

def globalContent? (s : Site) : Option Content :=
  if s.members.globals.isEmpty then none
  else some ⟨pageOfUrl ((s.registry.resolve? globalName).getD globalUrl), [],
    Sections.ofSymbols s.members.globals⟩

def contents (s : Site) : List Content :=
  s.registry.urls.filterMap (fun (longname, url) => s.containerContent? longname url) ++
    s.globalContent?.toList

theorem containerSheet_eq (s : Site) (longname url : String) :
    (s.containerSheet? longname url).map (fun sheet => (sheet.file, sheet.body)) =
      (s.containerContent? longname url).map fun c => (c.file, c.body s.registry) := by
  unfold containerSheet? containerContent? Content.body
  cases h : s.sharing longname <;>
    simp [Page.Sheet.body, Page.Topic.template, Page.Standard.markup]

theorem globalSheet_eq (s : Site) :
    s.globalSheet?.map (fun sheet => (sheet.file, sheet.body)) =
      s.globalContent?.map fun c => (c.file, c.body s.registry) := by
  unfold globalSheet? globalContent? Content.body
  split <;> rfl

theorem symbolSheets_eq (s : Site) :
    s.symbolSheets.map (fun sheet => (sheet.file, sheet.body)) =
      s.contents.map (fun c => (c.file, c.body s.registry)) ++
        [(indexUrl, .ok (Page.home s.registry (homeCategories s.members)))] := by
  rw [symbolSheets, contents, List.map_append, List.map_append, List.map_append,
    List.map_filterMap, List.map_filterMap, ← Option.toList_map, ← Option.toList_map,
    globalSheet_eq]
  congr 2
  apply List.filterMap_congr
  intro e _
  exact containerSheet_eq s e.1 e.2

/-- The address of a symbol leads to a page that is written, and to a place on it where the symbol
is shown if it leads to any place inside. -/
def Leads (s : Site) (x : Symbol) (url : String) : Prop :=
  pageOfUrl url ∈ s.symbolSheets.map (·.file) ∧
    ('#' ∈ url.toList → ∃ c ∈ s.contents, c.file = pageOfUrl url ∧ c.Shows x)

def placeOf (listed : Source.Catalog) (x : Symbol) : String :=
  if x.longname ∈ listed.map Source.File.title then x.longname else x.owner

section Places

variable {s : Site} {listed : Source.Catalog}

theorem shownOn_place (hnames : (s.symbols.map (·.longname)).Nodup) {x : Symbol}
    (hx : x ∈ s.symbols) : s.shownOn? listed x.longname = some (placeOf listed x) := by
  rw [shownOn?, placeOf]
  split
  · rfl
  · obtain ⟨t, ht, hname, hlast⟩ := Placement.exists_getLast_filter
      (p := (·.longname == x.longname)) hx (beq_self_eq_true _)
    have heq := List.inj_on_of_nodup_map hnames ht hx (beq_iff_eq.mp hname)
    rw [hlast, heq, Option.map_some]

theorem Addressed.mem_contents (h : s.Addressed listed)
    (hnames : (s.symbols.map (·.longname)).Nodup) {c : Content} :
    c ∈ s.contents ↔
      (∃ longname ∈ s.containers,
        c = ⟨s.pageFile longname, s.sharing longname, s.sectionsOf longname⟩) ∨
      s.members.globals ≠ [] ∧
        c = ⟨s.pageFile (s.globalOwner listed), [], Sections.ofSymbols s.members.globals⟩ := by
  have hcontainer : ∀ longname url, (longname, url) ∈ s.registry.urls →
      longname ∈ s.containers → pageOfUrl url = s.pageFile longname := by
    intro longname url he hmem
    obtain ⟨url', hurl, hfile, -⟩ := h.lookup_of_shownOn (shownOn_container hnames hmem)
    cases (Bindings.lookup_eq_some_of_mem h.sound.urls_nodup he).symm.trans hurl
    exact hfile
  have hsharing : ∀ longname, (s.sharing longname).isEmpty = false ↔ longname ∈ s.containers := by
    intro longname
    simp only [sharing, containers, List.isEmpty_eq_false_iff_exists_mem, List.mem_filter,
      List.mem_map, Bool.and_eq_true, beq_iff_eq]
    exact exists_congr fun _ => and_assoc.symm
  rw [contents, List.mem_append, List.mem_filterMap, Option.mem_toList]
  apply or_congr
  · constructor
    · rintro ⟨⟨longname, url⟩, he, hc⟩
      dsimp only [containerContent?] at hc
      split at hc
      · cases hc
      · next hopen =>
        have hmem := (hsharing longname).mp (Bool.eq_false_iff.mpr hopen)
        rw [hcontainer longname url he hmem] at hc
        exact ⟨longname, hmem, (Option.some.inj hc).symm⟩
    · rintro ⟨longname, hmem, rfl⟩
      obtain ⟨url, hurl, hfile, -⟩ := h.lookup_of_shownOn (shownOn_container hnames hmem)
      refine ⟨(longname, url), Bindings.mem_of_lookup hurl, ?_⟩
      dsimp only [containerContent?]
      rw [(hsharing longname).mpr hmem, if_neg Bool.false_ne_true, hfile]
  · rw [globalContent?, h.globalOwner_spec.1]
    by_cases hglobals : s.members.globals = []
    · simp [hglobals]
    · rw [if_neg (by simpa using hglobals), Option.some_inj]
      exact ⟨fun heq => ⟨hglobals, heq.symm⟩, fun hboth => hboth.2.symm⟩

theorem Addressed.exists_content_iff (h : s.Addressed listed)
    (hnames : (s.symbols.map (·.longname)).Nodup) {owner file : String}
    (hfile : s.registry.pages.lookup owner = some file) (p : Content → Prop) :
    (∃ c ∈ s.contents, c.file = file ∧ p c) ↔
      owner ∈ s.containers ∧ p ⟨file, s.sharing owner, s.sectionsOf owner⟩ ∨
      s.members.globals ≠ [] ∧ owner = s.globalOwner listed ∧
        p ⟨file, [], Sections.ofSymbols s.members.globals⟩ := by
  have hown : s.pageFile owner = file := by rw [pageFile, hfile, Option.getD_some]
  have hinj : ∀ {other}, s.registry.pages.lookup other = some (s.pageFile other) →
      s.pageFile other = file → other = owner := by
    intro other hother heq
    exact h.sound.page_inj (heq ▸ hother) hfile
  constructor
  · rintro ⟨c, hc, hcfile, hp⟩
    obtain ⟨longname, hmem, rfl⟩ | ⟨hglobals, rfl⟩ := (h.mem_contents hnames).mp hc
    · obtain ⟨_, -, -, hlookup⟩ := h.lookup_of_shownOn (shownOn_container hnames hmem)
      cases hinj hlookup hcfile
      exact .inl ⟨hmem, hown ▸ hp⟩
    · have heq := hinj h.globalOwner_spec.2 hcfile
      exact .inr ⟨hglobals, heq.symm, hcfile ▸ hp⟩
  · rintro (⟨hmem, hp⟩ | ⟨hglobals, heq, hp⟩)
    · exact ⟨_, (h.mem_contents hnames).mpr (.inl ⟨owner, hmem, rfl⟩), hown, hown.symm ▸ hp⟩
    · rw [heq] at hown
      exact ⟨_, (h.mem_contents hnames).mpr (.inr ⟨hglobals, rfl⟩), hown, hown.symm ▸ hp⟩

theorem Addressed.mem_files_iff (h : s.Addressed listed)
    (hnames : (s.symbols.map (·.longname)).Nodup) {owner file : String}
    (hfile : s.registry.pages.lookup owner = some file) :
    file ∈ s.symbolSheets.map (·.file) ↔
      owner ∈ s.containers ∨ s.members.globals ≠ [] ∧ owner = s.globalOwner listed := by
  have hfiles : s.symbolSheets.map (·.file) = s.contents.map (·.file) ++ [indexUrl] := by
    have heq := congrArg (List.map Prod.fst) (symbolSheets_eq s)
    simpa [Function.comp_def] using heq
  have hindex : file ≠ indexUrl := h.sound.page_ne_index hfile
  have hexists := h.exists_content_iff hnames hfile fun _ => True
  simp only [and_true] at hexists
  rw [hfiles, List.mem_append, List.mem_singleton, or_iff_left hindex, List.mem_map]
  exact hexists

theorem mem_sectionsOf {longname : String} {x : Symbol} :
    (∃ e ∈ (s.sectionsOf longname).entries, x ∈ e.2) ↔
      x ∈ s.symbols ∧ x.memberof = some longname ∧ x.kind ∈ Sections.entryKinds.map (·.1) := by
  rw [sectionsOf, Sections.ofSymbols, Sections.mem_group, Tree.childrenOf, List.mem_filter,
    beq_iff_eq, and_assoc]

theorem Addressed.shows_iff (h : s.Addressed listed)
    (hnames : (s.symbols.map (·.longname)).Nodup)
    (hmembers : s.members.globals = s.symbols.filter isGlobal) {owner file : String}
    (hfile : s.registry.pages.lookup owner = some file) {x : Symbol} (hx : x ∈ s.symbols)
    (hpage : x.kind.hasPage = false) (hconstant : x.kind ≠ .constant) :
    (∃ c ∈ s.contents, c.file = file ∧ c.Shows x) ↔
      owner ∈ s.containers ∧ x.memberof = some owner ∨
        x.isGlobal = true ∧ owner = s.globalOwner listed := by
  have hkind := kind_mem_entryKinds hpage hconstant
  have hdocs : x ∉ s.sharing owner := by simp [sharing, hpage]
  rw [h.exists_content_iff hnames hfile, Content.Shows, Content.Shows]
  dsimp only
  rw [mem_sectionsOf, Sections.ofSymbols, Sections.mem_group, hmembers]
  constructor
  · rintro (⟨hmem, hdoc | ⟨-, hparent, -⟩⟩ | ⟨-, heq, hdoc | ⟨hglobal, -⟩⟩)
    · exact absurd hdoc hdocs
    · exact .inl ⟨hmem, hparent⟩
    · cases hdoc
    · exact .inr ⟨(List.mem_filter.mp hglobal).2, heq⟩
  · rintro (⟨hmem, hparent⟩ | ⟨hglobal, heq⟩)
    · exact .inl ⟨hmem, .inr ⟨hx, hparent, hkind⟩⟩
    · have hmem := List.mem_filter.mpr ⟨hx, hglobal⟩
      exact .inr ⟨List.ne_nil_of_mem hmem, heq, .inr ⟨hmem, hkind⟩⟩

/-- The address of a symbol leads somewhere exactly if the symbol has a page of its own, or is shown
on the page of its parent or with the globals, or if its address is that of a whole page that is
written. -/
theorem Addressed.leads_iff (h : s.Addressed listed)
    (hnames : (s.symbols.map (·.longname)).Nodup)
    (hmembers : s.members.globals = s.symbols.filter isGlobal) {x : Symbol} (hx : x ∈ s.symbols)
    (hconstant : x.kind ≠ .constant) :
    ∃ url, s.registry.require x.longname = .ok url ∧
      (s.Leads x url ↔ x.kind.hasPage = true ∨
        placeOf listed x ∈ s.containers ∧ x.memberof = some (placeOf listed x) ∨
        x.isGlobal = true ∧ placeOf listed x = s.globalOwner listed ∨
        '#' ∉ url.toList ∧ (placeOf listed x ∈ s.containers ∨
          s.members.globals ≠ [] ∧ placeOf listed x = s.globalOwner listed)) := by
  obtain ⟨url, hurl, hpage⟩ := h.url x.longname _ (shownOn_place hnames hx)
  refine ⟨url, by rw [require, resolve?, hurl], ?_⟩
  rw [Leads, h.mem_files_iff hnames hpage]
  cases hkind : x.kind.hasPage with
  | true =>
    have hplace : placeOf listed x = x.longname := by
      rw [placeOf, owner_of_hasPage hkind, ite_self]
    have hmem : x.longname ∈ s.containers :=
      List.mem_map_of_mem (List.mem_filter.mpr ⟨hx, hkind⟩)
    have hdoc : x ∈ s.sharing x.longname := by simp [sharing, hx, hkind]
    rw [hplace] at hpage ⊢
    have hshown : ∃ c ∈ s.contents, c.file = pageOfUrl url ∧ c.Shows x :=
      (h.exists_content_iff hnames hpage _).mpr (.inl ⟨hmem, .inl hdoc⟩)
    simp [hmem, hshown]
  | false =>
    rw [h.shows_iff hnames hmembers hpage hx hkind hconstant]
    have hglobals : x.isGlobal = true → s.members.globals ≠ [] := by
      intro hglobal
      rw [hmembers]
      exact List.ne_nil_of_mem (List.mem_filter.mpr ⟨hx, hglobal⟩)
    by_cases hfragment : '#' ∈ url.toList
    · simp only [hfragment, not_true, false_and, or_false, Bool.false_eq_true, false_or,
        true_implies]
      tauto
    · simp only [hfragment, not_false_iff, true_and, Bool.false_eq_true, false_or, false_implies,
        and_true]
      tauto

end Places

/-- Where the published symbols have different longnames, the address of each leads to a page that is
written and to the symbol itself exactly in these cases: the symbol has a page of its own, it is
shown on the page of its parent, it is a global and shown with them, or its address names no place
inside a page and the page is written anyway. The pages are drawn from what they are said to show,
and a run that writes the site writes them all. -/
theorem loaded_addresses_lead_iff [Host] {root input : Path} {settings : Settings}
    {tutorials : Option Path} {raw : List Doclet} {s : Site} {w w₁ : World}
    (hload : (load root input settings tutorials raw).start w = (.ok s, w₁))
    (hnames : (s.symbols.map (·.longname)).Nodup) :
    (∀ x ∈ s.symbols, ∃ url, s.registry.require x.longname = .ok url ∧
      (s.Leads x url ↔ x.kind.hasPage = true ∨
        placeOf (listed settings s.sources) x ∈ s.containers ∧
          x.memberof = some (placeOf (listed settings s.sources) x) ∨
        x.isGlobal = true ∧ placeOf (listed settings s.sources) x =
          s.globalOwner (listed settings s.sources) ∨
        '#' ∉ url.toList ∧ (placeOf (listed settings s.sources) x ∈ s.containers ∨
          s.members.globals ≠ [] ∧ placeOf (listed settings s.sources) x =
            s.globalOwner (listed settings s.sources)))) ∧
      s.symbolSheets.map (fun sheet => (sheet.file, sheet.body)) =
        s.contents.map (fun c => (c.file, c.body s.registry)) ++
          [(indexUrl, .ok (Page.home s.registry (homeCategories s.members)))] ∧
      ∀ {out : Path} {summary : Summary} {v v' : World},
        (s.write raw settings root out).start v = (.ok summary, v') →
        ∀ sheet ∈ s.symbolSheets, out.child sheet.file ∈ summary.artifacts := by
  obtain ⟨symbols, sources, ts, hsite, -⟩ := load_spec hload
  have haddressed := addressed_of_ofSymbols hsite
  obtain ⟨-, -, -, -, hmembers⟩ := ofSymbols_spec hsite
  have hglobals : s.members.globals = s.symbols.filter isGlobal := by
    rw [hmembers]
    rfl
  refine ⟨?_, symbolSheets_eq s, ?_⟩
  · intro x hx
    exact haddressed.leads_iff hnames hglobals hx (kind_ne_of_ofSymbols hsite hx)
  · intro out summary v v' hwrite sheet hsheet
    obtain ⟨shown, snapshots, statics, -, hartifacts⟩ := write_spec hwrite
    have hmem : sheet.file ∈ s.sheetFiles :=
      List.mem_map_of_mem (List.mem_append_left _ hsheet)
    have hchild : out.child sheet.file ∈ s.sheetFiles.map out.child := List.mem_map_of_mem hmem
    simp [hartifacts, hchild]

section Plain

open scoped Plain

/-- A function without a parent and a class: both are reached. -/
theorem function_and_class_lead :
    ∃ s w, (load .top .top .standard none
      [plainDoclet "function" "f", plainDoclet "class" "shape"]).start { disk := .empty } =
        (.ok s, w) ∧
      ∀ x ∈ s.symbols, ∃ url, s.registry.require x.longname = .ok url ∧ s.Leads x url := by
  obtain ⟨s, w, hload, hlook⟩ := @load_functionAndClass _ _ "f" "shape"
    (["f", "shape"], true) (fun s => (s.symbols.map (·.longname), s.symbols.all fun x =>
      x.kind.hasPage || x.isGlobal && placeOf (listed .standard s.sources) x ==
        s.globalOwner (listed .standard s.sources))) rfl rfl (by decide) rfl
  obtain ⟨hnames, hall⟩ := Prod.mk.inj hlook
  have hnodup : (s.symbols.map (·.longname)).Nodup := by
    rw [hnames]
    decide
  refine ⟨s, w, hload, ?_⟩
  intro x hx
  obtain ⟨url, hurl, hleads⟩ := (loaded_addresses_lead_iff hload hnodup).1 x hx
  refine ⟨url, hurl, hleads.mpr ?_⟩
  have hx' := List.all_eq_true.mp hall x hx
  rw [Bool.or_eq_true, Bool.and_eq_true, beq_iff_eq] at hx'
  obtain hpage | hglobal := hx'
  · exact .inl hpage
  · exact .inr (.inr (.inl hglobal))

def plainEvent (name : String) : Symbol := .bare (.event ⟨[], [], []⟩ []) name name none

/-- An event without a parent has an address on the global page, which is not written for it. -/
theorem event_without_page :
    ∃ s w, (load .top .top .standard none [plainDoclet "event" "e"]).start { disk := .empty } =
        (.ok s, w) ∧
      s.symbols.map (fun x => (x.longname, x.memberof)) = [("e", none)] ∧
      s.registry.require "e" = .ok "global.html#event:e" ∧
      s.symbolSheets.map (·.file) = ["index.html"] ∧
      ∀ x ∈ s.symbols, ¬ s.Leads x "global.html#event:e" := by
  have hread : Doclet.symbol? (plainDoclet "event" "e") = .ok (some (plainEvent "e")) := by
    refine symbol_of_read "event" rfl rfl ?_
    rw [Symbol.read]
    rfl
  have hsymbols : Doclet.symbols [plainDoclet "event" "e"] = ([], .ok [plainEvent "e"]) := by
    rw [Doclet.symbols, Doclet.symbolsFrom, hread]
    rfl
  have hselect : select .standard [plainEvent "e"] = ([], [plainEvent "e"]) := by
    have hprune : Symbol.prune .standard [plainEvent "e"] = [plainEvent "e"] :=
      List.mergeSort_singleton _
    rw [select, hprune]
    rfl
  have hsite : (ofSymbols .standard [] [] [plainEvent "e"]).map (fun s =>
      (s.symbols.map (fun x => (x.longname, x.memberof)), s.registry.require "e",
        s.symbolSheets.map (·.file))) =
      .ok ([("e", none)], .ok "global.html#event:e", ["index.html"]) := rfl
  cases hs : ofSymbols .standard [] [] [plainEvent "e"] with
  | error e =>
    rw [hs] at hsite
    cases hsite
  | ok s =>
    rw [hs] at hsite
    obtain ⟨hnames, hrest⟩ := Prod.mk.inj (Except.ok.inj hsite)
    obtain ⟨hurl, hfiles⟩ := Prod.mk.inj hrest
    have hselected : ofSymbols .standard (select .standard [plainEvent "e"]).1 []
        (select .standard [plainEvent "e"]).2 = .ok s := by
      rw [hselect]
      exact hs
    obtain ⟨w, hload, -⟩ := exists_load .top .top hsymbols rfl hselected { disk := .empty }
    refine ⟨s, w, hload, hnames, hurl, hfiles, ?_⟩
    intro x _ hleads
    have hpage := hleads.1
    rw [hfiles] at hpage
    exact absurd hpage (by decide)

end Plain

end Site

end Refsite
