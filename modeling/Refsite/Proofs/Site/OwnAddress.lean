import Refsite.Proofs.Site.OwnPage
namespace Refsite

theorem encodeUrl_injective : Function.Injective encodeUrl := by
  intro a b h
  have hchars := congrArg String.toList h
  rw [toList_encodeUrl, toList_encodeUrl] at hchars
  have htext := congrArg Text.Percent.decode hchars
  rw [Text.Percent.decode_encode, Text.Percent.decode_encode] at htext
  exact String.toList_inj.mp htext

namespace Symbol

def addressFragment (s : Symbol) : String := if s.hasFragment then s.fragment else ""

def isWholePage (s : Symbol) : Bool := s.owner == s.longname && s.addressFragment.isEmpty

theorem addressIn_eq_self_iff (s : Symbol) (file : String) :
    s.addressIn file = file ↔ s.addressFragment.isEmpty = true := by
  change (if s.addressFragment.isEmpty then file else file ++ "#" ++ s.addressFragment) = file ↔ _
  by_cases h : s.addressFragment.isEmpty = true
  · rw [if_pos h]
    exact iff_of_true rfl h
  · rw [if_neg h]
    refine iff_of_false (fun heq => ?_) h
    have hlength := congrArg String.length heq
    rw [String.length_append, String.length_append] at hlength
    have hmark : "#".length = 1 := rfl
    omega

end Symbol

theorem Source.Catalog.longname_annotate (c : Source.Catalog) (s : Symbol) :
    (c.annotate s).longname = s.longname := by
  rw [annotate]
  split
  · split <;> rfl
  · rfl

namespace Registry

open Placement

theorem getLast?_of_nodup {symbols : List Symbol} (hnames : (symbols.map (·.longname)).Nodup)
    {s : Symbol} (hs : s ∈ symbols) :
    (symbols.filter (·.longname == s.longname)).getLast? = some s := by
  obtain ⟨t, ht, hname, hlast⟩ := exists_getLast_filter (p := (·.longname == s.longname)) hs
    (beq_self_eq_true _)
  rw [hlast, List.inj_on_of_nodup_map hnames ht hs (beq_iff_eq.mp hname)]

theorem createLink_of_lookup {r : Registry} {s : Symbol} {file : String}
    (h : r.pages.lookup s.owner = some file) :
    r.createLink s = .ok (encodeUrl (s.addressIn file), r) := by
  rw [createLink_eq, assign_of_lookup h]
  rfl

theorem Populated.url_eq_iff {symbols : List Symbol} {sources : Source.Catalog}
    {tutorials : List Tutorial} {r : Registry} (hr : Populated symbols sources tutorials r)
    {s : Symbol} {own file : String} (hown : r.pages.lookup s.owner = some own)
    (hfile : r.pages.lookup s.longname = some file) :
    encodeUrl file = encodeUrl (s.addressIn own) ↔ s.isWholePage = true := by
  rw [Symbol.isWholePage, Bool.and_eq_true, beq_iff_eq, ← s.addressIn_eq_self_iff own]
  constructor
  · intro heq
    have hpage := congrArg pageOfUrl heq
    rw [pageOfUrl_encodeUrl (hr.sound.hash_notMem (page_mem_files hfile)),
      pageOfUrl_addressIn s (hr.sound.hash_notMem (page_mem_files hown))] at hpage
    subst hpage
    exact ⟨hr.sound.page_inj hown hfile, (encodeUrl_injective heq).symm⟩
  · rintro ⟨howner, haddress⟩
    rw [howner, hfile] at hown
    rw [haddress, Option.some.inj hown]

/-- In the registry of symbols with different longnames every longname leads to the address of its
symbol, unless a source file is listed under it; then it does so exactly if that address is the
whole page of the longname, which is the listing's page too. -/
theorem own_address_iff {symbols : List Symbol} (hnames : (symbols.map (·.longname)).Nodup)
    (tutorials : List Tutorial) (listing : Bool) :
    let files := (Source.catalog symbols).1
    let shown := (Source.catalog symbols).2
    let listed := if listing then files else []
    ∃ r, populate shown listed tutorials = .ok r ∧
      ∀ s ∈ shown, ∃ url, r.createLink s = .ok (url, r) ∧
        (r.resolve? s.longname = some url ↔
          s.longname ∉ listed.map Source.File.title ∨ s.isWholePage = true) := by
  intro files shown listed
  have hshown : (shown.map (·.longname)).Nodup := by
    have heq : shown.map (·.longname) = symbols.map (·.longname) := by
      change (symbols.map files.annotate).map (·.longname) = _
      rw [List.map_map]
      exact List.map_congr_left fun s _ => files.longname_annotate s
    rwa [heq]
  obtain ⟨r, hpop, hr⟩ := populate_spec shown listed tutorials
  refine ⟨r, hpop, fun s hs => ?_⟩
  obtain ⟨own, hown⟩ := hr.page (ofSymbol s) (List.mem_append_left _ (List.mem_map_of_mem hs))
  refine ⟨_, createLink_of_lookup hown, ?_⟩
  by_cases htitle : s.longname ∈ listed.map Source.File.title
  -- Sources are registered after all symbols, so a title takes the longname for the listing's page.
  · obtain ⟨f, hf, hlast⟩ := last_all_of_title shown htitle
    obtain ⟨file, hfile, hurl⟩ := hr.url _ _ hlast
    change r.pages.lookup f.title = some file at hfile
    rw [hf] at hfile
    rw [resolve?, hurl, Option.some_inj, or_iff_right (not_not_intro htitle)]
    exact hr.url_eq_iff hown hfile
  -- No other registers the longname, and the page stays that of the symbol's own owner.
  · have hlast := last_all_of_not_title shown htitle
    rw [getLast?_of_nodup hshown hs, Option.map_some] at hlast
    obtain ⟨file, hfile, hurl⟩ := hr.url _ _ hlast
    have hsame : file = own := Option.some.inj (hfile.symm.trans hown)
    rw [resolve?, hurl, hsame]
    exact iff_of_true rfl (.inl htitle)

def declaredIn (filename : String) (s : Symbol) : Symbol :=
  { s with origin := some ⟨some "/p", filename, none, ⟨none, none, .null, []⟩, none, []⟩ }

def namesakes : List Symbol :=
  [declaredIn "a.js" (.bare (.classType ⟨[], [], []⟩ none []) "a.js" "a.js" none),
    declaredIn "b.js" (.bare (.function ⟨[], [], []⟩) "b.js" "b.js" none)]

def namesakeRegistry : Registry where
  claimed := [("index", "index"), ("global", "global"), ("a.js", "a.js"), ("b.js", "b.js")]
  urls := [("global", "global.html"), ("a.js", "a.js.html"), ("b.js", "b.js.html")]
  pages := [("global", "global.html"), ("a.js", "a.js.html"), ("b.js", "b.js.html")]
  tutorials := []
  frozen := true

theorem populate_namesakes :
    populate (Source.catalog namesakes).2 (Source.catalog namesakes).1 [] =
      .ok namesakeRegistry := by
  decide

/-- The class keeps its page, which the listing shares; the function loses its longname. -/
theorem own_address_namesakes :
    (namesakes.map (·.longname)).Nodup ∧
      ∀ s ∈ (Source.catalog namesakes).2, ∃ url,
        namesakeRegistry.createLink s = .ok (url, namesakeRegistry) ∧
          (namesakeRegistry.resolve? s.longname = some url ↔ s.longname = "a.js") := by
  have hnames : (namesakes.map (·.longname)).Nodup := by decide
  refine ⟨hnames, fun s hs => ?_⟩
  obtain ⟨r, hpop, hown⟩ := own_address_iff hnames [] true
  cases Except.ok.inj (hpop.symm.trans populate_namesakes)
  obtain ⟨url, hlink, hiff⟩ := hown s hs
  have hwhole : ∀ s ∈ (Source.catalog namesakes).2,
      (s.longname ∉ (Source.catalog namesakes).1.map Source.File.title ∨
        s.isWholePage = true) ↔ s.longname = "a.js" := by
    decide
  exact ⟨url, hlink, hiff.trans (hwhole s hs)⟩

/-- The listing takes the longname of the function, which is shown on the page of the globals. -/
theorem longname_taken_by_listing :
    (namesakes.map (·.longname)).Nodup ∧
      populate (Source.catalog namesakes).2 (Source.catalog namesakes).1 [] =
        .ok namesakeRegistry ∧
      ∃ s ∈ (Source.catalog namesakes).2, s.longname = "b.js" ∧
        namesakeRegistry.createLink s = .ok ("global.html#b.js", namesakeRegistry) ∧
        namesakeRegistry.resolve? s.longname = some "b.js.html" := by
  refine ⟨by decide, populate_namesakes, _, List.mem_cons_of_mem _ List.mem_cons_self, ?_⟩
  decide

end Registry

end Refsite
