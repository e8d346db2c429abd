import Refsite.Proofs.Site.Addresses
namespace Refsite.Registry

open Placement

theorem Placement.last_all (symbols : List Symbol) (sources : Source.Catalog) (key : String) :
    last? (all symbols sources) key =
      ((sources.filter (·.title == key)).getLast?.map ofSource).or
        ((symbols.filter (·.longname == key)).getLast?.map ofSymbol) := by
  rw [last?, all, List.filter_append, List.getLast?_append, List.filter_map, List.filter_map,
    List.getLast?_map, List.getLast?_map]
  rfl

theorem Placement.last_all_of_title (symbols : List Symbol) {sources : Source.Catalog}
    {key : String} (h : key ∈ sources.map Source.File.title) :
    ∃ f, f.title = key ∧ last? (all symbols sources) key = some (ofSource f) := by
  obtain ⟨g, hg, rfl⟩ := List.mem_map.mp h
  obtain ⟨f, -, hf, hlast⟩ := exists_getLast_filter (p := (·.title == g.title)) hg
    (beq_self_eq_true _)
  refine ⟨f, beq_iff_eq.mp hf, ?_⟩
  rw [last_all, hlast]
  rfl

theorem Placement.last_all_of_not_title (symbols : List Symbol) {sources : Source.Catalog}
    {key : String} (h : key ∉ sources.map Source.File.title) :
    last? (all symbols sources) key =
      (symbols.filter (·.longname == key)).getLast?.map ofSymbol := by
  have hnil : sources.filter (·.title == key) = [] := by
    rw [List.filter_eq_nil_iff]
    intro f hf he
    exact h (List.mem_map.mpr ⟨f, hf, beq_iff_eq.mp he⟩)
  rw [last_all, hnil, List.getLast?_nil, Option.map_none, Option.none_or]

theorem mem_all_of_last {ps : List Placement} {key : String} {p : Placement}
    (h : last? ps key = some p) : p ∈ ps ∧ p.key = key := by
  have hmem := List.mem_filter.mp (List.mem_of_getLast? h)
  exact ⟨hmem.1, beq_iff_eq.mp hmem.2⟩

theorem Populated.page_of_url {symbols : List Symbol} {sources : Source.Catalog}
    {tutorials : List Tutorial} {r : Registry} (hr : Populated symbols sources tutorials r)
    {key : String} {p : Placement} (hp : last? (all symbols sources) key = some p) :
    ∃ url, r.urls.lookup key = some url ∧ r.pages.lookup p.owner = some (pageOfUrl url) := by
  obtain ⟨file, hfile, hurl⟩ := hr.url key p hp
  have hhash := hr.sound.hash_notMem (page_mem_files hfile)
  refine ⟨_, hurl, ?_⟩
  have hpage : pageOfUrl (encodeUrl (p.address file)) = file := by
    cases List.mem_append.mp (mem_all_of_last hp).1 with
    | inl h =>
      obtain ⟨s, _, rfl⟩ := List.mem_map.mp h
      exact pageOfUrl_addressIn s hhash
    | inr h =>
      obtain ⟨f, _, rfl⟩ := List.mem_map.mp h
      exact pageOfUrl_encodeUrl hhash
  rw [hpage]
  exact hfile

/-- A container's longname leads to the page of that longname exactly if a source file is listed
under it as well, or if the last symbol of the longname is shown on that page too. -/
theorem own_page_iff (symbols : List Symbol) (sources : Source.Catalog)
    (tutorials : List Tutorial) :
    ∃ r, populate symbols sources tutorials = .ok r ∧
      ∀ c ∈ symbols, c.kind.hasPage = true →
        ∃ url file, r.require c.longname = .ok url ∧ r.assign c.longname = .ok (file, r) ∧
          (pageOfUrl url = file ↔
            c.longname ∈ sources.map Source.File.title ∨
              ∃ s, (symbols.filter (·.longname == c.longname)).getLast? = some s ∧
                s.owner = c.longname) := by
  obtain ⟨r, hpop, hr⟩ := populate_spec symbols sources tutorials
  refine ⟨r, hpop, ?_⟩
  intro c hc hkind
  obtain ⟨file, hfile⟩ :=
    hr.page (ofSymbol c) (List.mem_append_left _ (List.mem_map_of_mem hc))
  change r.pages.lookup c.owner = some file at hfile
  rw [Symbol.owner_of_hasPage hkind] at hfile
  by_cases htitle : c.longname ∈ sources.map Source.File.title
  · obtain ⟨f, hf, hlast⟩ := last_all_of_title symbols htitle
    obtain ⟨url, hurl, hpage⟩ := hr.page_of_url hlast
    change r.pages.lookup f.title = _ at hpage
    rw [hf, hfile] at hpage
    refine ⟨url, file, ?_, assign_of_lookup hfile, ?_⟩
    · rw [require, resolve?, hurl]
    · exact iff_of_true (Option.some.inj hpage).symm (.inl htitle)
  · obtain ⟨s, -, -, hs⟩ := exists_getLast_filter (p := (·.longname == c.longname)) hc
      (beq_self_eq_true _)
    have hlast := last_all_of_not_title symbols htitle
    rw [hs, Option.map_some] at hlast
    obtain ⟨url, hurl, hpage⟩ := hr.page_of_url hlast
    change r.pages.lookup s.owner = _ at hpage
    refine ⟨url, file, ?_, assign_of_lookup hfile, ?_⟩
    · rw [require, resolve?, hurl]
    · constructor
      · intro heq
        rw [heq] at hpage
        exact .inr ⟨s, hs, hr.sound.page_inj hpage hfile⟩
      · rintro (h | ⟨t, ht, hown⟩)
        · exact absurd h htitle
        · cases Option.some.inj (hs.symm.trans ht)
          rw [hown, hfile] at hpage
          exact (Option.some.inj hpage).symm

/-- A class and after it a method of the same longname: the class's page is written where the method
is shown, while links to members of the class lead to a page that nobody writes. -/
theorem class_page_lost_to_method :
    let shown := [Symbol.bare (.classType ⟨[], [], []⟩ none []) "A" "A" none,
      Symbol.bare (.function ⟨[], [], []⟩) "A" "A" (some "M")]
    ∃ r, populate shown [] [] = .ok r ∧ r.require "A" = .ok "M.html#A" ∧
      pageOfUrl "M.html#A" = "M.html" ∧ r.assign "A" = .ok ("A.html", r) := by
  intro shown
  refine ⟨⟨[("index", "index"), ("global", "global"), ("a", "A"), ("m", "M")],
    [("global", "global.html"), ("A", "M.html#A"), ("M", "M.html")],
    [("global", "global.html"), ("A", "A.html"), ("M", "M.html")], [], true⟩, ?_, ?_, ?_, ?_⟩
  all_goals decide

end Refsite.Registry
