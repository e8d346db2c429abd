import Refsite.Proofs.Site.Decorate
import Refsite.Proofs.Site.OwnPage
namespace Refsite

namespace Registry

/-- A frozen registry in which symbols, pages and the globals find their addresses. -/
structure Serves (r : Registry) (symbols : List Symbol) : Prop where
  frozen : r.frozen = true
  symbol : ∀ s ∈ symbols, ∃ url, r.require s.longname = .ok url
  page : ∀ longname url, (longname, url) ∈ r.urls → r.require longname = .ok url
  globals : ∃ url, r.require globalName = .ok url

theorem require_of_lookup {r : Registry} {longname url : String}
    (h : r.urls.lookup longname = some url) : r.require longname = .ok url := by
  rw [require, resolve?, h]

open Placement

theorem Populated.serves {symbols : List Symbol} {sources : Source.Catalog}
    {tutorials : List Tutorial} {r : Registry} (hr : Populated symbols sources tutorials r) :
    r.Serves symbols := by
  -- A name that something was placed under leads to what was placed last.
  have hplaced : ∀ p ∈ all symbols sources, ∃ url, r.require p.key = .ok url := by
    intro p hp
    obtain ⟨q, -, -, hlast⟩ := exists_getLast_filter (p := (·.key == p.key)) hp
      (beq_self_eq_true _)
    obtain ⟨file, -, hurl⟩ := hr.url p.key q hlast
    exact ⟨_, require_of_lookup hurl⟩
  refine ⟨hr.frozen, ?_, ?_, ?_⟩
  · intro s hs
    exact hplaced (ofSymbol s) (List.mem_append_left _ (List.mem_map_of_mem hs))
  · intro longname url hmem
    exact require_of_lookup (Bindings.lookup_eq_some_of_mem hr.sound.urls_nodup hmem)
  · by_cases hglobal : globalName ∈ (all symbols sources).map Placement.key
    · obtain ⟨p, hp, hkey⟩ := List.mem_map.mp hglobal
      exact hkey ▸ hplaced p hp
    · exact ⟨globalUrl, require_of_lookup (hr.kept hglobal rfl)⟩

end Registry

namespace Symbol

variable {r : Registry} {s : Symbol} {url : String}

theorem exists_linkPlaces (h : r.require s.longname = .ok url) :
    ∃ t, linkPlaces r s = .ok t ∧ t.longname = s.longname := by
  rw [linkPlaces, h]
  split
  · exact ⟨_, rfl, rfl⟩
  · exact ⟨s, rfl, rfl⟩

theorem exists_assignId (h : r.require s.longname = .ok url) :
    ∃ t, assignId r s = .ok t ∧ t.longname = s.longname := by
  rw [assignId, h]
  exact ⟨_, rfl, rfl⟩

/-- A step that succeeds on symbols with addresses, and keeps their longnames, succeeds on a
list. -/
theorem exists_mapM {f : Symbol → Except LinkError Symbol} {symbols : List Symbol}
    (hf : ∀ s url, r.require s.longname = .ok url → ∃ t, f s = .ok t ∧ t.longname = s.longname)
    (hsymbols : ∀ s ∈ symbols, ∃ url, r.require s.longname = .ok url) :
    ∃ made, symbols.mapM f = .ok made ∧ ∀ t ∈ made, ∃ url, r.require t.longname = .ok url := by
  induction symbols with
  | nil => exact ⟨[], rfl, by simp⟩
  | cons s symbols ih =>
    obtain ⟨⟨url, hurl⟩, hsymbols⟩ := List.forall_mem_cons.mp hsymbols
    obtain ⟨t, ht, hname⟩ := hf s url hurl
    obtain ⟨made, hmade, hall⟩ := ih hsymbols
    refine ⟨t :: made, ?_, List.forall_mem_cons.mpr ⟨⟨url, hname ▸ hurl⟩, hall⟩⟩
    rw [List.mapM_cons, ht, hmade]
    rfl

end Symbol

namespace Site

theorem decorate_ne_link {r : Registry} {symbols : List Symbol} (hr : r.Serves symbols)
    (e : LinkError) : decorate r symbols ≠ .error (.link e) := by
  obtain ⟨linked, hlinked, hfound⟩ :=
    Symbol.exists_mapM (fun _ _ => Symbol.exists_linkPlaces) hr.symbol
  obtain ⟨named, hnamed, -⟩ := Symbol.exists_mapM (fun _ _ => Symbol.exists_assignId) hfound
  have hdecorate : decorate r symbols = (do
      let signed ← (named.mapM (Symbol.sign r)).mapError .misfit
      return Symbol.addAncestors r signed) := by
    rw [decorate, hlinked]
    change (do
      let symbols ← (linked.mapM (Symbol.assignId r)).mapError SiteError.link
      let symbols ← (symbols.mapM (Symbol.sign r)).mapError SiteError.misfit
      return Symbol.addAncestors r symbols) = _
    rw [hnamed]
    rfl
  rw [hdecorate]
  cases named.mapM (Symbol.sign r) with
  | error m => nofun
  | ok signed => nofun

theorem ofSymbols_serves (settings : Settings) (sources : Source.Catalog)
    (tutorials : List Tutorial) (symbols : List Symbol) :
    (∀ e, ofSymbols settings sources tutorials symbols ≠ .error (.link e)) ∧
      ∃ r, Registry.populate symbols (listed settings sources) tutorials = .ok r ∧
        r.Serves symbols ∧
        ∀ s, ofSymbols settings sources tutorials symbols = .ok s → s.registry = r := by
  obtain ⟨r, hpopulate, hr⟩ := Registry.populate_spec symbols (listed settings sources) tutorials
  have hsite : ofSymbols settings sources tutorials symbols = (do
      let symbols := settle (← decorate r symbols)
      let members := Members.collect symbols tutorials
      return {
        symbols, sources, tutorials, registry := r, members
        nav := Nav.build members r settings.pages.longnamesInNav
        tree := Tree.graft symbols }) := by
    change ((Registry.populate symbols (listed settings sources) tutorials).mapError
      SiteError.link >>= _) = _
    rw [hpopulate]
    rfl
  refine ⟨fun e h => ?_, r, hpopulate, hr.serves, fun s h => ?_⟩
  · rw [hsite] at h
    cases hdecorate : decorate r symbols with
    | error e' =>
      rw [hdecorate] at h
      cases h
      exact decorate_ne_link hr.serves e hdecorate
    | ok decorated =>
      rw [hdecorate] at h
      cases h
  · obtain ⟨hregistry, -⟩ := ofSymbols_spec h
    exact Except.ok.inj (hregistry.symm.trans hpopulate)

end Site

end Refsite
