import Refsite.Proofs.Basic
import Refsite.Proofs.Link.Owner
import Refsite.Site.Basic
namespace Refsite

namespace Symbol

/-- A symbol without what depends on addresses. -/
def undecorated (s : Symbol) : Symbol :=
  { s with see := [], attribs := none, signature := none, id := none, ancestors := [] }

theorem undecorated_linkPlaces {r : Registry} (s t : Symbol) (h : linkPlaces r s = .ok t) :
    t.undecorated = s.undecorated := by
  rw [linkPlaces] at h
  split at h
  · obtain ⟨url, -, h⟩ := of_bind_ok h
    cases h
    rfl
  · cases h
    rfl

theorem undecorated_assignId {r : Registry} (s t : Symbol) (h : assignId r s = .ok t) :
    t.undecorated = s.undecorated := by
  obtain ⟨url, -, h⟩ := of_bind_ok h
  cases h
  rfl

theorem undecorated_sign {r : Registry} (s t : Symbol) (h : sign r s = .ok t) :
    t.undecorated = s.undecorated := by
  rw [sign] at h
  split at h
  · obtain ⟨returns, -, h⟩ := of_bind_ok h
    cases h
    rfl
  · split at h
    · obtain ⟨signature, -, h⟩ := of_bind_ok h
      cases h
      rfl
    · cases h
      rfl

theorem undecorated_addAncestors (r : Registry) (symbols : List Symbol) :
    (addAncestors r symbols).map undecorated = symbols.map undecorated := by
  rw [addAncestors, List.map_map]
  rfl

/-- What of a symbol its address and its pages depend on. -/
structure Standing where
  longname : String
  owner : String
  hasPage : Bool

def standing (s : Symbol) : Standing := ⟨s.longname, s.owner, s.kind.hasPage⟩

theorem standing_of_hasPage {s : Symbol} (h : s.kind.hasPage = true) :
    s.standing = ⟨s.longname, s.longname, true⟩ := by
  rw [standing, owner_of_hasPage h, h]

theorem standing_asMember (s : Symbol) : s.asMember.standing = s.standing := by
  cases s with
  | mk name longname memberof scope access description origin examples see listens fires ignore
      undocumented virtual isAsync generator version since variation attribs signature id ancestors
      detail extra =>
    cases detail <;> rfl

theorem standing_attachExports (all : List Symbol) (s : Symbol) :
    (attachExports all s).standing = s.standing := by
  cases hd : s.detail with
  | moduleUnit attached =>
    rw [attachExports, hd]
    dsimp only
    split
    · rfl
    · have hpage : s.kind.hasPage = true := by
        rw [kind, hd]
        rfl
      rw [standing_of_hasPage rfl, standing_of_hasPage hpage]
  | _ => rw [attachExports, hd]

theorem standing_withPlainName (s : Symbol) : s.withPlainName.standing = s.standing := by
  rw [withPlainName]
  split
  · next hkind =>
    have hpage : s.kind.hasPage = true := by
      rw [beq_iff_eq.mp hkind]
      rfl
    rw [standing_of_hasPage hpage]
    exact standing_of_hasPage hpage
  · rfl

end Symbol

namespace Site

open Refsite.Symbol

theorem undecorated_decorate {r : Registry} {symbols decorated : List Symbol}
    (h : decorate r symbols = .ok decorated) :
    decorated.map undecorated = symbols.map undecorated := by
  obtain ⟨linked, hlinked, h⟩ := of_bind_ok h
  obtain ⟨named, hnamed, h⟩ := of_bind_ok h
  obtain ⟨signed, hsigned, h⟩ := of_bind_ok h
  cases h
  rw [undecorated_addAncestors,
    map_eq_of_mapM_ok undecorated_sign (of_mapError_ok hsigned),
    map_eq_of_mapM_ok undecorated_assignId (of_mapError_ok hnamed),
    map_eq_of_mapM_ok undecorated_linkPlaces (of_mapError_ok hlinked)]

section Kept

variable {α : Type} {look : Symbol → α}

theorem map_decorate (hlook : ∀ s, look s.undecorated = look s) {r : Registry}
    {symbols decorated : List Symbol} (h : decorate r symbols = .ok decorated) :
    decorated.map look = symbols.map look := by
  have hundecorated := congrArg (List.map look) (undecorated_decorate h)
  rwa [List.map_map, List.map_map, funext (f := look ∘ undecorated) hlook] at hundecorated

theorem map_settle (hmember : ∀ s : Symbol, look s.asMember = look s)
    (hexports : ∀ all s, look (attachExports all s) = look s)
    (hname : ∀ s : Symbol, look s.withPlainName = look s) (symbols : List Symbol) :
    (settle symbols).map look = symbols.map look := by
  rw [settle, attachAllExports, List.map_map, List.map_map, List.map_map]
  apply List.map_congr_left
  intro s _
  exact (hname _).trans ((hexports _ _).trans (hmember s))

end Kept

theorem standing_settle (symbols : List Symbol) :
    (settle symbols).map standing = symbols.map standing :=
  map_settle standing_asMember standing_attachExports standing_withPlainName symbols

/-- The source files that a site lists. -/
def listed (settings : Settings) (sources : Source.Catalog) : Source.Catalog :=
  if settings.pages.sourcePages then sources else []

theorem ofSymbols_spec {settings : Settings} {sources : Source.Catalog}
    {tutorials : List Tutorial} {symbols : List Symbol} {site : Site}
    (h : ofSymbols settings sources tutorials symbols = .ok site) :
    Registry.populate symbols (listed settings sources) tutorials = .ok site.registry ∧
      site.symbols.map standing = symbols.map standing ∧ site.sources = sources ∧
      site.tutorials = tutorials ∧ site.members = Members.collect site.symbols tutorials := by
  obtain ⟨registry, hregistry, h⟩ := of_bind_ok h
  obtain ⟨decorated, hdecorated, h⟩ := of_bind_ok h
  cases h
  have hstanding := map_decorate (fun s => show s.undecorated.standing = s.standing from rfl)
    hdecorated
  exact ⟨of_mapError_ok hregistry, (standing_settle decorated).trans hstanding, rfl, rfl, rfl⟩

end Site

end Refsite
