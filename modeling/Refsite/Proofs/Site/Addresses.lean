import Refsite.Proofs.Basic
import Refsite.Proofs.Link.Owner
import Refsite.Site.Addresses
namespace Refsite.Registry

/-- What is placed on a page: the longname that the page belongs to, the name that is bound to the
address, and the address, given the file of the page. -/
structure Placement where
  owner : String
  key : String
  address : String → String

namespace Placement

def ofSymbol (s : Symbol) : Placement := ⟨s.owner, s.longname, s.addressIn⟩

def ofSource (f : Source.File) : Placement := ⟨f.title, f.title, id⟩

def all (symbols : List Symbol) (sources : Source.Catalog) : List Placement :=
  symbols.map ofSymbol ++ sources.map ofSource

def last? (ps : List Placement) (key : String) : Option Placement :=
  (ps.filter (·.key == key)).getLast?

theorem exists_getLast_filter {α : Type} {p : α → Bool} {as : List α} {a : α} (ha : a ∈ as)
    (hp : p a = true) : ∃ b ∈ as, p b = true ∧ (as.filter p).getLast? = some b := by
  have hne : as.filter p ≠ [] := List.ne_nil_of_mem (List.mem_filter.mpr ⟨ha, hp⟩)
  have hlast := List.mem_filter.mp (List.getLast_mem hne)
  exact ⟨_, hlast.1, hlast.2, List.getLast?_eq_some_getLast hne⟩

theorem last_cons_of_mem {p : Placement} {ps : List Placement} {key : String}
    (h : key ∈ ps.map Placement.key) : last? (p :: ps) key = last? ps key := by
  obtain ⟨q, hq, rfl⟩ := List.mem_map.mp h
  obtain ⟨b, -, -, hlast⟩ := exists_getLast_filter (p := (·.key == q.key)) hq (beq_self_eq_true _)
  rw [last?, last?, List.filter_cons]
  split
  · rw [List.getLast?_cons, hlast, Option.getD_some]
  · rfl

theorem last_cons_of_notMem {p : Placement} {ps : List Placement} {key : String}
    (h : key ∉ ps.map Placement.key) :
    last? (p :: ps) key = if p.key = key then some p else none := by
  have hnil : ps.filter (·.key == key) = [] := by
    rw [List.filter_eq_nil_iff]
    intro q hq he
    exact h (List.mem_map.mpr ⟨q, hq, beq_iff_eq.mp he⟩)
  rw [last?, List.filter_cons, hnil]
  by_cases hp : p.key = key
  · rw [if_pos hp, if_pos (beq_iff_eq.mpr hp), List.getLast?_singleton]
  · rw [if_neg hp, if_neg (mt beq_iff_eq.mp hp), List.getLast?_nil]

end Placement

def place (r : Registry) (p : Placement) : Except LinkError Registry := do
  let (file, r) ← r.assign p.owner
  r.register p.key (encodeUrl (p.address file))

theorem addSymbol_eq (r : Registry) (s : Symbol) : r.addSymbol s = r.place (.ofSymbol s) := by
  rw [addSymbol, createLink_eq, bind_map]
  rfl

theorem addSource_eq (r : Registry) (f : Source.File) : r.addSource f = r.place (.ofSource f) := by
  rw [addSource, pageUrl_eq, bind_map]
  rfl

theorem assign_ok {r : Registry} (hf : r.frozen = false) (longname : String) :
    ∃ file r', r.assign longname = .ok (file, r') ∧ r'.frozen = false ∧
      ∀ {other url : String}, r.urls.lookup other = some url → r'.urls.lookup other = some url := by
  cases hl : r.pages.lookup longname with
  | some file => exact ⟨file, r, assign_of_lookup hl, hf, id⟩
  | none =>
    rw [assign_of_new hl, hf, if_neg Bool.false_ne_true]
    exact ⟨_, _, rfl, hf, Bindings.lookup_bindNew_of_some _ _⟩

theorem register_ok {r : Registry} (hf : r.frozen = false) (longname url : String) :
    ∃ r', r.register longname url = .ok r' ∧ r'.frozen = false ∧ r'.pages = r.pages ∧
      ∀ {other : String}, other ≠ longname → r'.urls.lookup other = r.urls.lookup other := by
  rw [register, hf]
  split
  · exact ⟨r, rfl, hf, rfl, fun _ => rfl⟩
  · exact ⟨_, rfl, rfl, rfl, Bindings.lookup_bind_of_ne _ _⟩

/-- A placement on a registry that is not frozen opens its owner's page and binds its own name, and
leaves the addresses of all other names. -/
theorem place_spec {r : Registry} (hf : r.frozen = false) (p : Placement) :
    ∃ r' file, r.place p = .ok r' ∧ Later r r' ∧ r'.frozen = false ∧
      r'.pages.lookup p.owner = some file ∧
      r'.urls.lookup p.key = some (encodeUrl (p.address file)) ∧
      ∀ {other url : String}, other ≠ p.key → r.urls.lookup other = some url →
        r'.urls.lookup other = some url := by
  obtain ⟨file, r₁, hassign, hf₁, hurls₁⟩ := assign_ok hf p.owner
  obtain ⟨r₂, hregister, hf₂, hpages, hurls₂⟩ :=
    register_ok hf₁ p.key (encodeUrl (p.address file))
  obtain ⟨hpage, hassigned⟩ := change_of_assign hassign
  obtain ⟨hurl, hregistered⟩ := change_of_register hregister
  refine ⟨r₂, file, ?_, hassigned.later.trans hregistered.later, hf₂, hpages ▸ hpage, hurl, ?_⟩
  · rw [place, hassign]
    exact hregister
  · intro other url hne h
    rw [hurls₂ hne]
    exact hurls₁ h

/-- Placing everything in order: every owner has a page, and of the placements with one name the
last one has bound it. -/
theorem placeAll_spec {r : Registry} (hf : r.frozen = false) (ps : List Placement) :
    ∃ r', ps.foldlM place r = .ok r' ∧ Later r r' ∧ r'.frozen = false ∧
      (∀ p ∈ ps, ∃ file, r'.pages.lookup p.owner = some file) ∧
      (∀ key p, Placement.last? ps key = some p →
        ∃ file, r'.pages.lookup p.owner = some file ∧
          r'.urls.lookup key = some (encodeUrl (p.address file))) ∧
      ∀ {key url : String}, key ∉ ps.map Placement.key → r.urls.lookup key = some url →
        r'.urls.lookup key = some url := by
  induction ps generalizing r with
  | nil =>
    refine ⟨r, rfl, Relation.ReflTransGen.refl, hf, ?_, ?_, fun _ h => h⟩
    · intro p hp
      cases hp
    · intro key p hp
      cases hp
  | cons p ps ih =>
    obtain ⟨r₁, file, hplace, hlater₁, hf₁, hpage, hurl, hkept₁⟩ := place_spec hf p
    obtain ⟨r₂, hfold, hlater₂, hf₂, hopen, hlast, hkept₂⟩ := ih hf₁
    refine ⟨r₂, ?_, hlater₁.trans hlater₂, hf₂, ?_, ?_, ?_⟩
    · rw [List.foldlM_cons, hplace]
      exact hfold
    · intro q hq
      cases List.mem_cons.mp hq with
      | inl hq => exact ⟨file, hq ▸ hlater₂.pages_lookup hpage⟩
      | inr hq => exact hopen q hq
    · intro key q hq
      by_cases hmem : key ∈ ps.map Placement.key
      · rw [Placement.last_cons_of_mem hmem] at hq
        exact hlast key q hq
      · rw [Placement.last_cons_of_notMem hmem] at hq
        by_cases hkey : p.key = key
        · rw [if_pos hkey] at hq
          cases hq
          exact ⟨file, hlater₂.pages_lookup hpage, hkept₂ hmem (hkey ▸ hurl)⟩
        · rw [if_neg hkey] at hq
          cases hq
    · intro key url hnot h
      rw [List.map_cons, List.mem_cons, not_or] at hnot
      exact hkept₂ hnot.2 (hkept₁ hnot.1 h)

theorem registerTutorial_ok {r : Registry} (hf : r.frozen = false) (name : String) :
    ∃ url r', r.registerTutorial name = .ok (url, r') ∧ r'.frozen = false ∧ r'.urls = r.urls ∧
      r'.pages = r.pages := by
  cases hl : r.tutorials.lookup name with
  | some url => exact ⟨url, r, registerTutorial_of_lookup hl, hf, rfl, rfl⟩
  | none =>
    rw [registerTutorial_of_new hl, hf, if_neg Bool.false_ne_true]
    exact ⟨_, _, rfl, hf, rfl, rfl⟩

theorem addTutorials_spec {r : Registry} (hf : r.frozen = false) (tutorials : List Tutorial) :
    ∃ r', tutorials.foldlM addTutorial r = .ok r' ∧ Later r r' ∧ r'.frozen = false ∧
      r'.urls = r.urls ∧ r'.pages = r.pages ∧
      ∀ t ∈ tutorials, ∃ url, r'.tutorials.lookup t.name = some url := by
  induction tutorials generalizing r with
  | nil =>
    refine ⟨r, rfl, Relation.ReflTransGen.refl, hf, rfl, rfl, ?_⟩
    intro t ht
    cases ht
  | cons t tutorials ih =>
    obtain ⟨url, r₁, hregister, hf₁, hurls₁, hpages₁⟩ := registerTutorial_ok hf t.name
    obtain ⟨htutorial, hchange⟩ := change_of_registerTutorial hregister
    obtain ⟨r₂, hfold, hlater₂, hf₂, hurls₂, hpages₂, hall⟩ := ih hf₁
    refine ⟨r₂, ?_, hchange.later.trans hlater₂, hf₂, hurls₂.trans hurls₁,
      hpages₂.trans hpages₁, ?_⟩
    · rw [List.foldlM_cons, addTutorial, hregister]
      exact hfold
    · intro u hu
      cases List.mem_cons.mp hu with
      | inl hu => exact ⟨url, hu ▸ hlater₂.tutorials_lookup htutorial⟩
      | inr hu => exact hall u hu

theorem populate_eq (symbols : List Symbol) (sources : Source.Catalog) (tutorials : List Tutorial) :
    populate symbols sources tutorials = (do
      let r ← (Placement.all symbols sources).foldlM place initial
      let r ← (Tutorial.walkAll tutorials).foldlM addTutorial r
      return r.freeze) := by
  simp only [populate, Placement.all, List.foldlM_append, List.foldlM_map, ← addSymbol_eq,
    ← addSource_eq, bind_assoc]

/-- What the registry of a site holds. -/
structure Populated (symbols : List Symbol) (sources : Source.Catalog) (tutorials : List Tutorial)
    (r : Registry) : Prop where
  sound : r.Sound
  frozen : r.frozen = true
  page : ∀ p ∈ Placement.all symbols sources, ∃ file, r.pages.lookup p.owner = some file
  /-- A name leads to the page of the last placement that binds it. -/
  url : ∀ key p, Placement.last? (Placement.all symbols sources) key = some p →
    ∃ file, r.pages.lookup p.owner = some file ∧
      r.urls.lookup key = some (encodeUrl (p.address file))
  /-- Names that nothing binds keep the addresses that they have from the start. -/
  kept : ∀ {key url : String}, key ∉ (Placement.all symbols sources).map Placement.key →
    initial.urls.lookup key = some url → r.urls.lookup key = some url
  globalPage : r.pages.lookup globalName = some globalUrl
  tutorial : ∀ t ∈ Tutorial.walkAll tutorials, ∃ url, r.tutorials.lookup t.name = some url

theorem populate_spec (symbols : List Symbol) (sources : Source.Catalog)
    (tutorials : List Tutorial) :
    ∃ r, populate symbols sources tutorials = .ok r ∧ Populated symbols sources tutorials r := by
  obtain ⟨r₁, hplace, hlater₁, hf₁, hpage, hurl, hkept⟩ :=
    placeAll_spec (r := initial) rfl (Placement.all symbols sources)
  obtain ⟨r₂, htutorials, hlater₂, hf₂, hurls₂, hpages₂, htutorial⟩ :=
    addTutorials_spec hf₁ (Tutorial.walkAll tutorials)
  have hlater : Later initial r₂.freeze :=
    (hlater₁.trans hlater₂).trans (Change.freeze (r := r₂)).later
  refine ⟨r₂.freeze, ?_, hlater.sound sound_initial, rfl, ?_, ?_, ?_,
    hlater.pages_lookup rfl, htutorial⟩
  · rw [populate_eq, hplace]
    change (do
      let r ← (Tutorial.walkAll tutorials).foldlM addTutorial r₁
      return r.freeze) = _
    rw [htutorials]
    rfl
  · intro p hp
    obtain ⟨file, hfile⟩ := hpage p hp
    exact ⟨file, hlater₂.pages_lookup hfile⟩
  · intro key p hp
    obtain ⟨file, hfile, hkey⟩ := hurl key p hp
    exact ⟨file, hlater₂.pages_lookup hfile, hurls₂ ▸ hkey⟩
  · intro key url hnot h
    exact hurls₂ ▸ hkept hnot h

theorem later_of_populate {symbols : List Symbol} {sources : Source.Catalog}
    {tutorials : List Tutorial} {r : Registry} (h : populate symbols sources tutorials = .ok r) :
    Later initial r := by
  obtain ⟨r₁, hplace, hlater₁, hf₁, -⟩ :=
    placeAll_spec (r := initial) rfl (Placement.all symbols sources)
  obtain ⟨r₂, htutorials, hlater₂, -⟩ := addTutorials_spec hf₁ (Tutorial.walkAll tutorials)
  rw [populate_eq, hplace] at h
  change (do
    let r ← (Tutorial.walkAll tutorials).foldlM addTutorial r₁
    return r.freeze) = _ at h
  rw [htutorials] at h
  cases h
  exact (hlater₁.trans hlater₂).trans (Change.freeze (r := r₂)).later

end Refsite.Registry
