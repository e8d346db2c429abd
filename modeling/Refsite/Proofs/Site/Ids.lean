import Refsite.Proofs.Site.Decorate
import Refsite.Proofs.Site.OwnAddress
import Refsite.Proofs.Symbol.Anchors
namespace Refsite

namespace Symbol

theorem hash_mem_fragment_iff (s : Symbol) :
    '#' ∈ s.fragment.toList ↔ '#' ∈ s.name.toList ∨ '#' ∈ (s.variation.getD "").toList := by
  have hmark : '#' ∉ (if scopeMark s.scope == "#" then "" else scopeMark s.scope).toList := by
    have hall : ∀ mark ∈ ["~", "#", ".", ""],
        '#' ∉ (if mark == "#" then "" else mark).toList := by
      decide
    have hmem : scopeMark s.scope ∈ ["~", "#", ".", ""] := by
      unfold scopeMark
      split <;> decide
    exact hall _ hmem
  have hspace : '#' ∉ (if Link.Stem.nameSpaces.contains s.kind.word then s.kind.word ++ ":"
      else "").toList := by
    cases s.kind <;> decide
  rw [fragment]
  simp only [String.toList_append, List.mem_append, or_iff_right hmark, or_iff_right hspace]

theorem toList_addressIn {s : Symbol} {file : String} (hfile : '#' ∉ file.toList)
    (h : '#' ∈ (encodeUrl (s.addressIn file)).toList) :
    (encodeUrl (s.addressIn file)).toList =
      Text.Percent.encode file.toList ++ '#' :: Text.Percent.encode s.fragment.toList := by
  by_cases hempty : s.addressFragment.isEmpty = true
  · rw [(s.addressIn_eq_self_iff file).mpr hempty, toList_encodeUrl] at h
    exact absurd h (Text.Percent.hash_notMem_encode hfile)
  · have hfragment : s.addressFragment = s.fragment := by
      rw [addressFragment]
      split
      · rfl
      · next hnone =>
        rw [addressFragment, if_neg hnone] at hempty
        exact absurd rfl hempty
    have haddress : s.addressIn file = file ++ "#" ++ s.addressFragment := if_neg hempty
    rw [haddress, hfragment, toList_encodeUrl_fragment]

theorem addressIn_eq_idAt_iff {s : Symbol} {file : String} (hfile : '#' ∉ file.toList)
    (h : '#' ∈ (encodeUrl (s.addressIn file)).toList) :
    encodeUrl (s.addressIn file) = onChars (Text.upTo '#') (encodeUrl (s.addressIn file)) ++
      "#" ++ s.idAt (encodeUrl (s.addressIn file)) ↔
        '#' ∉ s.name.toList ∧ '#' ∉ (s.variation.getD "").toList := by
  rw [fragment_eq_idAt_iff (Text.Percent.hash_notMem_encode hfile) (toList_addressIn hfile h),
    Text.Percent.hash_mem_encode_iff, hash_mem_fragment_iff, not_or]

end Symbol

namespace Registry

open Placement Refsite.Symbol Text

theorem Populated.exists_last {symbols : List Symbol} {sources : Source.Catalog}
    {tutorials : List Tutorial} {r : Registry} (h : Populated symbols sources tutorials r)
    {s : Symbol} (hs : s ∈ symbols) :
    ∃ p file, last? (all symbols sources) s.longname = some p ∧
      r.pages.lookup p.owner = some file ∧
      r.resolve? s.longname = some (encodeUrl (p.address file)) := by
  obtain ⟨p, -, -, hlast⟩ := exists_getLast_filter (p := (·.key == s.longname))
    (List.mem_append_left (sources.map ofSource) (List.mem_map_of_mem (f := ofSymbol) hs))
    (beq_self_eq_true _)
  obtain ⟨file, hfile, hurl⟩ := h.url _ _ hlast
  exact ⟨p, file, hlast, hfile, hurl⟩

/-- The addresses of symbols with different longnames are bound, and the id of each symbol whose
address has a fragment is that fragment exactly if neither its name nor its variation holds a
number sign. -/
theorem exists_ids {symbols : List Symbol} (hnames : (symbols.map (·.longname)).Nodup)
    (sources : Source.Catalog) (tutorials : List Tutorial) :
    ∃ r named, populate symbols sources tutorials = .ok r ∧
      symbols.mapM (assignId r) = .ok named ∧
      ∀ s ∈ named, ∃ url id, r.require s.longname = .ok url ∧ s.id = some id ∧
        ('#' ∈ url.toList →
          (url = onChars (upTo '#') url ++ "#" ++ id ↔
            '#' ∉ s.name.toList ∧ '#' ∉ (s.variation.getD "").toList)) := by
  obtain ⟨r, hpop, hr⟩ := populate_spec symbols sources tutorials
  have hsome : ∀ s ∈ symbols, (r.resolve? s.longname).isSome := by
    intro s hs
    obtain ⟨p, file, -, -, hurl⟩ := hr.exists_last hs
    rw [hurl]
    rfl
  refine ⟨r, _, hpop, mapM_eq_map fun s hs => assignId_of_isSome (hsome s hs), ?_⟩
  intro t ht
  obtain ⟨s, hs, rfl⟩ := List.mem_map.mp ht
  refine ⟨_, _, require_of_isSome (hsome s hs), rfl, fun hhash => ?_⟩
  obtain ⟨p, file, hlast, hfile, hurl⟩ := hr.exists_last hs
  have hplain : '#' ∉ file.toList := hr.sound.hash_notMem (page_mem_files hfile)
  have haddress : r.addressOf s.longname = encodeUrl (p.address file) := by
    rw [addressOf, hurl]
    rfl
  change '#' ∈ (r.addressOf s.longname).toList at hhash
  rw [haddress] at hhash
  by_cases htitle : s.longname ∈ sources.map Source.File.title
  -- The address of a listing is a page as a whole.
  · obtain ⟨f, -, htaken⟩ := last_all_of_title symbols htitle
    cases hlast.symm.trans htaken
    rw [toList_encodeUrl] at hhash
    exact absurd hhash (Percent.hash_notMem_encode hplain)
  · have htaken := last_all_of_not_title symbols htitle
    rw [getLast?_of_nodup hnames hs, Option.map_some] at htaken
    cases hlast.symm.trans htaken
    change r.addressOf s.longname = onChars (upTo '#') (r.addressOf s.longname) ++ "#" ++
      s.idAt (r.addressOf s.longname) ↔ _
    rw [haddress]
    exact addressIn_eq_idAt_iff hplain hhash

def counters : List Symbol :=
  [.bare (.classType ⟨[], [], []⟩ none []) "Foo" "Foo" none,
   { Symbol.bare (.member ⟨none, false, none, none⟩) "#count" "Foo##count" (some "Foo") with
      scope := some "instance" },
   { Symbol.bare (.function ⟨[], [], []⟩) "reset" "Foo.reset" (some "Foo") with
      scope := some "static" }]

def counterRegistry : Registry where
  claimed := [("index", "index"), ("global", "global"), ("foo", "Foo")]
  urls := [("global", "global.html"), ("Foo", "Foo.html"), ("Foo##count", "Foo.html##count"),
    ("Foo.reset", "Foo.html#.reset")]
  pages := [("global", "global.html"), ("Foo", "Foo.html")]
  tutorials := []
  frozen := true

theorem populate_counters : populate counters [] [] = .ok counterRegistry := by decide

/-- The method has the whole fragment as its id, the private member has not. -/
theorem ids_of_counters :
    (counters.map (·.longname)).Nodup ∧
      ∃ named, counters.mapM (assignId counterRegistry) = .ok named ∧ ∀ s ∈ named, ∃ url id,
        counterRegistry.require s.longname = .ok url ∧ s.id = some id ∧
          ('#' ∈ url.toList →
            (url = onChars (upTo '#') url ++ "#" ++ id ↔ s.name ≠ "#count")) := by
  let look (s : Symbol) : String × Option String := (s.name, s.variation)
  have hnames : (counters.map (·.longname)).Nodup := by decide
  obtain ⟨r, named, hpop, hnamed, hids⟩ := exists_ids hnames [] []
  cases Except.ok.inj (hpop.symm.trans populate_counters)
  refine ⟨hnames, named, hnamed, fun s hs => ?_⟩
  have hkept : named.map look = counters.map look :=
    map_eq_of_mapM_ok (fun s t h => congrArg look (undecorated_assignId s t h)) hnamed
  have hall : ∀ p ∈ counters.map look,
      ('#' ∉ p.1.toList ∧ '#' ∉ (p.2.getD "").toList ↔ p.1 ≠ "#count") := by
    decide
  obtain ⟨url, id, hurl, hid, hiff⟩ := hids s hs
  exact ⟨url, id, hurl, hid, fun hhash =>
    (hiff hhash).trans (hall (look s) (hkept ▸ List.mem_map_of_mem hs))⟩

/-- Links to the private member lead to `#count` on the page, where its id is `count`. -/
theorem id_of_private_member :
    (counters.map (·.longname)).Nodup ∧ populate counters [] [] = .ok counterRegistry ∧
      ∃ s ∈ counters, ∃ t, assignId counterRegistry s = .ok t ∧ t.id = some "count" ∧
        counterRegistry.require s.longname = .ok "Foo.html##count" ∧
        "Foo.html##count" ≠ onChars (upTo '#') "Foo.html##count" ++ "#" ++ "count" := by
  refine ⟨by decide, populate_counters, _, List.mem_cons_of_mem _ List.mem_cons_self, _, rfl, ?_⟩
  decide

end Registry

end Refsite
