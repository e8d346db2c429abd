import Refsite.Proofs.Site.Reordering
import Refsite.Proofs.Site.Validation
import Refsite.Proofs.Symbol.Undeclared
namespace Refsite

open Json (Tidy)

namespace Symbol

theorem heritage_addListeners (longnames : List String) (s : Symbol) :
    (s.addListeners longnames).heritage = s.heritage := by
  cases hd : s.detail with
  | event call listeners =>
    rw [addListeners, hd, heritage, heritage, hd]
    rfl
  | _ => rw [addListeners, hd]

theorem heritage_linkListenersFrom (all : List Symbol) (seen : List String)
    (symbols : List Symbol) :
    (linkListenersFrom all seen symbols).map heritage = symbols.map heritage := by
  induction symbols generalizing seen with
  | nil => rfl
  | cons s symbols ih =>
    rw [linkListenersFrom]
    split
    · rw [List.map_cons, List.map_cons, ih, heritage_addListeners]
    · rw [List.map_cons, List.map_cons, ih]

theorem heritage_annotate (c : Source.Catalog) (s : Symbol) :
    (c.annotate s).heritage = s.heritage := by
  rw [Source.Catalog.annotate]
  split
  · next horigin =>
    split
    · rfl
    · rw [heritage, heritage, horigin]
      rfl
  · rfl

theorem heritage_asMember (s : Symbol) : s.asMember.heritage = s.heritage := by
  cases hd : s.detail with
  | constant value =>
    rw [asMember, hd, heritage, heritage, hd]
    rfl
  | _ => rw [asMember, hd]

theorem heritage_attachExports (all : List Symbol) (s : Symbol) :
    (attachExports all s).heritage = s.heritage := by
  cases hd : s.detail with
  | moduleUnit attached =>
    rw [attachExports, hd]
    dsimp only
    split
    · rfl
    · rw [heritage, heritage, hd]
      rfl
  | _ => rw [attachExports, hd]

theorem heritage_withPlainName (s : Symbol) : s.withPlainName.heritage = s.heritage := by
  rw [withPlainName]
  split <;> rfl

end Symbol

namespace Site

open Refsite.Symbol

theorem heritage_select (v : Visibility) (symbols : List Symbol) :
    (select v symbols).2.map heritage = (prune v symbols).map heritage := by
  have hannotated : ∀ (c : Source.Catalog) (symbols : List Symbol),
      (symbols.map c.annotate).map heritage = symbols.map heritage := by
    intro c symbols
    rw [List.map_map]
    exact List.map_congr_left fun s _ => heritage_annotate c s
  have hcaptions : ∀ symbols : List Symbol,
      (splitCaptions symbols).map heritage = symbols.map heritage := by
    intro symbols
    rw [splitCaptions, List.map_map]
    rfl
  rw [select, Source.catalog]
  exact (hannotated _ _).trans ((hcaptions _).trans (heritage_linkListenersFrom _ _ _))

theorem heritage_of_ofSymbols {settings : Settings} {sources : Source.Catalog}
    {tutorials : List Tutorial} {symbols : List Symbol} {site : Site}
    (h : ofSymbols settings sources tutorials symbols = .ok site) :
    site.symbols.map heritage = symbols.map heritage := by
  obtain ⟨registry, -, h⟩ := of_bind_ok h
  obtain ⟨decorated, hdecorated, h⟩ := of_bind_ok h
  cases h
  exact (map_settle heritage_asMember heritage_attachExports heritage_withPlainName _).trans
    (map_decorate (fun _ => rfl) hdecorated)

end Site

namespace Doclet

def readings (raw : List Doclet) : List (Doclet × Symbol) :=
  raw.filterMap fun d => d.shown?.map (d, ·)

/-- The readings of the published symbols, in the order of the symbols. -/
def publishedReadings (v : Visibility) (raw : List Doclet) : List (Doclet × Symbol) :=
  ((readings raw).filter fun r => r.2.isPublished v).mergeSort fun r r' => r.2.le r'.2

/-- The doclets of the published symbols, in the order of the symbols. -/
def published (v : Visibility) (raw : List Doclet) : List Doclet :=
  (publishedReadings v raw).map Prod.fst

theorem map_publishedReadings (v : Visibility) (raw : List Doclet) :
    (publishedReadings v raw).map Prod.snd = Symbol.prune v (raw.filterMap shown?) := by
  have hsymbols : (readings raw).map Prod.snd = raw.filterMap shown? := by
    rw [readings, List.map_filterMap]
    congr 1
    funext d
    rw [Option.map_map]
    exact Option.map_id' ..
  rw [Symbol.prune, Symbol.sort, ← hsymbols, List.filter_map, publishedReadings]
  exact List.map_mergeSort fun _ _ _ _ => rfl

theorem of_mem_publishedReadings {v : Visibility} {raw : List Doclet} {r : Doclet × Symbol}
    (h : r ∈ publishedReadings v raw) : r.1 ∈ raw ∧ Symbol.read (.object r.1) = .ok r.2 := by
  have hmem := (List.mem_filter.mp (List.mem_mergeSort.mp h)).1
  obtain ⟨d, hd, hr⟩ := List.mem_filterMap.mp hmem
  obtain ⟨s, hs, rfl⟩ := Option.map_eq_some_iff.mp hr
  refine ⟨hd, read_of_symbol? ?_⟩
  rw [shown?, Option.join_eq_some_iff] at hs
  cases hsymbol : d.symbol? with
  | error e =>
    rw [hsymbol] at hs
    cases hs
  | ok o =>
    rw [hsymbol] at hs
    cases hs
    rfl

def KeptIn (d : Doclet) (y : Json) : Prop :=
  ∃ kind ws, Json.Entries.find? d "kind" = some (.string (Kind.word kind)) ∧ y = .object ws ∧
    Symbol.Keeps kind d ws

theorem keptIn_of_read {d : Doclet} (hd : Tidy (.object d)) {s t : Symbol}
    (hread : Symbol.read (.object d) = .ok s) (ht : t.Clean) (hsame : t.heritage = s.heritage) :
    KeptIn d t.written.sorted := by
  obtain ⟨ws, hws, hkeeps⟩ := Symbol.keeps_of_read hd hread ht hsame
  have hkind : Json.Entries.find? d "kind" = some (.string s.kind.word) := by
    have hkind := (Symbol.of_read_ok hread).1
    unfold Symbol.readKind at hkind
    split at hkind
    · cases hkind
    · next word hword =>
      split at hkind
      · next kind hof =>
        cases hkind
        rw [hword, Kind.word_of_ofWord hof]
      · cases hkind
    · cases hkind
  exact ⟨s.kind, ws, hkind, hws, hkeeps⟩

end Doclet

namespace Site

open Refsite.Symbol

theorem keptIn_of_load [Host] {root input : Path} {settings : Settings} {tutorials : Option Path}
    {raw : List Doclet} {s : Site} {w w' : World}
    (h : (load root input settings tutorials raw).start w = (.ok s, w'))
    (hraw : ∀ d ∈ raw, Tidy (.object d)) :
    List.Forall₂ Doclet.KeptIn (Doclet.published settings.visibility raw)
      (s.symbols.map fun t => t.written.sorted) := by
  have hclean := (consistent_of_load h hraw).clean
  obtain ⟨symbols, ts, hsymbols, hsite, -⟩ := of_load h
  obtain ⟨-, rfl⟩ := Doclet.symbolsFrom_ok_iff.mp hsymbols
  have hheritage : s.symbols.map heritage =
      (Doclet.publishedReadings settings.visibility raw).map fun r => r.2.heritage := by
    rw [heritage_of_ofSymbols hsite, heritage_select, ← Doclet.map_publishedReadings,
      List.map_map]
    rfl
  rw [← List.forall₂_eq_eq_eq, List.forall₂_map_left_iff, List.forall₂_map_right_iff] at hheritage
  have hpairs := ((List.forall₂_and_left _ _).mpr ⟨hclean, hheritage⟩).flip
  have hread := (List.forall₂_and_left _ _).mpr
    ⟨fun r hr => Doclet.of_mem_publishedReadings hr, hpairs⟩
  rw [Doclet.published, List.forall₂_map_left_iff, List.forall₂_map_right_iff]
  exact hread.imp fun r t ⟨⟨hmem, hr⟩, ht, hsame⟩ =>
    Doclet.keptIn_of_read (hraw _ hmem) hr ht hsame

/-- Nothing undeclared is lost: what is written of the published symbols has, for every doclet of
them, all that it says under undeclared names. It stands in its file in the end, unless something
else that was written came over it. -/
theorem docs_keep_undeclared [Host] {root input : Path} {out : Option Path} {given : Option Settings}
    {tutorials : Option Path} {summary : Summary} {w w' : World}
    (hpublish : (publish root input out given tutorials).start w =
      (.ok (.written summary), w')) :
    ∃ directory settings raw s u v text items,
      ((outputOf root out given).start w).1 = .ok directory ∧
      (settingsOf root given).start w = (.ok settings, u) ∧
      (Doclet.load input).start u = (.ok raw, u) ∧
      (load root input settings tutorials raw).start u = (.ok s, v) ∧
      (s.write raw settings root directory).start v = (.ok summary, w') ∧
      s.docs.bind Json.print = .ok text ∧
      Json.ofBytes? (Text.Utf8.encode text.toList) = some (.array items) ∧
      List.Forall₂ Doclet.KeptIn (Doclet.published settings.visibility raw) items ∧
      (Snapshot.path directory .docs ∉ summary.staticFiles →
        (∀ p ∈ summary.written directory, p ≠ Snapshot.path directory .docs →
          w'.disk.isSame p (Snapshot.path directory .docs) = false) →
        w'.disk.read (Snapshot.path directory .docs) = .ok (Text.Utf8.encode text.toList)) := by
  rw [publish_eq] at hpublish
  obtain ⟨settings, u, hsettings, hpublish⟩ := Run.of_start_bind hpublish
  obtain ⟨directory, raw, s, v, hdirectory, hraw, hload, hwrite⟩ := of_publish_dump hpublish
  obtain ⟨-, htidy⟩ := Doclet.load_spec hraw
  obtain ⟨snapshots, later, _, hsnapshots, -⟩ := of_write hwrite
  obtain ⟨-, -, htexts, -⟩ := writeSnapshots_spec hsnapshots
  obtain ⟨x, text, hdocs, hprint⟩ := htexts .docs (by decide)
  have hbytes := Json.ofBytes?_print ((consistent_of_load hload htidy).readsBack htidy hdocs).tidy
    hprint
  rw [Site.eq_of_snapshot_docs hdocs, Json.sorted_array, List.map_map] at hbytes
  refine ⟨directory, settings, raw, s, u, v, text, _, ?_, hsettings, hraw, hload, hwrite, ?_, hbytes,
    keptIn_of_load hload htidy, fun hstatic hapart => ?_⟩
  · rw [start_outputOf hsettings]
    exact hdirectory
  · have hdocs : s.docs = .ok x := hdocs
    rw [hdocs]
    exact hprint
  · obtain ⟨y, other, hy, hother, hread⟩ := Holds.written hwrite hstatic hapart
    cases hdocs.symm.trans hy
    cases hprint.symm.trans hother
    exact hread

section Plain

open scoped Plain

theorem published_measuredDoclet :
    Doclet.published .standard [measuredDoclet] = [measuredDoclet] := by
  have hreadings : Doclet.readings [measuredDoclet] = [(measuredDoclet, measured)] := by
    rw [Doclet.readings, List.filterMap_cons, Doclet.shown?, symbol?_measuredDoclet]
    rfl
  have hfilter : ([(measuredDoclet, measured)].filter fun r => r.2.isPublished .standard) =
      [(measuredDoclet, measured)] := rfl
  rw [Doclet.published, Doclet.publishedReadings, hreadings, hfilter, List.mergeSort_singleton]
  rfl

/-- What is written of the constant has its unit and all of its type, the nulls in them included. -/
theorem measured_kept_undeclared : ∃ (summary : Summary) (w' : World) (bytes : List UInt8)
    (ws types : Json.Entries),
    (publish .top firstDump (some sitePath) (some withoutListings) none).start measuredDump =
      (.ok (.written summary), w') ∧
    w'.disk.read (Snapshot.path sitePath .docs) = .ok bytes ∧
    Json.ofBytes? bytes = some (.array [.object ws]) ∧
    ws.find? "unit" = some (.object [("base", .null)]) ∧
    ws.find? "type" = some (.object types) ∧ types.find? "parsed" = some (.array [.null]) := by
  obtain ⟨s, w', hpublish, -, hfiles⟩ := exists_publish_measured
  have hgrows := grows_of_publish hpublish
  obtain ⟨directory, settings, raw, _, u, _, text, items, hdirectory, hsettings, hraw, -, -, -,
    hbytes, hkept, hfile⟩ := docs_keep_undeclared hpublish
  cases hdirectory
  obtain ⟨rfl, rfl⟩ := Run.of_start_pure hsettings
  cases start_measuredDump.symm.trans hraw
  -- Nothing else was written to the file.
  have hwritten := written_measured hfiles
  have hlocate : ∀ p, measuredDump.disk.isPlainPath p = true → w'.disk.locate p = .ok p.names :=
    fun p hp => hgrows.locate (Disk.locate_of_isPlainPath hp)
  have hread := hfile (by rw [staticFiles_measured hfiles]; decide) fun p hp hne => by
    have hplain : ∀ p ∈ measuredPaths, measuredDump.disk.isPlainPath p = true := by
      decide +kernel
    have hother : ∀ p ∈ measuredPaths,
        p ≠ Snapshot.path sitePath .docs → p.names ≠ (Snapshot.path sitePath .docs).names := by
      decide +kernel
    rw [hwritten] at hp
    exact Disk.isSame_eq_false (hlocate p (hplain p hp)) (hlocate _ rfl) (hother p hp hne)
  have hpublished : Doclet.published withoutListings.visibility [measuredDoclet] =
      [measuredDoclet] := published_measuredDoclet
  rw [hpublished] at hkept
  cases hkept with
  | cons hkeep hrest =>
    cases hrest
    obtain ⟨kind, ws, hkind, rfl, hkeeps⟩ := hkeep
    obtain rfl : kind = .constant := by
      have hword : Kind.word kind = "constant" :=
        (Json.string.inj (Option.some.inj (hkind.symm.trans rfl)))
      cases kind <;> first | rfl | exact absurd hword (by decide)
    have hunit := hkeeps.own "unit" _ (by decide) rfl rfl
    obtain ⟨y, htype, es, types, hes, rfl, hown⟩ := hkeeps.type (by decide) _ rfl rfl
    cases hes
    have hparsed := hown "parsed" _ (by decide) rfl rfl
    rw [Json.sorted, Json.sortedEntries_eq, Json.sortByName, List.map_singleton,
      List.mergeSort_singleton] at hunit
    exact ⟨_, w', _, ws, types, hpublish, hread, hbytes, hunit, htype, hparsed⟩

end Plain

end Site

end Refsite
