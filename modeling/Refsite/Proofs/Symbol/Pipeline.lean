import Refsite.Doclet
import Refsite.Proofs.Site.Decorate
import Refsite.Proofs.Symbol.Reading
namespace Refsite

open Json (Tidy)

namespace Symbol

theorem Clean.congr {s t : Symbol} (h : s.Clean) (hdetail : t.detail = s.detail)
    (horigin : t.origin = s.origin) (hextra : t.extra = s.extra) : t.Clean := by
  obtain ⟨detail, origin, extra, attached⟩ := h
  rw [kind, ← hdetail] at extra
  exact .mk (hdetail ▸ detail) (horigin ▸ origin) (hextra ▸ extra) (hdetail ▸ attached)

theorem Clean.of_undecorated {s t : Symbol} (h : s.Clean) (heq : t.undecorated = s.undecorated) :
    t.Clean := by
  have hdetail : t.undecorated.detail = s.undecorated.detail := by rw [heq]
  have horigin : t.undecorated.origin = s.undecorated.origin := by rw [heq]
  have hextra : t.undecorated.extra = s.undecorated.extra := by rw [heq]
  exact h.congr hdetail horigin hextra

theorem Clean.asMember {s : Symbol} (h : s.Clean) : s.asMember.Clean := by
  cases hd : s.detail with
  | constant value =>
    obtain ⟨detail, origin, extra, attached⟩ := h
    rw [hd] at detail attached
    rw [kind, hd] at extra
    rw [Symbol.asMember, hd]
    exact .mk ⟨by simp [Detail.call?], detail.type⟩ origin extra (by simp [Detail.attached])
  | _ => rwa [Symbol.asMember, hd]

theorem Clean.exportCopy {s : Symbol} (h : s.Clean) : s.exportCopy.Clean := by
  rw [Symbol.exportCopy]
  split
  · exact h.congr rfl rfl rfl
  · exact h

theorem Clean.withPlainName {s : Symbol} (h : s.Clean) : s.withPlainName.Clean := by
  rw [Symbol.withPlainName]
  split
  · exact h.congr rfl rfl rfl
  · exact h

theorem Clean.attachExports {all : List Symbol} (hall : ∀ t ∈ all, t.Clean) {s : Symbol}
    (h : s.Clean) : (attachExports all s).Clean := by
  cases hd : s.detail with
  | moduleUnit ts =>
    rw [Symbol.attachExports, hd]
    dsimp only
    split
    · exact h
    · obtain ⟨detail, origin, extra, -⟩ := h
      rw [kind, hd] at extra
      refine .mk ⟨by simp [Detail.call?], by simp [Detail.type?]⟩ origin extra fun t ht => ?_
      obtain ⟨u, hu, rfl⟩ := List.mem_map.mp ht
      exact (hall u (List.mem_filter.mp (List.mem_filter.mp hu).1).1).exportCopy
  | _ => rwa [Symbol.attachExports, hd]

theorem Clean.addListeners {s : Symbol} (h : s.Clean) (longnames : List String) :
    (s.addListeners longnames).Clean := by
  cases hd : s.detail with
  | event call listeners =>
    obtain ⟨detail, origin, extra, attached⟩ := h
    rw [hd] at detail
    rw [kind, hd] at extra
    rw [Symbol.addListeners, hd]
    exact .mk ⟨detail.call, by simp [Detail.type?]⟩ origin extra (by simp [Detail.attached])
  | _ => rwa [Symbol.addListeners, hd]

theorem clean_linkListenersFrom {all symbols : List Symbol} {seen : List String}
    (h : ∀ s ∈ symbols, s.Clean) : ∀ s ∈ linkListenersFrom all seen symbols, s.Clean := by
  induction symbols generalizing seen with
  | nil => nofun
  | cons s symbols ih =>
    obtain ⟨hs, hsymbols⟩ := List.forall_mem_cons.mp h
    rw [linkListenersFrom]
    split
    · exact List.forall_mem_cons.mpr ⟨hs.addListeners _, ih hsymbols⟩
    · exact List.forall_mem_cons.mpr ⟨hs, ih hsymbols⟩

end Symbol

theorem Source.Catalog.clean_annotate {c : Source.Catalog} {s : Symbol} (h : s.Clean) :
    (c.annotate s).Clean := by
  rw [annotate]
  split
  · next short origin _ horigin =>
    split
    · exact h
    · obtain ⟨detail, horigins, extra, attached⟩ := h
      refine .mk detail ?_ extra attached
      rintro o ⟨rfl⟩
      have := horigins origin horigin
      exact ⟨this.snippet, this.extra⟩
  · exact h

namespace Site

open Refsite.Symbol

theorem clean_select {v : Visibility} {symbols : List Symbol} (h : ∀ s ∈ symbols, s.Clean) :
    ∀ s ∈ (select v symbols).2, s.Clean := by
  have hpruned : ∀ s ∈ prune v symbols, s.Clean := by
    intro s hs
    exact h s (List.mem_filter.mp ((List.mergeSort_perm _ _).mem_iff.mp hs)).1
  intro s hs
  obtain ⟨t, ht, rfl⟩ := List.mem_map.mp hs
  obtain ⟨u, hu, rfl⟩ := List.mem_map.mp ht
  exact Source.Catalog.clean_annotate ((clean_linkListenersFrom hpruned u hu).congr rfl rfl rfl)

theorem clean_settle {symbols : List Symbol} (h : ∀ s ∈ symbols, s.Clean) :
    ∀ s ∈ settle symbols, s.Clean := by
  have hmembers : ∀ s ∈ symbols.map asMember, s.Clean := by
    intro s hs
    obtain ⟨t, ht, rfl⟩ := List.mem_map.mp hs
    exact (h t ht).asMember
  intro s hs
  obtain ⟨t, ht, rfl⟩ := List.mem_map.mp hs
  obtain ⟨u, hu, rfl⟩ := List.mem_map.mp ht
  exact (Clean.attachExports hmembers (hmembers u hu)).withPlainName

theorem clean_decorate {r : Registry} {symbols decorated : List Symbol}
    (h : decorate r symbols = .ok decorated) (hclean : ∀ s ∈ symbols, s.Clean) :
    ∀ s ∈ decorated, s.Clean := by
  intro s hs
  have hmem : s.undecorated ∈ symbols.map undecorated := by
    rw [← undecorated_decorate h]
    exact List.mem_map_of_mem hs
  obtain ⟨t, ht, heq⟩ := List.mem_map.mp hmem
  exact (hclean t ht).of_undecorated heq.symm

theorem clean_of_ofSymbols {settings : Settings} {sources : Source.Catalog}
    {tutorials : List Tutorial} {symbols : List Symbol} {site : Site}
    (h : ofSymbols settings sources tutorials symbols = .ok site)
    (hclean : ∀ s ∈ symbols, s.Clean) : ∀ s ∈ site.symbols, s.Clean := by
  obtain ⟨registry, -, h⟩ := of_bind_ok h
  obtain ⟨decorated, hdecorated, h⟩ := of_bind_ok h
  cases h
  exact clean_settle (clean_decorate hdecorated hclean)

end Site

namespace Doclet

theorem read_of_symbol? {d : Doclet} {s : Symbol} (h : d.symbol? = .ok (some s)) :
    Symbol.read (.object d) = .ok s := by
  unfold symbol? at h
  split at h
  · cases h
  · cases h
  · split at h
    · split at h
      · next hread =>
        cases h
        exact hread
      · cases h
    · cases h
  · cases h

theorem clean_of_symbolsFrom {position : Nat} {raw : List Doclet} {symbols : List Symbol}
    (h : (symbolsFrom position raw).2 = .ok symbols) (htidy : ∀ d ∈ raw, Tidy (.object d)) :
    ∀ s ∈ symbols, s.Clean := by
  induction raw generalizing position symbols with
  | nil =>
    cases h
    nofun
  | cons d raw ih =>
    obtain ⟨hd, hraw⟩ := List.forall_mem_cons.mp htidy
    rw [symbolsFrom] at h
    split at h
    · cases h
    · exact ih h hraw
    · next s hs =>
      dsimp only at h
      cases hrest : (symbolsFrom (position + 1) raw).2 with
      | error e =>
        rw [hrest] at h
        cases h
      | ok rest =>
        rw [hrest] at h
        cases h
        exact List.forall_mem_cons.mpr
          ⟨Symbol.clean_of_read hd (read_of_symbol? hs), ih hrest hraw⟩

end Doclet

end Refsite
