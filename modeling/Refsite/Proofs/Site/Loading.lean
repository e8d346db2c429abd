import Refsite.Proofs.Disk.Runs
import Refsite.Proofs.Json.Tidy
import Refsite.Proofs.Site.Publish
import Refsite.Proofs.Site.Snapshots
namespace Refsite

open Json (Tidy)
open Run (Reads)

namespace Doclet

theorem tidy_of_ofItems? {items : List Json} {raw : List Doclet} (h : ofItems? items = some raw)
    (htidy : ∀ x ∈ items, x.Tidy) : ∀ d ∈ raw, Tidy (.object d) := by
  induction items generalizing raw with
  | nil =>
    cases h
    nofun
  | cons x items ih =>
    obtain ⟨hx, hitems⟩ := List.forall_mem_cons.mp htidy
    cases x with
    | object es =>
      obtain ⟨rest, hrest, rfl⟩ := Option.map_eq_some_iff.mp h
      exact List.forall_mem_cons.mpr ⟨hx, ih hrest hitems⟩
    | _ => cases h

theorem load_spec {file : Path} {raw : List Doclet} {w w' : World}
    (h : (load file).start w = (.ok raw, w')) :
    w = w' ∧ ∀ d ∈ raw, Tidy (.object d) := by
  obtain ⟨d, _, hdisk, h⟩ := Run.of_start_bind h
  obtain ⟨rfl, rfl⟩ := Run.of_start_disk hdisk
  split at h
  · cases h
  · next bytes hread =>
    split at h
    · cases h
    · next x hx =>
      obtain ⟨hraw, rfl⟩ := Run.of_start_ofExcept h
      refine ⟨rfl, ?_⟩
      obtain ⟨text, -, hparse⟩ := Option.bind_eq_some_iff.mp hx
      have htidy := Json.tidy_of_parse? hparse
      cases hitems : ofJson? x with
      | none =>
        rw [hitems] at hraw
        cases hraw
      | some items =>
        rw [hitems] at hraw
        cases hraw
        cases htidy with
        | array hall => exact tidy_of_ofItems? hitems hall
        | _ => cases hitems

theorem reads_loadSymbols (raw : List Doclet) : (loadSymbols raw).Reads :=
  (Run.reads_remarkAll _).bind fun _ => Run.reads_ofExcept _ _

end Doclet

section Codecs

variable [Text.Codecs]

namespace Tutorial

theorem holds_readFiles (L : Run.Logic) {directory : Path} {encoding : String}
    {files : List String} {w : World}
    (hfile : ∀ name ∈ files, ∀ u, L.Alike u (Run.isFile (directory.child name))
      (Run.isFile (directory.child name)))
    (hread : ∀ name ∈ files, ∀ u, L.Alike u (Run.readText (directory.child name) encoding)
      (Run.readText (directory.child name) encoding)) (ts : List Tutorial) :
    L.Alike w (readFiles directory encoding ts files) (readFiles directory encoding ts files) := by
  induction files generalizing ts w with
  | nil => exact L.pure w rfl
  | cons name files ih =>
    rw [List.forall_mem_cons] at hfile hread
    have hrest : ∀ {u : World} ts, L.Alike u (readFiles directory encoding ts files)
        (readFiles directory encoding ts files) := fun ts => ih hfile.2 hread.2 ts
    unfold readFiles
    dsimp only
    split
    · exact hrest ts
    · refine L.bind (hfile.1 w) fun isFile _ u _ heq => ?_
      subst heq
      by_cases hisFile : isFile = true
      · simp only [if_pos hisFile]
        refine L.bind (hread.1 u) fun content _ v _ heq => ?_
        subst heq
        exact hrest _
      · simp only [if_neg hisFile]
        exact hrest ts

theorem reads_readFiles (directory : Path) (encoding : String) (files : List String)
    (ts : List Tutorial) : (readFiles directory encoding ts files).Reads := fun _ =>
  (holds_readFiles Run.reading.logic
    (fun _ _ u => Run.Invariant.alike (Run.reads_isFile _ u))
    (fun _ _ u => Run.Invariant.alike (Run.reads_readText _ _ u)) ts).1

theorem reads_load (directory : Path) (encoding : String) : (load directory encoding).Reads := by
  refine Run.reads_disk.bind fun d => (Run.reads_ofExcept _ _).bind fun files => ?_
  refine (reads_readFiles _ _ _ _).bind fun ts => Run.reads_disk.bind fun d => ?_
  refine (Run.reads_ofExcept _ _).bind fun configs => ?_
  exact (Run.reads_remarkAll _).bind fun _ =>
    (Run.reads_ofExcept _ _).bind fun parents => Run.reads_pure _

end Tutorial

end Codecs

theorem Settings.reads_load (root : Path) : (load root).Reads := by
  refine (Run.reads_isFile _).bind fun isFile => ?_
  split
  · refine Run.reads_disk.bind fun d => (Run.reads_ofExcept _ _).bind fun bytes => ?_
    exact (Run.reads_ofExcept _ _).bind fun text => Run.reads_ofExcept _ _
  · exact Run.reads_pure _

theorem Settings.of_destinationOf {root directory : Path} {destination : String} {w w' : World}
    (h : (destinationOf root destination).start w = (.ok directory, w')) :
    w = w' ∧ ∀ v : World, v.disk = w.disk →
      (destinationOf root destination).start v = (.ok directory, v) := by
  rw [destinationOf] at h ⊢
  dsimp only at h ⊢
  split at h
  · cases h
  · next hnull =>
    obtain ⟨d, _, hdisk, h⟩ := Run.of_start_bind h
    obtain ⟨rfl, rfl⟩ := Run.of_start_disk hdisk
    obtain ⟨hresolve, rfl⟩ := Run.of_start_ofExcept h
    refine ⟨rfl, fun v hv => ?_⟩
    rw [if_neg hnull, Run.start_bind_ok (Run.start_disk v), hv, hresolve]
    rfl

namespace Site

variable [Host]

theorem reads_load (root input : Path) (settings : Settings) (tutorials : Option Path)
    (raw : List Doclet) : (load root input settings tutorials raw).Reads := by
  refine (Doclet.reads_loadSymbols raw).bind fun symbols => ?_
  refine (Run.reads_remark _).bind fun _ => (Run.reads_remarkAll _).bind fun _ => ?_
  have hmake : ∀ {sources symbols ts}, (do
      let site ← Run.ofExcept failure (ofSymbols settings sources ts symbols)
      Run.remarkAll site.treeRemarks
      return site).Reads :=
    (Run.reads_ofExcept _ _).bind fun site =>
      (Run.reads_remarkAll _).bind fun _ => Run.reads_pure _
  dsimp only
  split
  · exact (Tutorial.reads_load _ _).bind fun ts => hmake
  · exact (Run.reads_pure _).bind fun ts => hmake

omit [Host] in
theorem consistent_of_ofSymbols {settings : Settings} {sources : Source.Catalog}
    {tutorials : List Tutorial} {symbols : List Symbol} {s : Site}
    (h : ofSymbols settings sources tutorials symbols = .ok s)
    (hclean : ∀ symbol ∈ symbols, symbol.Clean) : s.Consistent := by
  refine ⟨clean_of_ofSymbols h hclean, ?_, ?_⟩
  · obtain ⟨-, -, -, htutorials, hmembers⟩ := ofSymbols_spec h
    rw [hmembers, htutorials]
  · obtain ⟨registry, -, h⟩ := of_bind_ok h
    obtain ⟨decorated, -, h⟩ := of_bind_ok h
    cases h
    rfl

theorem consistent_of_load {root input : Path} {settings : Settings} {tutorials : Option Path}
    {raw : List Doclet} {s : Site} {w w' : World}
    (h : (load root input settings tutorials raw).start w = (.ok s, w'))
    (hraw : ∀ d ∈ raw, Tidy (.object d)) : s.Consistent := by
  obtain ⟨symbols, ts, hsymbols, hsite, -⟩ := of_load h
  have hclean := Doclet.clean_of_symbolsFrom hsymbols hraw
  exact consistent_of_ofSymbols hsite (clean_select hclean)

/-- The directory that a run publishes to: the one it is given, or else the one of its settings. -/
def outputOf (root : Path) (out : Option Path) (settings : Option Settings) : Run Path := do
  let settings ← match settings with
    | some settings => pure settings
    | none => Settings.load root
  match out with
  | some directory => return directory
  | none => Settings.destinationOf root settings.destination

/-- A run that publishes to a directory with given settings reads a dump, loads its site and writes
it there. -/
theorem of_publish_dump {root input : Path} {out : Option Path} {settings : Settings}
    {tutorials : Option Path} {summary : Summary} {w w' : World}
    (h : (publish root input out (some settings) tutorials).start w =
      (.ok (.written summary), w')) :
    ∃ directory raw s v, ((outputOf root out (some settings)).start w).1 = .ok directory ∧
      (Doclet.load input).start w = (.ok raw, w) ∧
      (load root input settings tutorials raw).start w = (.ok s, v) ∧
      (s.write raw settings root directory).start v = (.ok summary, w') := by
  have hwritten : ∀ {s : Site} {raw target v},
      (do return Published.written (← s.write raw settings root target)).start v =
        (.ok (.written summary), w') →
      (s.write raw settings root target).start v = (.ok summary, w') := by
    intro s raw target v h
    obtain ⟨_, _, hwrite, h⟩ := Run.of_start_bind h
    obtain ⟨heq, rfl⟩ := Run.of_start_pure h
    cases heq
    exact hwrite
  replace h := Run.of_start_bind h
  obtain ⟨_, _, hgiven, h⟩ := h
  obtain ⟨rfl, rfl⟩ := Run.of_start_pure hgiven
  replace h := Run.of_start_bind h
  obtain ⟨raw, _, hraw, h⟩ := h
  obtain ⟨rfl, -⟩ := Doclet.load_spec hraw
  obtain ⟨s, v, hload, h⟩ := Run.of_start_bind h
  have hdisk := (reads_load root input settings tutorials raw).disk_eq hload
  split at h
  · obtain ⟨_, _, -, h⟩ := Run.of_start_bind h
    obtain ⟨_, _, -, h⟩ := Run.of_start_bind h
    obtain ⟨heq, -⟩ := Run.of_start_pure h
    cases heq
  · replace h := Run.of_start_bind h
    obtain ⟨directory, _, hdirectory, h⟩ := h
    obtain ⟨rfl, hanywhere⟩ := Settings.of_destinationOf hdirectory
    refine ⟨directory, raw, s, _, ?_, hraw, hload, hwritten h⟩
    have houtput : (outputOf root none (some settings)).start w = (.ok directory, w) :=
      hanywhere w hdisk.symm
    rw [houtput]
  · exact ⟨_, raw, s, _, rfl, hraw, hload, hwritten h⟩

theorem of_publish_given {root input : Path} {out : Option Path} {settings : Settings}
    {tutorials : Option Path} {summary : Summary} {w w' : World}
    (h : (publish root input out (some settings) tutorials).start w =
      (.ok (.written summary), w')) :
    ∃ directory raw s v, ((outputOf root out (some settings)).start w).1 = .ok directory ∧
      (∀ d ∈ raw, Tidy (.object d)) ∧
      (load root input settings tutorials raw).start w = (.ok s, v) ∧
      (s.write raw settings root directory).start v = (.ok summary, w') := by
  obtain ⟨directory, raw, s, v, hdirectory, hraw, hload, hwrite⟩ := of_publish_dump h
  exact ⟨directory, raw, s, v, hdirectory, (Doclet.load_spec hraw).2, hload, hwrite⟩

/-- A run that publishes to a directory loads a site and writes it there. -/
theorem of_publish_written {root input : Path} {out : Option Path} {given : Option Settings}
    {tutorials : Option Path} {summary : Summary} {w w' : World}
    (h : (publish root input out given tutorials).start w = (.ok (.written summary), w')) :
    ∃ directory settings raw s u v, ((outputOf root out given).start w).1 = .ok directory ∧
      (∀ d ∈ raw, Tidy (.object d)) ∧ u.disk = w.disk ∧
      (load root input settings tutorials raw).start u = (.ok s, v) ∧
      (s.write raw settings root directory).start v = (.ok summary, w') := by
  cases given with
  | some settings =>
    obtain ⟨directory, raw, s, v, hdirectory, htidy, hload, hwrite⟩ := of_publish_given h
    exact ⟨directory, settings, raw, s, w, v, hdirectory, htidy, rfl, hload, hwrite⟩
  | none =>
    change (Settings.load root >>= fun settings =>
      publish root input out (some settings) tutorials).start w = _ at h
    obtain ⟨settings, u, hsettings, h⟩ := Run.of_start_bind h
    obtain ⟨directory, raw, s, v, hdirectory, htidy, hload, hwrite⟩ := of_publish_given h
    have hdisk := (Settings.reads_load root).disk_eq hsettings
    refine ⟨directory, settings, raw, s, u, v, ?_, htidy, hdisk, hload, hwrite⟩
    change ((Settings.load root >>= fun settings => outputOf root out (some settings)).start w).1 = _
    rw [Run.start_bind_ok hsettings, hdirectory]

end Site

end Refsite
