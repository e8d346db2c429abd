import Refsite.Proofs.Disk.Steady
import Refsite.Proofs.Site.Confinement
import Refsite.Proofs.Site.Reordering
namespace Refsite

open Run

variable {bad : Place → Prop} {goal d d' : Disk} {α : Type}

theorem Settings.steady_load {root : Path} (h : goal.Apart bad (root.child fileName)) :
    (load root).Steady bad goal := by
  refine (steady_isFile h).bind fun isFile _ => ?_
  split
  · refine steady_disk (fun d _ => ?_) fun d d' hd hd' => ?_
    · refine (steady_ofExcept fun _ _ => trivial).bind fun bytes _ => ?_
      refine (steady_ofExcept fun _ _ => trivial).bind fun text _ => ?_
      exact steady_ofExcept fun _ _ => trivial
    · rw [h.read hd.agrees, h.read hd'.agrees]
  · exact steady_pure trivial

theorem Doclet.steady_load {file : Path} (h : goal.Apart bad file) :
    (load file).Steady bad goal := by
  refine steady_disk (fun d _ => ?_) fun d d' hd hd' => ?_
  · split
    · exact steady_fail _
    · split
      · exact steady_fail _
      · exact steady_ofExcept fun _ _ => trivial
  · rw [h.read hd.agrees, h.read hd'.agrees]

section Tutorials

variable [Text.Codecs]

namespace Tutorial

/-- The tutorials of a directory are read apart from some places. -/
structure ReadApart (bad : Place → Prop) (d : Disk) (directory : Path) : Prop where
  tree : d.TreeApart bad directory
  file : ∀ names name, d.list directory = .ok names → name ∈ names →
    d.Apart bad (directory.child name)

variable {directory : Path} {encoding : String}

theorem steady_readFiles {files : List String}
    (h : ∀ name ∈ files, goal.Apart bad (directory.child name)) (tutorials : List Tutorial) :
    (readFiles directory encoding tutorials files).Steady bad goal :=
  steady_of_holds fun _ => (holds_readFiles (steadying bad goal).logic
    (fun name hname u => (steady_isFile (h name hname)).alike u)
    (fun name hname u => (steady_readText (h name hname) encoding).alike u) tutorials).1

omit [Text.Codecs] in
theorem readConfigs_congr {names files : List String} (configs : Configs)
    (h : ∀ name ∈ files, d'.read (directory.child name) = d.read (directory.child name)) :
    readConfigs d' directory names configs files = readConfigs d directory names configs files := by
  induction files generalizing configs with
  | nil => rfl
  | cons name files ih =>
    obtain ⟨hname, hfiles⟩ := List.forall_mem_cons.mp h
    rw [readConfigs, readConfigs]
    dsimp only
    rw [hname, ih configs hfiles]
    split
    · congr 1
      funext es
      exact ih _ hfiles
    · rfl

theorem load_eq (directory : Path) (encoding : String) :
    load directory encoding = (do
      let d ← Run.disk
      let files ← Run.ofExcept .disk ((d.list directory).map (·.mergeSort Text.le))
      let tutorials ← readFiles directory encoding [] files
      let names := tutorials.map (·.name)
      let d ← Run.disk
      let configs ← Run.ofExcept .input (readConfigs d directory names [] files)
      let (remarks, result) := nest configs names [] names
      Run.remarkAll remarks
      let parents ← Run.ofExcept .misfit result
      return forest configs tutorials parents) := by
  rw [load]
  congr 1
  funext d
  cases d.list directory <;> rfl

theorem steady_load (hgoal : goal.IsTree) (h : ReadApart bad goal directory) :
    (load directory encoding).Steady bad goal := by
  have hlist : (do
      let d ← Run.disk
      Run.ofExcept .disk ((d.list directory).map (·.mergeSort Text.le)) : Run _).SteadyTo bad goal
        fun files => ∀ name ∈ files, goal.Apart bad (directory.child name) := by
    refine steady_ask fun d d' files hd hd' hfiles => ?_
    have hboth := h.tree.list_sorted hd.agrees hgoal hd.tree
    rw [h.tree.list_sorted hd'.agrees hgoal hd'.tree, ← hboth]
    refine ⟨hfiles, fun name hname => ?_⟩
    rw [hboth] at hfiles
    obtain ⟨names, hnames, rfl⟩ := exists_of_map_ok hfiles
    exact h.file names name hnames (List.mem_mergeSort.mp hname)
  rw [load_eq, ← bind_assoc]
  refine hlist.bind fun files hfiles => ?_
  refine (steady_readFiles hfiles []).bind fun tutorials _ => ?_
  rw [← bind_assoc]
  refine SteadyTo.bind (Q := fun _ => True) (steady_ask fun d d' configs hd hd' hconfigs => ?_)
    fun configs _ => ?_
  · refine ⟨?_, trivial⟩
    rwa [readConfigs_congr (d := d) []]
    intro name hname
    rw [(hfiles name hname).read hd.agrees, (hfiles name hname).read hd'.agrees]
  · refine (steady_remarkAll _).bind fun _ _ => ?_
    exact (steady_ofExcept fun _ _ => trivial).bind fun parents _ => steady_pure trivial

end Tutorial

end Tutorials

theorem Site.steady_load [Host] {root input : Path} {settings : Settings} {raw : List Doclet}
    (hgoal : goal.IsTree)
    (h : ∀ directory ∈ Settings.pathBelow root settings.tutorials,
      Tutorial.ReadApart bad goal directory) :
    (load root input settings none raw).Steady bad goal := by
  have hsymbols : (Doclet.loadSymbols raw).Steady bad goal :=
    (steady_remarkAll _).bind fun _ _ => steady_ofExcept fun _ _ => trivial
  rw [load_eq]
  refine hsymbols.bind fun symbols _ => ?_
  refine (steady_remark _).bind fun _ _ => (steady_remarkAll _).bind fun _ _ => ?_
  have hmade : ∀ ts, (do
      let site ← Run.ofExcept failure (ofSymbols settings
        (select settings.visibility symbols).1 ts (select settings.visibility symbols).2)
      Run.remarkAll site.treeRemarks
      return site).Steady bad goal :=
    fun ts => (steady_ofExcept fun _ _ => trivial).bind fun site _ =>
      (steady_remarkAll _).bind fun _ _ => steady_pure trivial
  rw [make]
  split
  · next directory hdirectory =>
    exact (Tutorial.steady_load hgoal (h directory hdirectory)).bind fun ts _ => hmade ts
  · have hnone : (pure [] : Run (List Tutorial)).Steady bad goal := steady_pure trivial
    exact hnone.bind fun ts _ => hmade ts

namespace Page

variable [Engine]

/-- A page is drawn with templates that are looked for apart from some places, and whatever chance
brings it is the same. -/
structure Sheet.DrawsApart (bad : Place → Prop) (d : Disk) (t : Theme) (nav : String) (s : Sheet) :
    Prop where
  templates : ∀ chance, ∀ name ∈ (s.rendering chance t.layoutName nav).asked (t.find? d),
    ∀ p ∈ t.candidates name, d.Apart bad p
  chance : ∀ chance chance', (s.rendering chance' t.layoutName nav).run (t.find? d) =
    (s.rendering chance t.layoutName nav).run (t.find? d)

variable {t : Theme} {nav : String} {s : Sheet}

omit [Engine] in
theorem Theme.find?_of_apart {name : String} (h : ∀ p ∈ t.candidates name, goal.Apart bad p)
    (hd : goal.Like bad d) : t.find? d name = t.find? goal name := by
  refine find?_congr (fun p hp => (h p hp).isFile hd.agrees) fun p hp => ?_
  rw [file?_eq] at hp
  exact (h p (List.mem_of_find?_eq_some hp)).read hd.agrees

theorem Sheet.steady_draw (h : s.DrawsApart bad goal t nav) : (s.draw t nav).Steady bad goal := by
  -- On any disk that is like the goal the page is what it is there.
  have hrun : ∀ w : World, goal.Like bad w.disk →
      (s.rendering w.chance t.layoutName nav).run (t.find? w.disk) =
        (s.rendering w.chance t.layoutName nav).run (t.find? goal) := fun w hw =>
    Rendering.run_congr fun name hname => Theme.find?_of_apart (h.templates _ name hname) hw
  intro w w' v markup hw hw' hdraw
  rw [start_draw, Prod.mk.injEq, hrun w hw] at hdraw
  obtain ⟨hmarkup, rfl⟩ := hdraw
  refine ⟨w', ?_, rfl, rfl, trivial⟩
  rw [start_draw, hrun w' hw', h.chance w.chance, hmarkup]

end Page

theorem Site.steady_readSource [Host] {root : Path} {encoding : String} {f : Source.File}
    (hf : goal.Apart bad (root.join f.path)) : (readSource root encoding f).Steady bad goal := by
  have hunreadable : ∀ r : Remark, (do
      Run.remark r
      return none : Run (Option String)).Steady bad goal :=
    fun r => (steady_remark r).bind fun _ _ => steady_pure trivial
  refine steady_disk (fun d _ => ?_) fun d d' hd hd' => ?_
  · split
    · exact steady_pure trivial
    · split
      · exact steady_fail _
      · exact hunreadable _
    · exact hunreadable _
    · exact steady_fail _
  · -- The text is read on either disk with the same outcome.
    have hread : d'.read (root.join f.path) = d.read (root.join f.path) :=
      (hf.read hd'.agrees).trans (hf.read hd.agrees).symm
    have hstart : ∀ e : Disk, ∃ u, (Run.readText (root.join f.path) encoding).start { disk := e } =
        (textOf encoding (e.read (root.join f.path)), u) := fun e =>
      ⟨_, Prod.ext (readText_fst _ _ _) rfl⟩
    obtain ⟨u, hu⟩ := hstart d
    obtain ⟨u', hu'⟩ := hstart d'
    rw [hu, hu', hread]
    cases textOf encoding (d.read (root.join f.path)) with
    | ok code => rfl
    | error e =>
      cases e with
      | decode fault => cases fault <;> rfl
      | _ => rfl

namespace Asset

theorem steady_ignoreRules [Text.Codecs] {root : Path} (h : goal.Apart bad (root.child ignoreName)) :
    (ignoreRules root).Steady bad goal := by
  refine (steady_isFile h).bind fun isFile _ => ?_
  split
  · refine (steady_readText h _).bind fun text _ => ?_
    exact (steady_ofExcept fun _ _ => trivial).bind fun rules _ => steady_pure trivial
  · exact steady_pure trivial

variable {directory : Path} {patterns : List String} {ignore : Option Ignore}
  {es es' : List (List String × DiskEntry)} {kept : List (List String)}

/-- The names of a file below a directory, and a path that is apart from some places. -/
structure Copied (bad : Place → Prop) (d : Disk) (directory : Path) (names : List String) :
    Prop where
  ne_nil : names ≠ []
  isEntryName : ∀ name ∈ names, Path.IsEntryName name
  apart : d.Apart bad (directory.below names)

variable (hgoal : goal.IsTree) (h : goal.TreeApart bad directory)

include hgoal h

theorem copied_of_mem_scan {e : List String × DiskEntry} (he : e ∈ goal.scan directory)
    (hfile : e.2.isFile = true) : Copied bad goal directory e.1 := by
  obtain ⟨names, entry⟩ := e
  obtain ⟨hne, hnames⟩ := hgoal.names_of_mem_scan he
  obtain ⟨place, hplace, -, -, hentry⟩ := hgoal.mem_scan.mp he
  cases entry with
  | file bytes => exact ⟨hne, hnames, h.below_file hgoal hplace hentry⟩
  | directory | link target => cases hfile

theorem isCandidate_congr (hd : goal.Like bad d) {e : List String × DiskEntry}
    (he : e ∈ goal.scan directory) :
    isCandidate d directory e = isCandidate goal directory e := by
  rw [isCandidate, isCandidate]
  cases hfile : e.2.isFile with
  | false => rfl
  | true =>
    have hbelow := (copied_of_mem_scan hgoal h he hfile).apart
    rw [isWithin, isWithin, h.path.resolve hd.agrees, hbelow.resolve hd.agrees]

theorem scan_congr (hd : goal.Like bad d) (hd' : goal.Like bad d')
    {files : List (List String)} (hfiles : scan d directory patterns ignore = .ok files) :
    scan d' directory patterns ignore = .ok files ∧
      ∀ names ∈ files, Copied bad goal directory names := by
  obtain ⟨kept, hkept, rfl⟩ := exists_of_map_ok hfiles
  obtain ⟨hasked, hfilter⟩ := keep_ok_iff.mp hkept
  have hperm := h.perm_scan hd.agrees hgoal hd.tree
  have hperm' := h.perm_scan hd'.agrees hgoal hd'.tree
  have hsame : ∀ e ∈ d'.scan directory, isCandidate d' directory e = isCandidate d directory e := by
    intro e he
    have he := hperm'.mem_iff.mp he
    rw [isCandidate_congr hgoal h hd' he, isCandidate_congr hgoal h hd he]
  have hmembers : ∀ names ∈ kept, Copied bad goal directory names := by
    intro names hnames
    rw [hfilter] at hnames
    obtain ⟨e, he, rfl⟩ := List.mem_map.mp hnames
    obtain ⟨he, hcandidate⟩ := List.mem_filter.mp he
    have hfile := (Bool.and_eq_true_iff.mp (Bool.and_eq_true_iff.mp hcandidate).1).1
    exact copied_of_mem_scan hgoal h (hperm.mem_iff.mp he) hfile
  have hkept' : keep d' directory patterns ignore (d'.scan directory) =
      .ok (((d'.scan directory).filter fun e => isCandidate d' directory e &&
        !isLeftOut directory patterns ignore e.1).map (·.1)) := by
    refine keep_ok_iff.mpr ⟨fun e he hcandidate => ?_, rfl⟩
    rw [hsame e he] at hcandidate
    exact hasked e (hperm.mem_iff.mpr (hperm'.mem_iff.mp he)) hcandidate
  have hpermKept : (((d'.scan directory).filter fun e => isCandidate d' directory e &&
      !isLeftOut directory patterns ignore e.1).map (·.1)).Perm kept := by
    rw [hfilter, List.filter_congr fun e he => by rw [hsame e he]]
    exact ((hperm'.trans hperm.symm).filter _).map _
  refine ⟨?_, fun names hnames => hmembers names (List.mem_mergeSort.mp hnames)⟩
  rw [scan, hkept']
  refine congrArg Except.ok (Text.mergeSort_eq_of_perm hpermKept fun a ha b hb heq => ?_)
  have hacopied := hmembers a (hpermKept.mem_iff.mp ha)
  have hbcopied := hmembers b (hpermKept.mem_iff.mp hb)
  exact textOf_injective hacopied.ne_nil hbcopied.ne_nil
    (fun name hname => (hacopied.isEntryName name hname).1.2.2)
    (fun name hname => (hbcopied.isEntryName name hname).1.2.2) heq

theorem steady_files : (files directory patterns ignore).SteadyTo bad goal fun files =>
    ∀ names ∈ files, Copied bad goal directory names := by
  refine (steady_isDirectory h.path).bind fun isDirectory _ => ?_
  split
  · exact steady_ask fun d d' files hd hd' hfiles => scan_congr hgoal h hd hd' hfiles
  · exact steady_pure (List.forall_mem_nil _)

end Asset

end Refsite
