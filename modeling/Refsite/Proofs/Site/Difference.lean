import Refsite.Proofs.Disk.Mirror
import Refsite.Proofs.Site.Steadiness
import Refsite.Site.Verify
namespace Refsite

open Refsite.Path

namespace Disk

variable {bad : Place → Prop} {d d' : Disk} {p : Path} {place there : Place} {names : List String}

/-- Names lead from a directory to a file in it. -/
structure HasFile (d : Disk) (p : Path) (names : List String) : Prop where
  ne_nil : names ≠ []
  isEntryName : ∀ name ∈ names, IsEntryName name
  isFile : d.isFile (p.below names) = true

theorem Opened.isFile_iff (h : d.Opened p place) (hnames : ∀ name ∈ names, IsEntryName name) :
    d.isFile (p.below names) = true ↔ ∃ bytes, d.entry? (place ++ names) = some (.file bytes) ∧
      d.locate (p.below names) = .ok (place ++ names) := by
  rw [Disk.isFile_iff]
  constructor
  · rintro ⟨q, bytes, hq, hfile⟩
    obtain rfl := h.eq_of_locate hnames hq
    exact ⟨bytes, hfile, hq⟩
  · rintro ⟨bytes, hfile, hq⟩
    exact ⟨_, bytes, hq, hfile⟩

theorem Opened.mem_filesBelow (h : d.Opened p place) :
    names ∈ d.filesBelow p ↔ d.HasFile p names := by
  rw [filesBelow, List.mem_filter, List.mem_map]
  constructor
  · rintro ⟨⟨⟨names, entry⟩, hmem, rfl⟩, hfile⟩
    obtain ⟨q, -, -, hne, hentry⟩ := h.tree.mem_scan.mp hmem
    exact ⟨hne, fun name hname =>
      h.tree.isEntryName hentry name (List.mem_append_right _ hname), hfile⟩
  · rintro ⟨hne, hnames, hfile⟩
    obtain ⟨bytes, hentry, -⟩ := (h.isFile_iff hnames).mp hfile
    exact ⟨⟨_, h.tree.mem_scan.mpr ⟨place, h.leads, h.directory, hne, hentry⟩, rfl⟩, hfile⟩

theorem Opened.nodup_filesBelow (h : d.Opened p place) : (d.filesBelow p).Nodup := by
  refine List.Nodup.filter _ (List.Nodup.map_on ?_ ?_)
  · rintro ⟨names, entry⟩ hmem ⟨_, entry'⟩ hmem' rfl
    obtain ⟨q, hq, -, -, hentry⟩ := h.tree.mem_scan.mp hmem
    obtain ⟨q', hq', -, -, hentry'⟩ := h.tree.mem_scan.mp hmem'
    rw [hq] at hq'
    obtain rfl := Except.ok.inj hq'
    rw [hentry] at hentry'
    rw [Option.some.inj hentry']
  · rw [scan, h.leads]
    dsimp only
    split
    · exact h.tree.nodup_placesBelow place
    · exact List.nodup_nil

section Like

variable (h : d.Opened p place) (hp : d.TreeApart bad p) (hd' : d.Like bad d')

include h hp hd'

theorem Opened.of_like : d'.Opened p place where
  tree := hd'.tree
  proper := h.proper
  leads := (hp.path.locate hd'.agrees).trans h.leads
  directory := (hd'.agrees _ (hp.below _ _ h.leads List.prefix_rfl)).trans h.directory
  free q hq target := by
    rw [hd'.agrees q (hp.below _ q h.leads hq)]
    exact h.free q hq target

theorem Opened.hasFile_iff : d'.HasFile p names ↔ d.HasFile p names := by
  have hapart : ∀ {bytes}, d.entry? (place ++ names) = some (.file bytes) →
      d.Apart bad (p.below names) := hp.below_file h.tree h.leads
  constructor
  · rintro ⟨hne, hnames, hfile⟩
    obtain ⟨bytes, hentry, -⟩ := ((h.of_like hp hd').isFile_iff hnames).mp hfile
    rw [hd'.agrees _ (hp.below _ _ h.leads (List.prefix_append _ _))] at hentry
    exact ⟨hne, hnames, ((hapart hentry).isFile hd'.agrees).symm.trans hfile⟩
  · rintro ⟨hne, hnames, hfile⟩
    obtain ⟨bytes, hentry, -⟩ := (h.isFile_iff hnames).mp hfile
    exact ⟨hne, hnames, ((hapart hentry).isFile hd'.agrees).trans hfile⟩

theorem Opened.read_eq (hfile : d.HasFile p names) :
    d'.read (p.below names) = d.read (p.below names) := by
  obtain ⟨bytes, hentry, -⟩ := (h.isFile_iff hfile.isEntryName).mp hfile.isFile
  exact (hp.below_file h.tree h.leads hentry).read hd'.agrees

end Like

/-- The texts of just the names that have a property, in order. -/
structure Lists (P : List String → Prop) (texts : List String) : Prop where
  sorted : texts.Pairwise fun a b => a < b
  mem : ∀ text, text ∈ texts ↔ ∃ names, P names ∧ text = Asset.textOf names

theorem Lists.congr {P P' : List String → Prop} {texts : List String} (h : Lists P texts)
    (hP : ∀ names, P names ↔ P' names) : Lists P' texts :=
  ⟨h.sorted, fun text => by simp only [h.mem, hP]⟩

theorem Lists.eq_nil {P : List String → Prop} {texts : List String} (h : Lists P texts)
    (hP : ∀ names, ¬ P names) : texts = [] := by
  rw [List.eq_nil_iff_forall_not_mem]
  intro text htext
  obtain ⟨names, hnames, -⟩ := (h.mem text).mp htext
  exact hP names hnames

theorem lists_sortedTexts {files : List (List String)} (hnodup : files.Nodup)
    (hfiles : ∀ names ∈ files, names ≠ [] ∧ ∀ name ∈ names, IsEntryName name) :
    Lists (· ∈ files) (sortedTexts files) := by
  constructor
  · refine Text.pairwise_sort_lt (List.Nodup.map_on (fun a ha b hb heq => ?_) hnodup)
    obtain ⟨hane, hanames⟩ := hfiles a ha
    obtain ⟨hbne, hbnames⟩ := hfiles b hb
    exact Asset.textOf_injective hane hbne (fun name hname => (hanames name hname).1.2.2)
      (fun name hname => (hbnames name hname).1.2.2) heq
  · intro text
    rw [sortedTexts, List.mem_mergeSort, List.mem_map]
    simp only [eq_comm]

end Disk

open Disk

variable {d d' e e' : Disk} {p p' q q' : Path} {place there : Place}

/-- A difference tells the files that only the first of two directories has, those that only the
second has, and those that both have with different bytes. -/
structure Difference.Tells (difference : Difference) (d : Disk) (p : Path) (e : Disk) (q : Path) :
    Prop where
  missing : Lists (fun names => d.HasFile p names ∧ ¬ e.HasFile q names) difference.missing
  extra : Lists (fun names => e.HasFile q names ∧ ¬ d.HasFile p names) difference.extra
  mismatches : Lists (fun names => d.HasFile p names ∧ e.HasFile q names ∧
    d.read (p.below names) ≠ e.read (q.below names)) difference.mismatches

theorem Disk.tells_difference (h : d.Opened p place) (h' : d.Opened q there) :
    (d.difference p q).Tells d p d q := by
  have hours : ∀ names ∈ d.filesBelow p, names ≠ [] ∧ ∀ name ∈ names, IsEntryName name :=
    fun names hnames => ⟨(h.mem_filesBelow.mp hnames).ne_nil,
      (h.mem_filesBelow.mp hnames).isEntryName⟩
  have htheirs : ∀ names ∈ d.filesBelow q, names ≠ [] ∧ ∀ name ∈ names, IsEntryName name :=
    fun names hnames => ⟨(h'.mem_filesBelow.mp hnames).ne_nil,
      (h'.mem_filesBelow.mp hnames).isEntryName⟩
  have hlists : ∀ {files : List (List String)} (keep : List String → Bool), files.Nodup →
      (∀ names ∈ files, names ≠ [] ∧ ∀ name ∈ names, IsEntryName name) →
      Lists (fun names => names ∈ files ∧ keep names = true) (sortedTexts (files.filter keep)) := by
    intro files keep hnodup hfiles
    refine (lists_sortedTexts (hnodup.filter keep) fun names hnames => ?_).congr fun names => ?_
    · exact hfiles names (List.mem_filter.mp hnames).1
    · exact List.mem_filter
  refine ⟨(hlists _ h.nodup_filesBelow hours).congr fun names => ?_,
    (hlists _ h'.nodup_filesBelow htheirs).congr fun names => ?_,
    (hlists _ h.nodup_filesBelow hours).congr fun names => ?_⟩
  · rw [h.mem_filesBelow, Bool.not_eq_true', List.contains_eq_mem, decide_eq_false_iff_not,
      h'.mem_filesBelow]
  · rw [h'.mem_filesBelow, Bool.not_eq_true', List.contains_eq_mem, decide_eq_false_iff_not,
      h.mem_filesBelow]
  · rw [h.mem_filesBelow, Bool.and_eq_true, List.contains_eq_mem, decide_eq_true_eq,
      h'.mem_filesBelow, bne_iff_ne]
    refine and_congr_right fun hfile => and_congr_right fun hfile' => not_congr ?_
    obtain ⟨bytes, hentry, hplace⟩ := (h.isFile_iff hfile.isEntryName).mp hfile.isFile
    obtain ⟨bytes', hentry', hplace'⟩ := (h'.isFile_iff hfile'.isEntryName).mp hfile'.isFile
    rw [read_ok_iff.mpr ⟨_, hplace, hentry⟩, read_ok_iff.mpr ⟨_, hplace', hentry'⟩]
    simp [Except.toOption]

theorem Difference.Tells.congr {difference : Difference} (h : difference.Tells d p e q)
    (hours : ∀ names, d.HasFile p names ↔ d'.HasFile p' names)
    (hread : ∀ names, d.HasFile p names → d.read (p.below names) = d'.read (p'.below names))
    (htheirs : ∀ names, e.HasFile q names ↔ e'.HasFile q' names)
    (hread' : ∀ names, e.HasFile q names → e.read (q.below names) = e'.read (q'.below names)) :
    difference.Tells d' p' e' q' where
  missing := h.missing.congr fun names => by rw [hours, htheirs]
  extra := h.extra.congr fun names => by rw [hours, htheirs]
  mismatches := h.mismatches.congr fun names => by
    rw [← hours, ← htheirs]
    refine and_congr_right fun hnames => and_congr_right fun hnames' => ?_
    rw [hread names hnames, hread' names hnames']

theorem Difference.Tells.eq_nothing {difference : Difference} (h : difference.Tells d p d p) :
    difference = ⟨[], [], []⟩ := by
  obtain ⟨missing, extra, mismatches⟩ := difference
  obtain rfl : missing = [] := h.missing.eq_nil fun _ hnames => hnames.2 hnames.1
  obtain rfl : extra = [] := h.extra.eq_nil fun _ hnames => hnames.2 hnames.1
  obtain rfl : mismatches = [] := h.mismatches.eq_nil fun _ hnames => hnames.2.2 rfl
  rfl

namespace Mirror

variable {m : Mirror} {names : List String}

theorem Reflects.hasFile (h : m.Reflects m.goal e) :
    e.HasFile m.scratch names ↔ m.goal.HasFile m.out names := by
  constructor
  · rintro ⟨hne, hnames, hfile⟩
    obtain ⟨bytes, hentry, -⟩ := (h.second.isFile_iff hnames).mp hfile
    have hentry := (h.file names bytes).mp hentry
    exact ⟨hne, hnames, (h.fits.opened.isFile_iff hnames).mpr
      ⟨bytes, hentry, h.reached names bytes hentry⟩⟩
  · rintro ⟨hne, hnames, hfile⟩
    obtain ⟨bytes, hentry, -⟩ := (h.fits.opened.isFile_iff hnames).mp hfile
    have hentry' := (h.file names bytes).mpr hentry
    refine ⟨hne, hnames, (h.second.isFile_iff hnames).mpr ⟨bytes, hentry', ?_⟩⟩
    have hparent := h.second.tree.parent_of_entry hentry'
    rw [List.dropLast_append_of_ne_nil hne] at hparent
    exact h.second.reach hnames (m.usable names (by rw [hentry, Option.isSome_some])) hne hparent

theorem Reflects.read (h : m.Reflects m.goal e) (hfile : e.HasFile m.scratch names) :
    e.read (m.scratch.below names) = m.goal.read (m.out.below names) := by
  obtain ⟨bytes, hentry, hplace⟩ := (h.second.isFile_iff hfile.isEntryName).mp hfile.isFile
  have hentry' := (h.file names bytes).mp hentry
  rw [read_ok_iff.mpr ⟨_, hplace, hentry⟩,
    read_ok_iff.mpr ⟨_, h.reached names bytes hentry', hentry'⟩]

end Mirror

end Refsite
