import Mathlib.Data.List.Nodup
import Refsite.Proofs.Disk.Changes
import Refsite.Proofs.Disk.Names
namespace Refsite.Disk

open Refsite.Path

variable {d : Disk} {here place : Place} {names : List String} {entry : DiskEntry} {p : Path}

/-- A disk as a system keeps it. -/
structure IsTree (d : Disk) : Prop where
  nodup : (d.entries.map (·.1)).Nodup
  names : ∀ e ∈ d.entries, ∀ name ∈ e.1, IsEntryName name
  parent : ∀ e ∈ d.entries, d.entry? e.1.dropLast = some .directory

instance (d : Disk) : Decidable d.IsTree :=
  decidable_of_iff ((d.entries.map (·.1)).Nodup ∧
      (∀ e ∈ d.entries, ∀ name ∈ e.1, IsEntryName name) ∧
      ∀ e ∈ d.entries, d.entry? e.1.dropLast = some .directory)
    ⟨fun ⟨nodup, names, parent⟩ => ⟨nodup, names, parent⟩,
      fun h => ⟨h.nodup, h.names, h.parent⟩⟩

theorem mem_of_entry (h : d.entry? place = some entry) (hplace : place ≠ []) :
    (place, entry) ∈ d.entries := by
  rw [entry?_of_ne_nil d hplace] at h
  obtain ⟨before, after, heq, -⟩ := List.lookup_eq_some_iff.mp h
  rw [heq]
  exact List.mem_append_right _ List.mem_cons_self

theorem IsTree.entry_of_mem (hd : d.IsTree) (h : (place, entry) ∈ d.entries) (hplace : place ≠ []) :
    d.entry? place = some entry := by
  have hsome : (d.entry? place).isSome := by
    rw [entry?_of_ne_nil d hplace, Option.isSome_iff_ne_none, ne_eq, List.lookup_eq_none_iff]
    intro hall
    exact absurd (hall _ h) (by rw [bne_self_eq_false]; exact Bool.false_ne_true)
  obtain ⟨other, hother⟩ := Option.isSome_iff_exists.mp hsome
  have heq := List.inj_on_of_nodup_map hd.nodup h (mem_of_entry hother hplace) rfl
  rw [hother, (Prod.mk.inj heq).2]

theorem IsTree.isEntryName (hd : d.IsTree) (h : d.entry? place = some entry) :
    ∀ name ∈ place, IsEntryName name := by
  by_cases hplace : place = []
  · rw [hplace]
    exact List.forall_mem_nil _
  · exact hd.names _ (mem_of_entry h hplace)

theorem IsTree.parent_of_entry (hd : d.IsTree) (h : d.entry? place = some entry) :
    d.entry? place.dropLast = some .directory := by
  by_cases hplace : place = []
  · rw [hplace]
    exact d.entry?_top
  · exact hd.parent _ (mem_of_entry h hplace)

/-- A tree stays one where an entry is put in a directory, and nothing else in the place of a
directory. -/
theorem IsTree.put (hd : d.IsTree) (hplace : place ≠ []) (hnames : ∀ name ∈ place, IsEntryName name)
    (hparent : d.entry? place.dropLast = some .directory)
    (hentry : d.entry? place = some .directory → entry = .directory) :
    (d.put place entry).IsTree := by
  have hkept : ∀ q : Place, d.entry? q = some .directory →
      entry? (d.put place entry) q = some .directory := by
    intro q hq
    rw [entry?_put d hplace]
    split
    · next heq => rw [hentry (heq ▸ hq)]
    · exact hq
  have hmem : ∀ e ∈ (d.put place entry).entries, e ∈ d.entries ∨ e = (place, entry) := by
    intro e he
    obtain he | he := List.mem_append.mp he
    · exact .inl (List.mem_filter.mp he).1
    · exact .inr (List.mem_singleton.mp he)
  refine ⟨?_, fun e he => ?_, fun e he => hkept _ ?_⟩
  · rw [Disk.put, List.map_append]
    refine List.nodup_append.mpr ⟨(List.filter_sublist.map _).nodup hd.nodup,
      List.nodup_singleton _, ?_⟩
    rintro q hq other hother rfl
    obtain ⟨e, he, rfl⟩ := List.mem_map.mp hq
    exact bne_iff_ne.mp (List.mem_filter.mp he).2 (List.mem_singleton.mp hother)
  · obtain he | rfl := hmem e he
    · exact hd.names e he
    · exact hnames
  · obtain he | rfl := hmem e he
    · exact hd.parent e he
    · exact hparent

theorem Leads.isEntryName {through : Bool} {links : Nat}
    (h : d.Leads through links here names place) (hhere : ∀ name ∈ here, IsEntryName name)
    (hnames : ∀ name ∈ names, IsName name) : ∀ name ∈ place, IsEntryName name := by
  have hnext : ∀ {here : Place} {name}, (∀ name ∈ here, IsEntryName name) → IsName name →
      name ≠ Path.up → ∀ other ∈ here ++ [name], IsEntryName other := by
    intro here name hhere hname hup other hother
    obtain hother | hother := List.mem_append.mp hother
    · exact hhere other hother
    · rw [List.mem_singleton.mp hother]
      exact ⟨hname, hup⟩
  induction h with
  | done => exact hhere
  | up _ _ ih =>
    exact ih (fun name hname => hhere name (List.dropLast_subset _ hname))
      (List.forall_mem_cons.mp hnames).2
  | atLink _ hup => exact hnext hhere (List.forall_mem_cons.mp hnames).1 hup
  | @follow _ _ _ _ target _ _ _ _ _ _ _ ih =>
    refine ih ?_ ?_
    · rw [linkStart]
      split
      · exact List.forall_mem_nil _
      · exact hhere
    · intro other hother
      obtain hother | hother := List.mem_append.mp hother
      · exact isName_of_mem_namesOf hother
      · exact hnames other (List.mem_cons_of_mem _ hother)
  | down _ hup _ _ _ ih =>
    obtain ⟨hname, hrest⟩ := List.forall_mem_cons.mp hnames
    exact ih (hnext hhere hname hup) hrest

theorem IsTree.parent_of_leads (hd : d.IsTree) {through : Bool} {links : Nat}
    (h : d.Leads through links here names place)
    (hhere : d.entry? here.dropLast = some .directory) :
    d.entry? place.dropLast = some .directory := by
  induction h with
  | done => exact hhere
  | up hentry _ ih => exact ih (hd.parent_of_entry (hd.parent_of_entry hentry))
  | atLink hentry =>
    rw [List.dropLast_concat]
    exact hentry
  | follow hentry _ _ _ _ _ ih =>
    refine ih ?_
    rw [linkStart]
    split
    · exact d.entry?_top
    · exact hd.parent_of_entry hentry
  | down hentry _ _ _ _ ih =>
    refine ih ?_
    rw [List.dropLast_concat]
    exact hentry

theorem IsTree.put_of_reach (hd : d.IsTree) {through : Bool} (hp : p.IsProper)
    (h : d.reach through p = .ok place) (hplace : place ≠ [])
    (hentry : d.entry? place = some .directory → entry = .directory) :
    (d.put place entry).IsTree := by
  obtain ⟨-, -, hleads⟩ := of_reach_ok h
  exact hd.put hplace (hleads.isEntryName (List.forall_mem_nil _) hp)
    (hd.parent_of_leads hleads d.entry?_top) hentry

end Refsite.Disk
