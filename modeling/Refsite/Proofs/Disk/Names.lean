import Refsite.Disk.Basic
import Refsite.Proofs.Disk.Follow
import Refsite.Proofs.Text.Basic
namespace Refsite

namespace Path

def IsName (name : String) : Prop := name ≠ "" ∧ name ≠ "." ∧ '/' ∉ name.toList

/-- A name that something in a directory may have. -/
def IsEntryName (name : String) : Prop := IsName name ∧ name ≠ up

instance (name : String) : Decidable (IsName name) :=
  inferInstanceAs (Decidable (_ ∧ _ ∧ _))

instance (name : String) : Decidable (IsEntryName name) :=
  inferInstanceAs (Decidable (_ ∧ _))

def IsProper (p : Path) : Prop := ∀ name ∈ p.names, IsName name

instance (p : Path) : Decidable p.IsProper := inferInstanceAs (Decidable (∀ _ ∈ _, _))

variable {base p : Path} {names : List String}

theorem isName_of_mem_namesOf {text name : String} (h : name ∈ namesOf text) : IsName name := by
  obtain ⟨hmem, hne⟩ := List.mem_filter.mp h
  obtain ⟨piece, hpiece, rfl⟩ := List.mem_map.mp hmem
  rw [Bool.and_eq_true, bne_iff_ne, bne_iff_ne] at hne
  refine ⟨hne.1, hne.2, ?_⟩
  rw [String.toList_ofList]
  exact Text.notMem_of_mem_splitAt hpiece

theorem IsProper.below (h : base.IsProper) (hnames : ∀ name ∈ names, IsName name) :
    (base.below names).IsProper := by
  intro name hname
  obtain hname | hname := List.mem_append.mp hname
  · exact h name hname
  · exact hnames name hname

theorem IsProper.join (h : base.IsProper) (text : String) : (base.join text).IsProper := by
  unfold Path.join
  split
  · exact fun _ => isName_of_mem_namesOf
  · exact h.below fun _ => isName_of_mem_namesOf

theorem IsProper.of_below (h : (base.below names).IsProper) : base.IsProper :=
  fun name hname => h name (List.mem_append_left _ hname)

theorem below_append (base : Path) (names more : List String) :
    base.below (names ++ more) = (base.below names).below more := by
  rw [below, below, below, List.append_assoc]

theorem below_nil (p : Path) : p.below [] = p := by
  rw [below, List.append_nil]

theorem exists_below_parent (p : Path) : ∃ names, p = p.parent.below names := by
  refine ⟨p.names.drop (p.names.length - 1), ?_⟩
  rw [below, parent, List.dropLast_eq_take, List.take_append_drop]

/-- A path is a directory's or goes on from there to something in it, without a way up. -/
def Within (base p : Path) : Prop :=
  ∃ names, (∀ name ∈ names, IsEntryName name) ∧ p = base.below names

/-- A path goes on from a directory to something in it. -/
def Inside (base p : Path) : Prop :=
  ∃ names, names ≠ [] ∧ (∀ name ∈ names, IsEntryName name) ∧ p = base.below names

theorem Inside.isProper (h : base.Inside p) (hbase : base.IsProper) : p.IsProper := by
  obtain ⟨names, -, hnames, rfl⟩ := h
  exact hbase.below fun name hname => (hnames name hname).1

theorem Within.isProper (h : base.Within p) (hbase : base.IsProper) : p.IsProper := by
  obtain ⟨names, hnames, rfl⟩ := h
  exact hbase.below fun name hname => (hnames name hname).1

theorem Within.inside {q : Path} (h : base.Within p) (hq : p.Inside q) : base.Inside q := by
  obtain ⟨names, hnames, rfl⟩ := h
  obtain ⟨more, hne, hmore, rfl⟩ := hq
  refine ⟨names ++ more, List.append_ne_nil_of_right_ne_nil _ hne, ?_, (below_append ..).symm⟩
  exact List.forall_mem_append.mpr ⟨hnames, hmore⟩

theorem inside_child (base : Path) {name : String} (h : IsEntryName name) :
    base.Inside (base.child name) :=
  ⟨[name], List.cons_ne_nil _ _, List.forall_mem_singleton.mpr h, rfl⟩

end Path

namespace Disk

open Refsite.Path

variable {d : Disk} {here : Place} {names : List String}

/-- Following names comes to a place whose names may stand in a directory. -/
theorem isEntryName_follow (hhere : ∀ name ∈ here, IsEntryName name)
    (hnames : ∀ name ∈ names, IsName name) (links : Nat) :
    ∀ name ∈ d.follow links here names, IsEntryName name := by
  induction links, here, names using follow.induct d with
  | case1 links here =>
    rw [follow_nil]
    exact hhere
  | case2 links here name rest hup ih =>
    rw [follow_up hup]
    exact ih (fun name hname => hhere name (List.dropLast_subset _ hname))
      fun name hname => hnames name (List.mem_cons_of_mem _ hname)
  | case3 here name rest hup links target hlink ih =>
    rw [follow_link hup hlink]
    refine ih ?_ ?_
    · rw [linkStart]
      split
      · nofun
      · exact hhere
    · intro other hother
      obtain hother | hother := List.mem_append.mp hother
      · exact isName_of_mem_namesOf hother
      · exact hnames other (List.mem_cons_of_mem _ hother)
  | case4 here name rest hup links hlink ih =>
    rw [follow_down hup hlink]
    obtain ⟨hname, hrest⟩ := List.forall_mem_cons.mp hnames
    refine ih ?_ hrest
    intro other hother
    obtain hother | hother := List.mem_append.mp hother
    · exact hhere other hother
    · rw [List.mem_singleton.mp hother]
      exact ⟨hname, fun heq => hup (beq_iff_eq.mpr heq)⟩

theorem isEntryName_resolve {p : Path} (hp : p.IsProper) :
    ∀ name ∈ (d.resolve p).names, IsEntryName name :=
  isEntryName_follow (List.forall_mem_nil _) hp linkLimit

theorem isProper_resolve {p : Path} (hp : p.IsProper) : (d.resolve p).IsProper :=
  fun name hname => (isEntryName_resolve hp name hname).1

end Disk

end Refsite
