import Refsite.Proofs.Schema.Passes
import Refsite.Proofs.Symbol.Dump
import Refsite.Proofs.Tree.Record
import Refsite.Site.Snapshot
import Refsite.Site.Validation
import Refsite.Tutorial.Basic
namespace Refsite

open Json (Tidy)
open Schema Schema.Checked

namespace Tutorial

theorem records_eq (tutorials : List Tutorial) : records tutorials = tutorials.map record := by
  induction tutorials with
  | nil => rfl
  | cons t tutorials ih => rw [records, ih, List.map_cons]

theorem passes_word (format : TutorialFormat) :
    (choice TutorialFormat.words (.string format.word)).Passes := by
  cases format <;> exact passes_ok _

mutual

theorem tidy_record : (t : Tutorial) → t.record.Tidy
  | ⟨name, title, content, format, children⟩ => by
    have hchildren := tidy_records children
    rw [record]
    exact .object (by simp) (by simpa using Json.Tidy.array hchildren)

theorem tidy_records : (tutorials : List Tutorial) → ∀ x ∈ records tutorials, x.Tidy
  | [] => nofun
  | t :: tutorials => by
    have ht := tidy_record t
    have htutorials := tidy_records tutorials
    rw [records]
    exact List.forall_mem_cons.mpr ⟨ht, htutorials⟩

end

mutual

theorem passes_read : (t : Tutorial) → (read t.record.sorted).Passes
  | ⟨name, title, content, format, children⟩ => by
    have hchildren := passes_readAll children
    have hnames : Json.Entries.names [("name", .string name), ("title", .string title),
        ("content", .string content), ("type", .string format.word),
        ("children", .array (records children))] |>.Nodup := by
      simp [Json.Entries.names]
    have hfind := Json.Entries.find?_sorted hnames "children"
    rw [record, Json.Entries.sorted_object, read]
    simp only [passes_seq, passes_functor_map, and_assoc]
    refine ⟨?_, ?_, ?_, ?_, ?_⟩
    · exact passes_required_sorted hnames rfl (passes_text name)
    · exact passes_required_sorted hnames rfl (passes_text title)
    · exact passes_field_sorted hnames rfl (passes_text content)
    · exact passes_field_sorted hnames rfl (passes_word format)
    · refine passes_parts (hfind.trans (congrArg _ (Json.sorted_array _))) fun x hx _ => ?_
      obtain ⟨y, hy, rfl⟩ := List.mem_map.mp hx
      exact hchildren y hy

theorem passes_readAll : (tutorials : List Tutorial) →
    ∀ x ∈ records tutorials, (read x.sorted).Passes
  | [] => nofun
  | t :: tutorials => by
    have ht := passes_read t
    have htutorials := passes_readAll tutorials
    rw [records]
    exact List.forall_mem_cons.mpr ⟨ht, htutorials⟩

end

end Tutorial

namespace NavNode

mutual

theorem tidy_record : (n : NavNode) → n.record.Tidy
  | .mk id anchor items => by
    have hitems := Json.Tidy.array (tidy_records items)
    rw [record]
    exact .object (by simp) (by simpa using hitems)

theorem tidy_records : (nodes : List NavNode) → ∀ x ∈ records nodes, x.Tidy
  | [] => nofun
  | n :: nodes => by
    have hn := tidy_record n
    have hnodes := tidy_records nodes
    rw [records]
    exact List.forall_mem_cons.mpr ⟨hn, hnodes⟩

end

mutual

/-- What is written of an entry of the sidebar reads back as one. -/
theorem passes_check : (n : NavNode) → (check n.record.sorted).Passes
  | .mk id anchor items => by
    have hitems := passes_checkAll items
    have hnames : (Json.Entries.names [("id", .string id), ("anchor", .string anchor),
        ("items", .array (records items))]).Nodup := by
      simp [Json.Entries.names]
    have hfind := Json.Entries.find?_sorted hnames "items"
    rw [record, Json.Entries.sorted_object, check]
    simp only [passes_seq, passes_functor_map, and_assoc]
    refine ⟨passes_required_sorted hnames rfl (by simp),
      passes_required_sorted hnames rfl (by simp), ?_⟩
    refine passes_parts (hfind.trans (congrArg _ (Json.sorted_array _))) fun x hx _ => ?_
    obtain ⟨y, hy, rfl⟩ := List.mem_map.mp hx
    exact hitems y hy

theorem passes_checkAll : (nodes : List NavNode) → ∀ x ∈ records nodes, (check x.sorted).Passes
  | [] => nofun
  | n :: nodes => by
    have hn := passes_check n
    have hnodes := passes_checkAll nodes
    rw [records]
    exact List.forall_mem_cons.mpr ⟨hn, hnodes⟩

end

end NavNode

namespace Members

/-- The entries of the record of the categories. -/
def entries (m : Members) : Json.Entries :=
  m.categories.map (fun (name, symbols) => (name, .array (symbols.map Symbol.written))) ++
    [("tutorials", .array (Tutorial.records m.tutorials))]

theorem record_eq (m : Members) : m.record = .object m.entries := rfl

theorem names_entries (m : Members) : m.entries.names = categoryNames := rfl

theorem nodup_entries (m : Members) : m.entries.names.Nodup := by
  rw [names_entries]
  decide

/-- The symbols of all categories come from the symbols of the site. -/
theorem mem_of_mem_categories {symbols : List Symbol} {tutorials : List Tutorial}
    {category : String × List Symbol} (h : category ∈ (collect symbols tutorials).categories)
    {s : Symbol} (hs : s ∈ category.2) : s ∈ symbols := by
  simp only [categories, collect, List.mem_cons, List.not_mem_nil, or_false] at h
  rcases h with rfl | rfl | rfl | rfl | rfl | rfl | rfl | rfl <;> exact (List.mem_filter.mp hs).1

theorem tidy_record {m : Members} (h : ∀ category ∈ m.categories, ∀ s ∈ category.2, s.Clean) :
    m.record.Tidy := by
  refine .object m.nodup_entries fun e he => ?_
  obtain he | he := List.mem_append.mp he
  · obtain ⟨⟨name, symbols⟩, hcategory, rfl⟩ := List.mem_map.mp he
    exact Json.tidy_array_map fun s hs => (h _ hcategory s hs).tidy false
  · obtain rfl := List.mem_singleton.mp he
    exact .array (Tutorial.tidy_records _)

theorem passes_foldr {es : Json.Entries} {names : List String} {check : Json → Checked Unit}
    (h : ∀ name ∈ names, (field es name () check).Passes) :
    (names.foldr (fun name others => field es name () check *> others) (.ok ())).Passes := by
  induction names with
  | nil => exact passes_ok ()
  | cons name names ih =>
    obtain ⟨hname, hnames⟩ := List.forall_mem_cons.mp h
    rw [List.foldr_cons, passes_seqRight]
    exact ⟨hname, ih hnames⟩

theorem passes_check {m : Members} (h : ∀ category ∈ m.categories, ∀ s ∈ category.2, s.Clean) :
    (check m.record.sorted).Passes := by
  rw [record_eq, Json.Entries.sorted_object]
  simp only [check, Schema.record, passes_seqRight]
  constructor
  · refine passes_foldr fun name hname => passes_field fun x hx => ?_
    rw [Json.Entries.find?_sorted m.nodup_entries, Option.map_eq_some_iff] at hx
    obtain ⟨y, hy, rfl⟩ := hx
    obtain hmem | hmem := List.mem_append.mp (Json.Entries.mem_of_find? hy)
    · obtain ⟨⟨other, symbols⟩, hcategory, heq⟩ := List.mem_map.mp hmem
      cases heq
      rw [passes_only, Json.sorted_array, passes_list]
      intro z hz
      simp only [List.map_map, List.mem_map] at hz
      obtain ⟨s, hs, rfl⟩ := hz
      exact (h _ hcategory s hs).passes
    · cases List.mem_singleton.mp hmem
      exact absurd hname (by decide)
  · have hmem : ("tutorials", Json.array (Tutorial.records m.tutorials)) ∈ m.entries := by
      simp [entries]
    refine passes_field_sorted m.nodup_entries
      (Json.Entries.find?_of_mem m.nodup_entries hmem) ?_
    rw [passes_only, Json.sorted_array, passes_list]
    intro z hz
    obtain ⟨y, hy, rfl⟩ := List.mem_map.mp hz
    exact Tutorial.passes_readAll _ y hy

theorem unknownCategories_entries (m : Members) :
    unknownCategories (Json.Entries.sorted m.entries) = [] := by
  have hothers : others (Json.Entries.sorted m.entries) categoryNames = [] := by
    rw [others, List.filter_eq_nil_iff]
    rintro ⟨name, x⟩ he
    have hmem := (Json.Entries.names_sorted_perm _).mem_iff.mp (List.mem_map_of_mem he)
    rw [names_entries] at hmem
    simpa using hmem
  rw [unknownCategories, hothers, List.map_nil, List.mergeSort_nil]

end Members

namespace Snapshot

/-- Where every item reads as a symbol, nothing but warnings is found. -/
theorem isWarning_docsProblems {items : List Json} (h : ∀ x ∈ items, (Symbol.read x).Passes)
    (position : Nat) (seen : List String) :
    ∀ p ∈ docsProblems position seen items, p.2.isWarning := by
  induction items generalizing position seen with
  | nil => nofun
  | cons x items ih =>
    obtain ⟨⟨s, hs⟩, hitems⟩ := List.forall_mem_cons.mp h
    rw [docsProblems, hs]
    intro p hp
    simp only [List.mem_append] at hp
    obtain (hp | hp) | hp := hp
    · split at hp
      · cases List.mem_singleton.mp hp
        rfl
      · cases hp
    · split at hp
      · cases List.mem_singleton.mp hp
        rfl
      · cases hp
    · exact ih hitems _ _ p hp

theorem rawProblems_objects (raw : List Json.Entries) (position : Nat) :
    rawProblems position (raw.map Json.object) = [] := by
  induction raw generalizing position with
  | nil => rfl
  | cons d raw ih => exact ih (position + 1)

theorem unfitProblem_of_passes {c : Checked Unit} (h : c.Passes) : unfitProblem c = [] := by
  obtain ⟨a, rfl⟩ := h
  rfl

/-- What is safe to be written as a snapshot: a tidy value, about which nothing but warnings is
found once it is read back. -/
structure ReadsBack (s : Snapshot) (x : Json) : Prop where
  tidy : x.Tidy
  isWarning : ∀ p ∈ s.problems x.sorted, p.2.isWarning

theorem readsBack_of_problems_eq_nil {s : Snapshot} {x : Json} (htidy : x.Tidy)
    (h : s.problems x.sorted = []) : s.ReadsBack x :=
  ⟨htidy, by simp [h]⟩

theorem readsBack_docsRaw {raw : List Doclet} (h : ∀ d ∈ raw, Tidy (.object d)) :
    docsRaw.ReadsBack (.array (raw.map Json.object)) := by
  apply readsBack_of_problems_eq_nil (Json.tidy_array_map h)
  have hitems : (raw.map Json.object).map Json.sorted =
      (raw.map Json.Entries.sorted).map Json.object := by
    simp [Json.Entries.sorted_object]
  rw [Json.sorted_array, hitems]
  exact rawProblems_objects _ 0

theorem readsBack_docs {symbols : List Symbol} (h : ∀ s ∈ symbols, s.Clean) :
    docs.ReadsBack (.array (symbols.map Symbol.written)) := by
  refine ⟨Json.tidy_array_map fun s hs => (h s hs).tidy false, ?_⟩
  rw [Json.sorted_array]
  refine isWarning_docsProblems ?_ 0 []
  intro x hx
  simp only [List.map_map, List.mem_map] at hx
  obtain ⟨s, hs, rfl⟩ := hx
  exact (h s hs).passes

theorem readsBack_members {m : Members} (h : ∀ category ∈ m.categories, ∀ s ∈ category.2, s.Clean) :
    members.ReadsBack m.record := by
  apply readsBack_of_problems_eq_nil (Members.tidy_record h)
  have hpasses := Members.passes_check h
  rw [Members.record_eq, Json.Entries.sorted_object] at hpasses ⊢
  rw [problems, Members.unknownCategories_entries, unfitProblem_of_passes hpasses]
  rfl

theorem readsBack_nav (entries : List NavNode) :
    nav.ReadsBack (.array (NavNode.records entries)) := by
  apply readsBack_of_problems_eq_nil (.array (NavNode.tidy_records entries))
  have hpasses : (only (list NavNode.check)
      (Json.array (NavNode.records entries)).sorted).Passes := by
    rw [passes_only, Json.sorted_array, passes_list]
    intro z hz
    obtain ⟨y, hy, rfl⟩ := List.mem_map.mp hz
    exact NavNode.passes_checkAll _ y hy
  rw [Json.sorted_array] at hpasses ⊢
  exact unfitProblem_of_passes hpasses

theorem readsBack_tree {symbols : List Symbol} (h : ∀ s ∈ symbols, s.Clean) :
    tree.ReadsBack (Tree.record (Tree.graft symbols)) := by
  apply readsBack_of_problems_eq_nil (Tree.tidy_record h)
  have hpasses := Tree.passes_check (Tree.graft symbols)
  rw [Tree.record, Json.Entries.sorted_object] at hpasses ⊢
  exact unfitProblem_of_passes hpasses

end Snapshot

namespace Site

/-- What a site is made of, as far as its snapshots show it. -/
structure Consistent (s : Site) : Prop where
  clean : ∀ symbol ∈ s.symbols, symbol.Clean
  members : s.members = Members.collect s.symbols s.tutorials
  tree : s.tree = Tree.graft s.symbols

theorem Consistent.clean_members {s : Site} (h : s.Consistent) :
    ∀ category ∈ s.members.categories, ∀ t ∈ category.2, t.Clean := by
  intro category hcategory t ht
  rw [h.members] at hcategory
  exact h.clean t (Members.mem_of_mem_categories hcategory ht)

section Snapshot

variable [Serializer] {s : Site} {raw : List Doclet} {x : Json}

theorem eq_of_snapshot_docs (h : s.snapshot raw .docs = .ok x) :
    x = .array (s.symbols.map Symbol.written) := by
  obtain ⟨records, hdump, rfl⟩ := exists_of_map_ok (show (Symbol.dump s.symbols).map _ = _ from h)
  rw [Symbol.dump_ok hdump]

theorem Consistent.readsBack (h : s.Consistent) (hraw : ∀ d ∈ raw, Tidy (.object d))
    {snapshot : Snapshot} (hx : s.snapshot raw snapshot = .ok x) : snapshot.ReadsBack x := by
  cases snapshot with
  | docsRaw =>
    cases hx
    exact Snapshot.readsBack_docsRaw hraw
  | docs =>
    rw [eq_of_snapshot_docs hx]
    exact Snapshot.readsBack_docs h.clean
  | members =>
    rw [eq_of_serialize hx]
    exact Snapshot.readsBack_members h.clean_members
  | nav =>
    cases hx
    exact Snapshot.readsBack_nav s.nav
  | tree =>
    rw [eq_of_serialize hx, h.tree]
    exact Snapshot.readsBack_tree h.clean

end Snapshot

end Site

end Refsite
