import Refsite.Proofs.Json.Sorted
import Refsite.Symbol.Record
namespace Refsite.Json

@[simp] theorem sorted_bool (b : Bool) : (Json.bool b).sorted = .bool b := rfl

@[simp] theorem sorted_string (s : String) : (Json.string s).sorted = .string s := rfl

@[simp]
theorem sorted_array (items : List Json) :
    (Json.array items).sorted = .array (items.map sorted) := by
  rw [sorted, sortedItems_eq]

@[simp]
theorem sorted_ofStrings (texts : List String) : (ofStrings texts).sorted = ofStrings texts := by
  simp [ofStrings]

theorem tidy_array_map {α : Type} {f : α → Json} {as : List α} (h : ∀ a ∈ as, (f a).Tidy) :
    (Json.array (as.map f)).Tidy := by
  refine .array fun x hx => ?_
  obtain ⟨a, ha, rfl⟩ := List.mem_map.mp hx
  exact h a ha

theorem tidy_ofStrings (texts : List String) : (ofStrings texts).Tidy :=
  tidy_array_map fun s _ => .string s

theorem tidy_ofOption {α : Type} {f : α → Json} {o : Option α} (h : ∀ a ∈ o, (f a).Tidy) :
    (ofOption f o).Tidy := by
  cases o with
  | none => exact .null
  | some a => exact h a rfl

theorem Tidy.of_find? {es : Entries} {name : String} {x : Json} (h : Tidy (.object es))
    (hfind : es.find? name = some x) : x.Tidy := by
  cases h with
  | object distinct tidy => exact tidy _ (Entries.mem_of_find? hfind)

namespace Entries

variable {es fields extra : Entries} {name : String} {x : Json}

def names (es : Entries) : List String := es.map Prod.fst

/-- The entries of an object as they read back. -/
def sorted (es : Entries) : Entries := sortByName (sortedEntries es)

theorem sorted_object (es : Entries) : (Json.object es).sorted = .object (Entries.sorted es) := by
  rw [Json.sorted, Entries.sorted]

theorem find?_cons_self (name : String) (x : Json) (es : Entries) :
    Entries.find? ((name, x) :: es) name = some x := by
  simp [find?]

theorem find?_cons_of_ne {other : String} (h : name ≠ other) (x : Json) (es : Entries) :
    Entries.find? ((other, x) :: es) name = es.find? name := by
  rw [find?, List.lookup_cons, beq_eq_false_iff_ne.mpr h]
  rfl

theorem find?_of_mem (hnames : (names es).Nodup) (h : (name, x) ∈ es) : es.find? name = some x := by
  induction es with
  | nil => cases h
  | cons e es ih =>
    obtain ⟨other, y⟩ := e
    simp only [names, List.map_cons, List.nodup_cons] at hnames
    obtain heq | hmem := List.mem_cons.mp h
    · cases heq
      exact find?_cons_self name x es
    · have hne : name ≠ other := by
        rintro rfl
        exact hnames.1 (List.mem_map.mpr ⟨_, hmem, rfl⟩)
      rw [find?_cons_of_ne hne]
      exact ih hnames.2 hmem

theorem find?_eq_none_iff : es.find? name = none ↔ name ∉ names es := by
  induction es with
  | nil => simp [find?, names]
  | cons e es ih =>
    obtain ⟨other, y⟩ := e
    simp only [names, List.map_cons, List.mem_cons, not_or] at ih ⊢
    by_cases hname : name = other
    · subst hname
      simp [find?_cons_self]
    · rw [find?_cons_of_ne hname, ih]
      simp [hname]

/-- Where names are distinct, the order of the entries does not matter. -/
theorem find?_perm {es' : Entries} (hperm : es.Perm es') (hnames : (names es).Nodup)
    (name : String) : es.find? name = es'.find? name := by
  have hnames' : (names es').Nodup := (hperm.map Prod.fst).nodup_iff.mp hnames
  cases h : es.find? name with
  | some x => exact (find?_of_mem hnames' (hperm.mem_iff.mp (mem_of_find? h))).symm
  | none =>
    rw [find?_eq_none_iff] at h
    exact (find?_eq_none_iff.mpr fun hmem => h ((hperm.map Prod.fst).mem_iff.mpr hmem)).symm

theorem names_sorted_perm (es : Entries) : (names es.sorted).Perm (names es) := by
  have hperm : es.sorted.Perm (es.map fun e => (e.1, e.2.sorted)) := by
    rw [sorted, sortedEntries_eq]
    exact List.mergeSort_perm _ _
  refine (hperm.map Prod.fst).trans (.of_eq ?_)
  rw [List.map_map]
  rfl

theorem find?_sorted (hnames : (names es).Nodup) (name : String) :
    es.sorted.find? name = (es.find? name).map Json.sorted := by
  have hmap : names (es.map fun e => (e.1, e.2.sorted)) = names es := by
    rw [names, List.map_map]
    rfl
  have hperm : es.sorted.Perm (es.map fun e => (e.1, e.2.sorted)) := by
    rw [sorted, sortedEntries_eq]
    exact List.mergeSort_perm _ _
  rw [← find?_perm hperm.symm (by rw [hmap]; exact hnames)]
  clear hmap hperm hnames
  induction es with
  | nil => rfl
  | cons e es ih =>
    obtain ⟨other, y⟩ := e
    by_cases hname : name = other
    · subst hname
      rw [List.map_cons, find?_cons_self, find?_cons_self]
      rfl
    · rw [List.map_cons, find?_cons_of_ne hname, find?_cons_of_ne hname, ih]

/-- A record without what is null in it. -/
def withoutNulls (es : Entries) : Entries := es.filter fun (_, x) => !x.isNull

theorem ofFields_written (fields extra : Entries) :
    Json.ofFields false fields extra = .object (withoutNulls (fields ++ extra)) := rfl

theorem names_withoutNulls_sublist (es : Entries) : (names (withoutNulls es)).Sublist (names es) :=
  List.filter_sublist.map _

theorem mem_withoutNulls : (name, x) ∈ withoutNulls es ↔ (name, x) ∈ es ∧ x.isNull = false := by
  simp [withoutNulls]

theorem find?_withoutNulls (hnames : (names es).Nodup) (h : es.find? name = some x) :
    (withoutNulls es).find? name = if x.isNull then none else some x := by
  have hnames' := hnames.sublist (names_withoutNulls_sublist es)
  split
  · next hnull =>
    rw [find?_eq_none_iff]
    intro hmem
    obtain ⟨⟨other, y⟩, hy, rfl⟩ := List.mem_map.mp hmem
    rw [mem_withoutNulls] at hy
    rw [find?_of_mem hnames hy.1] at h
    cases h
    rw [hnull] at hy
    exact absurd hy.2 (by decide)
  · next hnull =>
    exact find?_of_mem hnames' (mem_withoutNulls.mpr ⟨mem_of_find? h, by simpa using hnull⟩)

theorem find?_append_left (h : fields.find? name = some x) :
    (fields ++ extra : Entries).find? name = some x := by
  rw [find?] at h ⊢
  rw [List.lookup_append, h]
  rfl

end Entries

/-- What a record keeps beside the fields of the given names: other names, each once, with tidy
values. -/
structure Kept (names : List String) (extra : Entries) : Prop where
  distinct : (names ++ extra.names).Nodup
  tidy : ∀ e ∈ extra, e.2.Tidy

/-- A written record as it reads back. -/
def Entries.written (fields extra : Entries) : Entries :=
  Entries.sorted (Entries.withoutNulls (fields ++ extra))

theorem sorted_ofFields (fields extra : Entries) :
    (Json.ofFields false fields extra).sorted = .object (Entries.written fields extra) := by
  rw [Entries.ofFields_written, Entries.sorted_object, Entries.written]

theorem Kept.find?_written {names : List String} {fields extra : Entries} (h : Kept names extra)
    (hfields : fields.names = names) {name : String} {x : Json}
    (hfind : fields.find? name = some x) :
    (Entries.written fields extra).find? name = if x.isNull then none else some x.sorted := by
  have hnames : (Entries.names (fields ++ extra)).Nodup := by
    rw [Entries.names, List.map_append, ← Entries.names, hfields]
    exact h.distinct
  rw [Entries.written,
    Entries.find?_sorted (hnames.sublist (Entries.names_withoutNulls_sublist _)),
    Entries.find?_withoutNulls hnames (Entries.find?_append_left hfind)]
  split <;> rfl

theorem Kept.find?_present {names : List String} {fields extra : Entries} (h : Kept names extra)
    (hfields : fields.names = names) {name : String} {x : Json} (hfind : fields.find? name = some x)
    (hnull : x.isNull = false) : (Entries.written fields extra).find? name = some x.sorted := by
  rw [h.find?_written hfields hfind, hnull]
  rfl

theorem kept_nil {names : List String} (h : names.Nodup) : Kept names [] :=
  ⟨by simpa [Entries.names] using h, nofun⟩

/-- The written record of tidy fields is tidy. -/
theorem tidy_ofFields {names : List String} {fields extra : Entries} (hkept : Kept names extra)
    (hfields : fields.names = names) (htidy : ∀ e ∈ fields, e.2.Tidy) (full : Bool) :
    (Json.ofFields full fields extra).Tidy := by
  have hnames : ((fields ++ extra).map Prod.fst).Nodup := by
    rw [List.map_append, ← Entries.names, hfields]
    exact hkept.distinct
  refine .object (hnames.sublist (List.filter_sublist.map _)) fun e he => ?_
  obtain he | he := List.mem_append.mp (List.mem_filter.mp he).1
  · exact htidy e he
  · exact hkept.tidy e he

end Refsite.Json
