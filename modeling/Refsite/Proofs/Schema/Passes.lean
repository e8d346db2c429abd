import Refsite.Proofs.Json.Entries
import Refsite.Schema.Field
namespace Refsite.Schema

namespace Checked

variable {α β : Type}

/-- The check accepts. -/
def Passes (c : Checked α) : Prop := ∃ a, c = .ok a

@[simp]
theorem passes_ok (a : α) : (ok a).Passes := ⟨a, rfl⟩

@[simp]
theorem passes_pure (a : α) : (pure a : Checked α).Passes := ⟨a, rfl⟩

@[simp]
theorem not_passes_bad (faults : List Fault) : ¬(bad faults : Checked α).Passes := nofun

@[simp]
theorem passes_functor_map (f : α → β) (c : Checked α) : (f <$> c).Passes ↔ c.Passes := by
  cases c with
  | ok a => exact iff_of_true ⟨_, rfl⟩ ⟨_, rfl⟩
  | bad faults => exact iff_of_false (not_passes_bad faults) (not_passes_bad faults)

@[simp]
theorem passes_map (f : α → β) (c : Checked α) : (c.map f).Passes ↔ c.Passes :=
  passes_functor_map f c

@[simp]
theorem passes_seq (f : Checked (α → β)) (x : Checked α) :
    (f <*> x).Passes ↔ f.Passes ∧ x.Passes := by
  cases f with
  | ok f =>
    cases x with
    | ok a => exact iff_of_true ⟨_, rfl⟩ ⟨⟨_, rfl⟩, ⟨_, rfl⟩⟩
    | bad faults => exact iff_of_false nofun fun h => not_passes_bad faults h.2
  | bad faults =>
    cases x with
    | ok a => exact iff_of_false nofun fun h => not_passes_bad faults h.1
    | bad more => exact iff_of_false nofun fun h => not_passes_bad faults h.1

@[simp]
theorem passes_seqRight (x : Checked α) (y : Checked β) :
    (x *> y).Passes ↔ x.Passes ∧ y.Passes := by
  have h : (x *> y) = (Function.const α id <$> x) <*> y := rfl
  rw [h, passes_seq, passes_functor_map]

@[simp]
theorem passes_inside (step : String) (c : Checked α) : (c.inside step).Passes ↔ c.Passes := by
  cases c with
  | ok a => exact iff_of_true ⟨a, rfl⟩ ⟨a, rfl⟩
  | bad faults => exact iff_of_false (not_passes_bad _) (not_passes_bad _)

theorem of_map_ok {f : α → β} {x : Checked α} {b : β} (h : f <$> x = .ok b) :
    ∃ a, x = .ok a ∧ f a = b := by
  cases x with
  | ok a =>
    cases h
    exact ⟨a, rfl, rfl⟩
  | bad faults => cases h

theorem of_seq_ok {f : Checked (α → β)} {x : Checked α} {b : β} (h : f <*> x = .ok b) :
    ∃ g a, f = .ok g ∧ x = .ok a ∧ g a = b := by
  cases f with
  | ok g =>
    cases x with
    | ok a =>
      cases h
      exact ⟨g, a, rfl, rfl, rfl⟩
    | bad faults => cases h
  | bad faults => cases x <;> cases h

theorem map_ok {x : Checked α} {a : α} (h : x = .ok a) (f : α → β) : f <$> x = .ok (f a) := by
  rw [h]
  rfl

theorem seq_ok {f : Checked (α → β)} {x : Checked α} {g : α → β} {a : α} (hx : x = .ok a)
    (hf : f = .ok g) : f <*> x = .ok (g a) := by
  rw [hf, hx]
  rfl

theorem inside_ok {c : Checked α} {a : α} (h : c = .ok a) (step : String) :
    c.inside step = .ok a := by
  rw [h, inside]

theorem of_inside_ok {step : String} {c : Checked α} {a : α} (h : c.inside step = .ok a) :
    c = .ok a := by
  cases c with
  | ok b => exact h
  | bad faults => cases h

end Checked

open Checked

variable {α : Type} {check : Json → Checked α} {es : Json.Entries} {name : String} {default : α}

@[simp]
theorem passes_text (s : String) : (text (.string s)).Passes := passes_ok s

@[simp]
theorem passes_flag (b : Bool) : (flag (.bool b)).Passes := passes_ok b

theorem passes_orNull {x : Json} (h : x.isNull = false → (check x).Passes) :
    (orNull check x).Passes := by
  unfold orNull
  split
  · exact passes_ok none
  · next hne =>
    rw [passes_map]
    apply h
    cases x <;> first | rfl | exact absurd rfl hne

theorem passes_eachFrom {position : Nat} {items : List Json}
    {check : (x : Json) → x ∈ items → Checked α} :
    (eachFrom position items check).Passes ↔ ∀ x hx, (check x hx).Passes := by
  induction items generalizing position with
  | nil => simp [eachFrom]
  | cons x items ih =>
    rw [eachFrom, passes_seq, passes_functor_map, passes_inside, ih]
    constructor
    · rintro ⟨hx, hitems⟩ y hy
      obtain rfl | hmem := List.mem_cons.mp hy
      · exact hx
      · exact hitems y hmem
    · exact fun h => ⟨h x _, fun y hy => h y _⟩

@[simp]
theorem passes_list (xs : List Json) :
    (list check (.array xs)).Passes ↔ ∀ x ∈ xs, (check x).Passes := passes_eachFrom

@[simp]
theorem passes_only (x : Json) : (only check x).Passes ↔ (check x).Passes := passes_map _ _

theorem passes_field (h : ∀ x, es.find? name = some x → (check x).Passes) :
    (field es name default check).Passes := by
  unfold field
  split
  · next x hx => exact (passes_inside _ _).mpr (h x hx)
  · exact passes_ok _

theorem passes_required {x : Json} (hfind : es.find? name = some x) (h : (check x).Passes) :
    (required es name check).Passes := by
  rw [required, hfind]
  exact (passes_inside _ _).mpr h

theorem passes_parts {xs : List Json}
    {check : (x : Json) → sizeOf x < sizeOf (Json.object es) → Checked α}
    (hfind : es.find? name = some (.array xs)) (h : ∀ x ∈ xs, ∀ hlt, (check x hlt).Passes) :
    (parts es name check).Passes := by
  unfold parts
  split
  · exact passes_ok []
  · next items hitems =>
    obtain rfl : xs = items := by
      rw [hfind] at hitems
      cases hitems
      rfl
    rw [passes_inside, passes_eachFrom]
    exact fun x hx => h x hx _
  · next x hne hx =>
    rw [hfind] at hx
    cases hx
    exact absurd rfl (hne xs)

section Values

/-- Items that are made of some things and read as what those come to. -/
theorem eachFrom_ok {β : Type} {f : β → Json} {g : β → α} {bs : List β} {items : List Json}
    (hitems : items = bs.map f) {position : Nat} {check : (x : Json) → x ∈ items → Checked α}
    (h : ∀ b ∈ bs, ∀ hb, check (f b) hb = .ok (g b)) :
    eachFrom position items check = .ok (bs.map g) := by
  induction bs generalizing items position with
  | nil =>
    subst hitems
    rfl
  | cons b bs ih =>
    subst hitems
    have hfirst := inside_ok (h b List.mem_cons_self List.mem_cons_self) (toString position)
    refine seq_ok (ih rfl fun c hc hmem => ?_) (map_ok hfirst _)
    exact h c (List.mem_cons_of_mem b hc) (List.mem_cons_of_mem _ hmem)

theorem list_ok {β : Type} {f : β → Json} {g : β → α} {bs : List β}
    (h : ∀ b ∈ bs, check (f b) = .ok (g b)) : list check (.array (bs.map f)) = .ok (bs.map g) :=
  eachFrom_ok rfl fun b hb _ => h b hb

theorem parts_ok {β : Type} {f : β → Json} {g : β → α} {bs : List β}
    {check : (x : Json) → sizeOf x < sizeOf (Json.object es) → Checked α}
    (hfind : es.find? name = some (.array (bs.map f)))
    (h : ∀ b ∈ bs, ∀ hlt, check (f b) hlt = .ok (g b)) : parts es name check = .ok (bs.map g) := by
  unfold parts
  split
  · next hnone => cases hfind.symm.trans hnone
  · next items hitems =>
    obtain rfl : bs.map f = items := by
      cases hfind.symm.trans hitems
      rfl
    exact inside_ok (eachFrom_ok rfl fun b hb _ => h b hb _) name
  · next x hne hx =>
    cases hfind.symm.trans hx
    exact absurd rfl (hne _)

theorem orNull_ok {β : Type} {f : β → Json} {g : β → α} {o : Option β}
    (hnull : ∀ b, (f b).isNull = false) (h : ∀ b ∈ o, check (f b) = .ok (g b)) :
    orNull check (Json.ofOption f o) = .ok (o.map g) := by
  cases o with
  | none => rfl
  | some b =>
    have hb := hnull b
    change orNull check (f b) = _
    unfold orNull
    split
    · next heq =>
      rw [heq] at hb
      cases hb
    · exact map_ok (h b rfl) some

end Values

section Results

theorem of_field_found {x : Json} {a : α} (h : field es name default check = .ok a)
    (hfind : es.find? name = some x) : check x = .ok a := by
  rw [field, hfind] at h
  exact of_inside_ok h

theorem of_field_ok {a : α} (h : field es name default check = .ok a) :
    a = default ∨ ∃ x, es.find? name = some x ∧ check x = .ok a := by
  cases hfind : es.find? name with
  | some x => exact .inr ⟨x, rfl, of_field_found h hfind⟩
  | none =>
    rw [field, hfind] at h
    cases h
    exact .inl rfl

theorem of_required_ok {a : α} (h : required es name check = .ok a) :
    ∃ x, es.find? name = some x ∧ check x = .ok a := by
  unfold required at h
  split at h
  · next x hx => exact ⟨x, hx, of_inside_ok h⟩
  · cases h

theorem of_text_ok {x : Json} {s : String} (h : text x = .ok s) : x = .string s := by
  cases x with
  | string t =>
    cases h
    rfl
  | _ => cases h

theorem of_orNull_present {x : Json} {o : Option α} (h : orNull check x = .ok o)
    (hnull : x.isNull = false) : ∃ a, o = some a ∧ check x = .ok a := by
  unfold orNull at h
  split at h
  · cases hnull
  · obtain ⟨a, ha, rfl⟩ := of_map_ok h
    exact ⟨a, rfl, ha⟩

theorem of_orNull_ok {x : Json} {o : Option α} (h : orNull check x = .ok o) :
    ∀ a ∈ o, check x = .ok a := by
  cases hnull : x.isNull with
  | true =>
    cases x with
    | null =>
      cases h
      nofun
    | _ => cases hnull
  | false =>
    obtain ⟨a, rfl, ha⟩ := of_orNull_present h hnull
    rintro b ⟨rfl⟩
    exact ha

theorem of_record_ok {check : Json.Entries → Checked α} {x : Json} {a : α}
    (h : record check x = .ok a) : ∃ es, x = .object es ∧ check es = .ok a := by
  unfold record at h
  split at h
  · exact ⟨_, rfl, h⟩
  · cases h

theorem of_eachFrom_ok {position : Nat} {items : List Json}
    {check : (x : Json) → x ∈ items → Checked α} {as : List α}
    (h : eachFrom position items check = .ok as) :
    List.Forall₂ (fun x a => ∃ hx, check x hx = .ok a) items as := by
  induction items generalizing position as with
  | nil =>
    cases h
    exact .nil
  | cons x items ih =>
    rw [eachFrom] at h
    obtain ⟨g, rest, hg, hrest, rfl⟩ := of_seq_ok h
    obtain ⟨b, hb, rfl⟩ := of_map_ok hg
    exact .cons ⟨_, of_inside_ok hb⟩ ((ih hrest).imp fun _ _ ⟨_, hcheck⟩ => ⟨_, hcheck⟩)

theorem of_list_ok {x : Json} {as : List α} (h : list check x = .ok as) :
    ∃ items, x = .array items ∧ List.Forall₂ (fun y a => y ∈ items ∧ check y = .ok a) items as := by
  unfold list at h
  split at h
  · exact ⟨_, rfl, (of_eachFrom_ok h).imp fun _ _ ⟨hy, hcheck⟩ => ⟨hy, hcheck⟩⟩
  · cases h

theorem exists_of_forall₂ {β : Type} {R : α → β → Prop} {as : List α} {bs : List β}
    (h : List.Forall₂ R as bs) {b : β} (hb : b ∈ bs) : ∃ a ∈ as, R a b := by
  induction h with
  | nil => cases hb
  | cons hab _ ih =>
    obtain rfl | hb := List.mem_cons.mp hb
    · exact ⟨_, List.mem_cons_self, hab⟩
    · obtain ⟨a, ha, hR⟩ := ih hb
      exact ⟨a, List.mem_cons_of_mem _ ha, hR⟩

theorem of_parts_ok {check : (x : Json) → sizeOf x < sizeOf (Json.object es) → Checked α}
    {as : List α} (h : parts es name check = .ok as) :
    ∀ a ∈ as, ∃ items, es.find? name = some (.array items) ∧
      ∃ x ∈ items, ∃ hlt, check x hlt = .ok a := by
  unfold parts at h
  split at h
  · cases h
    nofun
  · next items hitems =>
    intro a ha
    obtain ⟨x, hx, _, hcheck⟩ := exists_of_forall₂ (of_eachFrom_ok (of_inside_ok h)) ha
    exact ⟨items, hitems, x, hx, _, hcheck⟩
  · cases h

end Results

/-- An entry of an object that is read back. -/
theorem passes_field_sorted {x : Json} (hnames : es.names.Nodup) (hfind : es.find? name = some x)
    (h : (check x.sorted).Passes) : (field (Json.Entries.sorted es) name default check).Passes := by
  apply passes_field
  intro y hy
  rw [Json.Entries.find?_sorted hnames, hfind] at hy
  cases hy
  exact h

theorem passes_required_sorted {x : Json} (hnames : es.names.Nodup)
    (hfind : es.find? name = some x) (h : (check x.sorted).Passes) :
    (required (Json.Entries.sorted es) name check).Passes := by
  refine passes_required ?_ h
  rw [Json.Entries.find?_sorted hnames, hfind]
  rfl

/-- A check gives back what a value is made of, and the value is never null and has no order to be
sorted in. -/
structure Recovers (make : α → Json) (check : Json → Checked α) : Prop where
  isNull_eq : ∀ a, (make a).isNull = false
  sorted_eq : ∀ a, (make a).sorted = make a
  check_eq : ∀ a, check (make a) = .ok a

theorem recovers_text : Recovers .string text := ⟨fun _ => rfl, fun _ => rfl, fun _ => rfl⟩

theorem recovers_flag : Recovers .bool flag := ⟨fun _ => rfl, fun _ => rfl, fun _ => rfl⟩

theorem recovers_integer : Recovers .int integer := ⟨fun _ => rfl, fun _ => rfl, fun _ => rfl⟩

theorem recovers_texts : Recovers Json.ofStrings texts := by
  refine ⟨fun _ => rfl, Json.sorted_ofStrings, fun ts => ?_⟩
  have h := list_ok fun s (_ : s ∈ ts) => recovers_text.check_eq s
  rwa [List.map_id'] at h

@[simp]
theorem passes_texts (names : List String) : (texts (Json.ofStrings names)).Passes :=
  ⟨names, recovers_texts.check_eq names⟩

section Written

variable {names : List String} {fields extra : Json.Entries} {x : Json}

/-- A field of a written record passes where its value does; one that was null is absent. -/
theorem passes_field_written (hkept : Json.Kept names extra)
    (hfields : fields.names = names) (hfind : fields.find? name = some x)
    (h : x.isNull = false → (check x.sorted).Passes) :
    (field (Json.Entries.written fields extra) name default check).Passes := by
  apply passes_field
  intro y hy
  rw [hkept.find?_written hfields hfind] at hy
  split at hy
  · cases hy
  · next hnull =>
    cases hy
    exact h (by simpa using hnull)

/-- A field of a value that is never missing. -/
theorem passes_givenField {make : α → Json} {a : α} (h : Recovers make check)
    (hkept : Json.Kept names extra) (hfields : fields.names = names)
    (hfind : fields.find? name = some (make a)) :
    (field (Json.Entries.written fields extra) name default check).Passes :=
  passes_field_written hkept hfields hfind fun _ => by
    rw [h.sorted_eq, h.check_eq]
    exact passes_ok a

/-- A field of a value that may be missing. -/
theorem passes_nullableField {make : α → Json} {o : Option α} (h : Recovers make check)
    (hkept : Json.Kept names extra) (hfields : fields.names = names)
    (hfind : fields.find? name = some (Json.ofOption make o)) :
    (field (Json.Entries.written fields extra) name none (orNull check)).Passes :=
  passes_field_written hkept hfields hfind fun _ => by
    cases o with
    | none => exact passes_ok none
    | some a =>
      refine passes_orNull fun _ => ?_
      rw [Json.ofOption, h.sorted_eq, h.check_eq]
      exact passes_ok a

theorem passes_required_written (hkept : Json.Kept names extra)
    (hfields : fields.names = names) (hfind : fields.find? name = some x)
    (hnull : x.isNull = false) (h : (check x.sorted).Passes) :
    (required (Json.Entries.written fields extra) name check).Passes := by
  exact passes_required (hkept.find?_present hfields hfind hnull) h

end Written

end Refsite.Schema
