import Refsite.Proofs.Schema.Passes
namespace Refsite

open Schema Schema.Checked

namespace Json

def Entries.kept (full : Bool) (es : Entries) : Entries := es.filter fun (_, x) => full || !x.isNull

theorem ofFields_eq (full : Bool) (fields extra : Entries) :
    ofFields full fields extra = .object (Entries.kept full (fields ++ extra)) := rfl

namespace Entries

variable {es : Entries} {name : String} {x : Json}

theorem kept_append (full : Bool) (es more : Entries) :
    (es ++ more).kept full = es.kept full ++ more.kept full := List.filter_append ..

theorem kept_kept (full : Bool) (es : Entries) : (es.kept full).kept full = es.kept full := by
  rw [kept, kept, List.filter_filter]
  simp only [Bool.and_self]

theorem names_kept_sublist (full : Bool) (es : Entries) : (es.kept full).names.Sublist es.names :=
  List.filter_sublist.map _

theorem find?_kept (hnames : es.names.Nodup) (h : es.find? name = some x) (full : Bool) :
    (es.kept full).find? name = if !full && x.isNull then none else some x := by
  cases full with
  | false => exact find?_withoutNulls hnames h
  | true =>
    have hall : es.kept true = es := List.filter_eq_self.mpr fun _ _ => rfl
    rw [hall, h]
    rfl

end Entries

/-- What is kept beside some fields is kept once more where less of it is kept. -/
theorem ofFields_kept (full : Bool) (fields extra : Entries) :
    ofFields full fields (extra.kept full) = ofFields full fields extra := by
  rw [ofFields_eq, ofFields_eq, Entries.kept_append, Entries.kept_append, Entries.kept_kept]

end Json

open Json (Kept ofOption ofStrings)

variable {α : Type} {names : List String} {fields extra : Json.Entries} {name : String} {x : Json}

namespace Json.Kept

theorem nodup_names (h : Kept names extra) (hfields : fields.names = names) :
    (Entries.names (fields ++ extra)).Nodup := by
  rw [Entries.names, List.map_append, ← Entries.names, hfields]
  exact h.distinct

theorem find?_record (h : Kept names extra) (hfields : fields.names = names)
    (hfind : fields.find? name = some x) (full : Bool) :
    (Entries.kept full (fields ++ extra)).find? name =
      if !full && x.isNull then none else some x :=
  Entries.find?_kept (h.nodup_names hfields) (Entries.find?_append_left hfind) full

theorem find?_record_present (h : Kept names extra) (hfields : fields.names = names)
    (hfind : fields.find? name = some x) (hnull : x.isNull = false) (full : Bool) :
    (Entries.kept full (fields ++ extra)).find? name = some x := by
  rw [h.find?_record hfields hfind, hnull, Bool.and_false]
  rfl

theorem others_record (h : Kept names extra) (hfields : fields.names = names) (full : Bool) :
    others (Entries.kept full (fields ++ extra)) names = Entries.kept full extra := by
  have hdisjoint := (List.nodup_append.mp h.distinct).2.2
  have hnone : others (Entries.kept full fields) names = [] := by
    refine List.filter_eq_nil_iff.mpr fun e he => ?_
    have hmem : e.1 ∈ names := by
      rw [← hfields]
      exact (Entries.names_kept_sublist full fields).subset (List.mem_map_of_mem he)
    simpa using hmem
  have hall : others (Entries.kept full extra) names = Entries.kept full extra := by
    refine List.filter_eq_self.mpr fun e he => ?_
    have hmem : e.1 ∈ extra.names :=
      (Entries.names_kept_sublist full extra).subset (List.mem_map_of_mem he)
    simpa using fun hname => hdisjoint e.1 hname e.1 hmem rfl
  rw [Entries.kept_append, others, List.filter_append]
  change others (Entries.kept full fields) names ++ others (Entries.kept full extra) names = _
  rw [hnone, hall, List.nil_append]

end Json.Kept

namespace Schema

theorem field_record {check : Json → Checked α} {default a : α} (hkept : Kept names extra)
    (hfields : fields.names = names) (hfind : fields.find? name = some x)
    (hnull : x.isNull = true → a = default) (h : check x = .ok a) (full : Bool) :
    field (Json.Entries.kept full (fields ++ extra)) name default check = .ok a := by
  rw [field, hkept.find?_record hfields hfind]
  split
  · next y hy =>
    split at hy
    · cases hy
    · cases hy
      exact inside_ok h name
  · next hnone =>
    split at hnone
    · next hleft =>
      rw [Bool.and_eq_true] at hleft
      rw [hnull hleft.2]
    · cases hnone

theorem required_record {check : Json → Checked α} {a : α} (hkept : Kept names extra)
    (hfields : fields.names = names) (hfind : fields.find? name = some x)
    (hnull : x.isNull = false) (h : check x = .ok a) (full : Bool) :
    required (Json.Entries.kept full (fields ++ extra)) name check = .ok a := by
  rw [required, hkept.find?_record_present hfields hfind hnull]
  exact inside_ok h name

section Fields

variable (hkept : Kept names extra) (hfields : fields.names = names) (full : Bool)
include hkept hfields

theorem givenField_record {make : α → Json} {check : Json → Checked α} {default a : α}
    (h : Recovers make check) (hfind : fields.find? name = some (make a)) :
    field (Json.Entries.kept full (fields ++ extra)) name default check = .ok a :=
  field_record hkept hfields hfind (fun hnull => Bool.noConfusion ((h.isNull_eq a).symm.trans hnull))
    (h.check_eq a) full

theorem listField_record {β : Type} {check : Json → Checked α} {f : β → Json} {g : β → α}
    {bs : List β} (hfind : fields.find? name = some (.array (bs.map f)))
    (h : ∀ b ∈ bs, check (f b) = .ok (g b)) :
    field (Json.Entries.kept full (fields ++ extra)) name [] (list check) = .ok (bs.map g) :=
  field_record hkept hfields hfind nofun (list_ok h) full

theorem optionField_record {β : Type} {check : Json → Checked α} {f : β → Json} {g : β → α}
    {o : Option β} (hfind : fields.find? name = some (ofOption f o))
    (hnull : ∀ b, (f b).isNull = false) (h : ∀ b ∈ o, check (f b) = .ok (g b)) :
    field (Json.Entries.kept full (fields ++ extra)) name none (orNull check) = .ok (o.map g) := by
  refine field_record hkept hfields hfind (fun hn => ?_) (orNull_ok hnull h) full
  cases o with
  | none => rfl
  | some b => cases (hnull b).symm.trans hn

theorem nullableField_record {make : α → Json} {check : Json → Checked α} {o : Option α}
    (h : Recovers make check) (hfind : fields.find? name = some (ofOption make o)) :
    field (Json.Entries.kept full (fields ++ extra)) name none (orNull check) = .ok o := by
  have hread := optionField_record hkept hfields full hfind h.isNull_eq fun a _ => h.check_eq a
  rwa [Option.map_id'] at hread

end Fields

end Schema

open Json (Kept Tidy ofOption)

namespace Json

namespace Entries

/-- All entries but nulls and those of the declared names stand in other entries, with the same
values. -/
def Keep (declared : List String) (es ws : Entries) : Prop :=
  ∀ name x, name ∉ declared → es.find? name = some x → x.isNull = false →
    ws.find? name = some x.sorted

/-- The values of one name in two records are related, if the first has one that is not null. -/
def KeepAt (name : String) (related : Json → Json → Prop) (es ws : Entries) : Prop :=
  ∀ x, es.find? name = some x → x.isNull = false → ∃ y, ws.find? name = some y ∧ related x y

end Entries

def Objects (related : Entries → Entries → Prop) (x y : Json) : Prop :=
  ∃ es ws, x = .object es ∧ y = .object ws ∧ related es ws

/-- Two arrays whose items are related, each to the one at the same place. -/
def Arrays (related : Json → Json → Prop) (x y : Json) : Prop :=
  ∃ xs ys, x = .array xs ∧ y = .array ys ∧ List.Forall₂ related xs ys

end Json

variable {names dropped declared : List String} {es fields extra : Json.Entries} {name : String}

theorem find?_others (h : name ∉ dropped) : (others es dropped).find? name = es.find? name := by
  induction es with
  | nil => rfl
  | cons e es ih =>
    obtain ⟨other, y⟩ := e
    by_cases hother : other ∈ dropped
    · have hne : name ≠ other := fun heq => h (heq ▸ hother)
      have hdrop : others ((other, y) :: es) dropped = others es dropped :=
        List.filter_cons_of_neg (by simpa using hother)
      rw [hdrop, ih, Json.Entries.find?_cons_of_ne hne]
    · have hkeep : others ((other, y) :: es) dropped = (other, y) :: others es dropped :=
        List.filter_cons_of_pos (by simpa using hother)
      rw [hkeep]
      by_cases hname : name = other
      · subst hname
        rw [Json.Entries.find?_cons_self, Json.Entries.find?_cons_self]
      · rw [Json.Entries.find?_cons_of_ne hname, Json.Entries.find?_cons_of_ne hname, ih]

theorem Json.Kept.find?_written_extra (h : Kept names extra) (hfields : fields.names = names)
    {x : Json} (hfind : extra.find? name = some x) (hnull : x.isNull = false) :
    (Json.Entries.written fields extra).find? name = some x.sorted := by
  have hnames := h.nodup_names hfields
  have hmem : (name, x) ∈ fields ++ extra :=
    List.mem_append_right _ (Json.Entries.mem_of_find? hfind)
  rw [Json.Entries.written,
    Json.Entries.find?_sorted (hnames.sublist (Json.Entries.names_withoutNulls_sublist _)),
    Json.Entries.find?_withoutNulls hnames (Json.Entries.find?_of_mem hnames hmem), hnull]
  rfl

section Written

variable (hkept : Kept names extra) (hfields : fields.names = names)
include hkept hfields

/-- A record keeps all undeclared entries, if those that it was read from without the fields stand
beside its fields. -/
theorem keep_written (hextra : extra = others es dropped) (hdropped : dropped ⊆ declared) :
    es.Keep declared (Json.Entries.written fields extra) := by
  intro name x hname hfind hnull
  refine hkept.find?_written_extra hfields ?_ hnull
  rw [hextra, find?_others fun hmem => hname (hdropped hmem), hfind]

theorem keepAt_written {related : Json → Json → Prop} {y : Json}
    (hfind : fields.find? name = some y)
    (h : ∀ x, es.find? name = some x → x.isNull = false → y.isNull = false ∧ related x y.sorted) :
    es.KeepAt name related (Json.Entries.written fields extra) := by
  intro x hx hnull
  obtain ⟨hy, hrelated⟩ := h x hx hnull
  exact ⟨y.sorted, hkept.find?_present hfields hfind hy, hrelated⟩

variable {α : Type} {check : Json → Checked α} {f : α → Json} {related : Json → Json → Prop}
  (hes : Tidy (.object es))
include hes

theorem keepAt_option {o : Option α} (hread : field es name none (orNull check) = .ok o)
    (hfind : fields.find? name = some (ofOption f o)) (hnull : ∀ a, (f a).isNull = false)
    (h : ∀ x a, x.Tidy → check x = .ok a → related x (f a).sorted) :
    es.KeepAt name related (Json.Entries.written fields extra) := by
  refine keepAt_written hkept hfields hfind fun x hx hpresent => ?_
  obtain ⟨a, rfl, ha⟩ := of_orNull_present (of_field_found hread hx) hpresent
  exact ⟨hnull a, h x a (hes.of_find? hx) ha⟩

theorem keepAt_list {as : List α} (hread : field es name [] (list check) = .ok as)
    (hfind : fields.find? name = some (.array (as.map f)))
    (h : ∀ x a, x.Tidy → check x = .ok a → related x (f a).sorted) :
    es.KeepAt name (Json.Arrays related) (Json.Entries.written fields extra) := by
  refine keepAt_written hkept hfields hfind fun x hx _ => ⟨rfl, ?_⟩
  obtain ⟨items, rfl, hitems⟩ := of_list_ok (of_field_found hread hx)
  refine ⟨items, _, rfl, Json.sorted_array _, ?_⟩
  rw [List.map_map, List.forall₂_map_right_iff]
  cases hes.of_find? hx with
  | array tidy => exact hitems.imp fun y a ⟨hy, hcheck⟩ => h y a (tidy y hy) hcheck

end Written

end Refsite
