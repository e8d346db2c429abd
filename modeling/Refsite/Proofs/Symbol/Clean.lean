import Refsite.Proofs.Link.Owner
import Refsite.Proofs.Schema.Passes
import Refsite.Symbol.Reader
namespace Refsite

open Json (Kept Tidy)
open Schema Schema.Checked

/-- The types of a record keep only entries of other names. -/
def TypeExpr.Clean (t : TypeExpr) : Prop := Kept ["names"] t.extra

structure Param.Clean (p : Param) : Prop where
  type : ∀ t ∈ p.type, t.Clean
  default : ∀ x ∈ p.defaultValue, x.Tidy
  extra : Kept ["name", "type", "description", "optional", "nullable", "variable", "defaultvalue"]
    p.extra

structure Outcome.Clean (o : Outcome) : Prop where
  type : ∀ t ∈ o.type, t.Clean
  extra : Kept ["type", "description", "optional", "nullable"] o.extra

structure Snippet.Clean (c : Snippet) : Prop where
  value : c.value.Tidy
  extra : Kept ["name", "type", "value"] c.extra

structure Origin.Clean (o : Origin) : Prop where
  snippet : o.snippet.Clean
  extra : Kept ["path", "filename", "lineno", "code", "shortpath"] o.extra

structure Callable.Clean (c : Callable) : Prop where
  params : ∀ p ∈ c.params, p.Clean
  returns : ∀ o ∈ c.returns, o.Clean
  yields : ∀ o ∈ c.yields, o.Clean

def Detail.attached {σ : Type} : Detail σ → List σ
  | moduleUnit attached => attached
  | _ => []

structure Detail.Clean {σ : Type} (d : Detail σ) : Prop where
  call : ∀ c ∈ d.call?, c.Clean
  type : ∀ t ∈ d.type?.join, t.Clean

theorem Detail.Clean.withAttached {σ τ : Type} {d : Detail σ} (h : d.Clean) (attached : List τ) :
    (d.withAttached attached).Clean := by
  cases d <;> exact ⟨h.call, h.type⟩

theorem Detail.mem_attached_withAttached {σ τ : Type} {d : Detail σ} {attached : List τ} {a : τ}
    (h : a ∈ (d.withAttached attached).attached) : a ∈ attached := by
  cases d <;> first | exact h | cases h

/-- All that a symbol keeps beside its fields has other names than these, and so with all the
symbols that it attaches. -/
inductive Symbol.Clean : Symbol → Prop
  | mk {s : Symbol} (detail : s.detail.Clean) (origin : ∀ o ∈ s.origin, o.Clean)
      (extra : Kept (Symbol.commonNames ++ s.kind.fieldNames) s.extra)
      (attached : ∀ t ∈ s.detail.attached, Symbol.Clean t) : Symbol.Clean s

theorem Symbol.Clean.extra {s : Symbol} (h : s.Clean) :
    Kept (Symbol.commonNames ++ s.kind.fieldNames) s.extra := by
  obtain ⟨-, -, hextra, -⟩ := h
  exact hextra

theorem passes_ofOption {α β : Type} {check : Json → Checked β} {f : α → Json} {o : Option α}
    (h : ∀ a ∈ o, (check (f a).sorted).Passes) :
    (orNull check (Json.ofOption f o).sorted).Passes := by
  cases o with
  | none => exact passes_ok none
  | some a => exact passes_orNull fun _ => h a rfl

namespace TypeExpr

theorem Clean.tidy {t : TypeExpr} (h : t.Clean) (full : Bool) : (t.record full).Tidy :=
  Json.tidy_ofFields h rfl (by simp [Json.tidy_ofStrings]) full

theorem Clean.passes {t : TypeExpr} (h : t.Clean) : (read (t.record false).sorted).Passes := by
  rw [record, Json.sorted_ofFields]
  simp only [read, Schema.record, passes_seq, passes_functor_map, passes_pure, and_true]
  exact passes_givenField recovers_texts h rfl rfl

end TypeExpr

namespace Param

theorem Clean.tidy {p : Param} (h : p.Clean) (full : Bool) : (p.record full).Tidy := by
  refine Json.tidy_ofFields h.extra rfl ?_ full
  have htype := Json.tidy_ofOption fun t ht => (h.type t ht).tidy full
  have hdefault : (p.defaultValue.getD .null).Tidy := by
    cases hd : p.defaultValue with
    | none => exact .null
    | some x => exact h.default x hd
  simp [Json.tidy_ofOption, htype, hdefault]

theorem Clean.passes {p : Param} (h : p.Clean) : (read (p.record false).sorted).Passes := by
  rw [record, Json.sorted_ofFields]
  simp only [read, Schema.record, passes_seq, passes_functor_map, passes_pure, and_true, and_assoc]
  refine ⟨?_, ?_, ?_, ?_, ?_, ?_⟩
  · exact passes_givenField recovers_text h.extra rfl rfl
  · exact passes_field_written h.extra rfl rfl fun _ =>
      passes_ofOption fun t ht => (h.type t ht).passes
  · exact passes_givenField recovers_text h.extra rfl rfl
  · exact passes_nullableField recovers_flag h.extra rfl rfl
  · exact passes_nullableField recovers_flag h.extra rfl rfl
  · exact passes_nullableField recovers_flag h.extra rfl rfl

end Param

namespace Outcome

theorem Clean.tidy {o : Outcome} (h : o.Clean) (full : Bool) : (o.record full).Tidy := by
  refine Json.tidy_ofFields h.extra rfl ?_ full
  have htype := Json.tidy_ofOption fun t ht => (h.type t ht).tidy full
  simp [fields, Json.tidy_ofOption, htype]

theorem Clean.passes {o : Outcome} (h : o.Clean) : (read (o.record false).sorted).Passes := by
  rw [record, Json.sorted_ofFields]
  simp only [read, Schema.record, passes_seq, passes_functor_map, passes_pure, and_true, and_assoc]
  refine ⟨?_, ?_, ?_, ?_⟩
  · exact passes_field_written h.extra rfl rfl fun _ =>
      passes_ofOption fun t ht => (h.type t ht).passes
  · exact passes_givenField recovers_text h.extra rfl rfl
  · exact passes_nullableField recovers_flag h.extra rfl rfl
  · exact passes_nullableField recovers_flag h.extra rfl rfl

end Outcome

namespace Snippet

theorem Clean.tidy {c : Snippet} (h : c.Clean) (full : Bool) : (c.record full).Tidy :=
  Json.tidy_ofFields h.extra rfl (by simp [Json.tidy_ofOption, h.value]) full

theorem Clean.passes {c : Snippet} (h : c.Clean) : (read (c.record false).sorted).Passes := by
  rw [record, Json.sorted_ofFields]
  simp only [read, Schema.record, passes_seq, passes_functor_map, passes_pure, and_true, and_assoc]
  refine ⟨?_, ?_, ?_⟩
  · exact passes_nullableField recovers_text h.extra rfl rfl
  · exact passes_nullableField recovers_text h.extra rfl rfl
  · exact passes_field_written h.extra rfl rfl fun _ => passes_ok _

end Snippet

namespace Origin

theorem Clean.tidy {o : Origin} (h : o.Clean) (full : Bool) : (o.record full).Tidy := by
  refine Json.tidy_ofFields h.extra rfl ?_ full
  simp [Json.tidy_ofOption, h.snippet.tidy full]

theorem Clean.passes {o : Origin} (h : o.Clean) : (read (o.record false).sorted).Passes := by
  rw [record, Json.sorted_ofFields]
  simp only [read, Schema.record, passes_seq, passes_functor_map, passes_pure, and_true, and_assoc]
  refine ⟨?_, ?_, ?_, ?_, ?_⟩
  · exact passes_nullableField recovers_text h.extra rfl rfl
  · exact passes_givenField recovers_text h.extra rfl rfl
  · exact passes_nullableField recovers_integer h.extra rfl rfl
  · exact passes_field_written h.extra rfl rfl fun _ => h.snippet.passes
  · exact passes_nullableField recovers_text h.extra rfl rfl

end Origin

namespace Example

theorem tidy_record (e : Example) : e.record.Tidy := by
  cases e with
  | raw text => exact .string text
  | split caption code => exact .object (by simp) (by simp)

theorem passes_read (e : Example) : (read e.record.sorted).Passes := by
  cases e with
  | raw text => exact passes_ok _
  | split caption code =>
    rw [record, Json.Entries.sorted_object]
    obtain ⟨e, he⟩ : (readSplit (.object (Json.Entries.sorted
        [("caption", .string caption), ("code", .string code)]))).Passes := by
      simp only [readSplit, Schema.record, passes_seq, passes_functor_map]
      exact ⟨passes_field_sorted (by simp [Json.Entries.names]) rfl (passes_text _),
        passes_field_sorted (by simp [Json.Entries.names]) rfl (passes_text _)⟩
    rw [read, he]
    · exact passes_ok e
    · intro text h
      cases h

end Example

section Fields

variable {names : List String} {fields extra : Json.Entries}

theorem Callable.Clean.passes {c : Callable} (h : c.Clean) (hkept : Kept names extra)
    (hnames : fields.names = names)
    (hparams : fields.find? "params" = some (.array (c.params.map (Param.record false))))
    (hreturns : fields.find? "returns" = some (.array (c.returns.map (Outcome.record false))))
    (hyields : fields.find? "yields" = some (.array (c.yields.map (Outcome.record false)))) :
    (read (Json.Entries.written fields extra)).Passes := by
  simp only [read, passes_seq, passes_functor_map, and_assoc]
  refine ⟨?_, ?_, ?_⟩
  · refine passes_field_written hkept hnames hparams fun _ => ?_
    simpa using fun p hp => (h.params p hp).passes
  · refine passes_field_written hkept hnames hreturns fun _ => ?_
    simpa using fun o ho => (h.returns o ho).passes
  · refine passes_field_written hkept hnames hyields fun _ => ?_
    simpa using fun o ho => (h.yields o ho).passes

theorem passes_type {type : Option TypeExpr} (h : ∀ t ∈ type, t.Clean) (hkept : Kept names extra)
    (hnames : fields.names = names)
    (hfind : fields.find? "type" = some (Json.ofOption (TypeExpr.record false) type)) :
    (field (Json.Entries.written fields extra) "type" none (orNull TypeExpr.read)).Passes :=
  passes_field_written hkept hnames hfind fun _ => passes_ofOption fun t ht => (h t ht).passes

end Fields

namespace Symbol

theorem records_eq (full : Bool) (symbols : List Symbol) :
    records full symbols = symbols.map (record full) := by
  induction symbols with
  | nil => rfl
  | cons s symbols ih => rw [records, ih, List.map_cons]

theorem attachedRecords_eq (full : Bool) (d : Detail Symbol) :
    attachedRecords full d = d.attached.map (record full) := by
  cases d with
  | moduleUnit attached => exact records_eq full attached
  | _ => rfl

/-- The fields of the record of a symbol. -/
def fields (full : Bool) (s : Symbol) : Json.Entries :=
  s.commonFields full ++
    (s.detail.withAttached (s.detail.attached.map (record full))).fields full

theorem record_eq (full : Bool) (s : Symbol) :
    s.record full = Json.ofFields full (s.fields full) s.extra := by
  cases s
  rw [record, attachedRecords_eq]
  rfl

theorem names_fields (full : Bool) (s : Symbol) :
    (s.fields full).names = commonNames ++ s.kind.fieldNames := by
  obtain ⟨d, hd⟩ : ∃ d, s.detail = d := ⟨_, rfl⟩
  rw [fields, kind, hd]
  cases d <;> rfl

theorem passes_readFields {s : Symbol} (h : s.Clean) {detail : Checked (Detail Symbol)}
    (hdetail : detail.Passes) :
    (readFields (Json.Entries.written (s.fields false) s.extra) s.kind detail).Passes := by
  obtain ⟨-, horigin, hkept, -⟩ := h
  have hnames := names_fields false s
  simp only [readFields, passes_seq, passes_functor_map, passes_pure, and_true, and_assoc]
  refine ⟨?_, ?_, ?_, ?_, ?_, ?_, ?_, ?_, ?_, ?_, ?_, ?_, ?_, ?_, ?_, ?_, ?_, ?_, ?_, ?_, ?_, ?_,
    ?_, hdetail⟩
  · exact passes_givenField recovers_text hkept hnames rfl
  · exact passes_required_written hkept hnames rfl rfl (passes_text _)
  · exact passes_nullableField recovers_text hkept hnames rfl
  · exact passes_nullableField recovers_text hkept hnames rfl
  · exact passes_nullableField recovers_text hkept hnames rfl
  · exact passes_nullableField recovers_text hkept hnames rfl
  · exact passes_field_written hkept hnames rfl fun _ =>
      passes_ofOption fun o ho => (horigin o ho).passes
  · refine passes_field_written hkept hnames rfl fun _ => ?_
    simpa using fun e _ => Example.passes_read e
  · exact passes_givenField recovers_texts hkept hnames rfl
  · exact passes_givenField recovers_texts hkept hnames rfl
  · exact passes_givenField recovers_texts hkept hnames rfl
  · exact passes_givenField recovers_flag hkept hnames rfl
  · exact passes_givenField recovers_flag hkept hnames rfl
  · exact passes_givenField recovers_flag hkept hnames rfl
  · have hasync := hkept.find?_present hnames (show (s.fields false).find? "async" =
      some (.bool s.isAsync) from rfl) rfl
    rw [readAsync, hasync]
    exact passes_givenField recovers_flag hkept hnames rfl
  · exact passes_givenField recovers_flag hkept hnames rfl
  · exact passes_nullableField recovers_text hkept hnames rfl
  · exact passes_nullableField recovers_text hkept hnames rfl
  · exact passes_nullableField recovers_text hkept hnames rfl
  · exact passes_nullableField recovers_text hkept hnames rfl
  · exact passes_nullableField recovers_text hkept hnames rfl
  · exact passes_nullableField recovers_text hkept hnames rfl
  · exact passes_givenField recovers_texts hkept hnames rfl

theorem passes_readTyped {s : Symbol} (hkept : Kept (commonNames ++ s.kind.fieldNames) s.extra)
    {value : Typed} (htype : ∀ t ∈ value.type, t.Clean)
    (hdetail : (s.detail.withAttached (s.detail.attached.map (record false))).fields false =
      value.fields false) :
    (Typed.read (Json.Entries.written (s.fields false) s.extra)).Passes := by
  have hnames := names_fields false s
  rw [fields, hdetail] at hnames ⊢
  simp only [Typed.read, passes_seq, passes_functor_map, and_assoc]
  exact ⟨passes_type htype hkept hnames rfl, passes_givenField recovers_flag hkept hnames rfl,
    passes_nullableField recovers_flag hkept hnames rfl,
    passes_nullableField recovers_flag hkept hnames rfl⟩

theorem passes_readDetail {s : Symbol} (h : s.Clean) {attached : Checked (List Symbol)}
    (hattached : s.kind = .moduleUnit → attached.Passes) :
    (Detail.read (Json.Entries.written (s.fields false) s.extra) attached s.kind).Passes := by
  obtain ⟨⟨hcall, htype⟩, -, hkept, -⟩ := h
  have hnames := names_fields false s
  cases s with
  | mk name longname memberof scope access description origin examples see listens fires ignore
      undocumented virtual isAsync generator version since variation attribs signature id ancestors
      detail extra =>
    cases detail with
    | moduleUnit ts =>
      exact (passes_functor_map _ _).mpr (hattached rfl)
    | classType call classdesc augments =>
      simp only [kind, Detail.kind, Detail.read, passes_seq, passes_functor_map]
      exact ⟨⟨(hcall call rfl).passes hkept hnames rfl rfl rfl,
        passes_nullableField recovers_text hkept hnames rfl⟩,
        passes_givenField recovers_texts hkept hnames rfl⟩
    | function call =>
      exact (passes_functor_map _ _).mpr ((hcall call rfl).passes hkept hnames rfl rfl rfl)
    | member value =>
      exact (passes_functor_map _ _).mpr (passes_readTyped hkept htype rfl)
    | constant value =>
      exact (passes_functor_map _ _).mpr (passes_readTyped hkept htype rfl)
    | nameSpace call =>
      exact (passes_functor_map _ _).mpr ((hcall call rfl).passes hkept hnames rfl rfl rfl)
    | mixin => exact passes_pure _
    | event call listeners =>
      simp only [kind, Detail.kind, Detail.read, passes_seq, passes_functor_map]
      exact ⟨(hcall call rfl).passes hkept hnames rfl rfl rfl,
        passes_givenField recovers_texts hkept hnames rfl⟩
    | interface => exact passes_pure _
    | external => exact passes_pure _
    | typedef call type nullable optional =>
      simp only [kind, Detail.kind, Detail.read, passes_seq, passes_functor_map]
      exact ⟨⟨⟨(hcall call rfl).passes hkept hnames rfl rfl rfl,
        passes_type htype hkept hnames rfl⟩, passes_nullableField recovers_flag hkept hnames rfl⟩,
        passes_nullableField recovers_flag hkept hnames rfl⟩

theorem find?_modules {s : Symbol} (hkind : s.kind = .moduleUnit) (full : Bool) :
    (s.fields full).find? "modules" = some (.array (s.detail.attached.map (record full))) := by
  rw [fields]
  cases hd : s.detail with
  | moduleUnit ts => rfl
  | _ =>
    rw [kind, hd] at hkind
    cases hkind

theorem passes_attached {s : Symbol} (hkept : Kept (commonNames ++ s.kind.fieldNames) s.extra)
    (hattached : ∀ t ∈ s.detail.attached, (read t.written.sorted).Passes)
    (hkind : s.kind = .moduleUnit) :
    (parts (Json.Entries.written (s.fields false) s.extra) "modules" fun x _ => read x).Passes := by
  have hparts := hkept.find?_present (names_fields false s) (find?_modules hkind false) rfl
  rw [Json.sorted_array] at hparts
  refine passes_parts hparts fun x hx _ => ?_
  obtain ⟨y, hy, rfl⟩ := List.mem_map.mp hx
  obtain ⟨t, ht, rfl⟩ := List.mem_map.mp hy
  exact hattached t ht

/-- What is written of a symbol reads back as one. -/
theorem Clean.passes {s : Symbol} (h : s.Clean) : (read s.written.sorted).Passes := by
  induction h with
  | @mk s detail origin extra attached ih =>
    have hclean : s.Clean := .mk detail origin extra attached
    have hkind : readKind (Json.Entries.written (s.fields false) s.extra) = .ok s.kind := by
      have hfind := extra.find?_present (names_fields false s) (show (s.fields false).find? "kind" =
        some (.string s.kind.word) from rfl) rfl
      rw [readKind, hfind, Json.sorted_string]
      dsimp only
      rw [Kind.ofWord_word]
    rw [written, record_eq, Json.sorted_ofFields, read, hkind]
    dsimp only
    rw [passes_inside]
    exact passes_readFields hclean
      (passes_readDetail hclean (passes_attached extra ih))

theorem tidy_commonFields {s : Symbol} (h : ∀ o ∈ s.origin, o.Clean) (full : Bool) :
    ∀ e ∈ s.commonFields full, e.2.Tidy := by
  have horigin := Json.tidy_ofOption fun o ho => (h o ho).tidy full
  have hexamples := Json.tidy_array_map fun e (_ : e ∈ s.examples) => e.tidy_record
  simp [commonFields, Json.tidy_ofOption, Json.tidy_ofStrings, horigin, hexamples]

theorem tidy_callableFields {c : Callable} (h : c.Clean) (full : Bool) :
    ∀ e ∈ c.fields full, e.2.Tidy := by
  have hparams := Json.tidy_array_map fun p hp => (h.params p hp).tidy full
  have hreturns := Json.tidy_array_map fun o ho => (h.returns o ho).tidy full
  have hyields := Json.tidy_array_map fun o ho => (h.yields o ho).tidy full
  simp [Callable.fields, hparams, hreturns, hyields]

theorem tidy_typedFields {value : Typed} (h : ∀ t ∈ value.type, t.Clean) (full : Bool) :
    ∀ e ∈ value.fields full, e.2.Tidy := by
  have htype := Json.tidy_ofOption fun t ht => (h t ht).tidy full
  simp [Typed.fields, Json.tidy_ofOption, htype]

theorem tidy_detailFields {d : Detail Json} (h : d.Clean) (hattached : ∀ x ∈ d.attached, x.Tidy)
    (full : Bool) : ∀ e ∈ d.fields full, e.2.Tidy := by
  cases d with
  | moduleUnit xs =>
    have hxs := Json.Tidy.array hattached
    rw [Detail.attached] at hxs
    simpa [Detail.fields] using hxs
  | classType call classdesc augments =>
    rw [Detail.fields, List.forall_mem_append]
    exact ⟨tidy_callableFields (h.call call rfl) full,
      by simp [Json.tidy_ofOption, Json.tidy_ofStrings]⟩
  | function call => exact tidy_callableFields (h.call call rfl) full
  | member value => exact tidy_typedFields h.type full
  | constant value => exact tidy_typedFields h.type full
  | nameSpace call => exact tidy_callableFields (h.call call rfl) full
  | mixin => nofun
  | event call listeners =>
    rw [Detail.fields, List.forall_mem_append]
    exact ⟨tidy_callableFields (h.call call rfl) full, by simp [Json.tidy_ofStrings]⟩
  | interface => nofun
  | external => nofun
  | typedef call type nullable optional =>
    have htype : (Json.ofOption (TypeExpr.record full) type).Tidy :=
      Json.tidy_ofOption fun t ht => (h.type t ht).tidy full
    rw [Detail.fields, List.forall_mem_append]
    exact ⟨tidy_callableFields (h.call call rfl) full, by simp [Json.tidy_ofOption, htype]⟩

/-- What is written of a symbol is tidy. -/
theorem Clean.tidy {s : Symbol} (h : s.Clean) (full : Bool) : (s.record full).Tidy := by
  induction h with
  | @mk s detail origin extra attached ih =>
    rw [record_eq]
    refine Json.tidy_ofFields extra (names_fields full s) (fun e he => ?_) full
    obtain he | he := List.mem_append.mp he
    · exact tidy_commonFields origin full e he
    · refine tidy_detailFields (detail.withAttached _) (fun x hx => ?_) full e he
      obtain ⟨t, ht, rfl⟩ := List.mem_map.mp (Detail.mem_attached_withAttached hx)
      exact ih t ht

end Symbol

end Refsite
