import Refsite.Proofs.Schema.Records
import Refsite.Proofs.Symbol.Clean
namespace Refsite

open Json (Kept ofOption ofStrings)
open Schema Schema.Checked

def TypeExpr.reread (full : Bool) (t : TypeExpr) : TypeExpr := { t with extra := t.extra.kept full }

/-- The default of a parameter; the full record states one in any case. -/
def Param.rereadDefault (full : Bool) (default : Option Json) : Option Json :=
  if full then some (default.getD .null) else default.filter (!·.isNull)

def Param.reread (full : Bool) (p : Param) : Param :=
  { p with
    type := p.type.map (TypeExpr.reread full)
    defaultValue := rereadDefault full p.defaultValue
    extra := p.extra.kept full }

def Outcome.reread (full : Bool) (o : Outcome) : Outcome :=
  { o with type := o.type.map (TypeExpr.reread full), extra := o.extra.kept full }

def Snippet.reread (full : Bool) (c : Snippet) : Snippet := { c with extra := c.extra.kept full }

def Origin.reread (full : Bool) (o : Origin) : Origin :=
  { o with snippet := o.snippet.reread full, extra := o.extra.kept full }

def Callable.reread (full : Bool) (c : Callable) : Callable :=
  ⟨c.params.map (Param.reread full), c.returns.map (Outcome.reread full),
    c.yields.map (Outcome.reread full)⟩

def Typed.reread (full : Bool) (t : Typed) : Typed :=
  { t with type := t.type.map (TypeExpr.reread full) }

/-- The detail with other attached things, its own values read again. -/
def Detail.reread {σ : Type} (full : Bool) (attached : List σ) : Detail σ → Detail σ
  | moduleUnit _ => moduleUnit attached
  | classType call classdesc augments => classType (call.reread full) classdesc augments
  | function call => function (call.reread full)
  | member value => member (value.reread full)
  | constant value => constant (value.reread full)
  | nameSpace call => nameSpace (call.reread full)
  | mixin => mixin
  | event call listeners => event (call.reread full) listeners
  | interface => interface
  | external => external
  | typedef call type nullable optional =>
    typedef (call.reread full) (type.map (TypeExpr.reread full)) nullable optional

namespace Symbol

mutual

def reread (full : Bool) : Symbol → Symbol
  | s@{ detail := detail, .. } =>
    { s with
      origin := s.origin.map (Origin.reread full)
      detail := detail.reread full (rereadAttached full detail)
      extra := s.extra.kept full }

def rereadAttached (full : Bool) : Detail Symbol → List Symbol
  | .moduleUnit attached => rereadAll full attached
  | _ => []

def rereadAll (full : Bool) : List Symbol → List Symbol
  | [] => []
  | s :: symbols => reread full s :: rereadAll full symbols

end

theorem rereadAll_eq (full : Bool) (symbols : List Symbol) :
    rereadAll full symbols = symbols.map (reread full) := by
  induction symbols with
  | nil => rfl
  | cons s symbols ih => rw [rereadAll, ih, List.map_cons]

theorem rereadAttached_eq (full : Bool) (d : Detail Symbol) :
    rereadAttached full d = d.attached.map (reread full) := by
  cases d with
  | moduleUnit attached => exact rereadAll_eq full attached
  | _ => rfl

theorem reread_eq (full : Bool) (s : Symbol) :
    s.reread full =
      { s with
        origin := s.origin.map (Origin.reread full)
        detail := s.detail.reread full (s.detail.attached.map (reread full))
        extra := s.extra.kept full } := by
  cases s
  rw [reread, rereadAttached_eq]

end Symbol

theorem TypeExpr.Clean.read_record {t : TypeExpr} (h : t.Clean) (full : Bool) :
    TypeExpr.read (t.record full) = .ok (t.reread full) := by
  rw [record, Json.ofFields_eq]
  simp only [TypeExpr.read, Schema.record]
  exact seq_ok (congrArg Checked.ok (h.others_record rfl full)) <|
    map_ok (givenField_record h rfl full recovers_texts rfl) _

section Types

variable {names : List String} {fields extra : Json.Entries} {name : String}

theorem typeField_record (hkept : Kept names extra) (hfields : fields.names = names) (full : Bool)
    {o : Option TypeExpr} (h : ∀ t ∈ o, t.Clean)
    (hfind : fields.find? name = some (ofOption (TypeExpr.record full) o)) :
    field (Json.Entries.kept full (fields ++ extra)) name none (orNull TypeExpr.read) =
      .ok (o.map (TypeExpr.reread full)) :=
  optionField_record hkept hfields full hfind (fun _ => rfl) fun t ht =>
    TypeExpr.Clean.read_record (h t ht) full

end Types

theorem Param.Clean.read_record {p : Param} (h : p.Clean) (full : Bool) :
    Param.read (p.record full) = .ok (p.reread full) := by
  have hdefault : ∀ fields : Json.Entries,
      fields.names = ["name", "type", "description", "optional", "nullable", "variable",
        "defaultvalue"] →
      fields.find? "defaultvalue" = some (p.defaultValue.getD .null) →
      (Json.Entries.kept full (fields ++ p.extra)).find? "defaultvalue" =
        rereadDefault full p.defaultValue := by
    intro fields hfields hfind
    rw [h.extra.find?_record hfields hfind, rereadDefault]
    cases full with
    | true => rfl
    | false => cases p.defaultValue with
      | none => rfl
      | some x => cases x <;> rfl
  rw [record, Json.ofFields_eq]
  simp only [Param.read, Schema.record]
  exact seq_ok (congrArg Checked.ok (h.extra.others_record rfl full)) <|
    seq_ok (congrArg Checked.ok (hdefault _ rfl rfl)) <|
    seq_ok (nullableField_record h.extra rfl full recovers_flag rfl) <|
    seq_ok (nullableField_record h.extra rfl full recovers_flag rfl) <|
    seq_ok (nullableField_record h.extra rfl full recovers_flag rfl) <|
    seq_ok (givenField_record h.extra rfl full recovers_text rfl) <|
    seq_ok (typeField_record h.extra rfl full h.type rfl) <|
    map_ok (givenField_record h.extra rfl full recovers_text rfl) _

theorem Outcome.Clean.read_record {o : Outcome} (h : o.Clean) (full : Bool) :
    Outcome.read (o.record full) = .ok (o.reread full) := by
  rw [record, Json.ofFields_eq]
  simp only [Outcome.read, Schema.record]
  exact seq_ok (congrArg Checked.ok (h.extra.others_record rfl full)) <|
    seq_ok (nullableField_record h.extra rfl full recovers_flag rfl) <|
    seq_ok (nullableField_record h.extra rfl full recovers_flag rfl) <|
    seq_ok (givenField_record h.extra rfl full recovers_text rfl) <|
    map_ok (typeField_record h.extra rfl full h.type rfl) _

theorem Snippet.Clean.read_record {c : Snippet} (h : c.Clean) (full : Bool) :
    Snippet.read (c.record full) = .ok (c.reread full) := by
  have hvalue : free c.value = .ok c.value := rfl
  have hnull : c.value.isNull = true → c.value = .null := by
    cases c.value <;> first | exact fun _ => rfl | nofun
  rw [record, Json.ofFields_eq]
  simp only [Snippet.read, Schema.record]
  exact seq_ok (congrArg Checked.ok (h.extra.others_record rfl full)) <|
    seq_ok (field_record h.extra rfl rfl hnull hvalue full) <|
    seq_ok (nullableField_record h.extra rfl full recovers_text rfl) <|
    map_ok (nullableField_record h.extra rfl full recovers_text rfl) _

theorem Origin.Clean.read_record {o : Origin} (h : o.Clean) (full : Bool) :
    Origin.read (o.record full) = .ok (o.reread full) := by
  have hcode : (o.snippet.record full).isNull = false := rfl
  rw [record, Json.ofFields_eq]
  simp only [Origin.read, Schema.record]
  exact seq_ok (congrArg Checked.ok (h.extra.others_record rfl full)) <|
    seq_ok (nullableField_record h.extra rfl full recovers_text rfl) <|
    seq_ok (field_record h.extra rfl rfl (fun hnull => Bool.noConfusion (hcode.symm.trans hnull))
      (h.snippet.read_record full) full) <|
    seq_ok (nullableField_record h.extra rfl full recovers_integer rfl) <|
    seq_ok (givenField_record h.extra rfl full recovers_text rfl) <|
    map_ok (nullableField_record h.extra rfl full recovers_text rfl) _

theorem Example.read_record (e : Example) : read e.record = .ok e := by
  cases e <;> rfl

theorem Example.readAll_record (es : List Example) :
    list read (.array (es.map record)) = .ok es := by
  have h := list_ok fun (e : Example) (_ : e ∈ es) => e.read_record
  rwa [List.map_id'] at h

section Details

variable {names : List String} {fields extra : Json.Entries} (hkept : Kept names extra)
  (hfields : fields.names = names) (full : Bool)
include hkept hfields

theorem Callable.Clean.read_record {c : Callable} (h : c.Clean)
    (hparams : fields.find? "params" = some (.array (c.params.map (Param.record full))))
    (hreturns : fields.find? "returns" = some (.array (c.returns.map (Outcome.record full))))
    (hyields : fields.find? "yields" = some (.array (c.yields.map (Outcome.record full)))) :
    Callable.read (Json.Entries.kept full (fields ++ extra)) = .ok (c.reread full) :=
  seq_ok (listField_record hkept hfields full hyields fun o ho => (h.yields o ho).read_record full)
    <| seq_ok (listField_record hkept hfields full hreturns fun o ho =>
      (h.returns o ho).read_record full) <|
    map_ok (listField_record hkept hfields full hparams fun p hp =>
      (h.params p hp).read_record full) _

theorem Typed.read_record {value : Typed} (h : ∀ t ∈ value.type, t.Clean)
    (htype : fields.find? "type" = some (ofOption (TypeExpr.record full) value.type))
    (hreadonly : fields.find? "readonly" = some (.bool value.readonly))
    (hnullable : fields.find? "nullable" = some (ofOption .bool value.nullable))
    (hoptional : fields.find? "optional" = some (ofOption .bool value.optional)) :
    Typed.read (Json.Entries.kept full (fields ++ extra)) = .ok (value.reread full) :=
  seq_ok (nullableField_record hkept hfields full recovers_flag hoptional) <|
    seq_ok (nullableField_record hkept hfields full recovers_flag hnullable) <|
    seq_ok (givenField_record hkept hfields full recovers_flag hreadonly) <|
    map_ok (typeField_record hkept hfields full h htype) _

end Details

namespace Symbol

section Read

variable {s : Symbol} (full : Bool)

/-- The mark of asynchronous symbols has its first name in every record. -/
theorem find?_async (hkept : Kept (commonNames ++ s.kind.fieldNames) s.extra) :
    (Json.Entries.kept full (s.fields full ++ s.extra)).find? "async" = some (.bool s.isAsync) :=
  hkept.find?_record_present (names_fields full s) rfl rfl full

theorem readDetail_record (h : s.Clean) {attached : Checked (List Symbol)}
    (hattached : s.kind = .moduleUnit →
      attached = .ok (s.detail.attached.map (reread full))) :
    Detail.read (Json.Entries.kept full (s.fields full ++ s.extra)) attached s.kind =
      .ok (s.detail.reread full (s.detail.attached.map (reread full))) := by
  obtain ⟨⟨hcall, htype⟩, -, hkept, -⟩ := h
  have hnames := names_fields full s
  cases s with
  | mk name longname memberof scope access description origin examples see listens fires ignore
      undocumented virtual isAsync generator version since variation attribs signature id ancestors
      detail extra =>
    cases detail with
    | moduleUnit ts => exact map_ok (hattached rfl) _
    | classType call classdesc augments =>
      exact seq_ok (givenField_record hkept hnames full recovers_texts rfl) <|
        seq_ok (nullableField_record hkept hnames full recovers_text rfl) <|
        map_ok ((hcall call rfl).read_record hkept hnames full rfl rfl rfl) _
    | function call =>
      exact map_ok ((hcall call rfl).read_record hkept hnames full rfl rfl rfl) _
    | member value => exact map_ok (Typed.read_record hkept hnames full htype rfl rfl rfl rfl) _
    | constant value => exact map_ok (Typed.read_record hkept hnames full htype rfl rfl rfl rfl) _
    | nameSpace call =>
      exact map_ok ((hcall call rfl).read_record hkept hnames full rfl rfl rfl) _
    | mixin => rfl
    | event call listeners =>
      exact seq_ok (givenField_record hkept hnames full recovers_texts rfl) <|
        map_ok ((hcall call rfl).read_record hkept hnames full rfl rfl rfl) _
    | interface => rfl
    | external => rfl
    | typedef call type nullable optional =>
      exact seq_ok (nullableField_record hkept hnames full recovers_flag rfl) <|
        seq_ok (nullableField_record hkept hnames full recovers_flag rfl) <|
        seq_ok (typeField_record hkept hnames full htype rfl) <|
        map_ok ((hcall call rfl).read_record hkept hnames full rfl rfl rfl) _

/-- The fields that all symbols share, with a detail that was read apart. -/
theorem readFields_record (h : s.Clean) {detail : Checked (Detail Symbol)} {d : Detail Symbol}
    (hdetail : detail = .ok d) :
    readFields (Json.Entries.kept full (s.fields full ++ s.extra)) s.kind detail =
      .ok { s with
        origin := s.origin.map (Origin.reread full)
        detail := d
        extra := s.extra.kept full } := by
  obtain ⟨-, horigin, hkept, -⟩ := h
  have hnames := names_fields full s
  have hasync := find?_async full hkept
  have hfieldNames : fieldNames (Json.Entries.kept full (s.fields full ++ s.extra)) s.kind =
      commonNames ++ s.kind.fieldNames := by
    rw [fieldNames, hasync]
    exact List.append_nil _
  have hmark : readAsync (Json.Entries.kept full (s.fields full ++ s.extra)) = .ok s.isAsync := by
    rw [readAsync, hasync]
    exact givenField_record hkept hnames full recovers_flag rfl
  have hlongname : text (.string s.longname) = .ok s.longname := rfl
  have hothers : others (Json.Entries.kept full (s.fields full ++ s.extra))
      (fieldNames (Json.Entries.kept full (s.fields full ++ s.extra)) s.kind) =
        s.extra.kept full := by
    rw [hfieldNames, hkept.others_record hnames]
  exact seq_ok (congrArg Checked.ok hothers) <| seq_ok hdetail <|
    seq_ok (givenField_record hkept hnames full recovers_texts rfl) <|
    seq_ok (nullableField_record hkept hnames full recovers_text rfl) <|
    seq_ok (nullableField_record hkept hnames full recovers_text rfl) <|
    seq_ok (nullableField_record hkept hnames full recovers_text rfl) <|
    seq_ok (nullableField_record hkept hnames full recovers_text rfl) <|
    seq_ok (nullableField_record hkept hnames full recovers_text rfl) <|
    seq_ok (nullableField_record hkept hnames full recovers_text rfl) <|
    seq_ok (givenField_record hkept hnames full recovers_flag rfl) <| seq_ok hmark <|
    seq_ok (givenField_record hkept hnames full recovers_flag rfl) <|
    seq_ok (givenField_record hkept hnames full recovers_flag rfl) <|
    seq_ok (givenField_record hkept hnames full recovers_flag rfl) <|
    seq_ok (givenField_record hkept hnames full recovers_texts rfl) <|
    seq_ok (givenField_record hkept hnames full recovers_texts rfl) <|
    seq_ok (givenField_record hkept hnames full recovers_texts rfl) <|
    seq_ok (field_record hkept hnames rfl (fun hnull => Bool.noConfusion hnull)
      (Example.readAll_record s.examples) full) <|
    seq_ok (optionField_record hkept hnames full rfl (fun _ => rfl) fun o ho =>
      (horigin o ho).read_record full) <|
    seq_ok (nullableField_record hkept hnames full recovers_text rfl) <|
    seq_ok (nullableField_record hkept hnames full recovers_text rfl) <|
    seq_ok (nullableField_record hkept hnames full recovers_text rfl) <|
    seq_ok (nullableField_record hkept hnames full recovers_text rfl) <|
    seq_ok (required_record hkept hnames rfl rfl hlongname full) <|
    map_ok (givenField_record hkept hnames full recovers_text rfl) _

/-- The record of a symbol reads as a symbol again. -/
theorem Clean.read_record (h : s.Clean) : read (s.record full) = .ok (s.reread full) := by
  induction h with
  | @mk s detail origin extra attached ih =>
    have hclean : s.Clean := .mk detail origin extra attached
    have hnames := names_fields full s
    have hkind : readKind (Json.Entries.kept full (s.fields full ++ s.extra)) = .ok s.kind := by
      have hword := extra.find?_record_present hnames (show (s.fields full).find? "kind" =
        some (.string s.kind.word) from rfl) rfl full
      rw [readKind, hword]
      dsimp only
      rw [Kind.ofWord_word]
    have hattached : s.kind = .moduleUnit →
        (parts (Json.Entries.kept full (s.fields full ++ s.extra)) "modules" fun x _ => read x) =
          .ok (s.detail.attached.map (reread full)) := fun hmodule =>
      parts_ok (extra.find?_record_present hnames (find?_modules hmodule full) rfl full)
        fun t ht _ => ih t ht
    rw [record_eq, Json.ofFields_eq, read, hkind, reread_eq]
    dsimp only
    exact inside_ok (readFields_record full hclean (readDetail_record full hclean hattached)) _

end Read

end Symbol

theorem ofOption_map {α β : Type} {f : β → Json} {g : α → β} {h : α → Json}
    (hfg : ∀ a, f (g a) = h a) (o : Option α) : ofOption f (o.map g) = ofOption h o := by
  cases o with
  | none => rfl
  | some a => exact hfg a

theorem array_map {α β : Type} {f : β → Json} {g : α → β} {h : α → Json} {as : List α}
    (hfg : ∀ a ∈ as, f (g a) = h a) : Json.array ((as.map g).map f) = .array (as.map h) := by
  rw [List.map_map]
  exact congrArg Json.array (List.map_congr_left hfg)

theorem TypeExpr.record_reread (full : Bool) (t : TypeExpr) :
    (t.reread full).record full = t.record full := Json.ofFields_kept full _ _

theorem Param.record_reread (full : Bool) (p : Param) :
    (p.reread full).record full = p.record full := by
  have htype := ofOption_map (TypeExpr.record_reread full) p.type
  have hdefault : (rereadDefault full p.defaultValue).getD .null = p.defaultValue.getD .null := by
    cases full with
    | true => rfl
    | false => cases p.defaultValue with
      | none => rfl
      | some x => cases x <;> rfl
  rw [record, record, ← htype, ← hdefault]
  exact Json.ofFields_kept full _ _

theorem Outcome.record_reread (full : Bool) (o : Outcome) :
    (o.reread full).record full = o.record full := by
  have htype := ofOption_map (TypeExpr.record_reread full) o.type
  rw [record, record, fields, fields, ← htype]
  exact Json.ofFields_kept full _ _

theorem Snippet.record_reread (full : Bool) (c : Snippet) :
    (c.reread full).record full = c.record full := Json.ofFields_kept full _ _

theorem Origin.record_reread (full : Bool) (o : Origin) :
    (o.reread full).record full = o.record full := by
  rw [record, record, ← Snippet.record_reread full o.snippet]
  exact Json.ofFields_kept full _ _

theorem Callable.fields_reread (full : Bool) (c : Callable) :
    (c.reread full).fields full = c.fields full := by
  rw [fields, fields, reread, array_map fun p _ => Param.record_reread full p,
    array_map fun o _ => Outcome.record_reread full o,
    array_map fun o _ => Outcome.record_reread full o]

theorem Typed.fields_reread (full : Bool) (t : Typed) :
    (t.reread full).fields full = t.fields full := by
  rw [fields, fields, reread, ofOption_map (TypeExpr.record_reread full)]

namespace Detail

variable {σ : Type}

theorem fields_reread (full : Bool) (attached : List σ) (items : List Json) (d : Detail σ) :
    ((d.reread full attached).withAttached items).fields full =
      (d.withAttached items).fields full := by
  have htype := ofOption_map (TypeExpr.record_reread full)
  cases d <;> simp [reread, withAttached, fields, Callable.fields_reread, Typed.fields_reread, htype]

theorem kind_reread (full : Bool) (attached : List σ) (d : Detail σ) :
    (d.reread full attached).kind = d.kind := by
  cases d <;> rfl

theorem attached_reread (full : Bool) (f : σ → σ) (d : Detail σ) :
    (d.reread full (d.attached.map f)).attached = d.attached.map f := by
  cases d <;> rfl

end Detail

namespace Symbol

theorem kind_reread (full : Bool) (s : Symbol) : (s.reread full).kind = s.kind := by
  rw [reread_eq]
  exact s.detail.kind_reread full _

theorem commonFields_reread (full : Bool) (s : Symbol) :
    (s.reread full).commonFields full = s.commonFields full := by
  rw [commonFields, commonFields, kind_reread, reread_eq,
    ofOption_map (Origin.record_reread full)]

/-- What comes back has the record that it was read from. -/
theorem Clean.record_reread {s : Symbol} (h : s.Clean) (full : Bool) :
    (s.reread full).record full = s.record full := by
  induction h with
  | @mk s detail origin extra attached ih =>
    have hattached : (s.reread full).detail.attached.map (record full) =
        s.detail.attached.map (record full) := by
      rw [reread_eq, Detail.attached_reread, List.map_map]
      exact List.map_congr_left ih
    have hdetail : ∀ items : List Json, ((s.reread full).detail.withAttached items).fields full =
        (s.detail.withAttached items).fields full := by
      rw [reread_eq]
      exact fun items => Detail.fields_reread full _ items s.detail
    have hextra : (s.reread full).extra = s.extra.kept full := by rw [reread_eq]
    rw [record_eq, record_eq, fields, fields, commonFields_reread, hattached, hdetail, hextra]
    exact Json.ofFields_kept full _ _

end Symbol

end Refsite
