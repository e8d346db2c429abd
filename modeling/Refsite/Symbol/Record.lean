import Refsite.Misfit
import Refsite.Symbol.Basic
namespace Refsite

/-- The records that are made of a site's data. -/
inductive Model where
  | symbol
  | members
  | tree
  deriving DecidableEq, Repr

/-- What makes records. It takes values that are nested too deeply for values that hold themselves,
and refuses them; how deep that is, is its own affair. -/
class Serializer where
  refuses : Model → Json → Bool

def serialize [Serializer] (m : Model) (record : Json) : Except Misfit Json :=
  if Serializer.refuses m record then .error .tooDeep else .ok record

theorem eq_of_serialize [Serializer] {m : Model} {record x : Json}
    (h : serialize m record = .ok x) : x = record := by
  rw [serialize] at h
  split at h
  · cases h
  · exact (Except.ok.inj h).symm

open Json (ofOption ofStrings)

/-- A record of some fields and the entries kept beside them; `full` keeps the nulls. -/
def Json.ofFields (full : Bool) (fields extra : Json.Entries) : Json :=
  .object ((fields ++ extra).filter fun (_, x) => full || !x.isNull)

namespace TypeExpr

def record (full : Bool) (t : TypeExpr) : Json :=
  .ofFields full [("names", ofStrings t.names)] t.extra

end TypeExpr

def Param.record (full : Bool) (p : Param) : Json :=
  .ofFields full
    [("name", .string p.name), ("type", ofOption (TypeExpr.record full) p.type),
     ("description", .string p.description), ("optional", ofOption .bool p.optional),
     ("nullable", ofOption .bool p.nullable), ("variable", ofOption .bool p.variadic),
     ("defaultvalue", p.defaultValue.getD .null)]
    p.extra

def Outcome.fields (full : Bool) (o : Outcome) : Json.Entries :=
  [("type", ofOption (TypeExpr.record full) o.type), ("description", .string o.description),
   ("optional", ofOption .bool o.optional), ("nullable", ofOption .bool o.nullable)]

def Outcome.record (full : Bool) (o : Outcome) : Json := .ofFields full (o.fields full) o.extra

def Snippet.record (full : Bool) (c : Snippet) : Json :=
  .ofFields full
    [("name", ofOption .string c.name), ("type", ofOption .string c.type), ("value", c.value)]
    c.extra

def Origin.record (full : Bool) (o : Origin) : Json :=
  .ofFields full
    [("path", ofOption .string o.path), ("filename", .string o.filename),
     ("lineno", ofOption .int o.line), ("code", o.snippet.record full),
     ("shortpath", ofOption .string o.shortPath)]
    o.extra

def Example.record : Example → Json
  | raw text => .string text
  | split caption code => .object [("caption", .string caption), ("code", .string code)]

def Callable.fields (full : Bool) (c : Callable) : Json.Entries :=
  [("params", .array (c.params.map (Param.record full))),
   ("returns", .array (c.returns.map (Outcome.record full))),
   ("yields", .array (c.yields.map (Outcome.record full)))]

def Typed.fields (full : Bool) (t : Typed) : Json.Entries :=
  [("type", ofOption (TypeExpr.record full) t.type), ("readonly", .bool t.readonly),
   ("nullable", ofOption .bool t.nullable), ("optional", ofOption .bool t.optional)]

def Detail.fields (full : Bool) : Detail Json → Json.Entries
  | moduleUnit attached => [("modules", .array attached)]
  | classType call classdesc augments =>
    call.fields full ++
      [("classdesc", ofOption .string classdesc), ("augments", ofStrings augments)]
  | function call | nameSpace call => call.fields full
  | member value | constant value => value.fields full
  | event call listeners => call.fields full ++ [("listeners", ofStrings listeners)]
  | typedef call type nullable optional =>
    call.fields full ++
      [("type", ofOption (TypeExpr.record full) type), ("nullable", ofOption .bool nullable),
       ("optional", ofOption .bool optional)]
  | mixin | interface | external => []

def Detail.withAttached {σ τ : Type} (attached : List τ) : Detail σ → Detail τ
  | moduleUnit _ => moduleUnit attached
  | classType call classdesc augments => classType call classdesc augments
  | function call => function call
  | member value => member value
  | constant value => constant value
  | nameSpace call => nameSpace call
  | mixin => mixin
  | event call listeners => event call listeners
  | interface => interface
  | external => external
  | typedef call type nullable optional => typedef call type nullable optional

namespace Symbol

def commonFields (full : Bool) (s : Symbol) : Json.Entries :=
  [("kind", .string s.kind.word), ("name", .string s.name), ("longname", .string s.longname),
   ("memberof", ofOption .string s.memberof), ("scope", ofOption .string s.scope),
   ("access", ofOption .string s.access), ("description", ofOption .string s.description),
   ("meta", ofOption (Origin.record full) s.origin),
   ("examples", .array (s.examples.map Example.record)), ("see", ofStrings s.see),
   ("listens", ofStrings s.listens), ("fires", ofStrings s.fires), ("ignore", .bool s.ignore),
   ("undocumented", .bool s.undocumented), ("virtual", .bool s.virtual),
   ("async", .bool s.isAsync), ("generator", .bool s.generator),
   ("version", ofOption .string s.version), ("since", ofOption .string s.since),
   ("variation", ofOption .string s.variation), ("attribs", ofOption .string s.attribs),
   ("signature", ofOption .string s.signature), ("id", ofOption .string s.id),
   ("ancestors", ofStrings s.ancestors)]

mutual

def record (full : Bool) : Symbol → Json
  | s@{ detail := detail, .. } =>
    .ofFields full
      (s.commonFields full ++ (detail.withAttached (attachedRecords full detail)).fields full)
      s.extra

def attachedRecords (full : Bool) : Detail Symbol → List Json
  | .moduleUnit attached => records full attached
  | _ => []

def records (full : Bool) : List Symbol → List Json
  | [] => []
  | s :: symbols => record full s :: records full symbols

end

def written (s : Symbol) : Json := s.record false

def dump [Serializer] (symbols : List Symbol) : Except Misfit (List Json) :=
  symbols.mapM fun s => serialize .symbol s.written

/-- The value that a symbol has under a name, be it a field or an entry kept beside them. -/
def find? (s : Symbol) (name : String) : Option Json :=
  match s.record true with
  | .object entries => Json.Entries.find? entries name
  | _ => none

end Symbol

end Refsite
