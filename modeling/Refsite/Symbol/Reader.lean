import Refsite.Schema.Field
import Refsite.Symbol.Basic
namespace Refsite

open Schema
open Schema.Checked (fail inside)

namespace TypeExpr

def read : Json → Checked TypeExpr :=
  Schema.record fun es =>
    TypeExpr.mk <$> field es "names" [] texts <*> pure (others es ["names"])

end TypeExpr

def Param.read : Json → Checked Param :=
  Schema.record fun es =>
    Param.mk
      <$> field es "name" "" text
      <*> field es "type" none (orNull TypeExpr.read)
      <*> field es "description" "" text
      <*> field es "optional" none (orNull flag)
      <*> field es "nullable" none (orNull flag)
      <*> field es "variable" none (orNull flag)
      <*> pure (es.find? "defaultvalue")
      <*> pure (others es
        ["name", "type", "description", "optional", "nullable", "variable", "defaultvalue"])

def Outcome.read : Json → Checked Outcome :=
  Schema.record fun es =>
    Outcome.mk
      <$> field es "type" none (orNull TypeExpr.read)
      <*> field es "description" "" text
      <*> field es "optional" none (orNull flag)
      <*> field es "nullable" none (orNull flag)
      <*> pure (others es ["type", "description", "optional", "nullable"])

def Snippet.empty : Snippet := ⟨none, none, .null, []⟩

def Snippet.read : Json → Checked Snippet :=
  Schema.record fun es =>
    Snippet.mk
      <$> field es "name" none (orNull text)
      <*> field es "type" none (orNull text)
      <*> field es "value" .null free
      <*> pure (others es ["name", "type", "value"])

def Origin.read : Json → Checked Origin :=
  Schema.record fun es =>
    Origin.mk
      <$> field es "path" none (orNull text)
      <*> field es "filename" "" text
      <*> field es "lineno" none (orNull integer)
      <*> field es "code" Snippet.empty Snippet.read
      <*> field es "shortpath" none (orNull text)
      <*> pure (others es ["path", "filename", "lineno", "code", "shortpath"])

namespace Example

def readSplit : Json → Checked Example :=
  Schema.record fun es => Example.split <$> field es "caption" "" text <*> field es "code" "" text

/-- A text is an example as it was written; anything else has to be a record of caption and code. -/
def read : Json → Checked Example
  | .string s => .ok (.raw s)
  | x =>
    match readSplit x with
    | .ok e => .ok e
    | .bad faults =>
      .bad (faults.map (Fault.inside "Example") ++ [⟨["str"], .notText⟩])

end Example

def Callable.read (es : Json.Entries) : Checked Callable :=
  Callable.mk
    <$> field es "params" [] (list Param.read)
    <*> field es "returns" [] (list Outcome.read)
    <*> field es "yields" [] (list Outcome.read)

def Callable.names : List String := ["params", "returns", "yields"]

def Typed.read (es : Json.Entries) : Checked Typed :=
  Typed.mk
    <$> field es "type" none (orNull TypeExpr.read)
    <*> field es "readonly" false flag
    <*> field es "nullable" none (orNull flag)
    <*> field es "optional" none (orNull flag)

def Detail.read {σ : Type} (es : Json.Entries) (attached : Checked (List σ)) :
    Kind → Checked (Detail σ)
  | .moduleUnit => Detail.moduleUnit <$> attached
  | .classType =>
    Detail.classType
      <$> Callable.read es
      <*> field es "classdesc" none (orNull text)
      <*> field es "augments" [] texts
  | .function => Detail.function <$> Callable.read es
  | .member => Detail.member <$> Typed.read es
  | .constant => Detail.constant <$> Typed.read es
  | .nameSpace => Detail.nameSpace <$> Callable.read es
  | .mixin => pure .mixin
  | .event => Detail.event <$> Callable.read es <*> field es "listeners" [] texts
  | .interface => pure .interface
  | .external => pure .external
  | .typedef =>
    Detail.typedef
      <$> Callable.read es
      <*> field es "type" none (orNull TypeExpr.read)
      <*> field es "nullable" none (orNull flag)
      <*> field es "optional" none (orNull flag)

namespace Kind

def fieldNames : Kind → List String
  | moduleUnit => ["modules"]
  | classType => Callable.names ++ ["classdesc", "augments"]
  | function | nameSpace => Callable.names
  | member | constant => ["type", "readonly", "nullable", "optional"]
  | mixin | interface | external => []
  | event => Callable.names ++ ["listeners"]
  | typedef => Callable.names ++ ["type", "nullable", "optional"]

end Kind

namespace Symbol

def commonNames : List String :=
  ["kind", "name", "longname", "memberof", "scope", "access", "description", "meta", "examples",
   "see", "listens", "fires", "ignore", "undocumented", "virtual", "async", "generator", "version",
   "since", "variation", "attribs", "signature", "id", "ancestors"]

/-- The mark of an asynchronous symbol goes by two names, of which the first counts. -/
def readAsync (es : Json.Entries) : Checked Bool :=
  field es (if (es.find? "async").isSome then "async" else "is_async") false flag

/-- The names that are fields of a symbol of that kind in this record. -/
def fieldNames (es : Json.Entries) (kind : Kind) : List String :=
  commonNames ++ kind.fieldNames ++ if (es.find? "async").isSome then [] else ["is_async"]

def readFields (es : Json.Entries) (kind : Kind) (detail : Checked (Detail Symbol)) :
    Checked Symbol :=
  Symbol.mk
    <$> field es "name" "" text
    <*> required es "longname" text
    <*> field es "memberof" none (orNull text)
    <*> field es "scope" none (orNull text)
    <*> field es "access" none (orNull text)
    <*> field es "description" none (orNull text)
    <*> field es "meta" none (orNull Origin.read)
    <*> field es "examples" [] (list Example.read)
    <*> field es "see" [] texts
    <*> field es "listens" [] texts
    <*> field es "fires" [] texts
    <*> field es "ignore" false flag
    <*> field es "undocumented" false flag
    <*> field es "virtual" false flag
    <*> readAsync es
    <*> field es "generator" false flag
    <*> field es "version" none (orNull text)
    <*> field es "since" none (orNull text)
    <*> field es "variation" none (orNull text)
    <*> field es "attribs" none (orNull text)
    <*> field es "signature" none (orNull text)
    <*> field es "id" none (orNull text)
    <*> field es "ancestors" [] texts
    <*> detail
    <*> pure (others es (fieldNames es kind))

def readKind (es : Json.Entries) : Checked Kind :=
  match es.find? "kind" with
  | none => fail .untagged
  | some (.string word) =>
    match Kind.ofWord? word with
    | some kind => .ok kind
    | none => fail .unknownTag
  | some _ => fail .unknownTag

/-- A symbol from its record. The kind is a step of the place of every fault below it. -/
def read : Json → Checked Symbol
  | .object es =>
    match readKind es with
    | .bad faults => .bad faults
    | .ok kind =>
      let attached := parts es "modules" fun x _ => read x
      (readFields es kind (Detail.read es attached kind)).inside kind.word
  | _ => fail .notTagged
termination_by x => sizeOf x
decreasing_by assumption

end Symbol

end Refsite
