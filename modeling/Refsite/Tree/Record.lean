import Refsite.Symbol.Record
import Refsite.Tree.Basic
namespace Refsite.Tree

open Json (ofStrings)

/-- One type stands for itself, several are a list, and none is an empty text. -/
def typeRecord : List String → Json
  | [] => .string ""
  | [name] => .string name
  | names => ofStrings names

def flagRecord : Option Bool → Json
  | some b => .bool b
  | none => .string ""

def Heading.fields (h : Heading) : Json.Entries :=
  [("name", .string h.name), ("access", .string h.access), ("virtual", .bool h.virtual),
   ("description", .string h.description)]

def Parameter.record (p : Parameter) : Json :=
  .ofFields false
    [("name", .string p.name), ("type", typeRecord p.types), ("description", .string p.description),
     ("default", p.defaultValue), ("optional", flagRecord p.optional),
     ("nullable", flagRecord p.nullable)] []

def Return.record (r : Return) : Json :=
  .object [("type", typeRecord r.types), ("description", .string r.description)]

def paramsField (params : List Parameter) : String × Json :=
  ("parameters", .array (params.map Parameter.record))

def examplesField (examples : List Example) : String × Json :=
  ("examples", .array (examples.map Example.record))

def Call.fields (c : Call) : Json.Entries :=
  [paramsField c.params, examplesField c.examples] ++
    c.returns.toList.map fun r => ("returns", r.record)

def Entry.fields : Entry → Json.Entries
  | nameSpace heading | mixin heading => heading.fields
  | function heading call | event heading call => heading.fields ++ call.fields
  | property heading types => heading.fields ++ [("type", typeRecord types)]
  | classType heading augments fires constructorText params examples =>
    heading.fields ++
      [("extends", ofStrings augments), ("fires", ofStrings fires),
       ("constructor", .object
         [("name", .string heading.name), ("description", .string constructorText),
          paramsField params, examplesField examples])]

/-- The lists of a container, in the order in which they are written. -/
inductive Bucket where
  | namespaces
  | mixins
  | functions
  | properties
  | events
  | classes
  deriving DecidableEq, Repr

namespace Bucket

def all : List Bucket := [namespaces, mixins, functions, properties, events, classes]

def word : Bucket → String
  | namespaces => "namespaces"
  | mixins => "mixins"
  | functions => "functions"
  | properties => "properties"
  | events => "events"
  | classes => "classes"

end Bucket

def Entry.bucket : Entry → Bucket
  | nameSpace _ => .namespaces
  | mixin _ => .mixins
  | function .. => .functions
  | event .. => .events
  | property .. => .properties
  | classType .. => .classes

def bucketFields (nodes : List (Bucket × Json)) : Json.Entries :=
  Bucket.all.map fun b => (b.word, .array ((nodes.filter (·.1 == b)).map (·.2)))

mutual

def Node.record : Node → Json
  | .mk entry children =>
    .object (entry.fields ++
      if entry.isContainer then bucketFields (Node.records children) else [])

def Node.records : List Node → List (Bucket × Json)
  | [] => []
  | n :: nodes => (n.entry.bucket, Node.record n) :: Node.records nodes

end

def record (nodes : List Node) : Json := .object (bucketFields (Node.records nodes))

/-- The record of a tree as it is written. -/
def dump [Serializer] (nodes : List Node) : Except Misfit Json := serialize .tree (record nodes)

end Refsite.Tree
