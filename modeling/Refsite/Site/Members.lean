import Refsite.Symbol.Record
import Refsite.Tutorial.Basic
namespace Refsite

structure Members where
  classes : List Symbol
  externals : List Symbol
  events : List Symbol
  globals : List Symbol
  mixins : List Symbol
  modules : List Symbol
  namespaces : List Symbol
  interfaces : List Symbol
  tutorials : List Tutorial
  deriving Repr

def stripQuotes (s : String) : String :=
  let s := match s.toList with
    | '"' :: text => text
    | text => text
  String.ofList (match s.reverse with
    | '"' :: text => text.reverse
    | _ => s)

namespace Symbol

def withPlainName (s : Symbol) : Symbol :=
  if s.kind == .external then { s with name := stripQuotes s.name } else s

/-- Symbols without a parent that have no page of their own and are not what a module exports. -/
def isGlobal (s : Symbol) : Bool :=
  [Kind.member, .function, .constant, .typedef].contains s.kind && s.memberof.isNone &&
    !s.isModuleExports

end Symbol

namespace Members

def collect (symbols : List Symbol) (tutorials : List Tutorial) : Members :=
  let ofKind (kind : Kind) := symbols.filter (·.kind == kind)
  { classes := ofKind .classType
    externals := ofKind .external
    events := ofKind .event
    globals := symbols.filter Symbol.isGlobal
    mixins := ofKind .mixin
    modules := ofKind .moduleUnit
    namespaces := ofKind .nameSpace
    interfaces := ofKind .interface
    tutorials }

def categories (m : Members) : List (String × List Symbol) :=
  [("classes", m.classes), ("externals", m.externals), ("events", m.events),
   ("globals", m.globals), ("mixins", m.mixins), ("modules", m.modules),
   ("namespaces", m.namespaces), ("interfaces", m.interfaces)]

def categoryNames : List String :=
  ["classes", "externals", "events", "globals", "mixins", "modules", "namespaces", "interfaces",
   "tutorials"]

def record (m : Members) : Json :=
  .object (m.categories.map (fun (name, symbols) => (name, .array (symbols.map Symbol.written))) ++
    [("tutorials", .array (Tutorial.records m.tutorials))])

/-- The record of categories as it is written. -/
def dump [Serializer] (m : Members) : Except Misfit Json := serialize .members m.record

end Members

end Refsite
