import Refsite.Symbol.Record
namespace Refsite.Tree

structure Heading where
  name : String
  access : String
  virtual : Bool
  description : String
  deriving DecidableEq, Repr

structure Parameter where
  name : String
  types : List String
  description : String
  defaultValue : Json
  optional : Option Bool
  nullable : Option Bool
  deriving Repr

/-- The first value that a call returns. -/
structure Return where
  types : List String
  description : String
  deriving DecidableEq, Repr

structure Call where
  params : List Parameter
  examples : List Example
  returns : Option Return
  deriving Repr

/-- A node without its children. -/
inductive Entry where
  | nameSpace (heading : Heading)
  | mixin (heading : Heading)
  | function (heading : Heading) (call : Call)
  | event (heading : Heading) (call : Call)
  | property (heading : Heading) (types : List String)
  /-- The heading describes the class, and `constructorText` its constructor. -/
  | classType (heading : Heading) (augments fires : List String) (constructorText : String)
      (params : List Parameter) (examples : List Example)
  deriving Repr

def Entry.isContainer : Entry → Bool
  | nameSpace _ | mixin _ | classType .. => true
  | _ => false

inductive Node where
  | mk (entry : Entry) (children : List Node)
  deriving Repr

def Node.entry : Node → Entry
  | mk entry _ => entry

def Node.children : Node → List Node
  | mk _ children => children

def typeNames (type : Option TypeExpr) : List String := (type.map (·.names)).getD []

def Parameter.ofParam (p : Param) : Parameter where
  name := p.name
  types := typeNames p.type
  description := p.description
  defaultValue := p.defaultValue.getD (.string "")
  optional := p.optional
  nullable := p.nullable

def Call.ofSymbol (call : Callable) (s : Symbol) : Call where
  params := call.params.map Parameter.ofParam
  examples := s.examples
  returns := call.returns.head?.map fun o => ⟨typeNames o.type, o.description⟩

def Entry.ofSymbol? (s : Symbol) : Option Entry :=
  let heading : Heading := ⟨s.name, s.access.getD "", s.virtual, s.description.getD ""⟩
  match s.detail with
  | .nameSpace _ => some (nameSpace heading)
  | .mixin => some (mixin heading)
  | .function call => some (function heading (Call.ofSymbol call s))
  | .event call _ => some (event heading (Call.ofSymbol call s))
  | .member value | .constant value => some (property heading (typeNames value.type))
  | .classType call classdesc augments =>
    some (classType { heading with description := classdesc.getD "" } augments s.fires
      (s.description.getD "") (call.params.map Parameter.ofParam) s.examples)
  | _ => none

end Refsite.Tree
