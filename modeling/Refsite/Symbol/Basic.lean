import Refsite.Json.Basic
namespace Refsite

inductive Kind where
  | moduleUnit
  | classType
  | function
  | member
  | constant
  | nameSpace
  | mixin
  | event
  | interface
  | external
  | typedef
  deriving DecidableEq, Repr

namespace Kind

def all : List Kind :=
  [moduleUnit, classType, function, member, constant, nameSpace, mixin, event, interface, external,
    typedef]

def word : Kind → String
  | moduleUnit => "module"
  | classType => "class"
  | function => "function"
  | member => "member"
  | constant => "constant"
  | nameSpace => "namespace"
  | mixin => "mixin"
  | event => "event"
  | interface => "interface"
  | external => "external"
  | typedef => "typedef"

def ofWord? (word : String) : Option Kind := all.find? (·.word == word)

def hasPage : Kind → Bool
  | classType | moduleUnit | external | nameSpace | mixin | interface => true
  | _ => false

end Kind

structure TypeExpr where
  names : List String
  extra : Json.Entries
  deriving Repr

structure Param where
  name : String
  type : Option TypeExpr
  description : String
  optional : Option Bool
  nullable : Option Bool
  variadic : Option Bool
  /-- The default, where the input states one; it may be null. -/
  defaultValue : Option Json
  extra : Json.Entries
  deriving Repr

structure Outcome where
  type : Option TypeExpr
  description : String
  optional : Option Bool
  nullable : Option Bool
  extra : Json.Entries
  deriving Repr

structure Snippet where
  name : Option String
  type : Option String
  value : Json
  extra : Json.Entries
  deriving Repr

structure Origin where
  path : Option String
  filename : String
  line : Option Int
  snippet : Snippet
  /-- The path below the common root of all sources, once the sources are known. -/
  shortPath : Option String
  extra : Json.Entries
  deriving Repr

/-- An example as it was written, or split into caption and code. -/
inductive Example where
  | raw (text : String)
  | split (caption code : String)
  deriving DecidableEq, Repr

/-- What can be called: its parameters and what comes out. -/
structure Callable where
  params : List Param
  returns : List Outcome
  yields : List Outcome
  deriving Repr

structure Typed where
  type : Option TypeExpr
  readonly : Bool
  nullable : Option Bool
  optional : Option Bool
  deriving Repr

/-- The fields that depend on the kind, over the type of the symbols that a module attaches. -/
inductive Detail (σ : Type) where
  | moduleUnit (attached : List σ)
  | classType (call : Callable) (classdesc : Option String) (augments : List String)
  | function (call : Callable)
  | member (value : Typed)
  | constant (value : Typed)
  | nameSpace (call : Callable)
  | mixin
  | event (call : Callable) (listeners : List String)
  | interface
  | external
  | typedef (call : Callable) (type : Option TypeExpr) (nullable optional : Option Bool)
  deriving Repr

structure Symbol where
  name : String
  longname : String
  memberof : Option String
  scope : Option String
  access : Option String
  description : Option String
  origin : Option Origin
  examples : List Example
  see : List String
  listens : List String
  fires : List String
  ignore : Bool
  undocumented : Bool
  virtual : Bool
  isAsync : Bool
  generator : Bool
  version : Option String
  since : Option String
  variation : Option String
  attribs : Option String
  signature : Option String
  id : Option String
  /-- Links to the ancestors, outermost first, as markup. -/
  ancestors : List String
  detail : Detail Symbol
  extra : Json.Entries
  deriving Repr

def Detail.kind {σ : Type} : Detail σ → Kind
  | moduleUnit _ => .moduleUnit
  | classType .. => .classType
  | function _ => .function
  | member _ => .member
  | constant _ => .constant
  | nameSpace _ => .nameSpace
  | mixin => .mixin
  | event .. => .event
  | interface => .interface
  | external => .external
  | typedef .. => .typedef

def Detail.call? {σ : Type} : Detail σ → Option Callable
  | classType call .. | function call | nameSpace call | event call _ | typedef call .. => some call
  | _ => none

def Detail.type? {σ : Type} : Detail σ → Option (Option TypeExpr)
  | member value | constant value => some value.type
  | typedef _ type .. => some type
  | _ => none

namespace Symbol

def kind (s : Symbol) : Kind := s.detail.kind

def scopeMark (scope : Option String) : String :=
  match scope with
  | some "inner" => "~"
  | some "instance" => "#"
  | some "static" => "."
  | _ => ""

def isModuleExports (s : Symbol) : Bool :=
  !s.longname.isEmpty && s.longname == s.name && s.longname.startsWith "module:" &&
    s.kind != .moduleUnit

/-- The declaring file as the input gives it: its directory, unless that is unknown, and name. -/
def sourcePath? (s : Symbol) : Option String := do
  let origin ← s.origin
  match origin.path with
  | some path =>
    if !path.isEmpty && path != "null" then
      let directory := (path.toList.reverse.dropWhile (· == '/')).reverse
      return String.ofList directory ++ "/" ++ origin.filename
    else if origin.filename.isEmpty then none else return origin.filename
  | none => if origin.filename.isEmpty then none else return origin.filename

end Symbol

end Refsite
