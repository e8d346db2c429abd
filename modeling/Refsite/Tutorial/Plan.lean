import Refsite.Json.Inspect
import Refsite.Log
import Refsite.Misfit
import Refsite.Tutorial.Basic
namespace Refsite.Tutorial

abbrev Configs := Json.Entries

namespace Configs

/-- The configurations of a shared file: entries that are records, and the entries of their own
children. -/
def shared : Json.Entries → Configs → Configs
  | [], configs => configs
  | (name, .object inner) :: es, configs =>
    match h : Json.Entries.find? inner "children" with
    | some (.object children) =>
      have := Json.sizeOf_lt_of_find? h
      shared es (shared children (configs.put name (.object inner)))
    | _ => shared es (configs.put name (.object inner))
  | _ :: es, configs => shared es configs
termination_by es => sizeOf es
decreasing_by
  all_goals simp only [List.cons.sizeOf_spec, Prod.mk.sizeOf_spec, Json.object.sizeOf_spec] at *
  all_goals omega

def of (configs : Configs) (name : String) : Json.Entries :=
  match configs.find? name with
  | some (.object es) => es
  | _ => []

end Configs

def titleIn? (config : Json.Entries) : Option String :=
  match config.find? "title" with
  | some (.string title) => some title
  | _ => none

/-- The names of the children that a configuration declares, in order. The characters of a text are
names too. -/
def childrenIn (config : Json.Entries) : Except Misfit (List String) :=
  let children := (config.find? "children").getD .null
  if !children.isPresent then .ok []
  else
    match children with
    | .object es => .ok (es.map (·.1))
    | .array items => .ok (items.filterMap fun x =>
        match x with
        | .string name => some name
        | _ => none)
    | .string text => .ok (text.toList.map String.singleton)
    | _ => .error .wrongType

abbrev Parents := List (String × String)

def isAncestorFrom (parents : Parents) (candidate : String) : (fuel : Nat) → String → Bool
  | 0, name => name == candidate
  | fuel + 1, name =>
    name == candidate ||
      match parents.lookup name with
      | some parent => isAncestorFrom parents candidate fuel parent
      | none => false

def isAncestor (parents : Parents) (candidate name : String) : Bool :=
  isAncestorFrom parents candidate parents.length name

def ignoredChild (child name : String) : Remark :=
  ⟨.debug, "parse.tutorials", "ignoring child " ++ quoted child ++ " of tutorial " ++ quoted name⟩

def descendantParent (child name : String) : Remark :=
  ⟨.warning, "parse.tutorials",
    "tutorial " ++ quoted child ++ " cannot be a child of its descendant " ++ quoted name⟩

def adopt (names : List String) (name : String) (parents : Parents) (child : String) :
    Parents × List Remark :=
  if !names.contains child || (parents.lookup child).isSome || child == name then
    (parents, [ignoredChild child name])
  else if isAncestor parents child name then (parents, [descendantParent child name])
  else (parents ++ [(child, name)], [])

def adoptAll (names : List String) (name : String) : Parents → List String →
    Parents × List Remark
  | parents, [] => (parents, [])
  | parents, child :: children =>
    let (parents, remarks) := adopt names name parents child
    let (parents, more) := adoptAll names name parents children
    (parents, remarks ++ more)

/-- Takes the children that the configurations declare, tutorial by tutorial. Declarations of a
shape that names nothing end it. -/
def nest (configs : Configs) (names : List String) : Parents → List String →
    List Remark × Except Misfit Parents
  | parents, [] => ([], .ok parents)
  | parents, name :: rest =>
    match childrenIn (configs.of name) with
    | .error m => ([], .error m)
    | .ok children =>
      let (parents, remarks) := adoptAll names name parents children
      let (more, result) := nest configs names parents rest
      (remarks ++ more, result)

def grow (configs : Configs) (tutorials : List Tutorial) (parents : Parents) :
    (depth : Nat) → Tutorial → Tutorial
  | 0, t => t
  | depth + 1, t =>
    let childNames := (parents.filter fun edge => edge.2 == t.name).map (·.1)
    let children := childNames.filterMap fun child => tutorials.find? (·.name == child)
    { t with
      title := (titleIn? (configs.of t.name)).getD t.title
      children := children.map (grow configs tutorials parents depth) }

def forest (configs : Configs) (tutorials : List Tutorial) (parents : Parents) : List Tutorial :=
  (tutorials.filter fun t => (parents.lookup t.name).isNone).map
    (grow configs tutorials parents (tutorials.length + 1))

end Refsite.Tutorial
