import Refsite.Tree.Basic
namespace Refsite.Tree

/-- Symbols by parent, in the order in which the parents are first met. -/
abbrev ChildIndex := List (Option String × List Symbol)

def ChildIndex.add (index : ChildIndex) (s : Symbol) : ChildIndex :=
  match index with
  | [] => [(s.memberof, [s])]
  | (parent, children) :: rest =>
    if parent == s.memberof then (parent, children ++ [s]) :: rest
    else (parent, children) :: ChildIndex.add rest s

def childIndex (symbols : List Symbol) : ChildIndex := symbols.foldl ChildIndex.add []

def unknownParents (symbols : List Symbol) : List (String × Nat) :=
  (childIndex symbols).filterMap fun (parent, children) =>
    match parent with
    | some name =>
      if symbols.any (·.longname == name) then none else some (name, children.length)
    | none => none

def childrenOf (symbols : List Symbol) (parent : Option String) : List Symbol :=
  symbols.filter (·.memberof == parent)

abbrev Seed := Entry × Option String

def seeds : (expanded : List String) → List Symbol → List Seed × List String
  | expanded, [] => ([], expanded)
  | expanded, s :: symbols =>
    match Entry.ofSymbol? s with
    | none => seeds expanded symbols
    | some entry =>
      if entry.isContainer && !expanded.contains s.longname then
        let (rest, expanded) := seeds (s.longname :: expanded) symbols
        ((entry, some s.longname) :: rest, expanded)
      else
        let (rest, expanded) := seeds expanded symbols
        ((entry, none) :: rest, expanded)

def growAll (grow : List String → String → List Node × List String) :
    (expanded : List String) → List Seed → List Node × List String
  | expanded, [] => ([], expanded)
  | expanded, (entry, longname) :: rest =>
    let (nodes, expanded) := growAll grow expanded rest
    match longname with
    | none => (.mk entry [] :: nodes, expanded)
    | some name =>
      let (children, expanded) := grow expanded name
      (.mk entry children :: nodes, expanded)

/-- What stands below a parent. Every step down speaks for a longname that was free, so the number
of symbols bounds the depth. -/
def expand (symbols : List Symbol) : (fuel : Nat) → (expanded : List String) →
    (parent : Option String) → List Node × List String
  | 0, expanded, _ => ([], expanded)
  | fuel + 1, expanded, parent =>
    let (roots, expanded) := seeds expanded (childrenOf symbols parent)
    growAll (fun expanded name => expand symbols fuel expanded (some name)) expanded roots

def graft (symbols : List Symbol) : List Node := (expand symbols (symbols.length + 1) [] none).1

end Refsite.Tree
