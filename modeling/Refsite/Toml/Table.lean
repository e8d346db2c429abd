import Refsite.Json.Basic
namespace Refsite.Toml

abbrev Key := List String

/-- What is settled about a key. -/
inductive Mark where
  | declared
  /-- A value that may not be changed, nor what is in it. -/
  | frozen
  deriving DecidableEq, Repr

abbrev Marks := List (Key × Mark)

namespace Marks

def isDeclared (m : Marks) (key : Key) : Bool := m.contains (key, .declared)

def isFrozen (m : Marks) (key : Key) : Bool :=
  m.any fun entry => entry.2 == .frozen && entry.1.isPrefixOf key

def release (m : Marks) (key : Key) : Marks := m.filter fun entry => !key.isPrefixOf entry.1

end Marks

/-- Changes the table under a key, which is made if it is missing. A list of tables stands for its
last one, if `lists` says so. -/
def update (lists : Bool) (change : Json.Entries → Option Json.Entries) :
    Key → Json.Entries → Option Json.Entries
  | [], es => change es
  | name :: key, es =>
    match es.find? name with
    | none => (update lists change key []).map fun inner => es.put name (.object inner)
    | some (.object inner) =>
      (update lists change key inner).map fun inner => es.put name (.object inner)
    | some (.array items) =>
      match lists, items.getLast? with
      | true, some (.object inner) =>
        (update lists change key inner).map fun inner =>
          es.put name (.array (items.dropLast ++ [.object inner]))
      | _, _ => none
    | some _ => none

def addEntry (name : String) (value : Json) (es : Json.Entries) : Option Json.Entries :=
  if (es.find? name).isSome then none else some (es.put name value)

def addTable (name : String) (es : Json.Entries) : Option Json.Entries :=
  match es.find? name with
  | none => some (es.put name (.array [.object []]))
  | some (.array items) => some (es.put name (.array (items ++ [.object []])))
  | some _ => none

def isCollection : Json → Bool
  | .array _ | .object _ => true
  | _ => false

/-- A document so far: its tables, what is settled, the keys that are settled at the next header and
the key of the last header. -/
structure Document where
  tables : Json.Entries
  marks : Marks
  pending : List Key
  header : Key
  deriving Repr

namespace Document

def empty : Document := ⟨[], [], [], []⟩

def settle (d : Document) : Document :=
  { d with marks := d.marks ++ d.pending.map (fun key => (key, .declared)), pending := [] }

def declareTable (d : Document) (key : Key) : Option Document :=
  if d.marks.isDeclared key || d.marks.isFrozen key then none
  else do
    let tables ← update true some key d.tables
    return { d with tables, marks := d.marks ++ [(key, .declared)], header := key }

def declareListed (d : Document) (key : Key) : Option Document :=
  if d.marks.isFrozen key then none
  else do
    let name ← key.getLast?
    let tables ← update true (addTable name) key.dropLast d.tables
    return { d with tables, marks := d.marks.release key ++ [(key, .declared)], header := key }

def tablesOnWay (header : Key) (key : Key) : List Key :=
  (List.range (key.length - 1)).map fun k => header ++ key.take (k + 1)

def addValue (d : Document) (key : Key) (value : Json) : Option Document :=
  let onWay := tablesOnWay d.header key
  let parent := d.header ++ key.dropLast
  if onWay.any d.marks.isDeclared || d.marks.isFrozen parent then none
  else do
    let name ← key.getLast?
    let tables ← update true (addEntry name value) parent d.tables
    let marks := if isCollection value then d.marks ++ [(d.header ++ key, .frozen)] else d.marks
    return { d with tables, marks, pending := d.pending ++ onWay }

end Document

def addInLine (key : Key) (value : Json) (es : Json.Entries) (marks : Marks) :
    Option (Json.Entries × Marks) :=
  if marks.isFrozen key then none
  else do
    let name ← key.getLast?
    let es ← update false (addEntry name value) key.dropLast es
    return (es, if isCollection value then marks ++ [(key, .frozen)] else marks)

end Refsite.Toml
