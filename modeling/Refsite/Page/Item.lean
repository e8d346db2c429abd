import Refsite.Json.Inspect
import Refsite.Link.Anchor
import Refsite.Misfit
import Refsite.Symbol.Record
namespace Refsite.Page

abbrev Result := Except Misfit String

structure Item where
  record : Json
  symbol : Option Symbol

namespace Item

def ofSymbol (s : Symbol) : Item := ⟨s.record true, some s⟩

def ofValue (x : Json) : Item := ⟨x, none⟩

end Item

/-- The value under a name; nothing where there is no such name. -/
def lookIn (x : Json) (name : String) : Option Json :=
  match x with
  | .object es => Json.Entries.find? es name
  | _ => none

def Item.get? (i : Item) (name : String) : Option Json := lookIn i.record name

def holds (x : Option Json) : Bool := (x.getD .null).isPresent

def textOf (x : Option Json) : String :=
  match x with
  | some x => x.shown
  | none => ""

def escaped (x : Option Json) : String := Html.escape (textOf x)

def textIfAny (x : Option Json) : String := if holds x then textOf x else ""

/-- What a loop goes over: the items of a list, the characters of a text, the names of a record. -/
def itemsOf (x : Option Json) : Except Misfit (List Json) :=
  match x with
  | none => .ok []
  | some (.array items) => .ok items
  | some (.string text) => .ok (text.toList.map fun c => .string (String.singleton c))
  | some (.object es) => .ok (es.map fun e => .string e.1)
  | some _ => .error .wrongType

def concat {α : Type} (piece : α → Result) : List α → Result
  | [] => .ok ""
  | a :: items => do
    let front ← piece a
    let back ← concat piece items
    return front ++ back

def linkTo (r : Registry) (longname : Json) : Result :=
  match longname with
  | .string s => .ok (r.link s)
  | _ => .error .wrongType

end Refsite.Page
