import Refsite.Json.Inspect
import Refsite.Log
import Refsite.Misfit
import Refsite.Symbol.Reader
namespace Refsite

abbrev Doclet := Json.Entries

inductive DocletError where
  | unfit (m : Misfit)
  | malformed (longname : Json) (faults : List Schema.Fault)
  deriving Repr

namespace Doclet

def value (d : Doclet) (name : String) : Json := (Json.Entries.find? d name).getD .null

def symbol? (d : Doclet) : Except DocletError (Option Symbol) :=
  match d.value "kind" with
  | .array _ | .object _ => .error (.unfit .wrongType)
  | .string word =>
    if (Kind.ofWord? word).isSome && (d.value "longname").isPresent then
      match Symbol.read (.object d) with
      | .ok s => .ok (some s)
      | .bad faults => .error (.malformed (d.value "longname") faults)
    else .ok none
  | _ => .ok none

def skipRemark (position : Nat) (d : Doclet) : Remark where
  level := .debug
  part := "parse.doclets"
  text := s!"skipping doclet #{position} (kind=" ++ (d.value "kind").inspect ++ ", longname=" ++
    (d.value "longname").inspect ++ ")"

/-- The symbols of a dump, counted from `position`, and what was said on the way. The first
malformed doclet ends it. -/
def symbolsFrom : (position : Nat) → List Doclet → List Remark × Except DocletError (List Symbol)
  | _, [] => ([], .ok [])
  | position, d :: doclets =>
    match d.symbol? with
    | .error e => ([], .error e)
    | .ok none =>
      let (remarks, result) := symbolsFrom (position + 1) doclets
      (skipRemark position d :: remarks, result)
    | .ok (some s) =>
      let (remarks, result) := symbolsFrom (position + 1) doclets
      (remarks, result.map (s :: ·))

def symbols (doclets : List Doclet) : List Remark × Except DocletError (List Symbol) :=
  symbolsFrom 0 doclets

end Doclet

end Refsite
