import Refsite.Decimal.Shortest
import Refsite.Json.Basic
import Refsite.Text.Basic
import Refsite.Text.Quoted
namespace Refsite.Json

open Refsite.Text (joinWith)

/-- Numbers are positional between `1e-04` and `1e+16`; an exponent has a sign and two digits. -/
def shownLayout : Binary64.Layout := ⟨-3, 16, 2⟩

mutual

def inspectChars : Json → List Char
  | .null => "None".toList
  | .bool true => "True".toList
  | .bool false => "False".toList
  | .int n => (toString n).toList
  | .float x => x.write shownLayout
  | .string s => Text.Quoted.encode s.toList
  | .array items => '[' :: joinWith [',', ' '] (inspectItems items) ++ [']']
  | .object entries => '{' :: joinWith [',', ' '] (inspectEntries entries) ++ ['}']

def inspectItems : List Json → List (List Char)
  | [] => []
  | x :: items => inspectChars x :: inspectItems items

def inspectEntries : List (String × Json) → List (List Char)
  | [] => []
  | (name, x) :: entries =>
    (Text.Quoted.encode name.toList ++ ':' :: ' ' :: inspectChars x) :: inspectEntries entries

end

def inspect (x : Json) : String := String.ofList (inspectChars x)

def shown : Json → String
  | .string s => s
  | x => x.inspect

end Refsite.Json
