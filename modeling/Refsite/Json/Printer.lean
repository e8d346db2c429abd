import Refsite.Decimal.Shortest
import Refsite.Json.Basic
import Refsite.Misfit
import Refsite.Text.Basic
import Refsite.Text.Digit
namespace Refsite.Json

open Refsite.Text (hexDigits lowerHexDigits joinWith)

/-- Numbers are positional between `1e-5` and `1e+16`; an exponent has a sign and no padding. -/
def floatLayout : Binary64.Layout := ⟨-4, 16, 1⟩

def escapeChar (c : Char) : List Char :=
  if c == '"' then ['\\', '"']
  else if c == '\\' then ['\\', '\\']
  else if c == '\x08' then ['\\', 'b']
  else if c == '\t' then ['\\', 't']
  else if c == '\n' then ['\\', 'n']
  else if c == '\x0c' then ['\\', 'f']
  else if c == '\r' then ['\\', 'r']
  else if c.toNat < 0x20 then ['\\', 'u'] ++ hexDigits lowerHexDigits 4 c.toNat
  else [c]

def writeString (s : String) : List Char := '"' :: s.toList.flatMap escapeChar ++ ['"']

def writeInt (n : Int) : List Char := (toString n).toList

def indentation (depth : Nat) : List Char := List.replicate (2 * depth) ' '

/-- Items of a collection on lines of their own, between its two marks. -/
def writeLines (opening closing : Char) (depth : Nat) (items : List (List Char)) : List Char :=
  if items.isEmpty then [opening, closing]
  else
    let item (text : List Char) := indentation (depth + 1) ++ text
    opening :: '\n' :: joinWith [',', '\n'] (items.map item) ++
      '\n' :: indentation depth ++ [closing]

def sortByName {α : Type} (entries : List (String × α)) : List (String × α) :=
  entries.mergeSort fun a b => Text.le a.1 b.1

mutual

def writeAt (depth : Nat) : Json → List Char
  | .null => "null".toList
  | .bool true => "true".toList
  | .bool false => "false".toList
  | .int n => writeInt n
  | .float x => x.write floatLayout
  | .string s => writeString s
  | .array items => writeLines '[' ']' depth (writeItems (depth + 1) items)
  | .object entries =>
    let texts := sortByName (writeEntries (depth + 1) entries)
    writeLines '{' '}' depth (texts.map fun (name, text) =>
      writeString name ++ ':' :: ' ' :: text)

def writeItems (depth : Nat) : List Json → List (List Char)
  | [] => []
  | x :: items => writeAt depth x :: writeItems depth items

def writeEntries (depth : Nat) : List (String × Json) → List (String × List Char)
  | [] => []
  | (name, x) :: entries => (name, writeAt depth x) :: writeEntries depth entries

end

def pretty (x : Json) : List Char := writeAt 0 x

mutual

def isNarrow : Json → Bool
  | .int n => isNarrowInt n
  | .array items => areNarrow items
  | .object entries => entriesAreNarrow entries
  | _ => true

def areNarrow : List Json → Bool
  | [] => true
  | x :: items => isNarrow x && areNarrow items

def entriesAreNarrow : List (String × Json) → Bool
  | [] => true
  | (_, x) :: entries => isNarrow x && entriesAreNarrow entries

end

def printingLimit : Nat := 254

def isPrintable (x : Json) : Bool := x.isNarrow && x.nesting ≤ printingLimit

def print (x : Json) : Except Misfit String :=
  if x.isPrintable then .ok (String.ofList x.pretty) else .error .wrongType

/-- Line and paragraph ends beyond ASCII are escaped too, so that the text stays on one line. -/
def escapeInLine (c : Char) : List Char :=
  if c == '\x85' || c == '\u2028' || c == '\u2029' then
    ['\\', 'u'] ++ hexDigits lowerHexDigits 4 c.toNat
  else escapeChar c

def writeStringInLine (s : String) : List Char := '"' :: s.toList.flatMap escapeInLine ++ ['"']

mutual

/-- The text of a value on one line, in the order of its entries. -/
def inLine : Json → List Char
  | .null => "null".toList
  | .bool true => "true".toList
  | .bool false => "false".toList
  | .int n => writeInt n
  | .float x => x.write floatLayout
  | .string s => writeStringInLine s
  | .array items => '[' :: joinWith [',', ' '] (itemsInLine items) ++ [']']
  | .object entries => '{' :: joinWith [',', ' '] (entriesInLine entries) ++ ['}']

def itemsInLine : List Json → List (List Char)
  | [] => []
  | x :: items => inLine x :: itemsInLine items

def entriesInLine : List (String × Json) → List (List Char)
  | [] => []
  | (name, x) :: entries =>
    (writeStringInLine name ++ ':' :: ' ' :: inLine x) :: entriesInLine entries

end

end Refsite.Json
