import Refsite.Text.Basic
namespace Refsite.Link.Stem

open Refsite.Text (dropFront? cutAt?)

/-- The words that may stand before a colon and belong to the name. -/
def nameSpaces : List String := ["module", "event", "external"]

def joinNameSpace (text : List Char) : List Char :=
  match cutAt? ':' text with
  | some (front, rest) =>
    if nameSpaces.contains (String.ofList front) then front ++ '-' :: rest else text
  | none => text

def unsafeMarks : List Char := "\\/?*:|'\"<>".toList

def replaceMark (c : Char) : Char :=
  if unsafeMarks.contains c then '_'
  else if c == '~' then '-'
  else if c == '#' then '_'
  else c

/-- The parts of a text whose last bracket closes it, one line feed aside: what stands before the
first opening bracket, and the line feed. -/
def cutVariation (text : List Char) : List Char :=
  let (body, lineEnd) := match text.reverse with
    | '\n' :: rest => (rest.reverse, ['\n'])
    | _ => (text, [])
  match body.reverse, cutAt? '(' body with
  | ')' :: _, some (front, _) => front ++ lineEnd
  | _, _ => text

def dropLeadingMark : List Char → List Char
  | '.' :: text => text
  | '-' :: text => text
  | text => text

def ofText (text : List Char) : List Char :=
  match dropLeadingMark (cutVariation ((joinNameSpace text).map replaceMark)) with
  | [] => ['_']
  | stem => stem

def candidate (stem : List Char) : Nat → List Char
  | 0 => stem
  | k + 1 => stem ++ '_' :: (toString (k + 1)).toList

end Refsite.Link.Stem
