import Refsite.Symbol.Basic
import Refsite.Text.Basic
import Refsite.Text.Lower
namespace Refsite

open Refsite.Text (isBlank dropFrontAnyCase?)

namespace Caption

def opening : List Char := "<caption>".toList

def closing : List Char := "</caption>".toList

def isLineEnd (c : Char) : Bool := c == '\n' || c == '\r'

/-- The code behind a caption: what follows the last line end among the blanks there that leaves
something. -/
def code? : List Char → Option (List Char)
  | [] => none
  | c :: text =>
    if isBlank c then
      (code? text).or (if isLineEnd c && !text.isEmpty then some text else none)
    else none

def split? : (caption : List Char) → List Char → Option (List Char × List Char)
  | _, [] => none
  | caption, c :: text =>
    let here := if caption.isEmpty then none else
      ((dropFrontAnyCase? closing (c :: text)).bind code?).map fun code => (caption.reverse, code)
    match here with
    | some parts => some parts
    | none => split? (c :: caption) text

end Caption

namespace Example

def splitCaption : Example → Example
  | split caption code => split caption code
  | raw text =>
    match (dropFrontAnyCase? Caption.opening (text.toList.dropWhile isBlank)).bind
        (Caption.split? []) with
    | some (caption, code) => split (String.ofList caption) (String.ofList code)
    | none => split "" text

end Example

def Symbol.splitCaptions (symbols : List Symbol) : List Symbol :=
  symbols.map fun s => { s with examples := s.examples.map Example.splitCaption }

end Refsite
