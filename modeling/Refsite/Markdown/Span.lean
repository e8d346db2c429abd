import Refsite.Text.Basic
namespace Refsite.Markdown

open Refsite.Text

def tick : Char := '\x60'

inductive Span where
  | char (c : Char)
  | literal (c : Char)
  | markup (text : List Char)
  | code (text : List Char)
  | lineBreak
  | image (alt address : List Char) (title : Option (List Char))
  | link (address : List Char) (title : Option (List Char)) (content : List Span)
  | emphasis (content : List Span)
  | strong (content : List Span)
  deriving Repr

namespace Span

/-- Whether a character reference without its ampersand stands at the head of a text. -/
def isReference : List Char → Bool
  | '#' :: 'x' :: text | '#' :: 'X' :: text => closed (fun c => c.isDigit || isHexLetter c) text
  | '#' :: text => closed Char.isDigit text
  | text => closed Char.isAlphanum text
where
  isHexLetter (c : Char) : Bool := ('a' ≤ c && c ≤ 'f') || ('A' ≤ c && c ≤ 'F')
  closed (among : Char → Bool) (text : List Char) : Bool :=
    !(text.takeWhile among).isEmpty && (text.dropWhile among).head? == some ';'

def escapeMark : Char → List Char
  | '<' => "&lt;".toList
  | '>' => "&gt;".toList
  | c => [c]

def escapeAmpersand (following : List Char) : List Char :=
  if isReference following then ['&'] else "&amp;".toList

def escapeText : List Char → List Char
  | [] => []
  | '&' :: text => escapeAmpersand text ++ escapeText text
  | c :: text => escapeMark c ++ escapeText text

def escapeValue (text : List Char) : List Char :=
  (escapeText text).flatMap fun c => if c == '"' then "&quot;".toList else [c]

def escapeAll (text : List Char) : List Char :=
  text.flatMap fun c => if c == '&' then "&amp;".toList else escapeMark c

def valued (name : String) (value : List Char) : List Char :=
  ' ' :: name.toList ++ "=\"".toList ++ escapeValue value ++ ['"']

def titleValued (title : Option (List Char)) : List Char :=
  match title with
  | some title => valued "title" title
  | none => []

def plainText : List Span → List Char
  | [] => []
  | .char c :: spans | .literal c :: spans => c :: plainText spans
  | .markup text :: spans | .code text :: spans => text ++ plainText spans
  | _ :: spans => plainText spans

def front : List Span → List Char
  | .char c :: spans | .literal c :: spans => c :: front spans
  | _ => []

def isBlankChar : Span → Bool
  | .char c => isBlank c
  | _ => false

/-- Whether only blanks stand before the first span that makes an element of its own. -/
def beginsBlank : List Span → Bool
  | .char c :: spans => isBlank c && beginsBlank spans
  | .literal _ :: _ | .markup _ :: _ => false
  | _ => true

mutual

def html : Span → List Char
  | .char c | .literal c => escapeText [c]
  | .markup text => text
  | .code text => "<code>".toList ++ escapeAll text ++ "</code>".toList
  | .lineBreak => "<br />\n".toList
  | .image alt address title =>
    "<img".toList ++ valued "alt" alt ++ valued "src" address ++ titleValued title ++
      " />".toList
  | .link address title content =>
    "<a".toList ++ valued "href" address ++ titleValued title ++ ['>'] ++ htmlFrom false content ++
      "</a>".toList
  | .emphasis content => "<em>".toList ++ htmlFrom false content ++ "</em>".toList
  | .strong content => "<strong>".toList ++ htmlFrom false content ++ "</strong>".toList

/-- Spans as markup, possibly without the characters before the first element. -/
def htmlFrom : Bool → List Span → List Char
  | _, [] => []
  | true, .char _ :: spans => htmlFrom true spans
  | _, .char '&' :: spans | _, .literal '&' :: spans =>
    escapeAmpersand (front spans) ++ htmlFrom false spans
  | _, .char c :: spans | _, .literal c :: spans => escapeMark c ++ htmlFrom false spans
  | _, .lineBreak :: spans => html .lineBreak ++ htmlFrom (beginsBlank spans) spans
  | _, span :: spans => html span ++ htmlFrom false spans

end

def htmlAll (spans : List Span) : List Char := htmlFrom false spans

/-- Spans behind a block as markup: blanks before the first element become a line end. -/
def htmlBehind (spans : List Span) : List Char :=
  if beginsBlank spans then '\n' :: htmlFrom true spans else htmlAll spans

def ofText (text : List Char) : List Span := text.map .char

def isChar (c : Char) : Span → Bool
  | .char d => c == d
  | _ => false

end Span

end Refsite.Markdown
