import Refsite.Text.Basic
namespace Refsite.Source

open Refsite.Text

/-- The text of a listing: line feeds only, no empty lines around it, and a line feed at the end. -/
def tidy (code : List Char) : List Char :=
  let code := match code with
    | '\uFEFF' :: code => code
    | code => code
  let code := (unixLines code).dropWhile (· == '\n')
  (code.reverse.dropWhile (· == '\n')).reverse ++ ['\n']

def listedLines (code : List Char) : List (List Char) := (lines (tidy code)).dropLast

def escapeCodeChar : Char → List Char
  | '&' => "&amp;".toList
  | '<' => "&lt;".toList
  | '>' => "&gt;".toList
  | c => [c]

def escapeCode (code : List Char) : List Char := code.flatMap escapeCodeChar

def lineAnchor (number : String) : String := "line-" ++ number

def padNumber (width n : Nat) : List Char :=
  let digits := (toString n).toList
  List.replicate (width - digits.length) ' ' ++ digits

def numberMarkup (width n : Nat) : String :=
  "<span class=\"normal\"><a href=\"#" ++ lineAnchor (toString n) ++ "\">" ++
    String.ofList (padNumber width n) ++ "</a></span>"

def lineMarkup (n : Nat) (line : List Char) : String :=
  let name := lineAnchor (toString n)
  "<a id=\"" ++ name ++ "\" name=\"" ++ name ++ "\"></a>" ++ String.ofList (escapeCode line) ++ "\n"

def listing (code : String) : String :=
  let shown := listedLines code.toList
  let width := (toString shown.length).length
  let numbers := (List.range shown.length).map fun k => numberMarkup width (k + 1)
  "<div class=\"highlight\"><table class=\"highlighttable\"><tr><td class=\"linenos\">" ++
    "<div class=\"linenodiv\"><pre>" ++ "\n".intercalate numbers ++ "</pre></div></td>" ++
    "<td class=\"code\"><div><pre><span></span>" ++
    String.join (shown.mapIdx fun k line => lineMarkup (k + 1) line) ++
    "</pre></div></td></tr></table></div>\n"

/-- What colours listings: the listing of a file whose language its name or its code tells, and the
style of the colours. -/
class Highlighter where
  listing? : (name code : String) → Option String
  style : String

/-- The listing of a file, in the colours of its language if that is known. -/
def listingOf [Highlighter] (name code : String) : String :=
  (Highlighter.listing? name code).getD (listing code)

end Refsite.Source
