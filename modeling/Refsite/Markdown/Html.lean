import Refsite.Markdown.Raw
import Refsite.Markdown.Reader
namespace Refsite.Markdown

open Refsite.Text

def expandTabs (column : Nat) : List Char → List Char
  | [] => []
  | '\n' :: text => '\n' :: expandTabs 0 text
  | '\t' :: text => List.replicate (4 - column % 4) ' ' ++ expandTabs 0 text
  | c :: text => c :: expandTabs (column + 1) text

/-- A text with line feeds at the ends of its lines, without tabs, with nothing on its blank lines
and a blank line at its end. -/
def normalize (text : List Char) : List Char :=
  let text := (text.filter fun c => c != '\x02' && c != '\x03') ++ ['\n', '\n']
  match lines (expandTabs 0 (unixLines text)) with
  | first :: rest =>
    joinWith ['\n'] (first :: rest.map fun line => if line.all (· == ' ') then [] else line)
  | [] => []

def html (text : List Char) : List Char :=
  if (strip text).isEmpty then []
  else
    let marked := takeOut (normalize text)
    let blocks :=
      Block.read (2 * marked.text.length + 10) .plain .other [] (Block.pieces marked.text)
    strip (fill marked.parts (Block.htmlAll blocks))

end Refsite.Markdown
