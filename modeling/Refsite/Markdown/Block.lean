import Refsite.Markdown.Inline
import Refsite.Markdown.Raw
import Refsite.Markdown.Table
namespace Refsite.Markdown

inductive Block where
  /-- Running text that stands directly in the block around it. -/
  | bare (text : List Char)
  | paragraph (text : List Char)
  | heading (level : Nat) (text : List Char)
  | code (text : List Char)
  | rule
  | quote (content : List Block)
  | list (ordered : Bool) (content : List Block)
  | item (content : List Block)
  | table (table : Table)
  deriving Repr

namespace Block

open Refsite.Text

def tag (name : String) (inner : List Char) : List Char :=
  '<' :: name.toList ++ ['>'] ++ inner ++ "</".toList ++ name.toList ++ ['>']

def inlineHtml (text : List Char) : List Char := Span.htmlAll (Span.read text)

namespace Cell

def style : Option Alignment → List Char
  | none => []
  | some .left => " style=\"text-align: left;\"".toList
  | some .right => " style=\"text-align: right;\"".toList
  | some .center => " style=\"text-align: center;\"".toList

def html (name : String) (align : Option Alignment) (text : List Char) : List Char :=
  '<' :: name.toList ++ style align ++ ['>'] ++ inlineHtml text ++ "</".toList ++ name.toList ++
    ">\n".toList

end Cell

def rowHtml (name : String) (columns : List (Option Alignment)) (row : List (List Char)) :
    List Char :=
  tag "tr" ('\n' :: (columns.zip row).flatMap fun (align, text) => Cell.html name align text) ++
    ['\n']

/-- A table without rows shows an empty one, the cells of which are not aligned. -/
def rowsHtml (t : Table) : List Char :=
  if t.rows.isEmpty then rowHtml "td" (t.columns.map fun _ => none) (t.columns.map fun _ => [])
  else t.rows.flatMap (rowHtml "td" t.columns)

def tableHtml (t : Table) : List Char :=
  tag "table"
    ('\n' :: tag "thead" ('\n' :: rowHtml "th" t.columns t.heads) ++ ['\n'] ++
      tag "tbody" ('\n' :: rowsHtml t) ++ ['\n'])

/-- What stands between the opening tag and the first block inside. -/
def opening : List Block → List Char
  | [] => []
  | .bare _ :: _ => []
  | _ :: _ => ['\n']

def codeHtml (text : List Char) : List Char :=
  tag "pre" (tag "code" (Span.escapeAll (stripRight text ++ ['\n'])))

def lineEnd : Block → List Block → List Char
  | .bare _, _ => []
  | _, .bare _ :: _ => []
  | _, _ => ['\n']

/-- Text that stands directly in a block. It begins on a line of its own behind another block. -/
def bareHtml (text : List Char) : List Char :=
  if text.head? == some '\n' then Span.htmlBehind (Span.read text) else inlineHtml text

def paragraphHtml (text : List Char) : List Char :=
  if text == [blockMark] then text else tag "p" (inlineHtml text)

mutual

def html : Block → List Char
  | .bare text => bareHtml text
  | .paragraph text => paragraphHtml text
  | .heading level text => tag ("h" ++ toString level) (inlineHtml text)
  | .code text => codeHtml text
  | .rule => "<hr />".toList
  | .quote content => tag "blockquote" (opening content ++ htmlAll content)
  | .list ordered content =>
    tag (if ordered then "ol" else "ul") (opening content ++ htmlAll content)
  | .item content => tag "li" (opening content ++ htmlAll content)
  | .table t => tableHtml t

def htmlAll : List Block → List Char
  | [] => []
  | block :: blocks => html block ++ lineEnd block blocks ++ htmlAll blocks

end

end Block

end Refsite.Markdown
