import Refsite.Markdown.Span
import Refsite.Text.Word
import Refsite.Text.Basic
namespace Refsite.Markdown

open Refsite.Text

def blockMark : Char := '\x02'

def inlineMark : Char := '\x03'

def isMark (c : Char) : Bool := c == blockMark || c == inlineMark

/-- A text with marks, and the parts that they stand for. -/
structure Marked where
  text : List Char
  parts : List (List Char)
  deriving DecidableEq, Repr

def fill : List (List Char) → List Char → List Char
  | _, [] => []
  | parts, c :: text =>
    if isMark c then parts.headD [] ++ fill (parts.drop 1) text else c :: fill parts text

namespace Fence

def open? (line : List Char) : Option (List Char × List Char) :=
  match line with
  | c :: _ =>
    let marks := line.takeWhile (· == c)
    if (c == tick || c == '~') && 3 ≤ marks.length then some (marks, line.drop marks.length)
    else none
  | [] => none

def language? (behind : List Char) : Option (List Char) :=
  let text := behind.dropWhile (· == ' ')
  let text := (dropFront? ['.'] text).getD text
  let isMark (c : Char) := isWord c || ['#', '.', '+', '-'].contains c
  let name := text.takeWhile isMark
  if (text.drop name.length).all (· == ' ') then some name else none

def html (language : List Char) (code : List (List Char)) : List Char :=
  let mark :=
    if language.isEmpty then []
    else " class=\"language-".toList ++ Span.escapeValue language ++ ['"']
  let shown := (code.flatMap (· ++ ['\n'])).flatMap fun c =>
    if c == '"' then "&quot;".toList else Span.escapeAll [c]
  "<pre><code".toList ++ mark ++ ['>'] ++ shown ++ "</code></pre>".toList

def upTo? (fence : List Char) : List (List Char) → Option (List (List Char) × List (List Char))
  | [] => none
  | line :: rest =>
    if ((dropFront? fence line).map fun behind => behind.all (· == ' ')).getD false then
      some ([], rest)
    else (upTo? fence rest).map fun (code, rest) => (line :: code, rest)

def atFront? (text : List (List Char)) : Option (List Char × Nat) :=
  match text with
  | line :: rest => do
    let (fence, behind) ← open? line
    let language ← language? behind
    let (code, _) ← upTo? fence rest
    return (html language code, code.length + 2)
  | [] => none

/-- The lines with a mark between empty lines for each code between fences, and the codes; the first
`skip` lines are known to be code. -/
def takeOut : Nat → List (List Char) → List (List Char) × List (List Char)
  | _, [] => ([], [])
  | skip + 1, _ :: rest => takeOut skip rest
  | 0, line :: rest =>
    match atFront? (line :: rest) with
    | some (code, count) =>
      let (marked, codes) := takeOut (count - 1) rest
      ([] :: [blockMark] :: [] :: marked, code :: codes)
    | none => (takeOut 0 rest).map (line :: ·) id

end Fence

namespace Markup

def blockNames : List String :=
  ["address", "article", "aside", "blockquote", "details", "div", "dl", "fieldset", "figcaption",
    "figure", "footer", "form", "h1", "h2", "h3", "h4", "h5", "h6", "header", "hgroup", "hr",
    "main", "menu", "nav", "ol", "p", "pre", "search", "section", "table", "ul", "canvas",
    "colgroup", "dd", "body", "dt", "group", "html", "iframe", "li", "legend", "math", "map",
    "noscript", "output", "object", "option", "progress", "script", "style", "summary", "tbody",
    "td", "textarea", "tfoot", "th", "thead", "tr", "video", "center"]

structure Tag where
  name : String
  closing : Bool
  alone : Bool
  length : Nat
  deriving DecidableEq, Repr

def tagEnd? : Option Char → List Char → Option Nat
  | _, [] => none
  | some q, c :: text => (tagEnd? (if c == q then none else some q) text).map (· + 1)
  | none, c :: text =>
    if c == '>' then some 1
    else (tagEnd? (if c == '"' || c == '\'' then some c else none) text).map (· + 1)

def tag? (text : List Char) : Option Tag :=
  match text with
  | '<' :: rest =>
    let closing := rest.head? == some '/'
    let named := if closing then rest.drop 1 else rest
    let name := named.takeWhile fun c => !(['\n', '\t', '\x0c', ' ', '/', '>'].contains c)
    if (name.head?.map Char.isAlpha).getD false then
      (tagEnd? none rest).map fun length =>
        let name := String.ofList (name.map Char.toLower)
        let alone := name == "hr" || (dropBack? ['/', '>'] (rest.take length)).isSome
        ⟨name, closing, alone, length + 1⟩
    else none
  | _ => none

def nextOpen (opened : List String) (tag : Tag) : List String :=
  if tag.closing then
    if opened.contains tag.name then (opened.dropWhile (· != tag.name)).drop 1 else opened
  else if tag.alone then opened
  else tag.name :: opened

def closedAfter : List String → Nat → List Char → Nat
  | _, _, [] => 0
  | opened, skip + 1, _ :: text => 1 + closedAfter opened skip text
  | opened, 0, c :: text =>
    match tag? (c :: text) with
    | some tag =>
      if (nextOpen opened tag).isEmpty then tag.length
      else 1 + closedAfter (nextOpen opened tag) (tag.length - 1) text
    | none => 1 + closedAfter opened 0 text

def blankLineFollows (text : List Char) : Bool :=
  let afterLine? (text : List Char) := dropFront? ['\n'] (text.dropWhile (· == ' '))
  ((afterLine? text).bind afterLine?).isSome

def atFront? (text : List Char) : Option (Nat × Bool) :=
  match tag? text with
  | some tag =>
    if !tag.closing && blockNames.contains tag.name then
      let inner := if tag.alone then 0 else closedAfter [tag.name] 0 (text.drop tag.length)
      some (tag.length + inner, tag.alone)
    else none
  | none => none

/-- The mark for a block of markup: a block is known by the front of its first tag, which ends at a
space. -/
def markOf (block : List Char) : Char :=
  let name := (block.drop 1).takeWhile fun c => c != ' ' && c != '>'
  let name := (name.reverse.dropWhile (· == '/')).reverse
  if blockNames.contains (String.ofList (name.map Char.toLower)) then blockMark else inlineMark

/-- Takes out the blocks of markup. They begin at most three blanks behind the beginning of a line,
or on the line where another one ends: such a line is a `tail`. The marks that are in the text
already stand for `parts`. -/
def takeOut (parts : List (List Char)) (tail : Bool) (column : Nat) : Nat → List Char → Marked
  | _, [] => ⟨[], []⟩
  | skip + 1, _ :: text => takeOut parts tail column skip text
  | 0, c :: text =>
    match if tail || column ≤ 3 then atFront? (c :: text) else none with
    | some (length, alone) =>
      let block := (c :: text).take length
      let behind := (c :: text).drop length
      let block := if blankLineFollows behind then block ++ ['\n'] else block
      let rest := takeOut (parts.drop (block.filter isMark).length) true 4 (length - 1) text
      let before := if alone && 0 < column then [] else ['\n']
      ⟨before ++ markOf block :: '\n' :: '\n' :: rest.text, fill parts block :: rest.parts⟩
    | none =>
      if isMark c then
        let rest := takeOut (parts.drop 1) tail 4 0 text
        ⟨c :: rest.text, parts.take 1 ++ rest.parts⟩
      else
        let isLineEnd := c == '\n'
        let column := if isLineEnd then 0 else if c == ' ' then column + 1 else 4
        let rest := takeOut parts (tail && !isLineEnd) column 0 text
        ⟨c :: rest.text, rest.parts⟩

end Markup

def takeOut (text : List Char) : Marked :=
  let (marked, codes) := Fence.takeOut 0 (lines text)
  Markup.takeOut codes false 0 0 (joinWith ['\n'] marked)

end Refsite.Markdown
