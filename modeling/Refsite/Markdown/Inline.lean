import Refsite.Markdown.Star
import Refsite.Text.Basic
namespace Refsite.Markdown.Span

open Refsite.Text

/-- What precedes the first run of exactly `count` backticks, which stands behind some other mark.
-/
def upToTicks? (count : Nat) (text : List Span) : Option (List Span) :=
  (shortestPart? (fun before rest =>
    if (before.map (·.isChar tick)).getD false then none
    else
      match dropMarks? tick count rest with
      | some after => if startsWith tick after then none else some ()
      | none => none) text).map (·.1)

/-- Code between backticks, the number of which may be less than that of the run they begin. -/
def codeAt? (spans : List Span) : Nat → Option (List Span × Nat)
  | 0 => none
  | count + 1 =>
    match upToTicks? (count + 1) (spans.drop (count + 1)) with
    | some content => some ([.code (strip (plainText content))], content.length + 2 * (count + 1))
    | none => codeAt? spans count

/-- Backslashes before a run of backticks stand for half their number; backticks enclose code. -/
def codes : List Span → List Span :=
  substitute fun before spans =>
    if (before.map (·.isChar '\\')).getD false then none
    else
      let slashes := (spans.takeWhile (·.isChar '\\')).length
      if 0 < slashes then
        if slashes % 2 == 0 && startsWith tick (spans.drop slashes) then
          some (List.replicate (slashes / 2) (.literal '\\'), slashes)
        else none
      else codeAt? spans (spans.takeWhile (·.isChar tick)).length

def escapable : List Char := "\\\x60*_\x7b\x7d[]()>#+-.!|".toList

def escapes : List Span → List Span :=
  substitute fun _ spans =>
    match spans with
    | .char '\\' :: .char c :: _ => if escapable.contains c then some ([.literal c], 2) else none
    | _ => none

/-- The text up to the square bracket that closes the one before it, and the rest behind it; `depth`
more brackets are open. -/
def label? : Nat → List Span → Option (List Span × List Span)
  | _, [] => none
  | depth, span :: spans =>
    if span.isChar ']' then
      match depth with
      | 0 => some ([], spans)
      | depth + 1 => (label? depth spans).map fun (part, rest) => (span :: part, rest)
    else
      let depth := if span.isChar '[' then depth + 1 else depth
      (label? depth spans).map fun (part, rest) => (span :: part, rest)

structure Target where
  address : List Char
  title : Option (List Char)
  rest : List Span

def titleText (title : List Span) : List Char :=
  let text := strip (plainText title)
  let isQuote := text.head? == some '"' || text.head? == some '\''
  let bare := if isQuote && text.getLast? == text.head? then (text.drop 1).dropLast else text
  bare.map fun c => if isBlank c then ' ' else c

def closing? (spans : List Span) : Option (List Span) :=
  dropMarks? ')' 1 (spans.dropWhile isBlankChar)

def titled? (spans : List Span) : Option (List Char × List Span) :=
  match spans with
  | .char q :: spans =>
    if q == '"' || q == '\'' then
      let title := spans.takeWhile fun s => !s.isChar q
      ((dropMarks? q 1 (spans.drop title.length)).bind closing?).map fun rest =>
        (titleText title, rest)
    else none
  | _ => none

def bracketedAddress? (spans : List Span) : Option Target := do
  let spans ← dropMarks? '<' 1 spans
  let address := spans.takeWhile fun s => !(s.isChar '<' || s.isChar '>')
  let behind := (← dropMarks? '>' 1 (spans.drop address.length)).dropWhile isBlankChar
  match titled? behind with
  | some (title, rest) => return ⟨strip (plainText address), some title, rest⟩
  | none => return ⟨strip (plainText address), none, ← closing? behind⟩

/-- A quotation mark that a title may begin with. -/
structure Quotation where
  mark : Char
  start : Nat
  /-- The number of spans before the last mark of its kind behind it. -/
  stop : Option Nat
  deriving DecidableEq, Repr

/-- What was seen behind an opening bracket. The first quotation mark is taken for the beginning of
a title, the brackets in which do not count. -/
structure TargetScan where
  passed : Nat
  /-- The brackets that are open; behind a quotation mark, one less with each bracket. -/
  depth : Nat
  quotations : List Quotation
  last : Option Span
  /-- The place of the bracket that ends the address if no title does. -/
  fallback : Option Nat

namespace TargetScan

def title? (scan : TargetScan) : Option (Nat × Nat) :=
  scan.quotations.findSome? fun q => do
    if (← scan.last).isChar q.mark then return (q.start, ← q.stop) else none

def addQuotation (mark : Char) (place : Nat) (quotations : List Quotation) : List Quotation :=
  if quotations.any (·.mark == mark) then
    quotations.map fun q => if q.mark == mark then { q with stop := some place } else q
  else quotations ++ [⟨mark, place, none⟩]

def ends (scan : TargetScan) (span : Span) : Bool :=
  span.isChar ')' && (scan.title?.isSome || scan.quotations.isEmpty && scan.depth == 1)

def step (scan : TargetScan) (span : Span) : TargetScan :=
  let isOpening := span.isChar '('
  let isClosing := span.isChar ')'
  let inTitle := !scan.quotations.isEmpty
  { passed := scan.passed + 1
    depth :=
      if isOpening && !inTitle then scan.depth + 1
      else if isOpening || isClosing then scan.depth - 1
      else scan.depth
    quotations :=
      match span with
      | .char c =>
        if c == '"' || c == '\'' then addQuotation c scan.passed scan.quotations
        else scan.quotations
      | _ => scan.quotations
    last := if span.isChar ' ' then scan.last else some span
    fallback :=
      if inTitle && isClosing && scan.depth == 1 then some scan.passed else scan.fallback }

def run? : TargetScan → List Span → Option (TargetScan × Nat)
  | scan, [] => scan.fallback.map fun stop => (scan, stop)
  | scan, span :: spans =>
    if scan.ends span then some (scan, scan.passed) else run? (scan.step span) spans

end TargetScan

def address? (spans : List Span) : Option Target :=
  (TargetScan.run? ⟨0, 1, [], none, none⟩ spans).map fun (scan, stop) =>
    let rest := spans.drop (stop + 1)
    match scan.title? with
    | some (first, last) =>
      ⟨strip (plainText (spans.take first)),
        some (titleText ((spans.take last).drop (first + 1))), rest⟩
    | none => ⟨strip (plainText (spans.take stop)), none, rest⟩

def target? (spans : List Span) : Option Target := do
  let spans := (← dropMarks? '(' 1 spans).dropWhile isBlankChar
  bracketedAddress? spans <|> address? spans

def links (afterwards : List Span → List Span) : List Span → List Span :=
  substitute fun before spans => do
    if (before.map (·.isChar '!')).getD false then none
    let (content, behind) ← label? 0 (← dropMarks? '[' 1 spans)
    let target ← target? behind
    return ([.link target.address target.title (afterwards content)],
      spans.length - target.rest.length)

def images : List Span → List Span :=
  substitute fun _ spans => do
    let (alt, behind) ← label? 0 (← dropMarks? '[' 1 (← dropMarks? '!' 1 spans))
    let target ← target? behind
    return ([.image (plainText alt) target.address target.title], spans.length - target.rest.length)

def upToAngle? : List Span → Option (List Char)
  | .char '>' :: _ => some []
  | .char '<' :: _ => none
  | .char c :: spans | .literal c :: spans => (upToAngle? spans).map (c :: ·)
  | _ => none

def schemes : List (List Char) :=
  ["http://".toList, "https://".toList, "ftp://".toList, "ftps://".toList]

def bareLinks : List Span → List Span :=
  substitute fun _ spans => do
    let address ← upToAngle? (← dropMarks? '<' 1 spans)
    if schemes.any fun scheme => (dropFront? scheme (address.map Char.toLower)).isSome then
      some ([.link address none (address.map .literal)], address.length + 2)
    else none

def lineBreaks : List Span → List Span :=
  substitute fun _ spans =>
    match spans with
    | .char ' ' :: .char ' ' :: .char '\n' :: _ => some ([.lineBreak], 3)
    | _ => none

def tags : List Span → List Span :=
  substitute fun _ spans => do
    let inner ← upToAngle? (← dropMarks? '<' 1 spans)
    let name := (dropFront? ['/'] inner).getD inner
    if (name.head?.map Char.isAlpha).getD false && !(name.takeWhile (· != ' ')).contains '@' then
      some ([.markup ('<' :: inner ++ ['>'])], inner.length + 2)
    else none

def loneLines : List Span → List Span :=
  substitute fun before spans =>
    let isEdge (s : Option Span) := (s.map isBlankChar).getD true
    let count := (spans.takeWhile (·.isChar '_')).length
    if isEdge before && 0 < count && count ≤ 3 && isEdge (spans.drop count).head? then
      some (List.replicate count (.literal '_'), count)
    else none

def afterLinks (spans : List Span) : List Span :=
  stress (loneLines (tags (lineBreaks (bareLinks (images spans)))))

def read (text : List Char) : List Span :=
  afterLinks (links afterLinks (escapes (codes (ofText text))))

end Refsite.Markdown.Span
