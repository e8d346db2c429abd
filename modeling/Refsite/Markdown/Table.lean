import Refsite.Markdown.Span
import Refsite.Text.Basic
namespace Refsite.Markdown

open Refsite.Text

inductive Alignment where
  | left
  | right
  | center
  deriving DecidableEq, Repr

structure Table where
  columns : List (Option Alignment)
  heads : List (List Char)
  rows : List (List (List Char))
  deriving Repr

namespace Table

def trim (text : List Char) : List Char :=
  ((text.dropWhile (· == ' ')).reverse.dropWhile (· == ' ')).reverse

/-- The number of characters up to the end of the next run of exactly `count` backticks. -/
def afterTicks? (count : Nat) : Nat → List Char → Option Nat
  | run, [] => if run == count then some 0 else none
  | run, c :: text =>
    if c == tick then (afterTicks? count (run + 1) text).map (· + 1)
    else if run == count then some 0
    else (afterTicks? count 0 text).map (· + 1)

/-- Cuts a row at its bars. A bar behind a backslash and one inside code are characters of a cell;
`skip` characters are known to be. -/
def cutAtBars : Nat → List Char → List (List Char)
  | _, [] => [[]]
  | skip + 1, c :: text => onFirst c (cutAtBars skip text)
  | 0, '|' :: text => [] :: cutAtBars 0 text
  | 0, '\\' :: text => onFirst '\\' (cutAtBars 1 text)
  | 0, c :: text =>
    let more := (text.takeWhile (· == tick)).length
    let inside :=
      if c == tick then more + ((afterTicks? (more + 1) 0 (text.drop more)).getD 0) else 0
    onFirst c (cutAtBars inside text)
where
  onFirst (c : Char) : List (List Char) → List (List Char)
    | [] => [[c]]
    | cell :: cells => (c :: cell) :: cells

def endsInBar (row : List Char) : Bool :=
  match row.reverse with
  | '|' :: front => (front.takeWhile (· == '\\')).length % 2 == 0
  | _ => false

def cells (bordered : Bool) (row : List Char) : List (List Char) :=
  if bordered then
    let row := (dropFront? ['|'] row).getD row
    cutAtBars 0 (if endsInBar row then row.dropLast else row)
  else cutAtBars 0 row

def alignment (cell : List Char) : Option Alignment :=
  let cell := trim cell
  match cell.head? == some ':', cell.getLast? == some ':' with
  | true, true => some .center
  | true, false => some .left
  | false, true => some .right
  | false, false => none

def fit (columns : Nat) (row : List (List Char)) : List (List Char) :=
  (row ++ List.replicate columns []).take columns |>.map trim

def ofLines? (block : List (List Char)) : Option Table :=
  match block with
  | head :: ruler :: rows =>
    let head := trim head
    let bordered := head.head? == some '|' || endsInBar head
    let heads := cells bordered head
    let marks := cells bordered (trim ruler)
    let isWide := 1 < heads.length
    let isNarrow :=
      bordered && heads.length == 1 &&
        (ruler :: rows).all fun row => (trim row).head? == some '|' || endsInBar (trim row)
    let isRuler := marks.all fun cell => cell.all ['|', ':', '-', ' '].contains
    if (isWide || isNarrow) && marks.length == heads.length && isRuler then
      some
        { columns := marks.map alignment
          heads := fit marks.length heads
          rows := rows.map fun row => fit marks.length (cells bordered (trim row)) }
    else none
  | _ => none

end Table

end Refsite.Markdown
