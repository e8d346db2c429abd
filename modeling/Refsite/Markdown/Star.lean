import Refsite.Markdown.Emphasis
namespace Refsite.Markdown

open Refsite.Text

structure StarRun where
  count : Nat
  opens : Bool
  closes : Bool
  deriving DecidableEq, Repr

namespace StarRun

def spans (run : StarRun) : List Span := List.replicate run.count (.literal '*')

/-- Whether a part may stand between two runs. Runs of one length suit each other. A run that may
also close a part wants more stars than its own behind it; one that only opens wants a run that only
closes. -/
def suits (opener closer : StarRun) : Bool :=
  opener.count == closer.count ||
    if opener.closes then opener.count < closer.count else !closer.opens

/-- How many stars of the runs before and behind a part belong to it: two if both runs have them.
Of two runs with more than two stars, one star is taken first if that leaves pairs to the closing
run. -/
def shared (opener closer : StarRun) : Nat :=
  if 2 < opener.count && 2 < closer.count then 2 - closer.count % 2
  else min opener.count closer.count

end StarRun

inductive Starred where
  | run (run : StarRun)
  | text (span : Span)
  deriving Repr

namespace Starred

def isBlankEdge : Option Span → Bool
  | none | some .lineBreak => true
  | some span => span.isBlankChar

def isWordEdge : Option Span → Bool
  | some (.char c) => isWord c && c != '_'
  | _ => false

def faces (edge other : Option Span) : Bool :=
  !isBlankEdge edge && (isWordEdge edge || !isWordEdge other)

def runBetween (before : Option Span) (count : Nat) (behind : Option Span) : List Starred :=
  if count == 0 then [] else [.run ⟨count, faces behind before, faces before behind⟩]

def divide (before : Option Span) (count : Nat) : List Span → List Starred
  | [] => runBetween before count none
  | span :: spans =>
    if span.isChar '*' then divide before (count + 1) spans
    else runBetween before count (some span) ++ .text span :: divide (some span) 0 spans

end Starred

structure OpenRun where
  run : StarRun
  before : List Span

/-- What was read of a text: the open runs, the last one first, and the spans behind them, the last
one first. -/
structure StarReading where
  opened : List OpenRun
  behind : List Span

namespace StarReading

def part (count : Nat) (content : List Span) : Span :=
  if count == 1 then .emphasis content else .strong content

def close : (opened : List OpenRun) → (behind : List Span) → List Span
  | [], behind => behind
  | last :: opened, behind => close opened (behind ++ last.run.spans ++ last.before)

/-- Pairs a run with the nearest open run that suits it, and tells how many of its stars that takes.
The open runs between the two stand for themselves. -/
def pair? (within : List Span → List Span) (closer : StarRun) :
    (opened : List OpenRun) → (behind : List Span) → Option (StarReading × Nat)
  | [], _ => none
  | last :: opened, behind =>
    if last.run.suits closer then
      let count := last.run.shared closer
      let new := part count (within behind.reverse)
      some
        (if count < last.run.count then
          ⟨⟨{ last.run with count := last.run.count - count }, last.before⟩ :: opened, [new]⟩
        else ⟨opened, new :: last.before⟩, count)
    else pair? within closer opened (behind ++ last.run.spans ++ last.before)

def closeParts (within : List Span → List Span) :
    Nat → StarRun → StarReading → StarReading × Nat
  | 0, run, reading => (reading, run.count)
  | steps + 1, run, reading =>
    match if run.closes then pair? within run reading.opened reading.behind else none with
    | some (reading, count) =>
      if count < run.count then
        closeParts within steps { run with count := run.count - count } reading
      else (reading, 0)
    | none => (reading, run.count)

def addRun (within : List Span → List Span) (run : StarRun) (reading : StarReading) :
    StarReading :=
  let (reading, left) := closeParts within run.count run reading
  if run.opens && left == run.count then ⟨⟨run, reading.behind⟩ :: reading.opened, []⟩
  else { reading with behind := { run with count := left }.spans ++ reading.behind }

def add (within : List Span → List Span) (reading : StarReading) : Starred → StarReading
  | .run run => addRun within run reading
  | .text span => { reading with behind := span :: reading.behind }

end StarReading

namespace Span

def stressStars (within : List Span → List Span) (spans : List Span) : List Span :=
  let reading := (Starred.divide none 0 spans).foldl (StarReading.add within) ⟨[], []⟩
  (StarReading.close reading.opened reading.behind).reverse

def stress (spans : List Span) : List Span := stressWords (stressStars stressWords spans)

end Span

end Refsite.Markdown
