import Refsite.Markdown.Span
import Refsite.Text.Word
namespace Refsite.Markdown

open Refsite.Text

namespace Span

/-- Replaces the leftmost pieces that `found?` recognises, given the span before them. It answers
with the new spans and the number of spans that these replace; `skip` of those are still to be
passed over. -/
def substituteAfter (found? : Option Span → List Span → Option (List Span × Nat)) :
    Option Span → Nat → List Span → List Span
  | _, _, [] => []
  | before, skip + 1, _ :: spans => substituteAfter found? before skip spans
  | before, 0, span :: spans =>
    match found? before (span :: spans) with
    | some (new, length) => new ++ substituteAfter found? new.getLast? (length - 1) spans
    | none => span :: substituteAfter found? (some span) 0 spans

def substitute (found? : Option Span → List Span → Option (List Span × Nat))
    (spans : List Span) : List Span :=
  substituteAfter found? none 0 spans

def dropMarks? (mark : Char) : Nat → List Span → Option (List Span)
  | 0, spans => some spans
  | count + 1, span :: spans => if span.isChar mark then dropMarks? mark count spans else none
  | _ + 1, [] => none

def startsWith (mark : Char) (spans : List Span) : Bool := (dropMarks? mark 1 spans).isSome

def isWordEnd : Option Span → Bool
  | some (.char c) => !isWord c
  | _ => true

/-- The shortest front part whose rest `ends?` accepts, and what it makes of that rest. It is told
the span before the rest. -/
def shortest? {α : Type} (ends? : Option Span → List Span → Option α) :
    Option Span → List Span → Option (List Span × α)
  | before, spans =>
    match ends? before spans with
    | some result => some ([], result)
    | none =>
      match spans with
      | [] => none
      | span :: spans =>
        (shortest? ends? (some span) spans).map fun (part, result) => (span :: part, result)

def shortestPart? {α : Type} (ends? : Option Span → List Span → Option α) :
    List Span → Option (List Span × α)
  | [] => none
  | span :: spans =>
    (shortest? ends? (some span) spans).map fun (part, result) => (span :: part, result)

end Span

open Refsite.Markdown.Span

/-- What a form makes of the text at its head, once it is told how to treat its content, and the
rest of the text. -/
abbrev Stressed := ((List Span → List Span) → Span) × List Span

abbrev StressForm := Option Span → List Span → Option Stressed

namespace StressForm

def strongOverEmphasis : StressForm := fun _ spans => do
  let spans ← dropMarks? '_' 3 spans
  let (inner, outer, rest) ← shortestPart?
    (fun _ spans => do shortest? (fun _ => dropMarks? '_' 2) none (← dropMarks? '_' 1 spans))
    spans
  return (fun within => .strong (.emphasis (within inner) :: within outer), rest)

def emphasisOverStrong : StressForm := fun _ spans => do
  let spans ← dropMarks? '_' 3 spans
  let (inner, outer, rest) ← shortestPart?
    (fun _ spans => do shortest? (fun _ => dropMarks? '_' 1) none (← dropMarks? '_' 2 spans))
    spans
  return (fun within => .emphasis (.strong (within inner) :: within outer), rest)

def wordsEnd? (count : Nat) (before : Option Span) (spans : List Span) : Option (List Span) := do
  let rest ← dropMarks? '_' count spans
  if (before.map (·.isChar '_')).getD false || !isWordEnd rest.head? then none
  return rest

def strongWithEmphasis : StressForm := fun before spans => do
  if !isWordEnd before then none
  let spans ← dropMarks? '_' 2 spans
  if startsWith '_' spans then none
  let (outer, inner, rest) ← shortestPart? (fun before spans => do
    if !isWordEnd before then none
    let spans ← dropMarks? '_' 1 spans
    if startsWith '_' spans then none
    shortestPart? (fun _ spans => do
      let rest ← dropMarks? '_' 3 spans
      if isWordEnd rest.head? then some rest else none) spans) spans
  return (fun within => .strong (within outer ++ [.emphasis (within inner)]), rest)

def strong : StressForm := fun before spans => do
  if !isWordEnd before then none
  let spans ← dropMarks? '_' 2 spans
  if startsWith '_' spans then none
  let (part, rest) ← shortestPart? (wordsEnd? 2) spans
  return (fun within => .strong (within part), rest)

def emphasis : StressForm := fun before spans => do
  if !isWordEnd before then none
  let spans ← dropMarks? '_' 1 spans
  if startsWith '_' spans then none
  let (part, rest) ← shortestPart? (wordsEnd? 1) spans
  return (fun within => .emphasis (within part), rest)

def forms : List StressForm :=
  [strongOverEmphasis, emphasisOverStrong, strongWithEmphasis, strong, emphasis]

def find? : List StressForm → Option Span → List Span → Option (List Span × Nat)
  | [], _, _ => none
  | form :: forms, before, spans =>
    match form before spans with
    | some (build, rest) => some ([build (substitute (find? forms))], spans.length - rest.length)
    | none => find? forms before spans

end StressForm

namespace Span

def stressWords : List Span → List Span := substitute (StressForm.find? StressForm.forms)

end Span

end Refsite.Markdown
