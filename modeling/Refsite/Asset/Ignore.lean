import Refsite.Disk.Path
import Refsite.Text.CharSet
namespace Refsite

open Refsite.Text

inductive IgnoreError where
  | emptyRule
  /-- A range of characters has its ends the wrong way round. -/
  | reversedRange
  | emptySet
  /-- A file asked about does not lie below the ignore file's directory. -/
  | outside
  deriving DecidableEq, Repr

namespace Ignore

/-- The pieces of a rule. A slash is a character of its own and not among any others. -/
inductive Piece where
  | anyName
  | anyText
  | anyDirectories
  | anyChar
  | char (c : Char)
  | oneOf (set : CharSet)
  | manyOf (set : CharSet)
  deriving DecidableEq, Repr

inductive Ending where
  | atEnd
  | atEndOrSlash
  | slashAtEnd
  deriving DecidableEq, Repr

structure Rule where
  negated : Bool
  /-- The pieces stand at the front of the path; otherwise they may stand behind any slash. -/
  anchored : Bool
  pieces : List Piece
  ending : Ending
  deriving DecidableEq, Repr

def starsAt (text : List Char) : Nat := (text.takeWhile (· == '*')).length

def joinStarsBehind : List Char → List Char :=
  substitute fun text =>
    match text with
    | c :: rest =>
      let stars := starsAt rest
      if c != '/' && 2 ≤ stars then some ([c, '*'], 1 + stars) else none
    | [] => none

def joinStarsBefore : List Char → List Char :=
  substitute fun text =>
    let stars := starsAt text
    if stars < 2 then none
    else
      match (text.drop stars).head? with
      | some '/' | none => if 3 ≤ stars then some (['*', '*'], stars) else none
      | some c => some (['*', c], stars + 1)

/-- The text without the blanks at its end, of which a backslash keeps the one behind it. The first
two characters are never dropped. The text before the place in question stands backwards. -/
def trimBlanks : (dropping : Bool) → (before after : List Char) → List Char
  | dropping, ' ' :: x :: y :: before, after =>
    if x == '\\' then trimBlanks false (y :: before) (' ' :: after)
    else if dropping then trimBlanks true (x :: y :: before) []
    else trimBlanks false (x :: y :: before) (' ' :: after)
  | _, before, after => before.reverse ++ after
termination_by _ before => before.length

def setOf (inner : List Char) : Except IgnoreError CharSet :=
  match inner.filter (· != '/') with
  | [] => .error .emptyRule
  | text => .ok (CharSet.ofText text)

def piecesOf : List Char → Except IgnoreError (List Piece)
  | [] => .ok []
  | '*' :: '*' :: '/' :: text => (piecesOf text).map (.anyDirectories :: ·)
  | '*' :: '*' :: text => (piecesOf text).map (.anyText :: ·)
  | '*' :: text => (piecesOf text).map (.anyName :: ·)
  | '?' :: text => (piecesOf text).map (.anyChar :: ·)
  | '[' :: text =>
    match h : CharSet.cut? text with
    | some (inner, rest) =>
      have := CharSet.length_of_cut? h
      (setOf inner).bind fun set => (piecesOf rest).map (.oneOf set :: ·)
    | none => (piecesOf text).map (.char '[' :: ·)
  | c :: text => (piecesOf text).map (.char c :: ·)
termination_by text => text.length

def isOpen (set : CharSet) : Bool := set.negated && set.ranges.isEmpty

def marksOf : Piece → List Char
  | .anyName | .anyChar => ['[', '^', '/']
  | .anyText => ['.', '*']
  | .anyDirectories => ['(', '.', '*', '/', ')', '?']
  | .char c => [c]
  | .oneOf set | .manyOf set =>
    '[' :: (if set.negated then ['^'] else []) ++ CharSet.textOf set.ranges

def single (marks : List Char) : CharRanges := marks.map fun c => (c, c)

/-- The set of a text of marks up to the first closing bracket among them; what is left of them
stands for itself, the last closing bracket included. -/
def closing (ranges : CharRanges) (marks : List Char) : List Piece :=
  let front := marks.takeWhile (· != ']')
  let set : CharSet := ⟨true, ranges ++ CharSet.rangesOf front⟩
  match marks.drop front.length with
  | [] => [.oneOf set]
  | _ :: rest => .oneOf set :: (rest ++ [']']).map .char

/-- Closes the sets that leave out nothing: such a set leaves out the marks of all that follows it,
up to the closing bracket of the next piece that has one. `opened` is what it leaves out so far. -/
def closeSets : (opened : Option CharRanges) → List Piece → Except IgnoreError (List Piece)
  | none, [] => .ok []
  | some _, [] => .error .emptySet
  | none, piece :: pieces =>
    match piece with
    | .oneOf set =>
      if isOpen set then closeSets (some (single [']'])) pieces
      else (closeSets none pieces).map (piece :: ·)
    | _ => (closeSets none pieces).map (piece :: ·)
  | some ranges, piece :: pieces =>
    let wider := ranges ++ single (marksOf piece)
    match piece with
    | .anyName | .manyOf _ => (closeSets none pieces).map (.manyOf ⟨true, wider⟩ :: ·)
    | .anyChar => (closeSets none pieces).map (.oneOf ⟨true, wider⟩ :: ·)
    | .oneOf _ => (closeSets none pieces).map (closing ranges (marksOf piece) ++ ·)
    | .anyText | .anyDirectories | .char _ => closeSets (some wider) pieces

def hasReversed : Piece → Bool
  | .oneOf set | .manyOf set => set.hasReversed
  | _ => false

def checkedPieces (pattern : List Char) : Except IgnoreError (List Piece) := do
  let pieces ← closeSets none (← piecesOf pattern)
  if pieces.any hasReversed then .error .reversedRange else return pieces

def dropSlash : List Char → List Char
  | '/' :: text => text
  | text => text

def nonempty (text : List Char) : Except IgnoreError (List Char) :=
  if text.isEmpty then .error .emptyRule else .ok text

def unescape : List Char → Except IgnoreError (List Char)
  | ['\\'] => .error .emptyRule
  | '\\' :: '#' :: text => .ok ('#' :: text)
  | '\\' :: '!' :: text => .ok ('!' :: text)
  | text => .ok text

def ruleOf (negated : Bool) (pattern : List Char) : Except IgnoreError Rule := do
  let pattern ← nonempty pattern
  let forDirectories := pattern.getLast? == some '/'
  let anchored := pattern.dropLast.contains '/'
  let pattern := dropSlash pattern
  let (anchored, pattern) := match pattern with
    | '*' :: '*' :: rest => (false, rest)
    | _ => (anchored, pattern)
  let pattern ← nonempty pattern
  let pattern ← nonempty (dropSlash pattern)
  let pattern ← nonempty (dropSlash pattern.reverse).reverse
  let pattern ← unescape pattern
  let pieces ← checkedPieces (trimBlanks true pattern.reverse [])
  return {
    negated, anchored, pieces
    ending :=
      if !forDirectories then .atEnd else if negated then .slashAtEnd else .atEndOrSlash }

def ruleOfLine (line : List Char) : Except IgnoreError (Option Rule) :=
  if (strip line).isEmpty || line.head? == some '#' then .ok none
  else
    let (negated, pattern) := match line with
      | '!' :: rest => (true, rest)
      | rest => (false, rest)
    let pattern := joinStarsBefore (joinStarsBehind pattern)
    if stripRight pattern == ['/'] then .ok none else (ruleOf negated pattern).map some

def isEnd (text : List Char) : Bool := text == [] || text == ['\n']

def Ending.fits : Ending → List Char → Bool
  | atEnd, text => isEnd text
  | atEndOrSlash, text => isEnd text || text.head? == some '/'
  | slashAtEnd, text =>
    match text with
    | '/' :: rest => isEnd rest
    | _ => false

/-- Whether a piece that goes on as long as `goesOn` holds, and what follows it, describe each rest
of a text; `next` says the same of what follows it. -/
def beforeMany (goesOn : Char → Bool) : (text : List Char) → (next : List Bool) → List Bool
  | c :: text, here :: next =>
    let later := beforeMany goesOn text next
    (here || (goesOn c && later.headD false)) :: later
  | _, next => next

def beforeOne (accepts : Char → Bool) : (text : List Char) → (next : List Bool) → List Bool
  | c :: text, _ :: next => (accepts c && next.headD false) :: beforeOne accepts text next
  | _, next => next.map fun _ => false

def before (piece : Piece) (text : List Char) (next : List Bool) : List Bool :=
  match piece with
  | .anyName => beforeMany (· != '/') text next
  | .anyText => beforeMany (· != '\n') text next
  | .anyDirectories =>
    let behindSlash := beforeMany (· != '\n') text (beforeOne (· == '/') text next)
    next.zipWith (fun here behind => here || behind) behindSlash
  | .anyChar => beforeOne (· != '/') text next
  | .char c => beforeOne (· == c) text next
  | .oneOf set => beforeOne set.contains text next
  | .manyOf set => beforeMany set.contains text next

def endingRests (ending : Ending) : List Char → List Bool
  | [] => [ending.fits []]
  | c :: text => ending.fits (c :: text) :: endingRests ending text

def fitsRests (ending : Ending) : List Piece → List Char → List Bool
  | [], text => endingRests ending text
  | piece :: pieces, text => before piece text (fitsRests ending pieces text)

def fitsBehindSlash : (text : List Char) → (rests : List Bool) → Bool
  | c :: text, _ :: rests => (c == '/' && rests.headD false) || fitsBehindSlash text rests
  | _, _ => false

def Rule.fits (r : Rule) (path : List Char) : Bool :=
  let rests := fitsRests r.ending r.pieces path
  rests.headD false || (!r.anchored && fitsBehindSlash path rests)

end Ignore

/-- The rules of an ignore file and its directory. -/
structure Ignore where
  base : Path
  rules : List Ignore.Rule
  deriving DecidableEq, Repr

namespace Ignore

def read (base : Path) (text : List Char) : Except IgnoreError Ignore := do
  let rules ← (lines (unixLines text)).mapM ruleOfLine
  return ⟨base.tidy, rules.filterMap id⟩

def ignores (i : Ignore) (p : Path) : Except IgnoreError Bool :=
  if i.rules.isEmpty then .ok false
  else
    match i.base.relativeTo? p.tidy with
    | none => .error .outside
    | some names =>
      let path := ("/".intercalate names).toList
      .ok (((i.rules.reverse.find? (·.fits path)).map fun r => !r.negated).getD false)

end Ignore

end Refsite
