import Refsite.Markdown.Block
namespace Refsite.Markdown

open Refsite.Text

namespace Block

/-- What was read just before: it decides whether text is a paragraph of its own, and whether an
indented piece is code. -/
inductive Mode where
  | plain
  /-- In an item of a list without blank lines, where text stands directly in the item. -/
  | tight
  | loose
  | unindented
  deriving DecidableEq, Repr

/-- The block around the blocks that are read. -/
inductive Around where
  | item
  | list
  | other
  deriving DecidableEq, Repr

def indent : List Char := [' ', ' ', ' ', ' ']

def isIndented (text : List Char) : Bool := (dropFront? indent text).isSome

def depth (text : List Char) : Nat := (text.takeWhile (· == ' ')).length / 4

def unindent (count : Nat) (piece : List Char) : List Char :=
  joinWith ['\n'] <| (lines piece).map fun line =>
    (dropFront? (List.replicate (4 * count) ' ') line).getD line

def pieces : List Char → List (List Char)
  | [] => [[]]
  | '\n' :: '\n' :: text => [] :: pieces text
  | c :: text =>
    match pieces text with
    | [] => [[c]]
    | piece :: rest => (c :: piece) :: rest

def dropMargin (line : List Char) : List Char :=
  line.drop (min 3 (line.takeWhile (· == ' ')).length)

/-- A heading between number signs: its level and its text. A backslash that escapes nothing is in
no heading. -/
def headingOf? (line : List Char) : Option (Nat × List Char) :=
  let level := min 6 (line.takeWhile (· == '#')).length
  let rest := line.drop level
  let bare := (rest.reverse.dropWhile (· == '#')).reverse
  let endsInEscape := (bare.reverse.takeWhile (· == '\\')).length % 2 == 1
  if level == 0 || endsInEscape && bare.length == rest.length then none
  else some (level, strip (if endsInEscape then bare ++ ['#'] else bare))

def underlineOf? (line : List Char) : Option Nat :=
  let marks := (line.reverse.dropWhile (· == ' ')).reverse
  match marks with
  | [] => none
  | c :: _ =>
    if (c == '=' || c == '-') && marks.all (· == c) then some (if c == '=' then 1 else 2) else none

def underlined? : List (List Char) → Option (Nat × List Char × List (List Char))
  | line :: under :: behind => (underlineOf? under).map fun level => (level, strip line, behind)
  | _ => none

def isRule (line : List Char) : Bool :=
  let text := ((dropMargin line).reverse.dropWhile (· == ' ')).reverse
  match text with
  | mark :: _ =>
    ['-', '_', '*'].contains mark && text.all (fun c => c == mark || c == ' ') &&
      3 ≤ (text.filter (· == mark)).length && !occursIn [' ', ' ', ' '] text
  | [] => false

def itemOf? (line : List Char) : Option (Bool × List Char) :=
  let text := dropMargin line
  let digits := text.takeWhile Char.isDigit
  let (ordered, behind) :=
    match digits, text.drop digits.length with
    | _ :: _, '.' :: rest => (true, some rest)
    | [], mark :: rest => (false, if ['*', '+', '-'].contains mark then some rest else none)
    | _, _ => (false, none)
  match behind with
  | some (' ' :: rest) => some (ordered, rest.dropWhile (· == ' '))
  | _ => none

def isNestedItem (line : List Char) : Bool :=
  let spaces := (line.takeWhile (· == ' ')).length
  4 ≤ spaces && spaces ≤ 7 && (itemOf? (line.drop spaces)).isSome

/-- The items of a list: the text of each, and indented pieces that belong to the item before. -/
def itemsOf (piece : List Char) : List (List Char) :=
  ((lines piece).foldl add []).reverse
where
  add : List (List Char) → List Char → List (List Char)
    | items, line =>
      match itemOf? line, items with
      | some (_, text), _ => text :: items
      | none, [] => [line]
      | none, last :: items =>
        if isNestedItem line && !isIndented last then line :: last :: items
        else (last ++ '\n' :: line) :: items

def quotedLine? (line : List Char) : Option (List Char) :=
  match dropMargin line with
  | '>' :: ' ' :: rest | '>' :: rest => some rest
  | _ => none

/-- The lines before the first one that `found?` accepts, what it makes of that line, and the lines
behind it. -/
def cutAtLine? {α : Type} (found? : List Char → Option α) :
    List (List Char) → Option (List (List Char) × α × List (List Char))
  | [] => none
  | line :: rest =>
    match found? line with
    | some result => some ([], result, rest)
    | none => (cutAtLine? found? rest).map fun (before, result) => (line :: before, result)

def codeLines : List (List Char) → List (List Char) × List (List Char)
  | [] => ([], [])
  | line :: rest =>
    match dropFront? indent line with
    | some text => let (texts, behind) := codeLines rest; (text :: texts, behind)
    | none =>
      if (strip line).isEmpty then let (texts, behind) := codeLines rest; ([] :: texts, behind)
      else ([], line :: rest)

def addText (mode : Mode) (content : List Block) (text : List Char) : List Block :=
  if (strip text).isEmpty then content
  else if mode == .tight then
    match content, content.getLast? with
    | [.bare before], _ => [.bare (before ++ '\n' :: stripLeft text)]
    | _, some (.bare before) => content.dropLast ++ [.bare (before ++ '\n' :: text)]
    | [], _ => [.bare (stripLeft text)]
    | _, _ => content ++ [.bare ('\n' :: text)]
  else content ++ [.paragraph (stripLeft text)]

def loosen (content : List Block) : List Block :=
  let first : List Block := match content with
    | .bare text :: rest => .paragraph text :: rest
    | _ => content
  match first.getLast? with
  | some (.bare text) => first.dropLast ++ [.paragraph (stripLeft text)]
  | _ => first

def loosenFront : List Block → List Block
  | .bare text :: rest => .paragraph text :: rest
  | content => content

def isList : Block → Bool
  | .list _ _ => true
  | _ => false

def endsInNest (content : List Block) : Bool :=
  match content.getLast? with
  | some (.list _ _) | some (.item _) => true
  | _ => false

/-- How many indentations of a piece are those of the lists at the end of the content, counting from
`level`. -/
def levelWithin : Nat → Nat → Nat → List Block → Nat
  | 0, _, level, _ => level
  | fuel + 1, depth, level, content =>
    if depth ≤ level then level
    else
      match content.getLast? with
      | some (.list _ inner) => levelWithin fuel depth (level + 1) inner
      | some (.item inner) => levelWithin fuel depth level inner
      | _ => level

def afterBlank (content : List Block) (lineEnds : List Char) : List Block :=
  match content.getLast? with
  | some (.code text) => content.dropLast ++ [.code (text ++ lineEnds)]
  | _ => content

mutual

def read : Nat → Mode → Around → List Block → List (List Char) → List Block
  | 0, _, _, content, _ => content
  | _ + 1, _, _, content, [] => content
  | fuel + 1, mode, around, content, piece :: rest =>
    let last := content.getLast?
    let endsInList := (last.map isList).getD false
    let here := read fuel mode around
    match piece with
    | [] => here (afterBlank content ['\n', '\n']) rest
    | '\n' :: more => here (afterBlank content ['\n']) (if more.isEmpty then rest else more :: rest)
    | _ =>
      if isIndented piece && mode != .unindented && (around == .item || endsInList) then
        here (deepen fuel mode around content piece) rest
      else if isIndented piece then
        let (texts, behind) := codeLines (lines piece)
        let shown := stripRight (joinWith ['\n'] texts) ++ ['\n']
        let content := match last with
          | some (.code before) => content.dropLast ++ [.code (before ++ '\n' :: shown)]
          | _ => content ++ [.code shown]
        here content (if behind.isEmpty then rest else joinWith ['\n'] behind :: rest)
      else if let some found := Table.ofLines? (lines piece) then
        here (content ++ [.table found]) rest
      else if let some (before, (level, text), behind) := cutAtLine? headingOf? (lines piece) then
        let content := if before.isEmpty then content else here content [joinWith ['\n'] before]
        let behind := joinWith ['\n'] behind
        let behind := if mode == .loose then '\n' :: behind else behind
        here (content ++ [.heading level text]) (if behind.isEmpty then rest else behind :: rest)
      else if let some (level, text, behind) := underlined? (lines piece) then
        here (content ++ [.heading level text])
          (if behind.isEmpty then rest else joinWith ['\n'] behind :: rest)
      else if let some (before, _, behind) :=
          cutAtLine? (fun line => if isRule line then some () else none) (lines piece) then
        let content := if before.isEmpty then content else here content [joinWith ['\n'] before]
        here (content ++ [.rule]) (if behind.isEmpty then rest else joinWith ['\n'] behind :: rest)
      else if let some (ordered, _) := ((lines piece).head?.bind itemOf?) then
        here (listed fuel around content ordered (itemsOf piece)) rest
      else if let some (before, _, _) := cutAtLine? quotedLine? (lines piece) then
        let content := if before.isEmpty then content else here content [joinWith ['\n'] before]
        let quoted := ((lines piece).drop before.length).map fun line =>
          (quotedLine? line).getD line
        let inner := pieces (joinWith ['\n'] quoted)
        match content.getLast? with
        | some (.quote before) =>
          here (content.dropLast ++ [.quote (read fuel .plain .other before inner)]) rest
        | _ => here (content ++ [.quote (read fuel .plain .other [] inner)]) rest
      else here (addText mode content piece) rest

def deepen : Nat → Mode → Around → List Block → List Char → List Block
  | 0, _, _, content, _ => content
  | fuel + 1, mode, around, content, piece =>
    let start := if mode == .tight then 1 else 0
    let deep := depth piece
    let level := levelWithin (fuel + 1) deep start content
    let piece := unindent level piece
    match around, content.getLast? with
    | .item, some (.list ordered inner) =>
      content.dropLast ++ [.list ordered (read fuel .unindented .list inner [piece])]
    | .item, _ => read fuel .unindented .item content [piece]
    | _, _ => inLast fuel deep start content piece

def inLast : Nat → Nat → Nat → List Block → List Char → List Block
  | 0, _, _, content, _ => content
  | fuel + 1, deep, level, content, piece =>
    match content.getLast? with
    | some (.list ordered inner) =>
      let inner :=
        if level + 1 < deep && endsInNest inner then inLast fuel deep (level + 1) inner piece
        else match inner.getLast? with
          | some (.item within) =>
            inner.dropLast ++
              [.item (read fuel .unindented .item (loosenFront within) (pieces piece))]
          | _ => inner ++ [.item (read fuel .unindented .item [] [piece])]
      content.dropLast ++ [.list ordered inner]
    | some (.item within) =>
      let within :=
        if level < deep && endsInNest within then inLast fuel deep level within piece
        else read fuel .unindented .item within [piece]
      content.dropLast ++ [.item within]
    | _ => content

def listed : Nat → Around → List Block → Bool → List (List Char) → List Block
  | 0, _, content, _, _ => content
  | fuel + 1, around, content, ordered, items =>
    match content.getLast?, around with
    | some (.list ordered inner), _ =>
      let inner := match inner.getLast? with
        | some (.item within) => inner.dropLast ++ [.item (loosen within)]
        | _ => inner
      match items with
      | first :: others =>
        let inner := inner ++ [.item (read fuel .loose .item [] [first])]
        content.dropLast ++ [.list ordered (addItems fuel inner others)]
      | [] => content
    | _, .list => addItems fuel content items
    | _, _ => content ++ [.list ordered (addItems fuel [] items)]

def addItems : Nat → List Block → List (List Char) → List Block
  | 0, inner, _ => inner
  | _ + 1, inner, [] => inner
  | fuel + 1, inner, text :: others =>
    match isIndented text, inner.getLast? with
    | true, some (.item within) =>
      addItems fuel (inner.dropLast ++ [.item (read fuel .tight .item within [text])]) others
    | _, _ => addItems fuel (inner ++ [.item (read fuel .tight .item [] [text])]) others

end

end Block

end Refsite.Markdown
