import Refsite.Text.Digit
namespace Refsite.Toml

open Refsite.Text (hexNumber?)

/-- A control character that is neither a tab nor, where lines may end, a line feed. -/
def isForbidden (linesEnd : Bool) (c : Char) : Bool :=
  (c.toNat < 32 || c.toNat == 127) && c != '\t' && !(linesEnd && c == '\n')

def isBlankMark (c : Char) : Bool := c == ' ' || c == '\t'

def skipBlanks (text : List Char) : List Char := text.dropWhile isBlankMark

def isGapMark (c : Char) : Bool := isBlankMark c || c == '\n'

def codePoint (width : Nat) (text : List Char) : Option (Char × List Char) := do
  let digits := text.take width
  if digits.length < width then none
  let n ← hexNumber? 0 digits
  if n < 0xD800 || (0xE000 ≤ n && n < 0x110000) then return (Char.ofNat n, text.drop width)
  else none

def escape : List Char → Option (Char × List Char)
  | 'u' :: text => codePoint 4 text
  | 'U' :: text => codePoint 8 text
  | 'b' :: text => some ('\x08', text)
  | 't' :: text => some ('\t', text)
  | 'n' :: text => some ('\n', text)
  | 'f' :: text => some ('\x0c', text)
  | 'r' :: text => some ('\r', text)
  | '"' :: text => some ('"', text)
  | '\\' :: text => some ('\\', text)
  | _ => none

/-- What follows a backslash at the end of a line: the blanks and line ends there are left out. -/
def lineJoint (text : List Char) : Option (List Char) :=
  match text with
  | c :: _ =>
    if !isGapMark c then none
    else
      match skipBlanks text with
      | [] => some []
      | '\n' :: rest => some (rest.dropWhile isGapMark)
      | _ => none
  | [] => none

/-- The characters of a string up to its closing marks, which are dropped. -/
def basicRest (linesEnd : Bool) : (fuel : Nat) → (done : List Char) → List Char →
    Option (List Char × List Char)
  | 0, _, _ => none
  | _, _, [] => none
  | fuel + 1, done, '"' :: text =>
    if !linesEnd then some (done.reverse, text)
    else
      match text with
      | '"' :: '"' :: text => some (done.reverse, text)
      | _ => basicRest linesEnd fuel ('"' :: done) text
  | fuel + 1, done, '\\' :: text =>
    match if linesEnd then lineJoint text else none with
    | some text => basicRest linesEnd fuel done text
    | none =>
      match escape text with
      | some (c, text) => basicRest linesEnd fuel (c :: done) text
      | none => none
  | fuel + 1, done, c :: text =>
    if isForbidden linesEnd c then none else basicRest linesEnd fuel (c :: done) text

def literalRest (linesEnd : Bool) : (done : List Char) → List Char → Option (List Char × List Char)
  | _, [] => none
  | done, '\'' :: text =>
    if !linesEnd then some (done.reverse, text)
    else
      match text with
      | '\'' :: '\'' :: text => some (done.reverse, text)
      | _ => literalRest linesEnd ('\'' :: done) text
  | done, c :: text =>
    if isForbidden linesEnd c then none else literalRest linesEnd (c :: done) text

def extraMarks (mark : Char) (content text : List Char) : List Char × List Char :=
  match text with
  | c :: d :: rest =>
    if c == mark then
      if d == mark then (content ++ [mark, mark], rest) else (content ++ [mark], d :: rest)
    else (content, text)
  | [c] => if c == mark then (content ++ [mark], []) else (content, text)
  | [] => (content, [])

def dropLineFeed : List Char → List Char
  | '\n' :: text => text
  | text => text

def string (text : List Char) : Option (String × List Char) :=
  let plain (r : List Char × List Char) := (String.ofList r.1, r.2)
  match text with
  | '"' :: '"' :: '"' :: text =>
    (basicRest true text.length.succ [] (dropLineFeed text)).map fun r =>
      plain (extraMarks '"' r.1 r.2)
  | '"' :: text => (basicRest false text.length.succ [] text).map plain
  | '\'' :: '\'' :: '\'' :: text =>
    (literalRest true [] (dropLineFeed text)).map fun r => plain (extraMarks '\'' r.1 r.2)
  | '\'' :: text => (literalRest false [] text).map plain
  | _ => none

def isBareMark (c : Char) : Bool := c.isAlphanum || c == '-' || c == '_'

def keyPart (text : List Char) : Option (String × List Char) :=
  match text with
  | '"' :: text => (basicRest false text.length.succ [] text).map fun r => (String.ofList r.1, r.2)
  | '\'' :: text => (literalRest false [] text).map fun r => (String.ofList r.1, r.2)
  | _ =>
    let bare := text.takeWhile isBareMark
    if bare.isEmpty then none else some (String.ofList bare, text.drop bare.length)

def key : (fuel : Nat) → List Char → Option (List String × List Char)
  | 0, _ => none
  | fuel + 1, text => do
    let (part, text) ← keyPart text
    match skipBlanks text with
    | '.' :: text =>
      let (parts, text) ← key fuel (skipBlanks text)
      return (part :: parts, text)
    | text => return ([part], text)

end Refsite.Toml
