namespace Refsite.Text

/-- The white space of Unicode: spaces, tabs, line and paragraph ends, and the four information
separators of ASCII. -/
def isBlank (c : Char) : Bool :=
  let n := c.toNat
  (9 ≤ n && n ≤ 13) || (28 ≤ n && n ≤ 32) || n == 0x85 || n == 0xA0 || n == 0x1680 ||
    (0x2000 ≤ n && n ≤ 0x200A) || n == 0x2028 || n == 0x2029 || n == 0x202F || n == 0x205F ||
    n == 0x3000

def stripLeft (s : List Char) : List Char := s.dropWhile isBlank

def stripRight (s : List Char) : List Char := (s.reverse.dropWhile isBlank).reverse

def strip (s : List Char) : List Char := stripRight (stripLeft s)

def dropFront? : (front text : List Char) → Option (List Char)
  | [], text => some text
  | _ :: _, [] => none
  | f :: front, c :: text => if f == c then dropFront? front text else none

def dropBack? (back text : List Char) : Option (List Char) :=
  (dropFront? back.reverse text.reverse).map List.reverse

def occursIn (part : List Char) : List Char → Bool
  | [] => part.isEmpty
  | c :: text => (dropFront? part (c :: text)).isSome || occursIn part text

def cutAt? (c : Char) : List Char → Option (List Char × List Char)
  | [] => none
  | d :: text =>
    if d == c then some ([], text)
    else (cutAt? c text).map fun (before, after) => (d :: before, after)

def splitAt (c : Char) : List Char → List (List Char)
  | [] => [[]]
  | d :: text =>
    if d == c then [] :: splitAt c text
    else match splitAt c text with
      | [] => [[d]]
      | piece :: pieces => (d :: piece) :: pieces

/-- Everything before the first `c`, or the whole text where there is none. -/
def upTo (c : Char) (text : List Char) : List Char := text.takeWhile (· != c)

/-- Everything after the last `c`, or the whole text where there is none. -/
def afterLast (c : Char) (text : List Char) : List Char := (upTo c text.reverse).reverse

def joinWith (sep : List Char) : List (List Char) → List Char
  | [] => []
  | [piece] => piece
  | piece :: pieces => piece ++ sep ++ joinWith sep pieces

/-- Replaces the leftmost occurrences that `found?` recognises at the head of a text. It answers
with the new text and the number of characters that this replaces; `skip` of those are still to be
passed over. -/
def substituteAfter (found? : List Char → Option (List Char × Nat)) : Nat → List Char → List Char
  | _, [] => []
  | skip + 1, _ :: text => substituteAfter found? skip text
  | 0, c :: text =>
    match found? (c :: text) with
    | some (new, length) => new ++ substituteAfter found? (length - 1) text
    | none => c :: substituteAfter found? 0 text

def substitute (found? : List Char → Option (List Char × Nat)) (text : List Char) : List Char :=
  substituteAfter found? 0 text

def replaceAll (old new : List Char) (text : List Char) : List Char :=
  substitute (fun rest => (dropFront? old rest).map fun _ => (new, old.length)) text

def unixLines : List Char → List Char
  | [] => []
  | '\r' :: '\n' :: text => '\n' :: unixLines text
  | '\r' :: text => '\n' :: unixLines text
  | c :: text => c :: unixLines text

def lines (text : List Char) : List (List Char) := splitAt '\n' text

def le (a b : String) : Bool := a == b || a < b

end Refsite.Text

namespace Refsite

def onChars (f : List Char → List Char) (s : String) : String := String.ofList (f s.toList)

end Refsite
