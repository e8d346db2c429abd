import Refsite.Decimal.Binary64
import Refsite.Json.Basic
import Refsite.Text.Digit
namespace Refsite.Toml

open Refsite.Text (hexValue?)

/-- Why a text is no document. -/
inductive Fault where
  | malformed
  | tooLongInteger
  deriving DecidableEq, Repr

def part {α : Type} : Option α → Except Fault α
  | some a => .ok a
  | none => .error .malformed

instance : MonadLift Option (Except Fault) := ⟨part⟩

def integerLimit : Nat := 4300

def strange : Json := .float ⟨false, 1, -1⟩

def groupedDigits (isDigit : Char → Bool) : List Char → List Char × List Char
  | c :: '_' :: d :: text =>
    if isDigit c then
      if isDigit d then
        let (more, rest) := groupedDigits isDigit (d :: text)
        (c :: more, rest)
      else ([c], '_' :: d :: text)
    else ([], c :: '_' :: d :: text)
  | c :: text =>
    if isDigit c then
      let (more, rest) := groupedDigits isDigit text
      (c :: more, rest)
    else ([], c :: text)
  | [] => ([], [])
termination_by text => text.length

def numberOf (base : Nat) (digits : List Char) : Nat :=
  digits.foldl (fun n c => base * n + (hexValue? c).getD 0) 0

def isBelow (base : Nat) (c : Char) : Bool :=
  match hexValue? c with
  | some n => n < base
  | none => false

def integerInBase (base : Nat) (text : List Char) : Option (Json × List Char) :=
  let (digits, rest) := groupedDigits (isBelow base) text
  if digits.isEmpty then none else some (.int (numberOf base digits), rest)

def fraction (text : List Char) : List Char × List Char :=
  match text with
  | '.' :: rest =>
    match groupedDigits Char.isDigit rest with
    | ([], _) => ([], text)
    | parts => parts
  | _ => ([], text)

def exponent (text : List Char) : Option Int × List Char :=
  let signed (negative : Bool) (rest : List Char) : Option Int × List Char :=
    match groupedDigits Char.isDigit rest with
    | ([], _) => (none, text)
    | (digits, rest) =>
      let n : Int := numberOf 10 digits
      (some (if negative then -n else n), rest)
  match text with
  | c :: rest =>
    if c == 'e' || c == 'E' then
      match rest with
      | '-' :: rest => signed true rest
      | '+' :: rest => signed false rest
      | rest => signed false rest
    else (none, text)
  | [] => (none, text)

/-- The whole part of a decimal number: a zero alone, or digits that start with another. -/
def wholePart (text : List Char) : Option (List Char × List Char) :=
  match text with
  | '0' :: rest => some (['0'], rest)
  | _ =>
    let (digits, rest) := groupedDigits Char.isDigit text
    if digits.isEmpty then none else some (digits, rest)

def decimal (negative : Bool) (text : List Char) : Except Fault (Json × List Char) := do
  let (whole, text) ← wholePart text
  let (part, text) := fraction text
  let (power, text) := exponent text
  if part.isEmpty && power.isNone then
    if integerLimit < whole.length then throw .tooLongInteger
    let n : Int := numberOf 10 whole
    return (.int (if negative then -n else n), text)
  else
    let scale := power.getD 0 - part.length
    return (((Binary64.ofDecimal? negative (numberOf 10 (whole ++ part)) scale).map
      Json.float).getD strange, text)

def number (text : List Char) : Except Fault (Json × List Char) :=
  let based := match text with
    | '0' :: 'x' :: rest => integerInBase 16 rest
    | '0' :: 'b' :: rest => integerInBase 2 rest
    | '0' :: 'o' :: rest => integerInBase 8 rest
    | _ => none
  match based with
  | some result => .ok result
  | none =>
    match text with
    | '-' :: rest => decimal true rest
    | '+' :: rest => decimal false rest
    | _ => decimal false text

def specialNumber (text : List Char) : Option (Json × List Char) :=
  let unsigned := match text with
    | '-' :: rest => rest
    | '+' :: rest => rest
    | _ => text
  match unsigned with
  | 'i' :: 'n' :: 'f' :: rest => some (strange, rest)
  | 'n' :: 'a' :: 'n' :: rest => some (strange, rest)
  | _ => none

def clipped (width low high : Nat) (text : List Char) : Option (Nat × List Char) :=
  let digits := text.take width
  let n := numberOf 10 digits
  if digits.length == width && digits.all Char.isDigit && low ≤ n && n ≤ high then
    some (n, text.drop width)
  else none

def mark (c : Char) : List Char → Option (List Char)
  | d :: text => if d == c then some text else none
  | [] => none

def time (text : List Char) : Option (List Char) := do
  let (_, text) ← clipped 2 0 23 text
  let (_, text) ← clipped 2 0 59 (← mark ':' text)
  let (_, text) ← clipped 2 0 59 (← mark ':' text)
  match text with
  | '.' :: c :: rest => if c.isDigit then return rest.dropWhile Char.isDigit else return text
  | _ => return text

/-- The distance from universal time, which may be left out. -/
def zone (text : List Char) : List Char :=
  match text with
  | 'Z' :: rest | 'z' :: rest => rest
  | c :: rest =>
    if c == '+' || c == '-' then
      (do
        let (_, rest) ← clipped 2 0 23 rest
        let (_, rest) ← clipped 2 0 59 (← mark ':' rest)
        return rest : Option (List Char)).getD text
    else text
  | [] => []

def daysIn (year month : Nat) : Nat :=
  if month == 2 then
    if (year % 4 == 0 && year % 100 != 0) || year % 400 == 0 then 29 else 28
  else if [4, 6, 9, 11].contains month then 30
  else 31

def date (text : List Char) : Option (Bool × List Char) := do
  let (year, text) ← clipped 4 0 9999 text
  let (month, text) ← clipped 2 1 12 (← mark '-' text)
  let (day, text) ← clipped 2 1 31 (← mark '-' text)
  return (1 ≤ year && day ≤ daysIn year month, text)

def dateTime (text : List Char) : Option (Bool × List Char) := do
  let (isDay, text) ← date text
  match text with
  | c :: rest =>
    if c == 'T' || c == 't' || c == ' ' then
      match time rest with
      | some rest => return (isDay, zone rest)
      | none => return (isDay, text)
    else return (isDay, text)
  | [] => return (isDay, [])

/-- A date, a time or a number at the front of a text; a date that is no day is none of them. -/
def moment (text : List Char) : Except Fault (Json × List Char) :=
  match dateTime text with
  | some (true, rest) => .ok (strange, rest)
  | some (false, _) => .error .malformed
  | none =>
    match (time text).map (fun rest => (strange, rest)) |>.or (specialNumber text) with
    | some result => .ok result
    | none => number text

end Refsite.Toml
