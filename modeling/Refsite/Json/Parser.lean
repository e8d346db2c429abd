import Refsite.Json.Basic
import Refsite.Text.Digit
namespace Refsite.Json

open Refsite.Text (hexNumber?)

/-- How integers outside 64 bits are read. -/
inductive WideIntegers where
  | exact
  | asFloats
  deriving DecidableEq, Repr

namespace Parser

def isSpace (c : Char) : Bool := c == ' ' || c == '\t' || c == '\n' || c == '\r'

def skipSpace (text : List Char) : List Char := text.dropWhile isSpace

def unit : List Char → Option (Nat × List Char)
  | a :: b :: c :: d :: text => (hexNumber? 0 [a, b, c, d]).map (·, text)
  | _ => none

/-- The character of a `\u` escape; a high surrogate needs its low partner right behind it. -/
def unicodeEscape (text : List Char) : Option (Char × List Char) := do
  let (high, text) ← unit text
  if 0xDC00 ≤ high && high < 0xE000 then none
  else if 0xD800 ≤ high && high < 0xDC00 then
    match text with
    | '\\' :: 'u' :: text => do
      let (low, text) ← unit text
      if 0xDC00 ≤ low && low < 0xE000 then
        return (Char.ofNat (0x10000 + (high - 0xD800) * 0x400 + (low - 0xDC00)), text)
      else none
    | _ => none
  else return (Char.ofNat high, text)

def simpleEscape? : Char → Option Char
  | '"' => some '"'
  | '\\' => some '\\'
  | '/' => some '/'
  | 'b' => some '\x08'
  | 'f' => some '\x0c'
  | 'n' => some '\n'
  | 'r' => some '\r'
  | 't' => some '\t'
  | _ => none

/-- The rest of a string after its opening mark; `done` holds its characters so far, backwards. -/
def stringRest : (fuel : Nat) → (done : List Char) → List Char → Option (String × List Char)
  | 0, _, _ => none
  | _, _, [] => none
  | _, done, '"' :: text => some (String.ofList done.reverse, text)
  | fuel + 1, done, '\\' :: 'u' :: text => do
    let (c, text) ← unicodeEscape text
    stringRest fuel (c :: done) text
  | fuel + 1, done, '\\' :: c :: text => do
    let c ← simpleEscape? c
    stringRest fuel (c :: done) text
  | fuel + 1, done, c :: text =>
    if c.toNat < 0x20 then none else stringRest fuel (c :: done) text

def digits (text : List Char) : List Char × List Char := text.span Char.isDigit

def number (digits : List Char) : Nat := digits.foldl (fun n c => 10 * n + (c.toNat - 48)) 0

def fraction : List Char → Option (Option (List Char) × List Char)
  | '.' :: text =>
    match digits text with
    | ([], _) => none
    | (ds, text) => some (some ds, text)
  | text => some (none, text)

def signedDigits (negative : Bool) (text : List Char) : Option (Option Int × List Char) :=
  match digits text with
  | ([], _) => none
  | (ds, text) => some (some (if negative then -(number ds : Int) else number ds), text)

def exponent : List Char → Option (Option Int × List Char)
  | 'e' :: text | 'E' :: text =>
    match text with
    | '+' :: text => signedDigits false text
    | '-' :: text => signedDigits true text
    | text => signedDigits false text
  | text => some (none, text)

def integer (wide : WideIntegers) (negative : Bool) (n : Nat) : Option Json :=
  let value : Int := if negative then -n else n
  if wide == .exact || isNarrowInt value then some (.int value)
  else (Binary64.ofDecimal? negative n 0).map .float

def unsigned (wide : WideIntegers) (negative : Bool) (text : List Char) :
    Option (Json × List Char) := do
  let (whole, text) := digits text
  if whole.isEmpty || (whole.head? == some '0' && whole.length > 1) then none
  else
    let (part, text) ← fraction text
    let (power, text) ← exponent text
    if part.isNone && power.isNone then
      return (← integer wide negative (number whole), text)
    else
      let part := part.getD []
      let scale : Int := power.getD 0 - part.length
      return (.float (← Binary64.ofDecimal? negative (number (whole ++ part)) scale), text)

def keyword : List Char → Option (Json × List Char)
  | 'n' :: 'u' :: 'l' :: 'l' :: text => some (.null, text)
  | 't' :: 'r' :: 'u' :: 'e' :: text => some (.bool true, text)
  | 'f' :: 'a' :: 'l' :: 's' :: 'e' :: text => some (.bool false, text)
  | _ => none

mutual

def value (wide : WideIntegers) : (fuel depth : Nat) → List Char → Option (Json × List Char)
  | 0, _, _ => none
  | fuel + 1, depth, text =>
    match skipSpace text with
    | '"' :: text => (stringRest (text.length + 1) [] text).map fun (s, text) => (.string s, text)
    | '[' :: text =>
      match depth, skipSpace text with
      | 0, _ => none
      | _ + 1, ']' :: text => some (.array [], text)
      | depth + 1, text => (items wide fuel depth text).map fun (xs, text) => (.array xs, text)
    | '{' :: text =>
      match depth, skipSpace text with
      | 0, _ => none
      | _ + 1, '}' :: text => some (.object [], text)
      | depth + 1, text =>
        (entries wide fuel depth [] text).map fun (es, text) => (.object es, text)
    | '-' :: text => unsigned wide true text
    | c :: text => if c.isDigit then unsigned wide false (c :: text) else keyword (c :: text)
    | [] => none

def items (wide : WideIntegers) : (fuel depth : Nat) → List Char → Option (List Json × List Char)
  | 0, _, _ => none
  | fuel + 1, depth, text => do
    let (x, text) ← value wide fuel depth text
    match skipSpace text with
    | ',' :: text =>
      let (xs, text) ← items wide fuel depth text
      return (x :: xs, text)
    | ']' :: text => return ([x], text)
    | _ => none

/-- The entries of an object that has at least one more, up to its closing brace, after those that
were read before. -/
def entries (wide : WideIntegers) :
    (fuel depth : Nat) → (done : Entries) → List Char → Option (Entries × List Char)
  | 0, _, _, _ => none
  | fuel + 1, depth, done, text =>
    match skipSpace text with
    | '"' :: text => do
      let (name, text) ← stringRest (text.length + 1) [] text
      match skipSpace text with
      | ':' :: text =>
        let (x, text) ← value wide fuel depth text
        let done := done.put name x
        match skipSpace text with
        | ',' :: text => entries wide fuel depth done text
        | '}' :: text => return (done, text)
        | _ => none
      | _ => none
    | _ => none

end

def depthLimit : Nat := 1024

end Parser

def parse? (wide : WideIntegers) (text : List Char) : Option Json := do
  let (x, rest) ← Parser.value wide (text.length + 1) Parser.depthLimit text
  if (Parser.skipSpace rest).isEmpty then some x else none

end Refsite.Json
