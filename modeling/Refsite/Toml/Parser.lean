import Refsite.Toml.Number
import Refsite.Toml.Quoted
import Refsite.Toml.Table
namespace Refsite.Toml

/-- The text behind a comment, which ends with its line. -/
def skipComment (text : List Char) : Option (List Char) :=
  match text with
  | '#' :: rest =>
    let comment := rest.takeWhile (· != '\n')
    if comment.any (isForbidden false) then none else some (rest.drop comment.length)
  | _ => some text

def skipGaps : (fuel : Nat) → List Char → Option (List Char)
  | 0, text => some text
  | fuel + 1, text =>
    match text.dropWhile isGapMark with
    | '#' :: rest => (skipComment ('#' :: rest)).bind (skipGaps fuel)
    | rest => some rest

def skipAllGaps (text : List Char) : Option (List Char) := skipGaps text.length.succ text

mutual

def value : (fuel : Nat) → List Char → Except Fault (Json × List Char)
  | 0, _ => .error .malformed
  | fuel + 1, text =>
    match text with
    | [] => .error .malformed
    | '"' :: _ | '\'' :: _ => part ((string text).map fun r => (.string r.1, r.2))
    | 't' :: 'r' :: 'u' :: 'e' :: rest => .ok (.bool true, rest)
    | 'f' :: 'a' :: 'l' :: 's' :: 'e' :: rest => .ok (.bool false, rest)
    | '[' :: rest => do
      match ← skipAllGaps rest with
      | ']' :: rest => return (.array [], rest)
      | rest =>
        let (items, rest) ← items fuel rest
        return (.array items, rest)
    | '{' :: rest =>
      match skipBlanks rest with
      | '}' :: rest => .ok (.object [], rest)
      | rest => (inLine fuel [] [] rest).map fun r => (.object r.1, r.2)
    | _ => moment text

def items : (fuel : Nat) → List Char → Except Fault (List Json × List Char)
  | 0, _ => .error .malformed
  | fuel + 1, text => do
    let (x, text) ← value fuel text
    match ← skipAllGaps text with
    | ']' :: text => return ([x], text)
    | ',' :: text =>
      match ← skipAllGaps text with
      | ']' :: text => return ([x], text)
      | text =>
        let (rest, text) ← items fuel text
        return (x :: rest, text)
    | _ => .error .malformed

def inLine : (fuel : Nat) → Json.Entries → Marks → List Char →
    Except Fault (Json.Entries × List Char)
  | 0, _, _, _ => .error .malformed
  | fuel + 1, es, marks, text => do
    let (key, x, text) ← entry fuel text
    let (es, marks) ← addInLine key x es marks
    match skipBlanks text with
    | '}' :: text => return (es, text)
    | ',' :: text => inLine fuel es marks (skipBlanks text)
    | _ => .error .malformed

def entry : (fuel : Nat) → List Char → Except Fault (Key × Json × List Char)
  | 0, _ => .error .malformed
  | fuel + 1, text => do
    let (key, text) ← key text.length.succ text
    match text with
    | '=' :: text =>
      let (x, text) ← value fuel (skipBlanks text)
      return (key, x, text)
    | _ => .error .malformed

end

/-- The end of a line behind its statement: blanks, a comment and a line feed. -/
def lineEnd (text : List Char) : Option (List Char) := do
  match ← skipComment (skipBlanks text) with
  | [] => return []
  | '\n' :: text => return text
  | _ => none

def statement (d : Document) (text : List Char) : Except Fault (Document × List Char) :=
  match text with
  | '[' :: '[' :: rest => do
    let (key, rest) ← key rest.length.succ (skipBlanks rest)
    match rest with
    | ']' :: ']' :: rest => return (← d.settle.declareListed key, rest)
    | _ => .error .malformed
  | '[' :: rest => do
    let (key, rest) ← key rest.length.succ (skipBlanks rest)
    match rest with
    | ']' :: rest => return (← d.settle.declareTable key, rest)
    | _ => .error .malformed
  | '#' :: _ => .ok (d, text)
  | _ => do
    let (key, x, rest) ← entry (2 * text.length).succ text
    return (← d.addValue key x, rest)

def statements : (fuel : Nat) → Document → List Char → Except Fault Document
  | 0, _, _ => .error .malformed
  | fuel + 1, d, text =>
    match skipBlanks text with
    | [] => .ok d
    | '\n' :: text => statements fuel d text
    | text => do
      let (d, text) ← statement d text
      statements fuel d (← lineEnd text)

def plainLineEnds : List Char → List Char
  | '\r' :: '\n' :: text => '\n' :: plainLineEnds text
  | c :: text => c :: plainLineEnds text
  | [] => []

def parse (text : List Char) : Except Fault Json :=
  let text := plainLineEnds text
  (statements text.length.succ .empty text).map fun d => .object d.tables

end Refsite.Toml
