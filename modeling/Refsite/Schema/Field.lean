import Refsite.Json.Basic
import Refsite.Schema.Checked
import Refsite.Text.Basic
namespace Refsite.Schema

open Checked (fail inside)

def text : Json → Checked String
  | .string s => .ok s
  | _ => fail .notText

def falseWords : List String := ["0", "off", "f", "false", "n", "no"]

def trueWords : List String := ["1", "on", "t", "true", "y", "yes"]

def fitsWord (n : Int) : Bool := -9223372036854775808 ≤ n && n ≤ 9223372036854775807

/-- A number in floating point is taken for an integer only strictly between the bounds of such a
word. -/
def isInsideWord (n : Int) : Bool := n.natAbs < 9223372036854775808

def flagOfInt (n : Int) : Checked Bool :=
  if n == 0 then .ok false
  else if n == 1 then .ok true
  else if fitsWord n then fail .unreadableFlag
  else fail .notFlag

def flag : Json → Checked Bool
  | .bool b => .ok b
  | .int n => flagOfInt n
  | .float x =>
    match x.toInt? with
    | some n => if isInsideWord n then flagOfInt n else fail .notFlag
    | none => fail .notFlag
  | .string s =>
    let word := String.ofList (s.toList.map Char.toLower)
    if falseWords.contains word then .ok false
    else if trueWords.contains word then .ok true
    else fail .unreadableFlag
  | _ => fail .notFlag

/-- The digits of a number in which single low lines may stand between digits. -/
def groupedDigits : (afterDigit : Bool) → List Char → Option (List Char)
  | afterDigit, [] => if afterDigit then some [] else none
  | afterDigit, c :: text =>
    if c.isDigit then (groupedDigits true text).map (c :: ·)
    else if c == '_' && afterDigit then groupedDigits false text
    else none

def naturalOfDigits (digits : List Char) : Nat :=
  digits.foldl (fun n c => 10 * n + (c.toNat - '0'.toNat)) 0

def isPadding (c : Char) : Bool := Text.isBlank c && !(28 ≤ c.toNat && c.toNat ≤ 31)

def trimPadding (s : List Char) : List Char :=
  ((s.dropWhile isPadding).reverse.dropWhile isPadding).reverse

/-- The most characters that an integer may have, its sign included and leading zeros left out. -/
def integerLimit : Nat := 4300

/-- The integer that a text writes: blanks around it, a sign, grouped digits, and behind a point
nothing but zeros. -/
def integerOfText (s : List Char) : Checked Int :=
  let s := trimPadding s
  let (negative, s) := match s with
    | '-' :: s => (true, s)
    | '+' :: s => (false, s)
    | s => (false, s)
  let whole := match Text.cutAt? '.' s with
    | some (whole, part) => if !part.isEmpty && part.all (· == '0') then whole else []
    | none => s
  match groupedDigits false whole with
  | none => fail .unreadableInteger
  | some digits =>
    let digits := digits.dropWhile (· == '0')
    if integerLimit < digits.length + (if negative then 1 else 0) then fail .tooLargeInteger
    else
      let n := naturalOfDigits digits
      .ok (if negative then -(n : Int) else n)

def integer : Json → Checked Int
  | .int n => .ok n
  | .bool b => .ok (if b then 1 else 0)
  | .float x =>
    match x.toInt? with
    | some n => if isInsideWord n then .ok n else fail .tooLargeInteger
    | none => fail .fractional
  | .string s => integerOfText s.toList
  | _ => fail .notInteger

def free (x : Json) : Checked Json := .ok x

def orNull {α : Type} (check : Json → Checked α) : Json → Checked (Option α)
  | .null => .ok none
  | x => (check x).map some

def eachFrom {α : Type} : (position : Nat) → (items : List Json) →
    (check : (x : Json) → x ∈ items → Checked α) → Checked (List α)
  | _, [], _ => .ok []
  | position, x :: items, check =>
    List.cons <$> (check x List.mem_cons_self).inside (toString position) <*>
      eachFrom (position + 1) items fun y h => check y (List.mem_cons_of_mem x h)

def list {α : Type} (check : Json → Checked α) : Json → Checked (List α)
  | .array items => eachFrom 0 items fun x _ => check x
  | _ => fail .notList

def texts : Json → Checked (List String) := list text

def record {α : Type} (check : Json.Entries → Checked α) : Json → Checked α
  | .object entries => check entries
  | _ => fail .notRecord

def choice {α : Type} (words : List (String × α)) : Json → Checked α
  | .string s =>
    match words.lookup s with
    | some a => .ok a
    | none => fail .notAChoice
  | _ => fail .notAChoice

def field {α : Type} (entries : Json.Entries) (name : String) (default : α)
    (check : Json → Checked α) : Checked α :=
  match entries.find? name with
  | some x => (check x).inside name
  | none => .ok default

def required {α : Type} (entries : Json.Entries) (name : String) (check : Json → Checked α) :
    Checked α :=
  match entries.find? name with
  | some x => (check x).inside name
  | none => (fail .missing).inside name

/-- The items of the list of that name, none where there is no such list. They are smaller than the
record, so that a check of records may check their parts by itself. -/
def parts {α : Type} (entries : Json.Entries) (name : String)
    (check : (x : Json) → sizeOf x < sizeOf (Json.object entries) → Checked α) :
    Checked (List α) :=
  match h : entries.find? name with
  | none => .ok []
  | some (.array items) =>
    (eachFrom 0 items fun x hx =>
      check x (Nat.lt_trans (Json.sizeOf_lt_of_mem hx) (Json.sizeOf_lt_of_find? h))).inside name
  | some _ => (fail .notList).inside name

def either (name : String) (check : Json → Checked Unit) (other : String)
    (checkOther : Json → Checked Unit) (x : Json) : Checked Unit :=
  match check x, checkOther x with
  | .bad faults, .bad more =>
    .bad (faults.map (Fault.inside name) ++ more.map (Fault.inside other))
  | _, _ => .ok ()

def only {α : Type} (check : Json → Checked α) (x : Json) : Checked Unit :=
  (check x).map fun _ => ()

def others (entries : Json.Entries) (names : List String) : Json.Entries :=
  entries.filter fun (name, _) => !names.contains name

def noOthers (entries : Json.Entries) (names : List String) : Checked Unit :=
  match (others entries names).map fun (name, _) => ⟨[name], .unexpected⟩ with
  | [] => .ok ()
  | faults => .bad faults

end Refsite.Schema
