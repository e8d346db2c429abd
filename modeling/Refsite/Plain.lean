import Refsite.Host
import Refsite.Html.Escape

namespace Refsite.Plain

open Text Page

mutual

def guards : Json → Nat
  | .array items => guardsOfItems items + 1
  | .object entries => guardsOfEntries entries + 1
  | _ => 1

def guardsOfItems : List Json → Nat
  | [] => 0
  | x :: items => max (guards x) (guardsOfItems items)

def guardsOfEntries : List (String × Json) → Nat
  | [] => 0
  | (_, x) :: entries => max (guards x) (guardsOfEntries entries)

end

def limit : Model → Nat
  | .symbol => 256
  | .members => 257
  | .tree => 259

def rangeOf? (text : List Char) : Option Nat :=
  (dropFront? "range(".toList text).bind fun text => (dropBack? [')'] text).bind fun digits =>
    if !digits.isEmpty && digits.all Char.isDigit then
      some (digits.foldl (fun n c => 10 * n + (c.toNat - '0'.toNat)) 0)
    else none

def valueOf? (chance : Nat) (values : List (String × String)) (inner : List Char) :
    Option (List Char) :=
  match (splitAt '|' inner).map strip with
  | [name] => (values.lookup (String.ofList name)).map String.toList
  | [name, ['e']] => (values.lookup (String.ofList name)).map fun s => Html.escapeChars s.toList
  | [range, ['r', 'a', 'n', 'd', 'o', 'm']] =>
    (rangeOf? range).map fun n => if n == 0 then [] else (toString (chance % n)).toList
  | _ => none

/-- A template with its values put in. Between braces, what has been read of the name is kept back to
front. -/
def fill? (chance : Nat) (values : List (String × String)) :
    Option (List Char) → List Char → Option (List Char)
  | none, [] => some []
  | some _, [] => none
  | none, '{' :: '{' :: text => fill? chance values (some []) text
  | none, '{' :: '%' :: _ | none, '{' :: '#' :: _ => none
  | none, c :: text => (fill? chance values none text).map (c :: ·)
  | some inner, '}' :: '}' :: text =>
    (valueOf? chance values inner.reverse).bind fun value =>
      (fill? chance values none text).map (value ++ ·)
  | some inner, c :: text => fill? chance values (some (c :: inner)) text

def values : Context → List (String × String)
  | .body title _ => [("title", title), ("nav", ""), ("content", "")]
  | .frame title nav content => [("title", title), ("nav", nav), ("content", content)]

def render (chance : Nat) (context : Context) : Template → Rendering
  | .standard .container =>
    .ask Standard.details.fileName fun _ => .failed (.misfit .undefined)
  | .standard _ => .failed (.other "Unsupported")
  | .text source =>
    match fill? chance (values context) none source with
    | some text => .done (String.ofList text)
    | none => .failed (.other "Unsupported")

def scratchName (n : Nat) : String := "refsite" ++ toString n

/-- The first directory of its own below the directory for such directories. -/
def scratchPath (chance : Nat) (d : Disk) : Path :=
  let names := (List.range (d.entries.length + 1)).map fun k => scratchName (chance + k)
  Path.top.below
    ["tmp", (names.find? fun name => (d.entry? ["tmp", name]).isNone).getD (scratchName chance)]

/-- A system that knows few encodings, colours no listings and renders simple templates: texts with
names, and with numbers drawn by chance, between double braces. It does not render others. -/
scoped instance : Host where
  decode _ bytes := Encoding.ofOption (bytes.mapM Encoding.asciiChar?)
  refuses m record := limit m < guards record
  listing? _ _ := none
  style := ""
  render chance _ _ template context := Plain.render chance context template
  path := scratchPath

end Refsite.Plain
