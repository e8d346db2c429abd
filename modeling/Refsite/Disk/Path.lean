import Refsite.Text.Basic
namespace Refsite

open Refsite.Text

structure Path where
  /-- The text starts with two slashes and not with one. -/
  doubled : Bool
  names : List String
  deriving DecidableEq, Repr

namespace Path

def up : String := ".."

def namesOf (text : String) : List String :=
  ((splitAt '/' text.toList).map String.ofList).filter fun name => name != "" && name != "."

def isAbsoluteText (text : String) : Bool := text.startsWith "/"

/-- Whether a text starts with two slashes and no third. -/
def isDoubledText (text : String) : Bool :=
  text.startsWith "//" && !text.startsWith "///"

/-- A text below a path; an absolute text stands for itself. -/
def join (base : Path) (text : String) : Path :=
  if isAbsoluteText text then ⟨isDoubledText text, namesOf text⟩
  else { base with names := base.names ++ namesOf text }

def top : Path := ⟨false, []⟩

def ofText (text : String) : Path := top.join text

def child (p : Path) (name : String) : Path := { p with names := p.names ++ [name] }

def below (p : Path) (names : List String) : Path := { p with names := p.names ++ names }

def text (p : Path) : String :=
  (if p.doubled then "//" else "/") ++ "/".intercalate p.names

def parent (p : Path) : Path := { p with names := p.names.dropLast }

def name (p : Path) : String := p.names.getLast?.getD ""

/-- A name before and from its last point, if that is neither the first nor the last character. -/
def splitName (name : String) : String × String :=
  match cutAt? '.' name.toList.reverse with
  | some (after, before) =>
    if after.isEmpty || before.isEmpty then (name, "")
    else (String.ofList before.reverse, String.ofList ('.' :: after.reverse))
  | none => (name, "")

def stem (p : Path) : String := (splitName p.name).1

def extension (p : Path) : String := (splitName p.name).2

def isBelow (base p : Path) : Bool := base.doubled == p.doubled && base.names.isPrefixOf p.names

def relativeTo? (base p : Path) : Option (List String) :=
  if base.isBelow p then some (p.names.drop base.names.length) else none

/-- The path with every `..` taken against the name before it; at the top it goes nowhere. -/
def tidy (p : Path) : Path where
  doubled := p.doubled
  names := p.names.foldl (fun done name => if name == up then done.dropLast else done ++ [name]) []

end Path

end Refsite
