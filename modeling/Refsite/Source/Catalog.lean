import Refsite.Symbol.Basic
import Refsite.Text.Basic
namespace Refsite.Source

open Refsite.Text

def normalize (path : String) : String :=
  onChars (List.map fun c => if c == '\\' then '/' else c) path

/-- A declaring file: its path, and the path below the common directory once that is known. -/
structure File where
  path : String
  short : Option String
  deriving DecidableEq, Repr

/-- The files in the order in which they are first met, each once. -/
abbrev Catalog := List File

namespace Catalog

def paths (c : Catalog) : List String := c.map (·.path)

def add (c : Catalog) (path : String) : Catalog :=
  if c.paths.contains path then c else c ++ [⟨path, none⟩]

def collect (symbols : List Symbol) : Catalog :=
  (symbols.filterMap fun s => s.sourcePath?.map normalize).foldl add []

end Catalog

def directories (path : String) : List (List Char) := (splitAt '/' (normalize path).toList).dropLast

def commonFront {α : Type} [BEq α] : List α → List α → List α
  | a :: as, b :: bs => if a == b then a :: commonFront as bs else []
  | _, _ => []

/-- The directory that all paths share, with a slash at its end; empty where they share none. -/
def commonPrefix : List String → String
  | [] => ""
  | path :: paths =>
    let shared := paths.foldl (fun front p => commonFront front (directories p)) (directories path)
    if shared.isEmpty then "" else String.ofList (joinWith ['/'] shared) ++ "/"

def shorten (directory path : String) : String :=
  let path := normalize path
  match dropFront? directory.toList path.toList with
  | some rest => String.ofList rest
  | none => path

def Catalog.shorten (c : Catalog) (directory : String) : Catalog :=
  c.map fun file => { file with short := some (Source.shorten directory file.path) }

def Catalog.find? (c : Catalog) (path : String) : Option File := List.find? (·.path == path) c

def Catalog.annotate (c : Catalog) (s : Symbol) : Symbol :=
  match s.sourcePath?.bind fun path => (c.find? (normalize path)).bind (·.short), s.origin with
  | some short, some origin =>
    if short.isEmpty then s else { s with origin := some { origin with shortPath := some short } }
  | _, _ => s

def catalog (symbols : List Symbol) : Catalog × List Symbol :=
  let files := Catalog.collect symbols
  let files := files.shorten (commonPrefix files.paths)
  (files, symbols.map files.annotate)

end Refsite.Source
