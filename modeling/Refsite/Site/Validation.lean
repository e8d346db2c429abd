import Refsite.Doclet.Dump
import Refsite.Site.Snapshot
import Refsite.Symbol.Reader
import Refsite.Tree.Check
namespace Refsite

open Schema
open Schema.Checked (fail)

def NavNode.check : Json → Checked Unit
  | .object es =>
    (fun _ _ _ => ())
      <$> required es "id" text
      <*> required es "anchor" text
      <*> parts es "items" fun x _ => NavNode.check x
  | _ => fail .notRecord
termination_by x => sizeOf x
decreasing_by assumption

namespace Members

def symbolCategories : List String := categoryNames.filter (· != "tutorials")

def check : Json → Checked Unit :=
  Schema.record fun es =>
    (symbolCategories.foldr (fun name others =>
      field es name () (only (list Symbol.read)) *> others) (.ok ())) *>
    field es "tutorials" () (only (list Tutorial.read))

def unknownCategories (es : Json.Entries) : List String :=
  ((others es categoryNames).map (·.1)).mergeSort Text.le

end Members

/-- What is found about a snapshot. -/
inductive Problem where
  | noDirectory
  | notDirectory
  | missing
  | notJson
  | notArray
  | notObject
  | notRecord
  | unknownCategory (name : String)
  | unfit (faults : List Fault)
  | duplicate (longname : String)
  | constant
  deriving DecidableEq, Repr

namespace Problem

def isWarning : Problem → Bool
  | duplicate _ | constant => true
  | _ => false

def message : Problem → String
  | noDirectory => "Artifacts directory does not exist."
  | notDirectory => "Artifacts path is not a directory."
  | missing => "Required artifact file is missing."
  | notJson => "Invalid JSON"
  | notArray => "Expected JSON array."
  | notObject => "Expected JSON object."
  | notRecord => "Expected JSON object."
  | unknownCategory name => "Unknown member category " ++ quoted name ++ "."
  | unfit _ => "Schema validation failed"
  | duplicate longname => "Duplicate longname " ++ quoted longname ++ "."
  | constant => "Constant was not normalized to member."

def faults : Problem → List Fault
  | unfit faults => faults
  | _ => []

end Problem

/-- A problem with a snapshot, or with the directory of all, and with one item of it where there
is a position. -/
structure Finding where
  snapshot : Option Snapshot
  path : Path
  position : Option Nat
  problem : Problem
  deriving Repr

namespace Finding

def location (f : Finding) : String :=
  match f.position with
  | none => f.path.text
  | some n => f.path.text ++ "[" ++ toString n ++ "]"

def subject (f : Finding) : String := (f.snapshot.map Snapshot.name).getD "artifacts_dir"

end Finding

namespace Snapshot

/-- The problems of symbols that are written at some position and behind; `seen` holds the longnames
of those before. -/
def docsProblems : (position : Nat) → (seen : List String) → List Json →
    List (Option Nat × Problem)
  | _, _, [] => []
  | position, seen, x :: items =>
    match Symbol.read x with
    | .bad faults => (some position, .unfit faults) :: docsProblems (position + 1) seen items
    | .ok s =>
      (if seen.contains s.longname then [(some position, .duplicate s.longname)] else []) ++
        (if s.kind == .constant then [(some position, .constant)] else []) ++
        docsProblems (position + 1) (s.longname :: seen) items

def rawProblems : (position : Nat) → List Json → List (Option Nat × Problem)
  | _, [] => []
  | position, .object _ :: items => rawProblems (position + 1) items
  | position, _ :: items => (some position, .notRecord) :: rawProblems (position + 1) items

def unfitProblem (c : Checked Unit) : List (Option Nat × Problem) :=
  match c with
  | .ok () => []
  | .bad faults => [(none, .unfit faults)]

/-- The problems of a value in the place of a snapshot. A null passes. -/
def problems (s : Snapshot) (x : Json) : List (Option Nat × Problem) :=
  match s, x with
  | _, .null => []
  | .docsRaw, .array items => rawProblems 0 items
  | .docs, .array items => docsProblems 0 [] items
  | .members, .object es =>
    (Members.unknownCategories es).map (fun name => (none, .unknownCategory name)) ++
      unfitProblem (Members.check x)
  | .nav, .array _ => unfitProblem (only (list NavNode.check) x)
  | .tree, .object _ => unfitProblem (Tree.check x)
  | .docsRaw, _ | .docs, _ | .nav, _ => [(none, .notArray)]
  | .members, _ | .tree, _ => [(none, .notObject)]

def fileProblems (d : Disk) (file : Path) (s : Snapshot) : List (Option Nat × Problem) :=
  match (d.read file).toOption.bind Json.ofBytes? with
  | some x => s.problems x
  | none => [(none, .notJson)]

def snapshotFindings (d : Disk) (directory : Path) (s : Snapshot) :
    Except DiskError (List Finding) := do
  let file := (directory.child Snapshot.directory).child s.fileName
  let problems := if (← d.look file).isSome then fileProblems d file s else [(none, .missing)]
  return problems.map fun (position, problem) => ⟨some s, file, position, problem⟩

def findings (d : Disk) (directory : Path) : Except DiskError (List Finding) := do
  match ← d.look directory with
  | none => return [⟨none, directory, none, .noDirectory⟩]
  | some .directory => return (← all.mapM (snapshotFindings d directory)).flatten
  | some _ => return [⟨none, directory, none, .notDirectory⟩]

end Snapshot

/-- The findings about a published directory: errors apart from warnings. -/
structure Report where
  errors : List Finding
  warnings : List Finding
  deriving Repr

namespace Report

def isClean (r : Report) : Bool := r.errors.isEmpty

def ofFindings (findings : List Finding) : Report where
  errors := findings.filter fun f => !f.problem.isWarning
  warnings := findings.filter fun f => f.problem.isWarning

end Report

def Site.validate (directory : Path) : Run Report := do
  return .ofFindings (← Run.ofExcept .disk (Snapshot.findings (← Run.disk) directory))

end Refsite
