import Refsite.CommandLine.Arguments
import Refsite.Site.Validation
import Refsite.Site.Verify
namespace Refsite.CommandLine

/-- How a command ends: its code, and the lines that it says after all remarks. -/
structure Ending where
  code : Nat
  lines : List String
  deriving DecidableEq, Repr

namespace Ending

def fine : Ending := ⟨0, []⟩

def ofLines (lines : List String) : Ending := ⟨if lines.isEmpty then 0 else 1, lines⟩

end Ending

def located (directory : Path) (text : String) : Run Path := do
  let path := directory.join text
  if Disk.hasNull path then Run.fail (.disk ⟨.nullCharacter, path⟩)
  return (← Run.disk).resolve path

/-- The published directory: the one that is given, or else the one that the settings name. -/
def publishedDirectory (directory root : Path) (given : Option String) : Run Path := do
  match given with
  | some text => located directory text
  | none =>
    let settings ← Settings.load root
    Settings.destinationOf root settings.destination

def publish [Host] (directory root : Path) (input : String) (outDir tutorials : Option String)
    (showPrivate : Bool) : Run Ending := do
  let settings ← Settings.load root
  let settings := if showPrivate then { settings with showPrivate := true } else settings
  let tutorials ← match tutorials with
    | some text => if text.isEmpty then pure none else some <$> located directory text
    | none => pure none
  let input ← located directory input
  let out ← match outDir with
    | some text => some <$> located directory text
    | none => pure none
  let _ ← Site.publish root input out (some settings) tutorials
  return .fine

def findingLine (f : Finding) : String := f.location ++ ": " ++ f.problem.message

def validate (directory root : Path) (given : Option String) : Run Ending := do
  let published ← publishedDirectory directory root given
  let report ← Site.validate published
  let warnings := report.warnings.map fun f => "warning: " ++ findingLine f
  return ⟨if report.isClean then 0 else 1, warnings ++ report.errors.map findingLine⟩

/-- The message of a failure that means that there is nothing to verify. -/
def absence? : Failure → Option String
  | .disk e =>
    if e.obstacle == .notFound || e.obstacle == .notDirectory then some e.message else none
  | .noOutput directory => some (Failure.message (.noOutput directory))
  | .outputNotDirectory directory => some (Failure.message (.outputNotDirectory directory))
  | _ => none

def differenceLines (d : Difference) : List String :=
  d.missing.map ("missing: " ++ ·) ++ d.extra.map ("extra: " ++ ·) ++
    d.mismatches.map ("mismatches: " ++ ·)

def verify [Host] (directory root : Path) (input : String) (given : Option String) : Run Ending := do
  let published ← publishedDirectory directory root given
  let input ← located directory input
  tryCatch (do
      let difference ← Site.verify root input published
      return .ofLines (differenceLines difference))
    fun failure =>
      match absence? failure with
      | some message =>
        return ⟨2, ["artifacts-dir: " ++ published.text, "error: " ++ message]⟩
      | none => Run.fail failure

def complaint? : Failure → Option String
  | .config e => some e.message
  | .input e => some e.message
  | .link e => some e.message
  | _ => none

def execute [Host] (directory : Path) (i : Invocation) : Run Ending := do
  let root ← located directory i.root
  let run : Run Ending := match i.command with
    | .publish input outDir tutorials showPrivate =>
      publish directory root input outDir tutorials showPrivate
    | .validate given => validate directory root given
    | .verify input given => verify directory root input given
  tryCatch run fun failure =>
    match complaint? failure with
    | some message => return ⟨1, ["error: " ++ message]⟩
    | none => Run.fail failure

def remarkLines (verbose : Bool) (remarks : List Remark) : List String :=
  (remarks.filter fun r => verbose || r.level.isSerious).map Remark.line

end Refsite.CommandLine
