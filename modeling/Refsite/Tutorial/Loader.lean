import Refsite.Doclet.Dump
import Refsite.Link.Registry
import Refsite.Tutorial.Plan
namespace Refsite.Tutorial

def formats : List (String × TutorialFormat) :=
  [(".html", .html), (".htm", .html), (".xhtml", .html), (".md", .markdown),
   (".markdown", .markdown)]

def formatOf? (file : Path) : Option TutorialFormat := formats.lookup (lowerText file.extension)

/-- Adds a tutorial, at the place of one of the same name if there is one. -/
def addNamed (t : Tutorial) : List Tutorial → List Tutorial
  | [] => [t]
  | u :: tutorials => if u.name == t.name then t :: tutorials else u :: addNamed t tutorials

def readFiles [Text.Codecs] (directory : Path) (encoding : String) :
    List Tutorial → List String → Run (List Tutorial)
  | tutorials, [] => return tutorials
  | tutorials, name :: names => do
    let file := directory.child name
    match formatOf? file with
    | none => readFiles directory encoding tutorials names
    | some format =>
      if ← Run.isFile file then
        let content ← Run.readText file encoding
        let t : Tutorial := ⟨file.stem, file.stem, content, format, []⟩
        readFiles directory encoding (addNamed t tutorials) names
      else readFiles directory encoding tutorials names

def configOfBytes (file : Path) (bytes : Except DiskError (List UInt8)) :
    Except InputError Json.Entries :=
  match bytes with
  | .error _ => .error (.tutorialConfig file)
  | .ok bytes =>
    match Json.ofBytes? bytes with
    | none => .error (.tutorialConfig file)
    | some (.object es) => .ok es
    | some _ => .error (.tutorialConfigShape file)

/-- Adds the configurations of a file: its own where it is named for a tutorial, else those that it
lists. -/
def addConfig (names : List String) (stem : String) (es : Json.Entries) (configs : Configs) :
    Configs :=
  if names.contains stem then configs.put stem (.object es) else Configs.shared es configs

def isConfigName (name : String) : Bool := name.endsWith ".json"

def readConfigs (d : Disk) (directory : Path) (names : List String) : Configs → List String →
    Except InputError Configs
  | configs, [] => .ok configs
  | configs, name :: files =>
    if isConfigName name then do
      let file := directory.child name
      let es ← configOfBytes file (d.read file)
      readConfigs d directory names (addConfig names file.stem es configs) files
    else readConfigs d directory names configs files

def load [Text.Codecs] (directory : Path) (encoding : String) : Run (List Tutorial) := do
  let files := (← Run.ofExcept .disk ((← Run.disk).list directory)).mergeSort Text.le
  let tutorials ← readFiles directory encoding [] files
  let names := tutorials.map (·.name)
  let configs ← Run.ofExcept .input (readConfigs (← Run.disk) directory names [] files)
  let (remarks, result) := nest configs names [] names
  Run.remarkAll remarks
  let parents ← Run.ofExcept .misfit result
  return forest configs tutorials parents

end Refsite.Tutorial
