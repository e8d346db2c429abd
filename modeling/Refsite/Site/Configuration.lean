import Refsite.Run
import Refsite.Site.Settings
import Refsite.Toml.Parser
namespace Refsite.Settings

def fileName : String := "docgraft.toml"

def ofToml (file : Path) (text : List Char) : Except Failure Settings :=
  match Toml.parse text with
  | .error .malformed => .error (.config (.notToml file))
  | .error .tooLongInteger => .error (.tooLongInteger file)
  | .ok x =>
    match read x with
    | .ok s => .ok s
    | .bad faults => .error (.config (.invalid file faults))

def load (root : Path) : Run Settings := do
  let file := root.child fileName
  if ← Run.isFile file then
    let bytes ← Run.ofExcept .disk ((← Run.disk).read file)
    let text ← Run.ofExcept .decode (Text.Encoding.ofOption (Text.Utf8.decode? bytes))
    Run.ofExcept id (ofToml file text)
  else return standard

/-- The directory that a destination names, which has to lie in the root once all links are
followed. -/
def resolveDestination (d : Disk) (root : Path) (destination : String) :
    Except ConfigError Path :=
  if destination.isEmpty then .error .emptyDestination
  else if destination == console then .error .consoleDestination
  else if destination.startsWith "~" || Path.isAbsoluteText destination then
    .error .absoluteDestination
  else
    let base := d.resolve root
    let target := d.resolve (base.join destination)
    if base.isBelow target then .ok target else .error (.escapingDestination destination)

def destinationOf (root : Path) (destination : String) : Run Path := do
  if destination.toList.contains '\x00' && !Path.isAbsoluteText destination &&
      !destination.startsWith "~" then
    Run.fail (.disk ⟨.nullCharacter, root.join destination⟩)
  Run.ofExcept .config (resolveDestination (← Run.disk) root destination)

def pathBelow (root : Path) (value : Option String) : Option Path :=
  match value with
  | none => none
  | some text => if text.isEmpty then none else some (root.join text)

end Refsite.Settings
