import Refsite.Json.Parser
import Refsite.Run
namespace Refsite

/-- The value of a JSON file's bytes. -/
def Json.ofBytes? (bytes : List UInt8) : Option Json :=
  (Text.Utf8.decode? bytes).bind (Json.parse? .asFloats)

namespace Doclet

def ofItems? : List Json → Option (List Doclet)
  | [] => some []
  | .object es :: items => (ofItems? items).map (es :: ·)
  | _ :: _ => none

def ofJson? : Json → Option (List Doclet)
  | .array items => ofItems? items
  | _ => none

def load (file : Path) : Run (List Doclet) := do
  match (← Run.disk).read file with
  | .error e =>
    Run.fail (if e.obstacle == .nullCharacter then .disk e else .input (.unreadable file))
  | .ok bytes =>
    match Json.ofBytes? bytes with
    | none => Run.fail (.input (.notJson file))
    | some x => Run.ofExcept id ((ofJson? x).elim (.error (.input (.notDoclets file))) .ok)

def loadSymbols (doclets : List Doclet) : Run (List Symbol) := do
  let (remarks, result) := symbols doclets
  Run.remarkAll remarks
  Run.ofExcept DocletError.failure result

end Doclet

end Refsite
