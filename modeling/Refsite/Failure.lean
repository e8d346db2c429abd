import Refsite.Asset.Ignore
import Refsite.Disk.Basic
import Refsite.Doclet
import Refsite.Link.Registry
import Refsite.Text.Encoding
namespace Refsite

inductive ConfigError where
  | emptyDestination
  | consoleDestination
  | absoluteDestination
  | escapingDestination (destination : String)
  | notToml (file : Path)
  | invalid (file : Path) (faults : List Schema.Fault)
  deriving Repr

namespace ConfigError

def message : ConfigError → String
  | emptyDestination => "destination must be a non-empty relative path"
  | consoleDestination => "the console destination has no output directory"
  | absoluteDestination => "destination must be a relative path within the project root"
  | escapingDestination destination =>
    "destination '" ++ destination ++ "' escapes the project root"
  | notToml file => "Invalid TOML in " ++ file.text
  | invalid file _ => "Invalid config in " ++ file.text

def faults : ConfigError → List Schema.Fault
  | invalid _ faults => faults
  | _ => []

end ConfigError

inductive InputError where
  | unreadable (file : Path)
  | notJson (file : Path)
  | notDoclets (file : Path)
  | malformedDoclet (longname : Json) (faults : List Schema.Fault)
  | tutorialConfig (file : Path)
  | tutorialConfigShape (file : Path)
  deriving Repr

namespace InputError

def message : InputError → String
  | unreadable file => "Failed to read " ++ file.text
  | notJson file => "Invalid JSON in " ++ file.text
  | notDoclets file => "Expected a JSON array of objects in " ++ file.text
  | malformedDoclet longname _ => "Malformed doclet " ++ longname.inspect
  | tutorialConfig file => "Invalid tutorial config " ++ file.text
  | tutorialConfigShape file => "Tutorial config " ++ file.text ++ " must be a JSON object"

def faults : InputError → List Schema.Fault
  | malformedDoclet _ faults => faults
  | _ => []

end InputError

inductive Failure where
  | config (e : ConfigError)
  | input (e : InputError)
  | link (e : LinkError)
  | misfit (m : Misfit)
  | disk (e : DiskError)
  | noOutput (directory : Path)
  | outputNotDirectory (directory : Path)
  | decode (fault : Text.DecodeFault)
  | unknownEncoding
  | encodingName
  /-- A settings file has an integer with more digits than are read. -/
  | tooLongInteger (file : Path)
  | ignore (e : IgnoreError)
  | noTemplate (name : String)
  | template (error : String)
  deriving Repr

def Failure.message : Failure → String
  | config e => e.message
  | input e => e.message
  | link e => e.message
  | misfit _ => "A value does not fit its use"
  | disk e => e.message
  | noOutput directory => "Output directory does not exist: " ++ directory.text
  | outputNotDirectory directory => "Output path is not a directory: " ++ directory.text
  | decode _ => "A text is not in its encoding"
  | unknownEncoding => "Unknown encoding"
  | encodingName => "No encoding has such a name"
  | tooLongInteger file => "An integer is too long in " ++ file.text
  | ignore _ => "The ignore rules cannot be used"
  | noTemplate name => "No template " ++ quoted name
  | template error => "A template cannot be rendered: " ++ error

def DocletError.failure : DocletError → Failure
  | unfit m => .misfit m
  | malformed longname faults => .input (.malformedDoclet longname faults)

end Refsite
