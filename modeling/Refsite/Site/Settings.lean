import Refsite.Schema.Field
import Refsite.Symbol.Visibility
import Refsite.Text.Encoding
namespace Refsite

open Schema
open Schema.Checked (fail)

/-- Files that are copied to the site: what is included, and patterns of names to leave out. -/
structure StaticFiles where
  included : List String
  excluded : List String
  deriving DecidableEq, Repr

structure PageSettings where
  longnamesInNav : Bool
  sourcePages : Bool
  layoutFile : Option String
  staticFiles : StaticFiles
  deriving DecidableEq, Repr

structure Settings where
  destination : String
  template : Option String
  encoding : String
  tutorials : Option String
  showPrivate : Bool
  access : List String
  pages : PageSettings
  deriving DecidableEq, Repr

namespace StaticFiles

def standard : StaticFiles := ⟨[], []⟩

def read : Json → Checked StaticFiles :=
  Schema.record fun es =>
    (fun included excluded _ => ⟨included, excluded⟩)
      <$> field es "include" [] texts
      <*> field es "exclude" [] texts
      <*> noOthers es ["include", "exclude"]

def record (s : StaticFiles) : Json :=
  .object [("include", Json.ofStrings s.included), ("exclude", Json.ofStrings s.excluded)]

end StaticFiles

namespace PageSettings

def standard : PageSettings := ⟨false, true, none, .standard⟩

def names : List String :=
  ["use_longname_in_nav", "output_source_files", "layout_file", "static_files"]

def read : Json → Checked PageSettings :=
  Schema.record fun es =>
    (fun longnames sources layout files _ => ⟨longnames, sources, layout, files⟩)
      <$> field es "use_longname_in_nav" false flag
      <*> field es "output_source_files" true flag
      <*> field es "layout_file" none (orNull text)
      <*> field es "static_files" .standard StaticFiles.read
      <*> noOthers es names

def record (p : PageSettings) : Json :=
  .object
    [("use_longname_in_nav", .bool p.longnamesInNav), ("output_source_files", .bool p.sourcePages),
     ("layout_file", Json.ofOption .string p.layoutFile),
     ("static_files", p.staticFiles.record)]

end PageSettings

namespace Settings

/-- The destination that stands for printing the symbols. -/
def console : String := "console"

def standard : Settings := ⟨"docs", none, "utf-8", none, false, [], .standard⟩

/-- The access levels, and the two words for all and for none. -/
def accessWords : List String := ["all", "package", "public", "protected", "private", "undefined"]

/-- The name of an encoding that is known, whether texts can be read in it or not. -/
def encodingName (x : Json) : Checked String :=
  match x with
  | .string name => if (Text.Encoding.ofName? name).isSome then .ok name else fail .refused
  | _ => fail .notText

def names : List String :=
  ["destination", "template", "encoding", "tutorials", "show_private", "access", "templates"]

def read : Json → Checked Settings :=
  Schema.record fun es =>
    (fun destination template encoding tutorials showPrivate access pages _ =>
        ⟨destination, template, encoding, tutorials, showPrivate, access, pages⟩)
      <$> field es "destination" standard.destination text
      <*> field es "template" none (orNull text)
      <*> field es "encoding" standard.encoding encodingName
      <*> field es "tutorials" none (orNull text)
      <*> field es "show_private" false flag
      <*> field es "access" [] (list (choice (accessWords.map fun word => (word, word))))
      <*> field es "templates" .standard PageSettings.read
      <*> noOthers es names

def record (s : Settings) : Json :=
  .object
    [("destination", .string s.destination), ("template", Json.ofOption .string s.template),
     ("encoding", .string s.encoding), ("tutorials", Json.ofOption .string s.tutorials),
     ("show_private", .bool s.showPrivate), ("access", Json.ofStrings s.access),
     ("templates", s.pages.record)]

def toConsole (s : Settings) : Bool := s.destination == console

def visibility (s : Settings) : Visibility := ⟨s.showPrivate, s.access⟩

end Settings

end Refsite
