import Refsite.Page.Template

namespace Refsite.Page

/-- Where templates are looked for, before those that come with the program. -/
structure Theme where
  directories : List Path
  layoutName : String
  /-- The directory of the theme; without one it is the theme that comes with the program. -/
  base : Option Path
  deriving DecidableEq, Repr

namespace Theme

def ofPaths (base layout : Option Path) : Theme where
  directories := (layout.map Path.parent).toList ++ base.toList
  layoutName := (layout.map Path.name).getD Standard.layout.fileName
  base := base

variable (t : Theme) (d : Disk)

def file? (name : String) : Option Path :=
  (Template.piecesOf? name).bind fun pieces => (t.directories.map (·.below pieces)).find? d.isFile

def find? (name : String) : Except Failure (Option Template) :=
  match t.file? d name with
  | some file =>
    match d.read file with
    | .ok bytes =>
      match Text.Utf8.decode? bytes with
      | some text => .ok (some (.text (Text.unixLines text)))
      | none => .error (.decode .malformed)
    | .error e => .error (.disk e)
  | none => .ok ((Template.piecesOf? name).bind Template.ofPieces?)

end Theme

end Refsite.Page
