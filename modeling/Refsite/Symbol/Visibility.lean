import Refsite.Symbol.Record
import Refsite.Text.Basic
namespace Refsite

/-- Which access levels are published. An empty list of levels stands for all but the private one,
`all` switches the choice off, and `undefined` stands for symbols without a level. -/
structure Visibility where
  showPrivate : Bool
  access : List String
  deriving DecidableEq, Repr

namespace Visibility

def standard : Visibility := ⟨false, []⟩

def listedLevels : List String := ["package", "public", "protected"]

def allows (v : Visibility) (level : Option String) : Bool :=
  if v.access.contains "all" then true
  else match level with
    | none => v.access.isEmpty || v.access.contains "undefined"
    | some level =>
      if listedLevels.contains level then v.access.isEmpty || v.access.contains level
      else if level == "private" then v.showPrivate || v.access.contains "private"
      else true

end Visibility

namespace Symbol

def isDocumented (s : Symbol) : Bool :=
  !s.undocumented &&
    (!(s.description.getD "").isEmpty || ((s.find? "classdesc").getD .null).isPresent)

def anonymous : String := "<anonymous>"

def isInAnonymous (s : Symbol) : Bool :=
  match s.memberof with
  | some parent => parent == anonymous || parent.startsWith (anonymous ++ "~")
  | none => false

def isPublished (v : Visibility) (s : Symbol) : Bool :=
  s.isDocumented && !s.ignore && !s.isInAnonymous && v.allows s.access

/-- The order of symbols: by longname, then version, then the version that brought them. -/
def le (a b : Symbol) : Bool :=
  if a.longname != b.longname then Text.le a.longname b.longname
  else if a.version.getD "" != b.version.getD "" then
    Text.le (a.version.getD "") (b.version.getD "")
  else Text.le (a.since.getD "") (b.since.getD "")

def sort (symbols : List Symbol) : List Symbol := symbols.mergeSort le

def prune (v : Visibility) (symbols : List Symbol) : List Symbol :=
  sort (symbols.filter (isPublished v))

end Symbol

end Refsite
