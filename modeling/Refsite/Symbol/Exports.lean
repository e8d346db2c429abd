import Refsite.Symbol.Basic
import Refsite.Text.Basic
namespace Refsite.Symbol

def asMember (s : Symbol) : Symbol :=
  match s.detail with
  | .constant value => { s with detail := .member value }
  | _ => s

def requireName (name : String) : String :=
  onChars (Text.replaceAll "module:".toList "(require(\"".toList) name ++ "\"))"

def exportCopy (s : Symbol) : Symbol :=
  if s.kind == .classType || s.kind == .function then { s with name := requireName s.name } else s

def isExportOf (longname : String) (s : Symbol) : Bool :=
  s.longname == longname && s.longname.startsWith "module:" && s.kind != .moduleUnit

def isShownExport (s : Symbol) : Bool :=
  !(s.description.getD "").isEmpty || s.kind == .classType

/-- Attaches what it exports to a module; a module that exports nothing keeps what it has. -/
def attachExports (all : List Symbol) (s : Symbol) : Symbol :=
  match s.detail with
  | .moduleUnit _ =>
    let exported := all.filter (isExportOf s.longname)
    if exported.isEmpty then s
    else { s with detail := .moduleUnit ((exported.filter isShownExport).map exportCopy) }
  | _ => s

def attachAllExports (symbols : List Symbol) : List Symbol := symbols.map (attachExports symbols)

end Refsite.Symbol
