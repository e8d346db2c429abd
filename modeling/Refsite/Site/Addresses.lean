import Refsite.Link.Registry
import Refsite.Source.Catalog
import Refsite.Tutorial.Basic
namespace Refsite

/-- The name under which a source file is listed: its short path, unless that is empty. -/
def Source.File.title (f : Source.File) : String :=
  match f.short with
  | some short => if short.isEmpty then f.path else short
  | none => f.path

namespace Registry

def addSymbol (r : Registry) (s : Symbol) : Except LinkError Registry := do
  let (url, r) ← r.createLink s
  r.register s.longname url

def addSource (r : Registry) (f : Source.File) : Except LinkError Registry := do
  let (url, r) ← r.pageUrl f.title
  r.register f.title url

def addTutorial (r : Registry) (t : Tutorial) : Except LinkError Registry := do
  let (_, r) ← r.registerTutorial t.name
  return r

def populate (symbols : List Symbol) (sources : Source.Catalog) (tutorials : List Tutorial) :
    Except LinkError Registry := do
  let r ← symbols.foldlM addSymbol initial
  let r ← sources.foldlM addSource r
  let r ← (Tutorial.walkAll tutorials).foldlM addTutorial r
  return r.freeze

end Registry

end Refsite
