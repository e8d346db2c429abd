import Refsite.Link.Stem
import Refsite.Symbol.Basic
import Refsite.Text.Lower
import Refsite.Text.Percent
import Refsite.Text.Quoted
namespace Refsite

inductive LinkError where
  | unresolved (longname : String)
  | frozen (wanted : String)
  deriving DecidableEq, Repr

def LinkError.message : LinkError → String
  | unresolved longname => s!"No output identifier registered for symbol {quoted longname}"
  | frozen wanted => s!"link registry is frozen; cannot allocate {quoted wanted}"

def encodeUrl (s : String) : String := onChars Text.Percent.encode s

def pageOfUrl (url : String) : String :=
  onChars (fun u => Text.Percent.decode (Text.upTo '#' u)) url

def lowerText (s : String) : String := onChars Text.lower s

/-- Pairs in the order in which their keys were first bound. -/
abbrev Bindings := List (String × String)

namespace Bindings

def bind : Bindings → String → String → Bindings
  | [], key, value => [(key, value)]
  | (k, v) :: rest, key, value =>
    if k == key then (k, value) :: rest else (k, v) :: bind rest key value

def bindNew (b : Bindings) (key value : String) : Bindings :=
  if (b.lookup key).isSome then b else b ++ [(key, value)]

end Bindings

structure Registry where
  /-- The stems handed out, in lower case, with the texts that asked for them. -/
  claimed : Bindings
  urls : Bindings
  pages : Bindings
  tutorials : Bindings
  frozen : Bool
  deriving DecidableEq, Repr

namespace Registry

open Link

def fileExtension : String := ".html"

/-- The first stem for the text that is not claimed. One of the first `claimed.length + 1`
candidates is free, because they are all different in lower case. -/
def freeStem (claimed : Bindings) (text : String) : String :=
  let stem := Stem.ofText text.toList
  let stems := (List.range (claimed.length + 1)).map fun k => String.ofList (Stem.candidate stem k)
  (stems.find? fun s => (claimed.lookup (lowerText s)).isNone).getD (String.ofList stem)

def allocate (text : String) (r : Registry) : Except LinkError (String × Registry) :=
  if r.frozen then .error (.frozen text)
  else
    let stem := freeStem r.claimed text
    .ok (stem ++ fileExtension, { r with claimed := r.claimed ++ [(lowerText stem, text)] })

/-- The page of a longname, allocated at the first request. A longname without an address gets that
of its page. -/
def assign (longname : String) (r : Registry) : Except LinkError (String × Registry) :=
  match r.pages.lookup longname with
  | some file => .ok (file, r)
  | none => do
    let (file, r) ← r.allocate longname
    return (file,
      { r with
        pages := r.pages.bind longname file
        urls := r.urls.bindNew longname (encodeUrl file) })

def pageUrl (longname : String) (r : Registry) : Except LinkError (String × Registry) := do
  let (file, r) ← r.assign longname
  return (encodeUrl file, r)

def register (longname url : String) (r : Registry) : Except LinkError Registry :=
  if r.urls.lookup longname == some url then .ok r
  else if r.frozen then .error (.frozen longname)
  else .ok { r with urls := r.urls.bind longname url }

def resolve? (r : Registry) (longname : String) : Option String := r.urls.lookup longname

def require (r : Registry) (longname : String) : Except LinkError String :=
  match r.resolve? longname with
  | some url => .ok url
  | none => .error (.unresolved longname)

def longnames (r : Registry) : List String := r.urls.map (·.1)

def registerTutorial (name : String) (r : Registry) : Except LinkError (String × Registry) :=
  match r.tutorials.lookup name with
  | some url => .ok (url, r)
  | none => do
    let (file, r) ← r.allocate ("tutorial-" ++ name)
    let url := encodeUrl file
    return (url, { r with tutorials := r.tutorials.bind name url })

def tutorialUrl? (r : Registry) (name : String) : Option String := r.tutorials.lookup name

def freeze (r : Registry) : Registry := { r with frozen := true }

def globalName : String := "global"

def indexName : String := "index"

def indexUrl : String := indexName ++ fileExtension

def globalUrl : String := globalName ++ fileExtension

/-- The registry at the start of a run. The index file is claimed and not bound, for `index` may be
a longname too; the global page is bound. -/
def initial : Registry where
  claimed := [(indexName, indexName), (globalName, globalName)]
  urls := [(globalName, globalUrl)]
  pages := [(globalName, globalUrl)]
  tutorials := []
  frozen := false

end Registry

namespace Symbol

/-- The fragment that names a symbol on its parent's page. The mark of instance members is left out,
as it would start a second fragment. -/
def fragment (s : Symbol) : String :=
  let nameSpace := if Link.Stem.nameSpaces.contains s.kind.word then s.kind.word ++ ":" else ""
  let mark := scopeMark s.scope
  (if mark == "#" then "" else mark) ++ nameSpace ++ s.name ++ s.variation.getD ""

def namesPage (longname : String) : Bool :=
  match Text.cutAt? ':' longname.toList with
  | some (front, _) => ((Kind.ofWord? (String.ofList front)).map Kind.hasPage).getD false
  | none => false

def parentOr (memberof : Option String) (default : String) : String :=
  match memberof with
  | some parent => if parent.isEmpty then default else parent
  | none => default

/-- The longname whose page shows a symbol: its own where its kind has pages or a module exports it,
else its parent's. Without a parent it is the global page, or the symbol's own where its longname
says that it has one. -/
def owner (s : Symbol) : String :=
  if s.kind.hasPage || s.isModuleExports then s.longname
  else if namesPage s.longname then parentOr s.memberof s.longname
  else parentOr s.memberof Registry.globalName

def hasFragment (s : Symbol) : Bool :=
  if s.kind.hasPage || s.isModuleExports then false
  else if namesPage s.longname then s.name != s.longname
  else true

end Symbol

def Registry.createLink (s : Symbol) (r : Registry) : Except LinkError (String × Registry) := do
  let (file, r) ← r.assign s.owner
  let fragment := if s.hasFragment then s.fragment else ""
  let url := if fragment.isEmpty then file else file ++ "#" ++ fragment
  return (encodeUrl url, r)

end Refsite
