import Refsite.Markdown.Html
import Refsite.Page.Theme
import Refsite.Run
import Refsite.Site.Basic

namespace Refsite

def Tutorial.markup (t : Tutorial) : String :=
  match t.format with
  | .html => t.content
  | .markdown => onChars Markdown.html t.content

namespace Page

/-- A page to be written. -/
structure Sheet where
  file : String
  title : String
  links : Registry
  topic : Topic

namespace Sheet

def body (s : Sheet) : Result := s.topic.template.markup s.links (.body s.title s.topic)

section Engine

variable [Engine]

def rendering (chance : Nat) (layoutName nav : String) (s : Sheet) : Rendering :=
  (fill chance s.file s.links s.topic.template.fileName (.body s.title s.topic)).andThen
    fun content => fill chance s.file s.links layoutName (.frame s.title nav content)

def draw (t : Theme) (nav : String) (s : Sheet) : Run String := do
  let w ← get
  Run.ofExcept id ((s.rendering w.chance t.layoutName nav).run (t.find? w.disk))

end Engine

end Sheet

end Page

open Page

namespace Site

/-- The kinds with pages of their own, in the order in which one names the page. -/
def pageKinds : List (Kind × String) :=
  [(.moduleUnit, "Module"), (.classType, "Class"), (.nameSpace, "Namespace"), (.mixin, "Mixin"),
   (.external, "External"), (.interface, "Interface")]

def sharing (s : Site) (longname : String) : List Symbol :=
  s.symbols.filter fun a => a.kind.hasPage && a.longname == longname

def pageLabel (docs : List Symbol) : String :=
  ((pageKinds.find? fun (kind, _) => docs.any (·.kind == kind)).map (·.2)).getD ""

def sectionsOf (s : Site) (longname : String) : Sections :=
  Sections.ofSymbols (Tree.childrenOf s.symbols (some longname))

def containerSheet? (s : Site) (longname url : String) : Option Sheet :=
  match s.sharing longname with
  | [] => none
  | doc :: docs =>
    some
      { file := pageOfUrl url
        title := pageLabel (doc :: docs) ++ ": " ++ doc.name
        links := s.registry
        topic := .container (doc :: docs) (s.sectionsOf longname) }

def globalSheet? (s : Site) : Option Sheet :=
  if s.members.globals.isEmpty then none
  else
    let url := (s.registry.resolve? Registry.globalName).getD Registry.globalUrl
    some
      { file := pageOfUrl url
        title := "Global"
        links := s.registry
        topic := .container [] (Sections.ofSymbols s.members.globals) }

def homeCategories (m : Members) : List (String × List Symbol) :=
  [("Modules", m.modules), ("Classes", m.classes), ("Namespaces", m.namespaces),
   ("Mixins", m.mixins), ("Interfaces", m.interfaces), ("Externals", m.externals)].filter
    fun (_, symbols) => !symbols.isEmpty

def homeSheet (s : Site) : Sheet where
  file := Registry.indexUrl
  title := "Documentation"
  links := s.registry
  topic := .home (homeCategories s.members)

/-- The pages of the symbols: one for each longname that has one, in the order of the registry, the
globals, and the start page. -/
def symbolSheets (s : Site) : List Sheet :=
  s.registry.urls.filterMap (fun (longname, url) => s.containerSheet? longname url) ++
    s.globalSheet?.toList ++ [s.homeSheet]

def tutorialSheet? (s : Site) (t : Tutorial) : Option Sheet :=
  (s.registry.tutorialUrl? t.name).map fun url =>
    { file := pageOfUrl url
      title := "Tutorial: " ++ t.title
      links := s.registry
      topic := .tutorial t.title t.markup t.children }

def tutorialSheets (s : Site) : List Sheet :=
  (Tutorial.walkAll s.tutorials).filterMap s.tutorialSheet?

def sourceSheet [Source.Highlighter] (s : Site) (f : Source.File) (url code : String) : Sheet where
  file := pageOfUrl url
  title := "Source: " ++ f.title
  links := s.registry
  topic := .source (Source.listingOf f.title code)

end Site

end Refsite
