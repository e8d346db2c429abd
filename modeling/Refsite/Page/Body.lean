import Refsite.Page.Details
import Refsite.Site.Sections
import Refsite.Tutorial.Basic
namespace Refsite.Page

def linkList (r : Registry) (heading : String) (symbols : List Symbol) : String :=
  let row (s : Symbol) :=
    "        <dt>" ++ r.linkTo s.longname (some s.name) none none ++ "</dt>\n" ++
      "        <dd>" ++ s.description.getD "" ++ "</dd>\n"
  heading ++ "    <dl>\n" ++ String.join (symbols.map row) ++ "    </dl>\n"

def subsection (title : String) : String :=
  "    <h3 class=\"subsection-title\">" ++ title ++ "</h3>\n"

def isCalled (s : Symbol) : Bool := [Kind.function, .event, .typedef].contains s.kind

def entry (r : Registry) (s : Symbol) : Result :=
  if isCalled s then method r (.ofSymbol s) else member r (.ofSymbol s)

def entrySections (r : Registry) (groups : List (String × List Symbol)) : Result :=
  concat (fun (heading, symbols) => do
    let entries ← concat (entry r) symbols
    return subsection heading ++ entries) groups

def exportsOf (s : Symbol) : Except Misfit (List Item) :=
  match s.detail with
  | .moduleUnit attached => .ok (attached.map Item.ofSymbol)
  | _ =>
    let loose := Json.Entries.find? s.extra "modules"
    if holds loose then (itemsOf loose).map fun items => items.map Item.ofValue else .ok []

/-- What a page shows of one of its symbols, with the children of their longname. -/
def document (r : Registry) (children : Sections) (s : Symbol) : Result := do
  let i := Item.ofSymbol s
  let ancestors :=
    if s.ancestors.isEmpty then ""
    else "<span class=\"ancestors\">" ++ String.join s.ancestors ++ "</span>"
  let classText := i.get? "classdesc"
  let overview ←
    if s.kind == .classType then do
      let text ← method r i
      Except.ok ("        " ++ text ++ "\n")
    else do
      let below ← details r i
      let shown ← examples i
      Except.ok (describing (i.get? "description") ++ "        " ++ below ++ "\n" ++
        "        " ++ shown ++ "\n")
  let exported ← concat (fun item => do
    let text ← method r item
    return "        " ++ text ++ "\n") (← exportsOf s)
  let augments ← partIf (i.get? "augments") fun _ => do
    let links ← linkItems r (i.get? "augments")
    return subsection "Extends" ++ "    <ul>" ++ links ++ "</ul>\n"
  let entries ← entrySections r children.entries
  return "<section>\n" ++
    "<header>\n" ++
    "    <h2>" ++ ancestors ++ Html.escape s.name ++ "</h2>\n" ++
    (if holds classText then
      "<div class=\"class-description\">" ++ textOf classText ++ "</div>" else "") ++
    "</header>\n" ++
    "<article>\n" ++
    "    <div class=\"container-overview\">\n" ++
    overview ++ exported ++
    "    </div>\n" ++
    augments ++
    String.join (children.links.map fun (heading, symbols) =>
      linkList r (subsection heading) symbols) ++
    entries ++
    "</article>\n" ++
    "</section>\n"

def container (r : Registry) (docs : List Symbol) (children : Sections) : Result :=
  concat (document r children) docs

def globals (r : Registry) (children : Sections) : Result := do
  let entries ← entrySections r children.entries
  return "<section>\n<article>\n" ++ entries ++ "</article>\n</section>\n"

def home (r : Registry) (categories : List (String × List Symbol)) : String :=
  "<section>\n<article>\n" ++
    String.join (categories.map fun (heading, symbols) =>
      linkList r ("    <h3>" ++ heading ++ "</h3>\n") symbols) ++
    "</article>\n</section>\n"

/-- The body of a tutorial's page: links to its children, its title and its text. -/
def tutorial (links : List String) (title text : String) : String :=
  "<section>\n<header>\n" ++
    (if links.isEmpty then ""
      else
        "    <ul>" ++ String.join (links.map fun link => "<li>" ++ link ++ "</li>") ++ "</ul>\n") ++
    "    <h2>" ++ Html.escape title ++ "</h2>\n" ++
    "</header>\n<article>\n    " ++ text ++ "\n</article>\n</section>\n"

def source (code : String) : String :=
  "<section>\n<article>\n    <div class=\"source\">" ++ code ++ "</div>\n</article>\n</section>\n"

def layout (title nav content : String) : String :=
  "<!DOCTYPE html>\n<html lang=\"en\">\n<head>\n    <meta charset=\"utf-8\">\n" ++
    "    <title>" ++ Html.escape title ++ "</title>\n" ++
    "    <link type=\"text/css\" rel=\"stylesheet\" href=\"styles/docgraft.css\">\n" ++
    "    <link type=\"text/css\" rel=\"stylesheet\" href=\"styles/highlight.css\">\n" ++
    "</head>\n<body>\n<div id=\"main\">\n" ++
    "    <h1 class=\"page-title\">" ++ Html.escape title ++ "</h1>\n" ++
    "    " ++ content ++ "\n" ++
    "</div>\n<nav>\n    " ++ nav ++ "\n</nav>\n<footer>\n" ++
    "    Documentation generated by docgraft.\n</footer>\n</body>\n</html>\n"

end Refsite.Page
