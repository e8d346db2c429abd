import Refsite.Failure
import Refsite.Page.Body
import Refsite.Page.Style

namespace Refsite.Page

inductive Standard where
  | container
  | details
  | home
  | layout
  | source
  | tutorial
  deriving DecidableEq, Repr

namespace Standard

def all : List Standard := [container, details, home, layout, source, tutorial]

def fileName : Standard → String
  | container => "container.html"
  | details => "details.html"
  | home => "home.html"
  | layout => "layout.html"
  | source => "source.html"
  | tutorial => "tutorial.html"

end Standard

inductive Template where
  | text (source : List Char)
  | standard (template : Standard)
  deriving DecidableEq, Repr

namespace Template

def piecesOf? (name : String) : Option (List String) :=
  let pieces := Path.namesOf name
  if pieces.contains Path.up then none else some pieces

def ofPieces? (pieces : List String) : Option Template :=
  match Standard.all.find? fun template => pieces == [template.fileName] with
  | some template => some (.standard template)
  | none =>
    if pieces == ["static", styleDirectory, styleName] then some (.text style.toList) else none

end Template

inductive Topic where
  | container (docs : List Symbol) (children : Sections)
  | home (categories : List (String × List Symbol))
  | tutorial (header text : String) (children : List Tutorial)
  | source (listing : String)

def Topic.template : Topic → Standard
  | container .. => .container
  | home _ => .home
  | tutorial .. => .tutorial
  | source _ => .source

inductive Context where
  | body (title : String) (topic : Topic)
  | frame (title nav content : String)

/-- What a standard template makes of a context. Templates leave out what they are not given, but
the sections of a container are asked for. -/
def Standard.markup (links : Registry) : Standard → Context → Result
  | container, .body _ (.container docs children) =>
    if docs.isEmpty then globals links children else Page.container links docs children
  | container, _ => .error .undefined
  | details, _ => .ok "\n\n\n\n\n"
  | home, .body _ (.home categories) => .ok (Page.home links categories)
  | home, _ => .ok (Page.home links [])
  | layout, .frame title nav content => .ok (Page.layout title nav content)
  | layout, .body title _ => .ok (Page.layout title "" "")
  | source, .body _ (.source listing) => .ok (Page.source listing)
  | source, _ => .ok (Page.source "")
  | tutorial, .body _ (.tutorial header text children) =>
    .ok (Page.tutorial (children.map fun t => links.tutorialLink t.name (some t.title)) header text)
  | tutorial, .body _ _ => .ok (Page.tutorial [] "" "")
  | tutorial, .frame _ _ content => .ok (Page.tutorial [] "" content)

inductive Trouble where
  | misfit (m : Misfit)
  | noTemplate (name : String)
  | other (error : String)
  deriving Repr

def Trouble.failure : Trouble → Failure
  | misfit m => .misfit m
  | noTemplate name => .noTemplate name
  | other error => .template error

/-- The course of a rendering: it asks for templates by name, those that are included or imported
among them. -/
inductive Rendering where
  | done (text : String)
  | failed (trouble : Trouble)
  | ask (name : String) (answer : Option Template → Rendering)

namespace Rendering

def ofResult : Result → Rendering
  | .ok text => done text
  | .error m => failed (.misfit m)

def andThen : Rendering → (String → Rendering) → Rendering
  | done text, next => next text
  | failed trouble, _ => failed trouble
  | ask name answer, next => ask name fun found => (answer found).andThen next

def run (find? : String → Except Failure (Option Template)) : Rendering → Except Failure String
  | done text => .ok text
  | failed trouble => .error trouble.failure
  | ask name answer =>
    match find? name with
    | .ok found => (answer found).run find?
    | .error failure => .error failure

end Rendering

/-- What renders templates. A template may make use of chance: what is drawn is the same for all
renderings of one page in one run, and need not be the same in another run. -/
class Engine where
  render : (chance : Nat) → (page : String) → (links : Registry) → Template → Context → Rendering

section Engine

variable [Engine] (chance : Nat) (page : String) (links : Registry)

/-- What a template makes of a context. The one for containers imports the parts in the details
template; where a theme has that template for itself, the engine has to see what becomes of it. -/
def Template.render (context : Context) : Template → Rendering
  | text source => Engine.render chance page links (.text source) context
  | standard .container =>
    .ask Standard.details.fileName fun found =>
      if found == some (standard .details) then
        .ofResult (Standard.container.markup links context)
      else Engine.render chance page links (standard .container) context
  | standard template => .ofResult (template.markup links context)

def fill (name : String) (context : Context) : Rendering :=
  .ask name fun found =>
    match found with
    | some template => template.render chance page links context
    | none => .failed (.noTemplate name)

end Engine

end Refsite.Page
