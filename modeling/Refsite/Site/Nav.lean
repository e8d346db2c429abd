import Refsite.Link.Anchor
import Refsite.Site.Members
import Refsite.Text.Word
namespace Refsite

/-- An entry of the sidebar: a rendered link, or a heading without one, and the entries below it. -/
inductive NavNode where
  | mk (id anchor : String) (items : List NavNode)
  deriving Repr

namespace NavNode

def id : NavNode → String
  | mk id _ _ => id

def anchor : NavNode → String
  | mk _ anchor _ => anchor

def items : NavNode → List NavNode
  | mk _ _ items => items

mutual

def record : NavNode → Json
  | mk id anchor items =>
    .object [("id", .string id), ("anchor", .string anchor), ("items", .array (records items))]

def records : List NavNode → List Json
  | [] => []
  | n :: nodes => record n :: records nodes

end

end NavNode

def hiddenNameSpaces : List (List Char) := ["module:".toList, "event:".toList]

/-- A text without the hidden words, where they start a word; `wordBefore` tells whether a word
character stands before the text, and `skip` characters are still to be passed over. -/
def dropNameSpaces : (wordBefore : Bool) → (skip : Nat) → List Char → List Char
  | _, _, [] => []
  | _, skip + 1, c :: text => dropNameSpaces (Text.isWord c) skip text
  | wordBefore, 0, c :: text =>
    match if wordBefore then none
        else hiddenNameSpaces.find? fun word => (Text.dropFront? word (c :: text)).isSome with
    | some word => dropNameSpaces (Text.isWord c) (word.length - 1) text
    | none => c :: dropNameSpaces (Text.isWord c) 0 text

def stripNameSpaces (name : String) : String := onChars (dropNameSpaces false 0) name

namespace Nav

/-- Entries for the symbols whose longnames were not listed before, and the longnames listed now. -/
def ofSymbols (useLongname : Bool) (link : String → String → String) :
    (seen : List String) → List Symbol → List NavNode × List String
  | seen, [] => ([], seen)
  | seen, s :: symbols =>
    if seen.contains s.longname then ofSymbols useLongname link seen symbols
    else
      let name := if useLongname then s.longname else s.name
      let (nodes, seen) := ofSymbols useLongname link (s.longname :: seen) symbols
      (.mk s.longname (link s.longname (stripNameSpaces name)) [] :: nodes, seen)

def ofTutorials (r : Registry) : (seen : List String) → List Tutorial → List NavNode
  | _, [] => []
  | seen, t :: tutorials =>
    if seen.contains t.name then ofTutorials r seen tutorials
    else .mk t.name (r.tutorialLink t.name (some t.title)) [] ::
      ofTutorials r (t.name :: seen) tutorials

def ofGlobals (r : Registry) : (seen : List String) → List Symbol → List NavNode
  | _, [] => []
  | seen, s :: symbols =>
    let rest := ofGlobals r (s.longname :: seen) symbols
    if s.kind != .typedef && !seen.contains s.longname then
      .mk s.longname (r.linkTo s.longname (some s.name) none none) [] :: rest
    else rest

def heading (id title : String) (items : List NavNode) : List NavNode :=
  if items.isEmpty then [] else [.mk id (Html.escape title) items]

/-- The heading of the globals. Where none of them has an entry it leads to the global page. -/
def globalHeading (r : Registry) (seen : List String) (globals : List Symbol) : List NavNode :=
  if globals.isEmpty then []
  else
    let items := ofGlobals r seen globals
    let anchor := if items.isEmpty then
        r.linkTo Registry.globalName (some "Global") none none
      else "Global"
    [.mk Registry.globalName anchor items]

def upper (m : Members) : List (String × String × List Symbol) :=
  [("modules", "Modules", m.modules), ("externals", "Externals", m.externals),
   ("classes", "Classes", m.classes), ("events", "Events", m.events),
   ("namespaces", "Namespaces", m.namespaces), ("mixins", "Mixins", m.mixins)]

def entryLink (r : Registry) (category longname name : String) : String :=
  r.linkTo longname (some (if category == "externals" then stripQuotes name else name)) none none

def ofCategories (r : Registry) (useLongname : Bool) :
    (seen : List String) → List (String × String × List Symbol) → List NavNode × List String
  | seen, [] => ([], seen)
  | seen, (category, title, symbols) :: rest =>
    let (items, seen) := ofSymbols useLongname (entryLink r category) seen symbols
    let (nodes, seen) := ofCategories r useLongname seen rest
    (heading category title items ++ nodes, seen)

def home : NavNode :=
  .mk "home" ("<a href=\"" ++ Html.escape Registry.indexUrl ++ "\">Home</a>") []

def build (m : Members) (r : Registry) (useLongname : Bool) : List NavNode :=
  let (above, seen) := ofCategories r useLongname [] (upper m)
  let tutorials := heading "tutorials" "Tutorials" (ofTutorials r [] m.tutorials)
  let (interfaces, seen) :=
    ofCategories r useLongname seen [("interfaces", "Interfaces", m.interfaces)]
  home :: above ++ tutorials ++ interfaces ++ globalHeading r seen m.globals

def nodeMarkup (n : NavNode) : String :=
  if n.id == "home" then "<h2>" ++ n.anchor ++ "</h2>"
  else
    let items := n.items.map fun item => "<li>" ++ item.anchor ++ "</li>"
    "<h3>" ++ n.anchor ++ "</h3>" ++
      if items.isEmpty then "" else "<ul>" ++ String.join items ++ "</ul>"

def markup (nodes : List NavNode) : String := String.join (nodes.map nodeMarkup)

end Nav

end Refsite
