import Refsite.Page.Item
import Refsite.Source.Listing
namespace Refsite.Page

def typeLinks (r : Registry) : List Json → Result
  | [] => .ok ""
  | [name] => linkTo r name
  | name :: names => do
    let front ← linkTo r name
    let back ← typeLinks r names
    return front ++ " | " ++ back

/-- The type of a parameter or of what comes out of a call. -/
def typeOf (r : Registry) (x : Json) : Result :=
  let names := (lookIn x "type").bind fun type =>
    if type.isPresent then lookIn type "names" else none
  if holds names then do typeLinks r (← itemsOf names) else .ok ""

def defaultText (x : Option Json) : String :=
  match x with
  | some .null => ""
  | x => escaped x

def paramRow (r : Registry) (param : Json) : Result := do
  let type ← typeOf r param
  let mark (name text : String) := if holds (lookIn param name) then text else ""
  return "    <tr>\n" ++
    "        <td class=\"name\"><code>" ++ escaped (lookIn param "name") ++ "</code></td>\n" ++
    "        <td class=\"type\">" ++ type ++ "</td>\n" ++
    "        <td class=\"attributes\">\n" ++
    mark "optional" "&lt;optional&gt;<br>" ++
    mark "nullable" "&lt;nullable&gt;<br>" ++
    mark "variable" "&lt;repeatable&gt;<br>" ++
    "        </td>\n" ++
    "        <td class=\"default\">" ++ defaultText (lookIn param "defaultvalue") ++ "</td>\n" ++
    "        <td class=\"description last\">" ++ textOf (lookIn param "description") ++ "</td>\n" ++
    "    </tr>\n"

def paramsTable (r : Registry) (params : List Json) : Result := do
  let rows ← concat (paramRow r) params
  return "<table class=\"params\">\n" ++
    "    <thead>\n" ++
    "    <tr>\n" ++
    "        <th>Name</th>\n" ++
    "        <th>Type</th>\n" ++
    "        <th>Attributes</th>\n" ++
    "        <th>Default</th>\n" ++
    "        <th class=\"last\">Description</th>\n" ++
    "    </tr>\n" ++
    "    </thead>\n" ++
    "    <tbody>\n" ++
    rows ++
    "    </tbody>\n" ++
    "</table>\n"

def linkItems (r : Registry) (x : Option Json) : Result := do
  let links ← (← itemsOf x).mapM (linkTo r)
  return String.join (links.map fun link => "<li>" ++ link ++ "</li>")

/-- The link to the listing of the declaring file, at the line of the declaration. -/
def sourceLink (r : Registry) (s : Symbol) : String :=
  match s.origin with
  | none => ""
  | some origin =>
    let path := origin.shortPath.getD ""
    if path.isEmpty then ""
    else
      match origin.line with
      | none => r.linkTo path (some path) none none
      | some line =>
        let number := toString line
        r.linkTo path (some path) none (some (Source.lineAnchor number)) ++ ", line " ++ number

/-- A see-item: markup as it stands, anything else as a link. -/
def seeItem (r : Registry) (x : Json) : Result :=
  match x with
  | .string s => .ok (if s.startsWith "<a " then s else r.link s)
  | .object es =>
    if (Json.Entries.find? es "startswith").isSome then .error .wrongType else .error .undefined
  | _ => .error .undefined

def partIf (x : Option Json) (part : Unit → Result) : Result := if holds x then part () else .ok ""

def details (r : Registry) (i : Item) : Result := do
  let version := i.get? "version"
  let since := i.get? "since"
  let listeners ← partIf (i.get? "listeners") fun _ => do
    let links ← linkItems r (i.get? "listeners")
    return "    <dt class=\"tag-listeners\">Listeners of This Event:</dt>\n" ++
      "    <dd class=\"tag-listeners\"><ul>" ++ links ++ "</ul></dd>\n"
  let path := (i.get? "meta").bind fun origin =>
    if origin.isPresent then lookIn origin "shortpath" else none
  let source ← partIf path fun _ => do
    let link ← match i.symbol with
      | some s => Except.ok (sourceLink r s)
      | none => .error .noField
    return "    <dt class=\"tag-source\">Source:</dt>\n" ++
      "    <dd class=\"tag-source\">" ++ link ++ "</dd>\n"
  let see ← partIf (i.get? "see") fun _ => do
    let items ← (← itemsOf (i.get? "see")).mapM (seeItem r)
    return "    <dt class=\"tag-see\">See:</dt>\n" ++
      "    <dd class=\"tag-see\"><ul>" ++
      String.join (items.map fun item => "<li>" ++ item ++ "</li>") ++ "</ul></dd>\n"
  return "<dl class=\"details\">\n" ++
    (if holds version then
      "<dt class=\"tag-version\">Version:</dt><dd class=\"tag-version\">" ++ escaped version ++
        "</dd>"
      else "") ++
    (if holds since then
      "<dt class=\"tag-since\">Since:</dt><dd class=\"tag-since\">" ++ escaped since ++ "</dd>"
      else "") ++
    listeners ++ source ++ see ++
    "</dl>\n"

def exampleText (x : Json) : String :=
  let caption := lookIn x "caption"
  (if holds caption then "<p class=\"code-caption\">" ++ escaped caption ++ "</p>" else "") ++
    "<pre class=\"prettyprint\"><code>" ++ escaped (lookIn x "code") ++ "</code></pre>\n"

def examples (i : Item) : Result :=
  partIf (i.get? "examples") fun _ => do
    let items ← itemsOf (i.get? "examples")
    return "<h5>Example" ++ (if items.length > 1 then "s" else "") ++ "</h5>\n" ++
      String.join (items.map exampleText)

def describing (x : Option Json) : String :=
  if holds x then "<div class=\"description\">" ++ textOf x ++ "</div>" else ""

def entryHeading (i : Item) (label : String) : String :=
  "<h4 class=\"name\" id=\"" ++ escaped (i.get? "id") ++ "\">" ++ textIfAny (i.get? "attribs") ++
    label ++ "</h4>\n"

def member (r : Registry) (i : Item) : Result := do
  let label := escaped (i.get? "name") ++ textIfAny (i.get? "signature")
  let below ← details r i
  let shown ← examples i
  return entryHeading i label ++ describing (i.get? "description") ++ below ++ "\n" ++ shown ++ "\n"

def linkSection (r : Registry) (title : String) (x : Option Json) : Result :=
  partIf x fun _ => do
    let links ← linkItems r x
    return "<h5>" ++ title ++ "</h5>\n<ul>" ++ links ++ "</ul>\n"

def outcome (r : Registry) (x : Json) : Result := do
  let type ← typeOf r x
  return "<div class=\"param-desc\">" ++ textOf (lookIn x "description") ++ "</div>\n" ++
    "<dl><dt>Type</dt><dd><span class=\"param-type\">" ++ type ++ "</span></dd></dl>\n"

def method (r : Registry) (i : Item) : Result := do
  let signature := i.get? "signature"
  let label := if holds signature then textOf signature else escaped (i.get? "name")
  let params ← partIf (i.get? "params") fun _ => do
    let table ← paramsTable r (← itemsOf (i.get? "params"))
    return "<h5>Parameters:</h5>\n" ++ table ++ "\n"
  let below ← details r i
  let fires ← linkSection r "Fires:" (i.get? "fires")
  let listens ← linkSection r "Listens to Events:" (i.get? "listens")
  let returns ← partIf (i.get? "returns") fun _ => do
    let outcomes ← concat (outcome r) (← itemsOf (i.get? "returns"))
    return "<h5>Returns:</h5>\n" ++ outcomes
  let shown ← examples i
  return entryHeading i label ++ describing (i.get? "description") ++ params ++ below ++ "\n" ++
    fires ++ listens ++ returns ++ shown ++ "\n"

end Refsite.Page
