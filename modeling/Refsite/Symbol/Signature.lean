import Refsite.Link.Anchor
import Refsite.Misfit
import Refsite.Symbol.Record
namespace Refsite

def Json.Entries.has (es : Json.Entries) (name : String) : Bool :=
  ((es.find? name).getD .null).isPresent

/-- The modifiers of an item around its access level. -/
structure Modifiers where
  front : List String
  back : List String
  deriving DecidableEq, Repr

namespace Modifiers

def isWord (x : Option Json) (words : List String) : Bool :=
  match x with
  | some (.string s) => words.contains s
  | _ => false

def scopeWord (x : Option Json) : List String :=
  match x with
  | some (.string "static") => ["static"]
  | some (.string "inner") => ["inner"]
  | _ => []

def flagWord (x : Option Json) (ifTrue ifFalse : List String) : List String :=
  match x with
  | some (.bool true) => ifTrue
  | some (.bool false) => ifFalse
  | _ => []

/-- The modifiers that a record shows. A scope is shown with functions and values only, and a mark
of readonly with members only. -/
def ofEntries (isAsync : Bool) (es : Json.Entries) : Modifiers :=
  let kind := es.find? "kind"
  { front :=
      (if isAsync then ["async"] else []) ++
      (if es.has "generator" then ["generator"] else []) ++
      (if es.has "virtual" then ["abstract"] else [])
    back :=
      (if isWord kind ["function", "member", "constant"] then scopeWord (es.find? "scope")
        else []) ++
      (if isWord kind ["member"] then flagWord (es.find? "readonly") ["readonly"] [] else []) ++
      (if isWord kind ["constant"] then ["constant"] else []) ++
      (if es.has "optional" then ["opt"] else []) ++
      flagWord (es.find? "nullable") ["nullable"] ["non-null"] }

end Modifiers

def modifierText (words : List String) : String :=
  if words.isEmpty then "" else Html.escape ("(" ++ ", ".intercalate words ++ ") ")

namespace Symbol

def entries (s : Symbol) : Json.Entries :=
  match s.record true with
  | .object es => es
  | _ => []

def modifiers (s : Symbol) : List String :=
  let m := Modifiers.ofEntries s.isAsync s.entries
  let access := match s.access with
    | some level => if level.isEmpty || level == "public" then [] else [level]
    | none => []
  m.front ++ access ++ m.back

def badge (s : Symbol) : String :=
  "<span class=\"type-signature\">" ++ modifierText s.modifiers ++ "</span>"

def looseTypeNames : Json → Except Misfit (List Json)
  | .null => .ok []
  | .object es =>
    match Json.Entries.find? es "names" with
    | none => .ok []
    | some (.array names) => .ok names
    | some (.string names) => .ok (names.toList.map fun c => .string (String.singleton c))
    | some (.object names) => .ok (names.map fun (name, _) => .string name)
    | some x => if x.isPresent then .error .wrongType else .ok []
  | _ => .error .noField

def typeNames (s : Symbol) : Except Misfit (List Json) :=
  match s.detail.type? with
  | some type => .ok ((type.map fun t => t.names.map Json.string).getD [])
  | none => looseTypeNames ((Json.Entries.find? s.extra "type").getD .null)

def isFunctionName (name : String) : Bool := lowerText name == "function"

def mentionsFunction (text : String) : Bool :=
  Text.occursIn "Function".toList text.toList || Text.occursIn "function".toList text.toList

def needsSignature (s : Symbol) : Bool :=
  match s.detail with
  | .function _ | .classType .. => true
  | .typedef _ type .. => ((type.map (·.names)).getD []).any isFunctionName
  | .nameSpace _ => (s.origin.bind (·.snippet.type)).any mentionsFunction
  | _ => false

end Symbol

namespace Outcome

def isPublicLevel : Json → Bool
  | .string level => level == "public"
  | _ => false

/-- The modifiers of a value that comes out of a call. The access level is none of its fields and
may be of any shape. -/
def modifiers (o : Outcome) : List Json :=
  let es := o.fields true ++ o.extra
  let m := Modifiers.ofEntries (Json.Entries.has es "is_async") es
  let access := (Json.Entries.find? es "access").toList.filter fun x =>
    x.isPresent && !isPublicLevel x
  m.front.map .string ++ access ++ m.back.map .string

end Outcome

/-- The texts among the items, which have to be all of them. -/
def Json.texts? : List Json → Except Misfit (List String)
  | [] => .ok []
  | .string s :: items => (Json.texts? items).map (s :: ·)
  | _ :: _ => .error .wrongType

def distinct {α : Type} [BEq α] (items : List α) : List α :=
  items.foldl (fun kept a => if kept.contains a then kept else kept ++ [a]) []

namespace Param

def marks (p : Param) : List String :=
  (if p.optional == some true then ["opt"] else []) ++
  match p.nullable with
  | some true => ["nullable"]
  | some false => ["non-null"]
  | none => []

def markup (p : Param) : String :=
  let name := Html.escape p.name
  let name := if p.variadic == some true then "&hellip;" ++ name else name
  if p.marks.isEmpty then name
  else name ++ "<span class=\"signature-attributes\">" ++ ", ".intercalate p.marks ++ "</span>"

def isTopLevel (p : Param) : Bool := !p.name.isEmpty && !p.name.toList.contains '.'

end Param

namespace Symbol

def paramMarkup (s : Symbol) : List String :=
  (((s.detail.call?.map (·.params)).getD []).filter Param.isTopLevel).map Param.markup

def signatureParams (s : Symbol) : String :=
  Html.escape s.name ++ "(" ++ ", ".intercalate s.paramMarkup ++ ")"

def outcomes (s : Symbol) : List Outcome :=
  match s.detail.call? with
  | some call => if call.yields.isEmpty then call.returns else call.yields
  | none => []

/-- An arrow, the modifiers and the types of what comes out; empty without types. -/
def signatureReturns (r : Registry) (s : Symbol) : Except Misfit String := do
  let names := s.outcomes.flatMap fun o => (o.type.map (·.names)).getD []
  let types := distinct (names.map r.link)
  if types.isEmpty then return ""
  else
    let words ← Json.texts? (s.outcomes.flatMap Outcome.modifiers)
    return " &rarr; " ++ modifierText (distinct words) ++ "\x7b" ++ "|".intercalate types ++ "\x7d"

def typeMarkup (types : List String) : String :=
  let text := if types.isEmpty then "" else " :" ++ "|".intercalate types
  "<span class=\"type-signature\">" ++ text ++ "</span>"

def signatureTypes (r : Registry) (s : Symbol) : Except Misfit String := do
  let names ← Json.texts? (← s.typeNames)
  return typeMarkup (names.map r.link)

/-- Sets the signature and the badge of a symbol; a symbol that has neither gets an empty badge. -/
def sign (r : Registry) (s : Symbol) : Except Misfit Symbol :=
  if s.needsSignature then do
    let returns ← s.signatureReturns r
    let signature := "<span class=\"signature\">" ++ s.signatureParams ++
      "</span><span class=\"type-signature\">" ++ returns ++ "</span>"
    return { s with signature := some signature, attribs := some s.badge }
  else if s.kind == .member || s.kind == .constant then do
    let signature ← s.signatureTypes r
    return { s with signature := some signature, attribs := some s.badge }
  else return { s with attribs := some "" }

end Symbol

end Refsite
