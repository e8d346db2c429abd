import Refsite.Link.Anchor
namespace Refsite.Link

open Refsite.Text

inductive TagStyle where
  | plain
  | code
  deriving DecidableEq, Repr

def tagWords : List (List Char) :=
  ["link".toList, "linkcode".toList, "linkplain".toList]

/-- Text that a tag was recognised in: how many characters it takes and what it says. -/
structure SymbolTag where
  length : Nat
  style : TagStyle
  body : List Char
  deriving DecidableEq, Repr

/-- The body of a tag behind its word: blanks, then something up to the closing brace. Where nothing
but blanks is left, the last of several is the body. -/
def tagBody? (text : List Char) : Option (List Char × Nat) :=
  match cutAt? '}' text with
  | none => none
  | some (inner, _) =>
    let blanks := inner.takeWhile isBlank
    let body := inner.dropWhile isBlank
    if blanks.isEmpty then none
    else if !body.isEmpty then some (body, inner.length + 1)
    else if blanks.length < 2 then none
    else some (blanks.drop (blanks.length - 1), inner.length + 1)

def tagWithWord? (text word : List Char) : Option SymbolTag := do
  let rest ← dropFrontAnyCase? ('{' :: '@' :: word) text
  let (body, length) ← tagBody? rest
  let style := if lower ((text.drop 2).take word.length) == "linkcode".toList then .code else .plain
  return ⟨2 + word.length + length, style, body⟩

def symbolTag? (text : List Char) : Option SymbolTag := tagWords.findSome? (tagWithWord? text)

def tutorialTag? (text : List Char) : Option (Nat × List Char) := do
  let rest ← dropFrontAnyCase? "\x7b@tutorial".toList text
  let blanks := rest.takeWhile isBlank
  if blanks.isEmpty then none
  else
    let isName (c : Char) := c != '}' && !isBlank c
    let after := rest.dropWhile isBlank
    let name := after.takeWhile isName
    let behind := after.dropWhile isName
    match name, behind.dropWhile isBlank with
    | _ :: _, '}' :: _ =>
      let gap := (behind.takeWhile isBlank).length
      some ("\x7b@tutorial".length + blanks.length + name.length + gap + 1, name)
    | _, _ => none

def caption? (text : List Char) : Option (List Char × List Char) :=
  match text with
  | '[' :: rest =>
    match cutAt? ']' rest with
    | some (caption, rest) => if caption.isEmpty then none else some (caption, rest)
    | none => none
  | _ => none

def label? (text : List Char) : Option (List Char) :=
  let text := strip text
  if text.isEmpty then none else some text

def splitBody (body : List Char) : List Char × Option (List Char) :=
  let body := strip body
  match cutAt? '|' body with
  | some (target, text) => (strip target, label? text)
  | none =>
    match cutAt? ' ' body with
    | some (target, text) => (strip target, label? text)
    | none => (body, none)

def renderSymbolTag (r : Registry) (caption : Option (List Char)) (tag : SymbolTag) : List Char :=
  let (target, text) := splitBody tag.body
  let label := (caption <|> text).map String.ofList
  let markup := (r.linkTo (String.ofList target) label none none).toList
  match tag.style with
  | .code => "<code>".toList ++ markup ++ "</code>".toList
  | .plain => markup

def renderTutorialTag (r : Registry) (caption : Option (List Char)) (name : List Char) :
    List Char :=
  (r.tutorialLink (String.ofList name) (caption.map String.ofList)).toList

def captioned? {τ : Type} (tag? : List Char → Option τ) (length : τ → Nat)
    (render : Option (List Char) → τ → List Char) (text : List Char) :
    Option (List Char × Nat) :=
  match caption? text with
  | some (caption, rest) =>
    (tag? rest).map fun tag => (render (some caption) tag, caption.length + 2 + length tag)
  | none => (tag? text).map fun tag => (render none tag, length tag)

def resolveSymbolTags (r : Registry) : List Char → List Char :=
  substitute (captioned? symbolTag? (·.length) (renderSymbolTag r))

def resolveTutorialTags (r : Registry) : List Char → List Char :=
  substitute (captioned? tutorialTag? (·.1) fun caption tag => renderTutorialTag r caption tag.2)

end Refsite.Link

namespace Refsite

/-- Turns the cross references of a text into links: first those to symbols, then, in the result,
those to tutorials. -/
def Registry.resolveTags (r : Registry) (markup : String) : String :=
  onChars (fun text => Link.resolveTutorialTags r (Link.resolveSymbolTags r text)) markup

end Refsite
