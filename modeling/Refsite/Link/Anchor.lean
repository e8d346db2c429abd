import Refsite.Html.Escape
import Refsite.Link.Registry
namespace Refsite

namespace Link

open Refsite.Text (isBlank)

/-- A piece of a type expression: a separator, or a name between separators. -/
inductive Piece where
  | separator (text : List Char)
  | name (text : List Char)
  deriving DecidableEq, Repr

def isSeparatorMark (c : Char) : Bool :=
  c == '<' || c == '>' || c == ',' || c == '|' || c == '(' || c == ')' || isBlank c

/-- Puts a character in front of pieces. A blank or a comma joins a run of blanks behind it, a point
joins an angle bracket, and all but the separators joins a name. -/
def Piece.push (c : Char) : List Piece → List Piece
  | [] => if isSeparatorMark c then [separator [c]] else [name [c]]
  | separator (d :: text) :: rest =>
    if (isBlank c || c == ',') && isBlank d then separator (c :: d :: text) :: rest
    else if c == '.' && d == '<' then separator (c :: d :: text) :: rest
    else if isSeparatorMark c then separator [c] :: separator (d :: text) :: rest
    else name [c] :: separator (d :: text) :: rest
  | separator [] :: rest => separator [c] :: rest
  | name text :: rest =>
    if isSeparatorMark c then separator [c] :: name text :: rest else name (c :: text) :: rest

def pieces (text : List Char) : List Piece := text.foldr Piece.push []

def isTypeExpression (name : String) : Bool := name.toList.any isSeparatorMark

def outsideSchemes : List (List Char) :=
  ["http://".toList, "https://".toList, "ftp://".toList]

def isOutside (name : String) : Bool :=
  outsideSchemes.any fun scheme => (Text.dropFrontAnyCase? scheme name.toList).isSome

end Link

open Link

def anchor (url label : String) (cssClass fragment : Option String) : String :=
  let url := match fragment with
    | some f => if f.isEmpty then url else url ++ "#" ++ f
    | none => url
  let classAttr := match cssClass with
    | some c => if c.isEmpty then "" else " class=\"" ++ Html.escape c ++ "\""
    | none => ""
  "<a href=\"" ++ Html.escape url ++ "\"" ++ classAttr ++ ">" ++ Html.escape label ++ "</a>"

namespace Registry

def target? (r : Registry) (name : String) : Option String :=
  if isOutside name then some name else r.resolve? name

def linkPiece (r : Registry) (cssClass : Option String) : Piece → String
  | .separator text => Html.escape (String.ofList text)
  | .name text =>
    let name := String.ofList text
    match r.resolve? name with
    | none => Html.escape name
    | some url => anchor (if isOutside name then name else url) name cssClass none

def linkTo (r : Registry) (longname : String) (label cssClass fragment : Option String) : String :=
  let shown := label.getD longname
  match r.target? longname with
  | some url => anchor url shown cssClass fragment
  | none =>
    if shown == longname && isTypeExpression longname then
      String.join ((pieces longname.toList).map (r.linkPiece cssClass))
    else Html.escape shown

def link (r : Registry) (longname : String) : String := r.linkTo longname none none none

def tutorialLink (r : Registry) (name : String) (label : Option String) : String :=
  match r.tutorialUrl? name with
  | none => "<em class=\"disabled\">Tutorial: " ++ Html.escape name ++ "</em>"
  | some url =>
    let shown := match label with
      | some l => if l.isEmpty then name else l
      | none => name
    "<a href=\"" ++ Html.escape url ++ "\">" ++ Html.escape shown ++ "</a>"

end Registry

end Refsite
