import Refsite.Link.Anchor
import Refsite.Misfit
namespace Refsite.Symbol

/-- A see-item that names a place: a number sign, then something on the same line. -/
def isPlace (item : String) : Bool :=
  match item.toList with
  | '#' :: c :: _ => c != '\n'
  | _ => false

def placeLink (page item : String) : String :=
  if isPlace item then
    "<a href=\"" ++ Html.escape (page ++ item) ++ "\">" ++ Html.escape item ++ "</a>"
  else item

def linkPlaces (r : Registry) (s : Symbol) : Except LinkError Symbol :=
  if s.see.any isPlace then do
    let page := onChars (Text.upTo '#') (← r.require s.longname)
    return { s with see := s.see.map (placeLink page) }
  else return s

def assignId (r : Registry) (s : Symbol) : Except LinkError Symbol := do
  let url ← r.require s.longname
  let id := if url.toList.contains '#' then onChars (Text.afterLast '#') url else s.name
  return { s with id := some id }

end Refsite.Symbol
