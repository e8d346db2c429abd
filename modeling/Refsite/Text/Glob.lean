import Refsite.Text.CharSet
namespace Refsite.Text

inductive GlobPiece where
  | anyText
  | anyChar
  | char (c : Char)
  | oneOf (set : CharSet)
  deriving DecidableEq, Repr

abbrev Glob := List GlobPiece

namespace Glob

def ofText : List Char → Glob
  | [] => []
  | '*' :: text => .anyText :: ofText text
  | '?' :: text => .anyChar :: ofText text
  | '[' :: text =>
    match h : CharSet.cut? text with
    | some (inner, rest) =>
      have := CharSet.length_of_cut? h
      .oneOf (CharSet.ofText inner) :: ofText rest
    | none => .char '[' :: ofText text
  | c :: text => .char c :: ofText text
termination_by text => text.length

/-- Whether a piece and what follows it describe each rest of a text, from the text itself to its
empty rest; `next` says the same of what follows the piece. -/
def before (piece : GlobPiece) : (text : List Char) → (next : List Bool) → List Bool
  | c :: text, here :: next =>
    let later := before piece text next
    let fits := match piece with
      | .anyText => here || later.headD false
      | .anyChar => next.headD false
      | .char d => c == d && next.headD false
      | .oneOf set => set.contains c && next.headD false
    fits :: later
  | _, next => if piece == .anyText then next else next.map fun _ => false

def fitsRests : Glob → List Char → List Bool
  | [], text => text.map (fun _ => false) ++ [true]
  | piece :: glob, text => before piece text (fitsRests glob text)

def fits (glob : Glob) (text : List Char) : Bool := (fitsRests glob text).headD false

end Glob

def fitsPattern (pattern name : String) : Bool := (Glob.ofText pattern.toList).fits name.toList

end Refsite.Text
