import Refsite.Proofs.Html.Escape
import Refsite.Proofs.Link.Pieces
namespace Refsite

open Html Link

def nonEmpty? (text : Option String) : Option String := text.filter fun t => !t.isEmpty

def addressChars (url : String) (fragment : Option String) : List Char :=
  url.toList ++ (nonEmpty? fragment).elim [] fun f => '#' :: f.toList

namespace Registry

/-- A piece on its own: a name that resolves is a link to it, anything else is text. -/
def pieceChars (r : Registry) (cssClass : Option String) : Piece → List Char
  | .separator text => escapeChars text
  | .name text =>
    if (r.resolve? (String.ofList text)).isSome then
      (r.linkTo (String.ofList text) none cssClass none).toList
    else escapeChars text

/-- What a link to a longname is as markup. -/
structure LinkMarkup (r : Registry) (longname : String) (label cssClass fragment : Option String)
    (markup : List Char) : Prop where
  linked : Linked markup
  shown : shownText markup = (label.getD longname).toList
  element : ∀ url, r.target? longname = some url →
    Element (addressChars url fragment) ((nonEmpty? cssClass).map String.toList)
      (label.getD longname).toList markup
  /-- A label of its own hides the parts of what leads nowhere. -/
  plain : r.target? longname = none → label.getD longname ≠ longname → Escaped markup
  /-- The longname of what leads nowhere is cut in the one way that there is. -/
  parts : isOutside longname = false → r.resolve? longname = none →
    (label = none ∨ label = some longname) →
      ∃ ps, (∀ qs, Cut longname.toList qs ↔ qs = ps) ∧ markup = ps.flatMap (r.pieceChars cssClass)

end Registry

theorem toList_escape (text : String) : (escape text).toList = escapeChars text.toList := by
  rw [escape, onChars, String.toList_ofList]

theorem nonEmpty_some (text : String) :
    nonEmpty? (some text) = if text.isEmpty then none else some text := by
  rw [nonEmpty?, Option.filter_some]
  cases text.isEmpty <;> rfl

theorem toList_anchor (url label : String) (cssClass fragment : Option String) :
    (anchor url label cssClass fragment).toList =
      tag (openingTag (escapeChars (addressChars url fragment))
          ((nonEmpty? cssClass).map fun c => escapeChars c.toList))
        (escapeChars label.toList ++ tag closingTag []) := by
  have hanchor : anchor url label cssClass fragment = "<a href=\"" ++
      Html.escape (fragment.elim url fun f => if f.isEmpty then url else url ++ "#" ++ f) ++ "\"" ++
      (cssClass.elim "" fun c => if c.isEmpty then "" else " class=\"" ++ Html.escape c ++ "\"") ++
      ">" ++ Html.escape label ++ "</a>" := by
    cases fragment <;> cases cssClass <;> rfl
  have hurl : (fragment.elim url fun f => if f.isEmpty then url else url ++ "#" ++ f).toList =
      addressChars url fragment := by
    cases fragment with
    | none => exact (List.append_nil _).symm
    | some f =>
      rw [addressChars, nonEmpty_some, Option.elim_some]
      cases f.isEmpty <;> simp
  have hclass : (cssClass.elim "" fun c =>
      if c.isEmpty then "" else " class=\"" ++ Html.escape c ++ "\"").toList =
      ((nonEmpty? cssClass).map fun c => escapeChars c.toList).elim [] fun c =>
        " class=\"".toList ++ c ++ "\"".toList := by
    cases cssClass with
    | none => rfl
    | some c =>
      rw [nonEmpty_some, Option.elim_some]
      cases c.isEmpty <;> simp [toList_escape]
  have hopen : "<a href=\"".toList = '<' :: "a href=\"".toList := by decide
  have hclose : "</a>".toList = '<' :: ("/a".toList ++ [">"].flatMap String.toList) := by decide
  unfold openingTag closingTag tag
  rw [hanchor, ← hclass]
  simp only [String.toList_append, toList_escape, hurl, hopen, hclose, List.append_assoc,
    List.cons_append]
  rfl

theorem element_anchor (url label : String) (cssClass fragment : Option String) :
    Element (addressChars url fragment) ((nonEmpty? cssClass).map String.toList) label.toList
      (anchor url label cssClass fragment).toList := by
  rw [toList_anchor]
  refine .mk (reads_iff.mpr rfl) ?_ (reads_iff.mpr rfl)
  cases nonEmpty? cssClass with
  | none => exact .none
  | some c => exact .some (reads_iff.mpr rfl)

namespace Registry

section Linking

variable {r : Registry} {longname : String} {label cssClass fragment : Option String}

theorem linkTo_of_target {url : String} (h : r.target? longname = some url) :
    r.linkTo longname label cssClass fragment =
      anchor url (label.getD longname) cssClass fragment := by
  rw [linkTo, h]

theorem linkTo_of_label (h : r.target? longname = none) (hlabel : label.getD longname ≠ longname) :
    r.linkTo longname label cssClass fragment = escape (label.getD longname) := by
  rw [linkTo, h]
  dsimp only
  rw [beq_false_of_ne hlabel]
  rfl

theorem target_isSome_of_resolve (h : (r.resolve? longname).isSome) :
    ∃ url, r.target? longname = some url := by
  rw [target?]
  split
  · exact ⟨longname, rfl⟩
  · exact Option.isSome_iff_exists.mp h

theorem toList_linkPiece (r : Registry) (cssClass : Option String) (p : Piece) :
    (r.linkPiece cssClass p).toList = r.pieceChars cssClass p := by
  cases p with
  | separator text =>
    rw [linkPiece, pieceChars, toList_escape, String.toList_ofList]
  | name text =>
    rw [linkPiece, pieceChars]
    cases h : r.resolve? (String.ofList text) with
    | none =>
      show (escape (String.ofList text)).toList = escapeChars text
      rw [toList_escape, String.toList_ofList]
    | some url =>
      have htarget : r.target? (String.ofList text) =
          some (if isOutside (String.ofList text) then String.ofList text else url) := by
        rw [target?, h]
        split <;> rfl
      rw [linkTo_of_target htarget, Option.isSome_some, if_pos rfl]
      rfl

theorem toList_linkTo_of_parts (h : r.target? longname = none)
    (hlabel : label.getD longname = longname) :
    (r.linkTo longname label cssClass fragment).toList =
      (pieces longname.toList).flatMap (r.pieceChars cssClass) := by
  rw [linkTo, h, hlabel]
  dsimp only
  rw [beq_self_eq_true, Bool.true_and]
  split
  · rw [String.toList_join, List.flatMap_map]
    congr 1
    funext p
    exact toList_linkPiece r cssClass p
  · next hplain =>
    rw [toList_escape]
    by_cases hnil : longname.toList = []
    · rw [hnil]
      rfl
    · have hcut : Cut longname.toList [.name longname.toList] := by
        refine cut_name hnil fun c hc => Bool.eq_false_iff.mpr fun hmark => hplain ?_
        exact List.any_eq_true.mpr ⟨c, hc, hmark⟩
      have hnone : r.resolve? longname = none := by
        rw [target?] at h
        split at h
        · cases h
        · exact h
      rw [← cut_iff.mp hcut, List.flatMap_singleton, pieceChars, String.ofList_toList, hnone]
      rfl

end Linking

section Reading

variable (r : Registry) (longname : String) (label cssClass fragment : Option String)

theorem presents_anchor (url label : String) :
    Presents (anchor url label cssClass fragment).toList label.toList :=
  .of_element (element_anchor url label cssClass fragment)

theorem presents_pieceChars (p : Piece) : Presents (r.pieceChars cssClass p) p.text := by
  cases p with
  | separator text => exact presents_escapeChars text
  | name text =>
    rw [pieceChars]
    split
    · next hresolves =>
      obtain ⟨url, hurl⟩ := target_isSome_of_resolve hresolves
      rw [linkTo_of_target hurl]
      have h := presents_anchor cssClass none url (String.ofList text)
      rwa [String.toList_ofList] at h
    · exact presents_escapeChars text

theorem presents_linkTo :
    Presents (r.linkTo longname label cssClass fragment).toList (label.getD longname).toList := by
  cases htarget : r.target? longname with
  | some url =>
    rw [linkTo_of_target htarget]
    exact presents_anchor cssClass fragment url _
  | none =>
    by_cases hlabel : label.getD longname = longname
    · have h : Presents ((pieces longname.toList).flatMap (r.pieceChars cssClass))
          ((pieces longname.toList).flatMap Piece.text) :=
        .flatMap fun p _ => presents_pieceChars r cssClass p
      rw [toList_linkTo_of_parts htarget hlabel, hlabel]
      rwa [(cut_pieces longname.toList).flatten] at h
    · rw [linkTo_of_label htarget hlabel, toList_escape]
      exact presents_escapeChars _

/-- A link is escaped text and elements, and a reader sees its label, or the longname where it has
none. What leads somewhere is one element. Of a longname that leads nowhere and is shown itself,
the names between separators that resolve are links of their own, and the rest is text. -/
theorem linkMarkup_linkTo :
    LinkMarkup r longname label cssClass fragment
      (r.linkTo longname label cssClass fragment).toList where
  linked := (presents_linkTo r longname label cssClass fragment).linked
  shown := (presents_linkTo r longname label cssClass fragment).shownText_eq
  element := by
    intro url htarget
    rw [linkTo_of_target htarget]
    exact element_anchor url _ cssClass fragment
  plain := by
    intro htarget hlabel
    rw [linkTo_of_label htarget hlabel, toList_escape]
    exact escaped_escapeChars _
  parts := by
    intro houtside hresolve hlabel
    have htarget : r.target? longname = none := by
      rw [target?, houtside, if_neg Bool.false_ne_true, hresolve]
    have hshown : label.getD longname = longname := by
      obtain rfl | rfl := hlabel <;> rfl
    refine ⟨pieces longname.toList, fun _ => cut_iff, ?_⟩
    rw [toList_linkTo_of_parts htarget hshown]

end Reading

example : initial.link "Array.<global>" =
    "Array.&lt;<a href=\"global.html\">global</a>&gt;" := by decide +kernel

end Registry

end Refsite
