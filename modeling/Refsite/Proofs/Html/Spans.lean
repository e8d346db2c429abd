import Refsite.Proofs.Html.Escape
namespace Refsite.Html

open Text

/-- The entities of the two signs that no text is escaped to. -/
def signs : List (List Char × Char) := [("&hellip;".toList, '…'), ("&rarr;".toList, '→')]

/-- The entity at the head of a text, be it a mark's or a sign's, and its length. -/
def anyEntity? : List Char → Option (List Char × Nat) := entityIn? (entities ++ signs)

def visibleText (markup : List Char) : List Char := substitute anyEntity? (dropTags false markup)

def spanClasses : List (List Char) :=
  ["signature".toList, "type-signature".toList, "signature-attributes".toList]

def spanTag (cssClass : List Char) : List Char := "span class=\"".toList ++ cssClass ++ "\"".toList

def span (cssClass inner rest : List Char) : List Char :=
  tag (spanTag cssClass) (inner ++ tag "/span".toList rest)

/-- Escaped text, signs, links and spans. A link holds text only, and leads from its label to its
address. -/
inductive Spanned (Leads : List Char → List Char → Prop) : List Char → Prop
  | nil : Spanned Leads []
  | text {text markup : List Char} (h : Escaped text) (rest : Spanned Leads markup) :
    Spanned Leads (text ++ markup)
  | sign {sign markup : List Char} (h : sign ∈ signs.map (·.1)) (rest : Spanned Leads markup) :
    Spanned Leads (sign ++ markup)
  | link {address label element markup : List Char} (h : Element address none label element)
    (leads : Leads label address) (rest : Spanned Leads markup) : Spanned Leads (element ++ markup)
  | span {cssClass inner markup : List Char} (h : cssClass ∈ spanClasses)
    (inside : Spanned Leads inner) (rest : Spanned Leads markup) :
    Spanned Leads (span cssClass inner markup)

/-- Markup with spans that shows a text, whatever follows it. -/
structure Shows (Leads : List Char → List Char → Prop) (markup text : List Char) : Prop where
  spanned : Spanned Leads markup
  seen : ∀ rest, visibleText (markup ++ rest) = text ++ visibleText rest

variable {Leads : List Char → List Char → Prop}

theorem Spanned.append {markup markup' : List Char} (h : Spanned Leads markup)
    (h' : Spanned Leads markup') : Spanned Leads (markup ++ markup') := by
  induction h with
  | nil => exact h'
  | text htext _ ih =>
    rw [List.append_assoc]
    exact .text htext ih
  | sign hsign _ ih =>
    rw [List.append_assoc]
    exact .sign hsign ih
  | link helement hleads _ ih =>
    rw [List.append_assoc]
    exact .link helement hleads ih
  | @span cssClass inner markup hclass hinside _ _ ih =>
    have hassoc : Html.span cssClass inner markup ++ markup' =
        Html.span cssClass inner (markup ++ markup') := by
      simp [Html.span, tag]
    rw [hassoc]
    exact .span hclass hinside ih

theorem head_anyEntity : ∀ e ∈ entities ++ signs, e.1.head? = some '&' := by decide

theorem rewrites_anyEntity : ∀ e ∈ entities ++ signs, Rewrites anyEntity? e.1 [e.2] := by
  intro e he rest
  have hne : ∀ e ∈ entities ++ signs, e.1 ≠ [] := by decide
  have hread : ∀ e ∈ entities ++ signs, anyEntity? (e.1 ++ rest) = some ([e.2], e.1.length) := by
    simp only [entities, signs, List.cons_append, List.nil_append, List.forall_mem_cons]
    exact ⟨rfl, rfl, rfl, rfl, rfl, rfl, rfl, List.forall_mem_nil _⟩
  exact substitute_append_of_some rest (hne e he) (hread e he)

theorem rewrites_escaped (text : List Char) : Rewrites anyEntity? (escapeChars text) text :=
  rewrites_escapeChars head_anyEntity rewrites_anyEntity (List.subset_append_left _ _) text

theorem visibleText_tag {inner : List Char} (h : '>' ∉ inner) (rest : List Char) :
    visibleText (tag inner rest) = visibleText rest := by
  rw [visibleText, dropTags_tag h]
  rfl

namespace Shows

variable {markup markup' text text' : List Char}

theorem nil : Shows Leads [] [] := ⟨.nil, fun _ => rfl⟩

theorem append (h : Shows Leads markup text) (h' : Shows Leads markup' text') :
    Shows Leads (markup ++ markup') (text ++ text') where
  spanned := h.spanned.append h'.spanned
  seen := fun rest => by rw [List.append_assoc, h.seen, h'.seen, List.append_assoc]

theorem flatMap {α : Type} {f g : α → List Char} {as : List α}
    (h : ∀ a ∈ as, Shows Leads (f a) (g a)) : Shows Leads (as.flatMap f) (as.flatMap g) :=
  Text.flatMap_related .nil append h

theorem escapeChars (text : List Char) : Shows Leads (Html.escapeChars text) text where
  spanned := by
    have h : Spanned Leads (Html.escapeChars text ++ []) := .text (escaped_escapeChars text) .nil
    rwa [List.append_nil] at h
  seen := fun rest => by
    rw [visibleText, dropTags_append_of_notMem (bracket_notMem_escapeChars text).1]
    exact rewrites_escaped text _

theorem sign {entity : List Char} {c : Char} (h : (entity, c) ∈ signs) :
    Shows Leads entity [c] where
  spanned := by
    have hsign : Spanned Leads (entity ++ []) := .sign (List.mem_map_of_mem h) .nil
    rwa [List.append_nil] at hsign
  seen := fun rest => by
    have hplain : ∀ e ∈ signs, '<' ∉ e.1 := by decide
    rw [visibleText, dropTags_append_of_notMem (hplain _ h)]
    exact rewrites_anyEntity _ (List.mem_append_right _ h) _

theorem link {address label element : List Char} (h : Element address none label element)
    (leads : Leads label address) : Shows Leads element label where
  spanned := by
    have hlink := Spanned.link h leads .nil
    rwa [List.append_nil] at hlink
  seen := fun rest => by
    rw [visibleText, h.dropTags_append]
    exact rewrites_escaped label _

theorem span {cssClass : List Char} (hclass : cssClass ∈ spanClasses)
    (h : Shows Leads markup text) : Shows Leads (Html.span cssClass markup []) text where
  spanned := .span hclass h.spanned .nil
  seen := fun rest => by
    have hopen : ∀ c ∈ spanClasses, '>' ∉ spanTag c := by decide
    have hassoc : Html.span cssClass markup [] ++ rest = Html.span cssClass markup rest := by
      simp [Html.span, tag]
    rw [hassoc, Html.span, visibleText_tag (hopen cssClass hclass), h.seen,
      visibleText_tag (by decide)]

theorem visibleText_eq (h : Shows Leads markup text) : visibleText markup = text := by
  have hseen := h.seen []
  rw [List.append_nil] at hseen
  exact hseen.trans (List.append_nil text)

end Shows

end Refsite.Html
