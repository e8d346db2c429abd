import Refsite.Html.Escape
import Refsite.Proofs.Text.Basic
import Refsite.Proofs.Text.Search
namespace Refsite.Html

open Text

def entities : List (List Char × Char) :=
  [("&amp;".toList, '&'), ("&lt;".toList, '<'), ("&gt;".toList, '>'), ("&#39;".toList, '\''),
   ("&#34;".toList, '"')]

def marks : List Char := entities.map (·.2)

/-- The entity of a table at the head of a text, as the character that it stands for, and its
length. -/
def entityIn? (table : List (List Char × Char)) (text : List Char) : Option (List Char × Nat) :=
  table.findSome? fun (entity, c) =>
    (dropFront? entity text).map fun _ => ([c], entity.length)

/-- The entity at the head of a text, as the character that it stands for, and its length. -/
def entity? (text : List Char) : Option (List Char × Nat) :=
  entities.findSome? fun (entity, c) =>
    (dropFront? entity text).map fun _ => ([c], entity.length)

def decode (text : List Char) : List Char := substitute entity? text

/-- What markup holds apart from its tags; `inTag` tells whether a tag is open. -/
def dropTags : (inTag : Bool) → List Char → List Char
  | _, [] => []
  | true, c :: markup => dropTags (c != '>') markup
  | false, c :: markup => if c == '<' then dropTags true markup else c :: dropTags false markup

def shownText (markup : List Char) : List Char := decode (dropTags false markup)

/-- Text without a bare mark: plain characters and entities. -/
inductive Escaped : List Char → Prop
  | nil : Escaped []
  | plain {c : Char} {text : List Char} (h : c ∉ marks) (rest : Escaped text) : Escaped (c :: text)
  | entity {entity text : List Char} (h : entity ∈ entities.map (·.1)) (rest : Escaped text) :
    Escaped (entity ++ text)

structure Reads (written text : List Char) : Prop where
  escaped : Escaped written
  decoded : decode written = text

/-- What stands between the angle brackets of a tag that opens an element. -/
def openingTag (address : List Char) (cssClass : Option (List Char)) : List Char :=
  "a href=\"".toList ++ address ++ "\"".toList ++
    cssClass.elim [] fun c => " class=\"".toList ++ c ++ "\"".toList

def closingTag : List Char := "/a".toList

def tag (inner rest : List Char) : List Char := '<' :: inner ++ '>' :: rest

/-- An element that leads to an address and shows a label. -/
inductive Element (address : List Char) (cssClass : Option (List Char)) (label : List Char) :
    List Char → Prop
  | mk {a l : List Char} {c : Option (List Char)} (haddress : Reads a address)
    (hclass : Option.Rel Reads c cssClass) (hlabel : Reads l label) :
    Element address cssClass label (tag (openingTag a c) (l ++ tag closingTag []))

/-- Escaped text and elements, none inside another. -/
inductive Linked : List Char → Prop
  | nil : Linked []
  | text {text markup : List Char} (h : Escaped text) (rest : Linked markup) :
    Linked (text ++ markup)
  | element {address label element markup : List Char} {cssClass : Option (List Char)}
    (h : Element address cssClass label element) (rest : Linked markup) : Linked (element ++ markup)

theorem mem_marks {c : Char} :
    c ∈ marks ↔ c = '&' ∨ c = '<' ∨ c = '>' ∨ c = '\'' ∨ c = '"' := by
  simp [marks, entities]

theorem escapeChar_of_notMem {c : Char} (h : c ∉ marks) : escapeChar c = [c] := by
  rw [mem_marks, not_or, not_or, not_or, not_or] at h
  obtain ⟨h1, h2, h3, h4, h5⟩ := h
  unfold escapeChar
  split <;> first | contradiction | rfl

section Entities

variable {table : List (List Char × Char)}

theorem inert_entityIn (htable : ∀ e ∈ table, e.1.head? = some '&') {c : Char} (h : c ≠ '&') :
    Inert (entityIn? table) c := by
  intro text
  rw [entityIn?, List.findSome?_eq_none_iff]
  rintro ⟨entity, d⟩ he
  obtain ⟨rest, hrest⟩ := List.head?_eq_some_iff.mp (htable _ he)
  dsimp only at hrest ⊢
  rw [hrest, dropFront?, if_neg fun heq => h (beq_iff_eq.mp heq).symm, Option.map_none]

theorem rewrites_escapeChars (htable : ∀ e ∈ table, e.1.head? = some '&')
    (hread : ∀ e ∈ table, Rewrites (entityIn? table) e.1 [e.2]) (hsub : entities ⊆ table)
    (text : List Char) : Rewrites (entityIn? table) (escapeChars text) text := by
  have hall : ∀ d ∈ marks, (escapeChar d, d) ∈ entities := forall_mem_of_all (by decide)
  have hchar : ∀ c ∈ text, Rewrites (entityIn? table) (escapeChar c) [c] := by
    intro c _
    by_cases h : c ∈ marks
    · exact hread _ (hsub (hall c h))
    · have hne : c ≠ '&' := fun he => h (he ▸ (by decide : '&' ∈ marks))
      rw [escapeChar_of_notMem h]
      exact .of_inert (List.forall_mem_singleton.mpr (inert_entityIn htable hne))
  have h := Rewrites.flatMap hchar
  rwa [List.flatMap_singleton'] at h

end Entities

theorem head_entities : ∀ e ∈ entities, e.1.head? = some '&' := by decide

theorem rewrites_entity : ∀ e ∈ entities, Rewrites entity? e.1 [e.2] := by
  intro e he rest
  have hne : ∀ e ∈ entities, e.1 ≠ [] := by decide
  have hread : ∀ e ∈ entities, entity? (e.1 ++ rest) = some ([e.2], e.1.length) := by
    simp only [entities, List.forall_mem_cons]
    exact ⟨rfl, rfl, rfl, rfl, rfl, List.forall_mem_nil _⟩
  exact substitute_append_of_some rest (hne e he) (hread e he)

theorem decode_append_of_notMem {text : List Char} (h : '&' ∉ text) (rest : List Char) :
    decode (text ++ rest) = text ++ decode rest :=
  substitute_append_of_inert rest fun _ hc =>
    inert_entityIn head_entities fun he => h (he ▸ hc)

theorem decode_escapeChars (text rest : List Char) :
    decode (escapeChars text ++ rest) = text ++ decode rest :=
  rewrites_escapeChars head_entities rewrites_entity (List.Subset.refl _) text rest

theorem decode_escapeChar (c : Char) (rest : List Char) :
    decode (escapeChar c ++ rest) = c :: decode rest := by
  have h := decode_escapeChars [c] rest
  rwa [escapeChars, List.flatMap_singleton, List.singleton_append] at h

theorem escaped_escapeChars (text : List Char) : Escaped (escapeChars text) := by
  induction text with
  | nil => exact .nil
  | cons c text ih =>
    rw [escapeChars, List.flatMap_cons]
    by_cases h : c ∈ marks
    · have hall : ∀ d ∈ marks, escapeChar d ∈ entities.map (·.1) :=
        forall_mem_of_all (by decide)
      exact .entity (hall c h) ih
    · rw [escapeChar_of_notMem h]
      exact .plain h ih

theorem reads_iff {written text : List Char} : Reads written text ↔ written = escapeChars text := by
  constructor
  · rintro ⟨hescaped, rfl⟩
    induction hescaped with
    | nil => rfl
    | @plain c text h rest ih =>
      have hne : c ≠ '&' := fun he => h (he ▸ (by decide : '&' ∈ marks))
      have hdecode : decode ([c] ++ text) = [c] ++ decode text :=
        decode_append_of_notMem (by simpa using hne.symm) text
      rw [List.singleton_append, List.singleton_append] at hdecode
      rw [hdecode, escapeChars, List.flatMap_cons, escapeChar_of_notMem h]
      exact congrArg (c :: ·) ih
    | @entity entity text h rest ih =>
      have hall : ∀ e ∈ entities.map (·.1), e ∈ marks.map escapeChar := by decide
      obtain ⟨d, -, rfl⟩ := List.mem_map.mp (hall entity h)
      rw [decode_escapeChar, escapeChars, List.flatMap_cons]
      exact congrArg (escapeChar d ++ ·) ih
  · rintro rfl
    have hdecode := decode_escapeChars text []
    rw [List.append_nil, decode, decode, substitute.eq_def _ [], substituteAfter,
      List.append_nil] at hdecode
    exact ⟨escaped_escapeChars text, hdecode⟩

theorem bracket_notMem_escapeChars (text : List Char) :
    '<' ∉ escapeChars text ∧ '>' ∉ escapeChars text := by
  have hchar : ∀ c, '<' ∉ escapeChar c ∧ '>' ∉ escapeChar c := by
    intro c
    by_cases h : c ∈ marks
    · have hall : ∀ d ∈ marks, '<' ∉ escapeChar d ∧ '>' ∉ escapeChar d :=
        forall_mem_of_all (by decide)
      exact hall c h
    · rw [escapeChar_of_notMem h]
      rw [mem_marks, not_or, not_or, not_or, not_or] at h
      simp [Ne.symm h.2.1, Ne.symm h.2.2.1]
  constructor
  · intro hmem
    obtain ⟨c, -, hc⟩ := List.mem_flatMap.mp hmem
    exact (hchar c).1 hc
  · intro hmem
    obtain ⟨c, -, hc⟩ := List.mem_flatMap.mp hmem
    exact (hchar c).2 hc

theorem dropTags_append_of_notMem {text : List Char} (h : '<' ∉ text) (rest : List Char) :
    dropTags false (text ++ rest) = text ++ dropTags false rest := by
  induction text with
  | nil => rfl
  | cons c text ih =>
    rw [List.mem_cons, not_or] at h
    rw [List.cons_append, dropTags, if_neg fun he => h.1 (beq_iff_eq.mp he).symm, ih h.2,
      List.cons_append]

theorem dropTags_tag {inner : List Char} (h : '>' ∉ inner) (rest : List Char) :
    dropTags false (tag inner rest) = dropTags false rest := by
  have hopen : dropTags true (inner ++ '>' :: rest) = dropTags false rest := by
    induction inner with
    | nil => rfl
    | cons c inner ih =>
      rw [List.mem_cons, not_or] at h
      rw [List.cons_append, dropTags, bne_iff_ne.mpr (Ne.symm h.1)]
      exact ih h.2
  exact hopen

theorem close_notMem_openingTag {address : List Char} {cssClass : Option (List Char)}
    (haddress : '>' ∉ address) (hclass : ∀ c ∈ cssClass, '>' ∉ c) :
    '>' ∉ openingTag address cssClass := by
  have hstart : '>' ∉ "a href=\"".toList := by decide
  have hquote : '>' ∉ "\"".toList := by decide
  have hattribute : '>' ∉ " class=\"".toList := by decide
  unfold openingTag
  simp only [List.mem_append, not_or]
  refine ⟨⟨⟨hstart, haddress⟩, hquote⟩, ?_⟩
  cases cssClass with
  | none => exact List.not_mem_nil
  | some c =>
    simp only [Option.elim_some, List.mem_append, not_or]
    exact ⟨⟨hattribute, hclass c rfl⟩, hquote⟩

theorem shownText_escapeChars (text rest : List Char) :
    shownText (escapeChars text ++ rest) = text ++ shownText rest := by
  rw [shownText, dropTags_append_of_notMem (bracket_notMem_escapeChars text).1, decode_escapeChars]
  rfl

theorem Element.dropTags_append {address label element : List Char}
    {cssClass : Option (List Char)} (h : Element address cssClass label element)
    (rest : List Char) :
    dropTags false (element ++ rest) = escapeChars label ++ dropTags false rest := by
  obtain ⟨haddress, hclass, hlabel⟩ := h
  rename_i a l c
  rw [reads_iff] at haddress hlabel
  subst haddress hlabel
  have hopen : '>' ∉ openingTag (escapeChars address) c := by
    refine close_notMem_openingTag (bracket_notMem_escapeChars address).2 ?_
    rintro written rfl
    cases hclass with
    | some hread => exact reads_iff.mp hread ▸ (bracket_notMem_escapeChars _).2
  have hclose : '>' ∉ closingTag := by decide
  have hassoc : tag (openingTag (escapeChars address) c) (escapeChars label ++ tag closingTag []) ++
      rest = tag (openingTag (escapeChars address) c)
        (escapeChars label ++ tag closingTag rest) := by
    simp [tag]
  rw [hassoc, dropTags_tag hopen, dropTags_append_of_notMem (bracket_notMem_escapeChars label).1,
    dropTags_tag hclose]

theorem Element.shownText {address label element : List Char} {cssClass : Option (List Char)}
    (h : Element address cssClass label element) (rest : List Char) :
    shownText (element ++ rest) = label ++ shownText rest := by
  rw [Html.shownText, h.dropTags_append, decode_escapeChars]
  rfl

theorem Linked.append {markup markup' : List Char} (h : Linked markup) (h' : Linked markup') :
    Linked (markup ++ markup') := by
  induction h with
  | nil => exact h'
  | text htext _ ih =>
    rw [List.append_assoc]
    exact .text htext ih
  | element helement _ ih =>
    rw [List.append_assoc]
    exact .element helement ih

/-- Escaped text and elements that show a text, whatever follows them. -/
structure Presents (markup text : List Char) : Prop where
  linked : Linked markup
  shown : ∀ rest, shownText (markup ++ rest) = text ++ shownText rest

theorem presents_nil : Presents [] [] := ⟨.nil, fun _ => rfl⟩

theorem presents_escapeChars (text : List Char) : Presents (escapeChars text) text where
  linked := by
    have h := Linked.text (escaped_escapeChars text) .nil
    rwa [List.append_nil] at h
  shown := shownText_escapeChars text

namespace Presents

variable {markup markup' text text' : List Char}

theorem of_element {address label element : List Char} {cssClass : Option (List Char)}
    (h : Element address cssClass label element) : Presents element label where
  linked := by
    have hlinked := Linked.element h .nil
    rwa [List.append_nil] at hlinked
  shown := h.shownText

theorem append (h : Presents markup text) (h' : Presents markup' text') :
    Presents (markup ++ markup') (text ++ text') where
  linked := h.linked.append h'.linked
  shown := fun rest => by rw [List.append_assoc, h.shown, h'.shown, List.append_assoc]

theorem flatMap {α : Type} {f g : α → List Char} {as : List α}
    (h : ∀ a ∈ as, Presents (f a) (g a)) : Presents (as.flatMap f) (as.flatMap g) :=
  Text.flatMap_related presents_nil append h

theorem shownText_eq (h : Presents markup text) : shownText markup = text := by
  have hshown := h.shown []
  rw [List.append_nil] at hshown
  exact hshown.trans (List.append_nil text)

end Presents

end Refsite.Html
