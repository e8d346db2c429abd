import Mathlib.Tactic.ByContra
import Refsite.Link.Anchor
import Refsite.Proofs.Text.Basic
namespace Refsite.Link

open Text (isBlank)

/-- A comma or a blank, which takes the blanks behind it. -/
def takesBlanks (c : Char) : Bool := c == ',' || isBlank c

/-- The separator at the head of a text: a bracket, an angle bracket with a point before it, a bar,
a comma with the blanks behind it, or a run of blanks. -/
def separator? : List Char → Option (List Char)
  | [] => none
  | c :: text =>
    if ['<', '>', '|', '(', ')'].contains c then some [c]
    else if takesBlanks c then some (c :: text.takeWhile isBlank)
    else if c == '.' && text.head? == some '<' then some ['.', '<']
    else none

/-- A text cut into pieces. A name goes as far as no separator begins. -/
inductive Cut : List Char → List Piece → Prop
  | nil : Cut [] []
  | separator (mark : List Char) {text rest : List Char} {ps : List Piece}
    (eq : text = mark ++ rest) (here : separator? text = some mark) (tail : Cut rest ps) :
    Cut text (.separator mark :: ps)
  | name (name : List Char) {text rest : List Char} {ps : List Piece} (eq : text = name ++ rest)
    (ne : name ≠ [])
    (free : ∀ n < name.length, separator? (text.drop n) = none)
    (stop : rest ≠ [] → separator? rest ≠ none) (tail : Cut rest ps) : Cut text (.name name :: ps)

def Piece.text : Piece → List Char
  | .separator text => text
  | .name text => text

theorem isSeparatorMark_eq (c : Char) :
    isSeparatorMark c = (['<', '>', '|', '(', ')'].contains c || takesBlanks c) := by
  simp only [isSeparatorMark, takesBlanks, List.contains_cons, List.contains_nil, Bool.or_false]
  ac_rfl

theorem separator_of_mark {c : Char} (h : isSeparatorMark c = true) (text : List Char) :
    separator? (c :: text) = some (c :: if takesBlanks c then text.takeWhile isBlank else []) := by
  rw [separator?]
  by_cases hbracket : ['<', '>', '|', '(', ')'].contains c = true
  · have hall : ∀ d ∈ ['<', '>', '|', '(', ')'], takesBlanks d = false :=
      Text.forall_mem_of_all (by decide)
    rw [if_pos hbracket, hall c (List.contains_iff_mem.mp hbracket)]
    rfl
  · rw [isSeparatorMark_eq, Bool.or_eq_true] at h
    have hspaced := h.resolve_left hbracket
    rw [if_neg hbracket, if_pos hspaced, if_pos hspaced]

theorem separator_of_not_mark {c : Char} (h : isSeparatorMark c = false) (text : List Char) :
    separator? (c :: text) =
      if c == '.' && text.head? == some '<' then some ['.', '<'] else none := by
  rw [isSeparatorMark_eq, Bool.or_eq_false_iff] at h
  rw [separator?, if_neg (Bool.eq_false_iff.mp h.1), if_neg (Bool.eq_false_iff.mp h.2)]

theorem separator_ne_nil {text mark : List Char} (h : separator? text = some mark) : mark ≠ [] := by
  cases text with
  | nil => cases h
  | cons c text =>
    cases hc : isSeparatorMark c with
    | true =>
      rw [separator_of_mark hc] at h
      cases h
      exact List.cons_ne_nil _ _
    | false =>
      rw [separator_of_not_mark hc] at h
      split at h
      · cases h
        exact List.cons_ne_nil _ _
      · cases h

theorem isSeparatorMark_of_isBlank {c : Char} (h : isBlank c = true) :
    isSeparatorMark c = true := by
  rw [isSeparatorMark, h, Bool.or_true]

/-- A mark is a separator of its own where no blank follows that it could take. -/
theorem separator_of_mark_alone {c : Char} {text : List Char} (h : isSeparatorMark c = true)
    (hnext : takesBlanks c = true → ∀ d ∈ text.head?, isBlank d = false) :
    separator? (c :: text) = some [c] := by
  rw [separator_of_mark h]
  split
  · next hspaced =>
    cases text with
    | nil => rfl
    | cons d text => rw [List.takeWhile_cons, hnext hspaced d rfl, if_neg Bool.false_ne_true]
  · rfl

theorem separator_eq_none {c : Char} {text : List Char} (h : isSeparatorMark c = false)
    (hpoint : c = '.' → text.head? ≠ some '<') : separator? (c :: text) = none := by
  rw [separator_of_not_mark h, if_neg]
  rw [Bool.and_eq_true, beq_iff_eq, beq_iff_eq]
  exact fun ⟨hc, hhead⟩ => hpoint hc hhead

theorem not_mark_of_separator_eq_none {c : Char} {text : List Char}
    (h : separator? (c :: text) = none) : isSeparatorMark c = false := by
  cases hc : isSeparatorMark c with
  | false => rfl
  | true =>
    rw [separator_of_mark hc] at h
    cases h

theorem free_cons {c : Char} {text name : List Char} (hc : separator? (c :: text) = none)
    (h : ∀ n < name.length, separator? (text.drop n) = none) :
    ∀ n < (c :: name).length, separator? ((c :: text).drop n) = none := by
  intro n hn
  cases n with
  | zero => exact hc
  | succ n => exact h n (Nat.lt_of_succ_lt_succ hn)

theorem Cut.push_separator {c d : Char} {mark rest : List Char} {ps : List Piece}
    (here : separator? (d :: mark ++ rest) = some (d :: mark)) (tail : Cut rest ps) :
    Cut (c :: (d :: mark ++ rest)) (Piece.push c (.separator (d :: mark) :: ps)) := by
  have hfull : Cut (d :: mark ++ rest) (.separator (d :: mark) :: ps) := .separator _ rfl here tail
  rw [Piece.push]
  split
  · next hjoin =>
    -- the separator is a run of blanks, or a comma's
    rw [Bool.and_eq_true, Bool.or_comm] at hjoin
    refine .separator (c :: d :: mark) rfl ?_ tail
    have hd : takesBlanks d = true := by rw [takesBlanks, hjoin.2, Bool.or_true]
    have hc : isSeparatorMark c = true := by
      rw [isSeparatorMark_eq, takesBlanks, hjoin.1, Bool.or_true]
    rw [List.cons_append, separator_of_mark (isSeparatorMark_of_isBlank hjoin.2), if_pos hd] at here
    rw [separator_of_mark hc, if_pos (show takesBlanks c = true from hjoin.1), List.cons_append,
      List.takeWhile_cons, if_pos hjoin.2, Option.some.inj here]
  · next hjoin =>
    have hnext : takesBlanks c = true → ∀ e ∈ (d :: mark ++ rest).head?, isBlank e = false := by
      intro hc e he
      cases he
      rw [Bool.and_eq_true, Bool.or_comm, not_and] at hjoin
      exact Bool.eq_false_iff.mpr (hjoin hc)
    split
    · next hpoint =>
      rw [Bool.and_eq_true, beq_iff_eq, beq_iff_eq] at hpoint
      obtain ⟨rfl, rfl⟩ := hpoint
      cases here
      exact .separator ['.', '<'] rfl rfl tail
    · next hpoint =>
      split
      · next hc => exact .separator [c] rfl (separator_of_mark_alone hc hnext) hfull
      · next hc =>
        have hnone : separator? (c :: (d :: mark ++ rest)) = none := by
          refine separator_eq_none (Bool.eq_false_iff.mpr hc) ?_
          rintro rfl hhead
          apply hpoint
          cases hhead
          rfl
        refine .name [c] rfl (List.cons_ne_nil c []) (free_cons hnone nofun) ?_ hfull
        exact fun _ => here ▸ nofun

theorem Cut.push_name {c d : Char} {name rest : List Char} {ps : List Piece}
    (free : ∀ n < (d :: name).length, separator? ((d :: name ++ rest).drop n) = none)
    (stop : rest ≠ [] → separator? rest ≠ none) (tail : Cut rest ps) :
    Cut (c :: (d :: name ++ rest)) (Piece.push c (.name (d :: name) :: ps)) := by
  have hd : isSeparatorMark d = false :=
    not_mark_of_separator_eq_none (free 0 (Nat.succ_pos name.length))
  rw [Piece.push]
  split
  · next hc =>
    refine .separator [c] rfl (separator_of_mark_alone hc ?_)
      (.name _ rfl (List.cons_ne_nil d name) free stop tail)
    intro _ e he
    cases he
    cases hblank : isBlank d with
    | false => rfl
    | true => exact absurd (isSeparatorMark_of_isBlank hblank) (Bool.eq_false_iff.mp hd)
  · next hc =>
    have hnone : separator? (c :: (d :: name ++ rest)) = none := by
      refine separator_eq_none (Bool.eq_false_iff.mpr hc) ?_
      rintro - hhead
      cases hhead
      exact absurd hd (by decide)
    exact .name (c :: d :: name) rfl (List.cons_ne_nil c _) (free_cons hnone free) stop tail

theorem Cut.push {text : List Char} {ps : List Piece} (h : Cut text ps) (c : Char) :
    Cut (c :: text) (Piece.push c ps) := by
  cases h with
  | nil =>
    rw [Piece.push]
    cases hc : isSeparatorMark c with
    | true =>
      exact .separator [c] rfl (separator_of_mark_alone hc fun _ _ hd => nomatch hd) .nil
    | false =>
      have hnone : separator? [c] = none := separator_eq_none hc fun _ => nofun
      exact .name [c] rfl (List.cons_ne_nil c []) (free_cons hnone nofun)
        (fun hne => absurd rfl hne) .nil
  | @separator mark _ rest ps eq here tail =>
    subst eq
    cases mark with
    | nil => exact absurd rfl (separator_ne_nil here)
    | cons d mark => exact Cut.push_separator here tail
  | @name name _ rest ps eq ne free stop tail =>
    subst eq
    cases name with
    | nil => exact absurd rfl ne
    | cons d name => exact Cut.push_name free stop tail

theorem cut_pieces (text : List Char) : Cut text (pieces text) := by
  induction text with
  | nil => exact .nil
  | cons c text ih => exact ih.push c

theorem length_le_of_free {name name' rest rest' : List Char} (h : name ++ rest = name' ++ rest')
    (free : ∀ n < name.length, separator? ((name ++ rest).drop n) = none)
    (stop : rest' ≠ [] → separator? rest' ≠ none) : name.length ≤ name'.length := by
  by_contra hlt
  rw [Nat.not_le] at hlt
  have hnone := free name'.length hlt
  rw [h, List.drop_left] at hnone
  have hnil : rest' = [] := by
    by_contra hne
    exact stop hne hnone
  have hlength := congrArg List.length h
  rw [hnil, List.append_nil, List.length_append] at hlength
  omega

theorem Cut.unique {text : List Char} {ps qs : List Piece} (h : Cut text ps) (h' : Cut text qs) :
    ps = qs := by
  induction h generalizing qs with
  | nil =>
    cases h' with
    | nil => rfl
    | separator mark eq here tail => cases here
    | name name eq ne free stop tail =>
      exact absurd (List.append_eq_nil_iff.mp eq.symm).1 ne
  | @separator mark text rest ps eq here tail ih =>
    cases h' with
    | nil => cases here
    | @separator mark' _ rest' qs eq' here' tail' =>
      cases here.symm.trans here'
      cases List.append_cancel_left (eq.symm.trans eq')
      rw [ih tail']
    | @name name _ rest' qs eq' ne free stop tail' =>
      have hnone := free 0 (List.length_pos_iff.mpr ne)
      rw [List.drop_zero, here] at hnone
      cases hnone
  | @name name text rest ps eq ne free stop tail ih =>
    cases h' with
    | nil => exact absurd (List.append_eq_nil_iff.mp eq.symm).1 ne
    | @separator _ mark rest' qs eq' here' tail' =>
      have hnone := free 0 (List.length_pos_iff.mpr ne)
      rw [List.drop_zero, here'] at hnone
      cases hnone
    | @name name' _ rest' qs eq' ne' free' stop' tail' =>
      subst eq
      have hle := length_le_of_free eq' free stop'
      rw [eq'] at free'
      have hge := length_le_of_free eq'.symm free' stop
      obtain ⟨rfl, rfl⟩ := List.append_inj eq' (Nat.le_antisymm hle hge)
      rw [ih tail']

theorem cut_iff {text : List Char} {ps : List Piece} : Cut text ps ↔ ps = pieces text :=
  ⟨fun h => h.unique (cut_pieces text), fun h => h ▸ cut_pieces text⟩

theorem Cut.flatten {text : List Char} {ps : List Piece} (h : Cut text ps) :
    ps.flatMap Piece.text = text := by
  induction h with
  | nil => rfl
  | separator mark eq here tail ih =>
    rw [List.flatMap_cons, ih, eq]
    rfl
  | name name eq ne free stop tail ih =>
    rw [List.flatMap_cons, ih, eq]
    rfl

theorem cut_name {text : List Char} (hne : text ≠ [])
    (h : ∀ c ∈ text, isSeparatorMark c = false) : Cut text [.name text] := by
  refine .name text (List.append_nil text).symm hne ?_ (fun hnil => absurd rfl hnil) .nil
  intro n hn
  rw [List.drop_eq_getElem_cons hn]
  refine separator_eq_none (h _ (List.getElem_mem hn)) ?_
  intro _ hhead
  have hmem : '<' ∈ text := List.mem_of_mem_drop (List.mem_of_mem_head? hhead)
  exact absurd (h '<' hmem) (by decide)

end Refsite.Link
