import Mathlib.Data.List.TakeWhile
import Refsite.Proofs.Text.LetterCase
import Refsite.Symbol.Captions
namespace Refsite

open Text

namespace Caption

/-- Blanks of which the last one ends a line. -/
structure IsGap (gap : List Char) : Prop where
  isBlank_of_mem : ∀ c ∈ gap, isBlank c = true
  ends_line : gap.getLast? = some '\n' ∨ gap.getLast? = some '\r'

theorem not_isGap_nil : ¬ IsGap [] := by
  rintro ⟨-, h | h⟩ <;> cases h

theorem isGap_cons {c : Char} {gap : List Char} :
    IsGap (c :: gap) ↔ isBlank c = true ∧ (IsGap gap ∨ gap = [] ∧ isLineEnd c = true) := by
  cases gap with
  | nil =>
    constructor
    · rintro ⟨hblank, hend⟩
      refine ⟨hblank c List.mem_cons_self, .inr ⟨rfl, ?_⟩⟩
      simpa [isLineEnd] using hend
    · rintro ⟨hblank, hgap | ⟨-, hend⟩⟩
      · exact absurd hgap not_isGap_nil
      · refine ⟨List.forall_mem_singleton.mpr hblank, ?_⟩
        simpa [isLineEnd] using hend
  | cons d gap =>
    constructor
    · rintro ⟨hblank, hend⟩
      rw [List.forall_mem_cons] at hblank
      exact ⟨hblank.1, .inl ⟨hblank.2, hend⟩⟩
    · rintro ⟨hblank, hgap | ⟨hnil, -⟩⟩
      · exact ⟨List.forall_mem_cons.mpr ⟨hblank, hgap.isBlank_of_mem⟩, hgap.ends_line⟩
      · cases hnil

def Follows (text code : List Char) : Prop := code ≠ [] ∧ ∃ gap, IsGap gap ∧ text = gap ++ code

theorem not_follows_nil (code : List Char) : ¬ Follows [] code := by
  rintro ⟨hne, gap, -, h⟩
  exact hne (List.append_eq_nil_iff.mp h.symm).2

theorem follows_cons {c : Char} {text code : List Char} :
    Follows (c :: text) code ↔
      isBlank c = true ∧ (Follows text code ∨ isLineEnd c = true ∧ code = text ∧ text ≠ []) := by
  constructor
  · rintro ⟨hne, gap, hgap, htext⟩
    cases gap with
    | nil => exact absurd hgap not_isGap_nil
    | cons d gap =>
      obtain ⟨rfl, rfl⟩ := List.cons.inj htext
      obtain ⟨hblank, hgap | ⟨rfl, hend⟩⟩ := isGap_cons.mp hgap
      · exact ⟨hblank, .inl ⟨hne, gap, hgap, rfl⟩⟩
      · exact ⟨hblank, .inr ⟨hend, rfl, hne⟩⟩
  · rintro ⟨hblank, ⟨hne, gap, hgap, rfl⟩ | ⟨hend, rfl, hne⟩⟩
    · exact ⟨hne, c :: gap, isGap_cons.mpr ⟨hblank, .inl hgap⟩, rfl⟩
    · exact ⟨hne, [c], isGap_cons.mpr ⟨hblank, .inr ⟨rfl, hend⟩⟩, rfl⟩

theorem Follows.length_lt {text code : List Char} (h : Follows text code) :
    code.length < text.length := by
  obtain ⟨-, gap, hgap, rfl⟩ := h
  cases gap with
  | nil => exact absurd hgap not_isGap_nil
  | cons c gap =>
    rw [List.length_append, List.length_cons]
    omega

theorem isSome_code {text code : List Char} (h : Follows text code) :
    (code? text).isSome = true := by
  induction text with
  | nil => exact absurd h (not_follows_nil code)
  | cons c text ih =>
    obtain ⟨hblank, h⟩ := follows_cons.mp h
    rw [code?, if_pos hblank, Option.isSome_or, Bool.or_eq_true]
    obtain h | ⟨hend, -, hne⟩ := h
    · exact .inl (ih h)
    · right
      rw [hend, List.isEmpty_eq_false_iff.mpr hne]
      rfl

theorem code_shortest {text code : List Char} (h : code? text = some code) :
    Follows text code ∧ ∀ other, Follows text other → code.length ≤ other.length := by
  induction text generalizing code with
  | nil => cases h
  | cons c text ih =>
    rw [code?] at h
    split at h
    · next hblank =>
      -- A gap that goes on is looked for first; only where there is none does this line end count.
      obtain h | ⟨hnone, h⟩ := Option.or_eq_some_iff.mp h
      · obtain ⟨hcode, hleast⟩ := ih h
        refine ⟨follows_cons.mpr ⟨hblank, .inl hcode⟩, ?_⟩
        intro other hother
        obtain hother | ⟨-, rfl, -⟩ := (follows_cons.mp hother).2
        · exact hleast other hother
        · exact Nat.le_of_lt hcode.length_lt
      · split at h
        · next hend =>
          rw [Bool.and_eq_true, Bool.not_eq_true', List.isEmpty_eq_false_iff] at hend
          obtain rfl := Option.some.inj h
          refine ⟨follows_cons.mpr ⟨hblank, .inr ⟨hend.1, rfl, hend.2⟩⟩, ?_⟩
          intro other hother
          obtain hother | ⟨-, rfl, -⟩ := (follows_cons.mp hother).2
          · have hsome := isSome_code hother
            rw [hnone] at hsome
            cases hsome
          · exact Nat.le_refl _
        · cases h
    · cases h

/-- Whether a caption and its closing tag stand at the front of a text, and code behind a gap after
them. -/
def Closed (text caption code : List Char) : Prop :=
  ∃ closeTag rest, closeTag.map foldCase = closing ∧ text = caption ++ (closeTag ++ rest) ∧
    Follows rest code

theorem closing_ascii : ∀ d ∈ closing, d.toNat < 128 := forall_mem_of_all (by decide)

theorem opening_ascii : ∀ d ∈ opening, d.toNat < 128 := forall_mem_of_all (by decide)

theorem closed_nil_iff {text code : List Char} :
    Closed text [] code ↔
      ∃ rest, dropFrontAnyCase? closing text = some rest ∧ Follows rest code := by
  constructor
  · rintro ⟨closeTag, rest, hclose, rfl, hcode⟩
    exact ⟨rest, dropFrontAnyCase_append closing_ascii hclose rest, hcode⟩
  · rintro ⟨rest, hdrop, hcode⟩
    obtain ⟨closeTag, rfl, hclose⟩ := of_dropFrontAnyCase closing_ascii hdrop
    exact ⟨closeTag, rest, hclose, rfl, hcode⟩

theorem closed_cons_iff {c d : Char} {text caption code : List Char} :
    Closed (c :: text) (d :: caption) code ↔ d = c ∧ Closed text caption code := by
  constructor
  · rintro ⟨closeTag, rest, hclose, htext, hcode⟩
    obtain ⟨rfl, rfl⟩ := List.cons.inj htext
    exact ⟨rfl, closeTag, rest, hclose, rfl, hcode⟩
  · rintro ⟨rfl, closeTag, rest, hclose, rfl, hcode⟩
    exact ⟨closeTag, rest, hclose, rfl, hcode⟩

theorem not_closed_nil (caption code : List Char) : ¬ Closed [] caption code := by
  rintro ⟨closeTag, rest, -, htext, hcode⟩
  rw [(List.append_eq_nil_iff.mp (List.append_eq_nil_iff.mp htext.symm).2).2] at hcode
  exact not_follows_nil code hcode

def codeAfter? (text : List Char) : Option (List Char) :=
  (dropFrontAnyCase? closing text).bind code?

theorem isSome_codeAfter {text code : List Char} (h : Closed text [] code) :
    (codeAfter? text).isSome = true := by
  obtain ⟨rest, hdrop, hcode⟩ := closed_nil_iff.mp h
  rw [codeAfter?, hdrop]
  exact isSome_code hcode

theorem codeAfter_shortest {text code : List Char} (h : codeAfter? text = some code) :
    Closed text [] code ∧ ∀ other, Closed text [] other → code.length ≤ other.length := by
  obtain ⟨rest, hdrop, hcode⟩ := Option.bind_eq_some_iff.mp h
  obtain ⟨hfollows, hleast⟩ := code_shortest hcode
  refine ⟨closed_nil_iff.mpr ⟨rest, hdrop, hfollows⟩, ?_⟩
  intro other hother
  obtain ⟨rest', hdrop', hother⟩ := closed_nil_iff.mp hother
  obtain rfl := Option.some.inj (hdrop.symm.trans hdrop')
  exact hleast other hother

theorem split_cons {passed : List Char} (hpassed : passed ≠ []) (c : Char) (text : List Char) :
    split? passed (c :: text) =
      ((codeAfter? (c :: text)).map fun code => (passed.reverse, code)).or
        (split? (c :: passed) text) := by
  rw [split?, List.isEmpty_eq_false_iff.mpr hpassed, if_neg Bool.false_ne_true, codeAfter?]
  cases (dropFrontAnyCase? closing (c :: text)).bind code? <;> rfl

theorem isSome_split {passed text inner code : List Char} (hpassed : passed ≠ [])
    (h : Closed text inner code) : (split? passed text).isSome = true := by
  induction text generalizing passed inner with
  | nil => exact absurd h (not_closed_nil inner code)
  | cons c text ih =>
    rw [split_cons hpassed, Option.isSome_or, Option.isSome_map, Bool.or_eq_true]
    cases inner with
    | nil => exact .inl (isSome_codeAfter h)
    | cons d inner => exact .inr (ih (List.cons_ne_nil _ _) (closed_cons_iff.mp h).2)

/-- Of two ways to split a text, whether the first has the shorter caption, or the same caption and
code that is no longer. -/
def Precedes (caption code caption' code' : List Char) : Prop :=
  caption.length < caption'.length ∨ caption = caption' ∧ code.length ≤ code'.length

theorem Precedes.cons {caption code caption' code' : List Char}
    (h : Precedes caption code caption' code') (c : Char) :
    Precedes (c :: caption) code (c :: caption') code' := by
  obtain hlt | ⟨rfl, hle⟩ := h
  · exact .inl (Nat.succ_lt_succ hlt)
  · exact .inr ⟨rfl, hle⟩

theorem split_shortest {passed text caption code : List Char} (hpassed : passed ≠ [])
    (h : split? passed text = some (caption, code)) :
    ∃ inner, caption = passed.reverse ++ inner ∧ Closed text inner code ∧
      ∀ inner' code', Closed text inner' code' → Precedes inner code inner' code' := by
  induction text generalizing passed with
  | nil => cases h
  | cons c text ih =>
    rw [split_cons hpassed] at h
    -- A closing tag right here ends the shortest caption; without one all captions go on with `c`.
    obtain h | ⟨hnone, h⟩ := Option.or_eq_some_iff.mp h
    · obtain ⟨code', hcode, heq⟩ := Option.map_eq_some_iff.mp h
      obtain ⟨rfl, rfl⟩ := Prod.mk.inj heq
      obtain ⟨hclosed, hleast⟩ := codeAfter_shortest hcode
      refine ⟨[], (List.append_nil _).symm, hclosed, ?_⟩
      intro inner' other hother
      cases inner' with
      | nil => exact .inr ⟨rfl, hleast other hother⟩
      | cons d inner' => exact .inl (Nat.succ_pos _)
    · obtain ⟨inner, hcaption, hclosed, hleast⟩ := ih (List.cons_ne_nil _ _) h
      refine ⟨c :: inner, ?_, closed_cons_iff.mpr ⟨rfl, hclosed⟩, ?_⟩
      · rw [hcaption, List.reverse_cons, List.append_assoc, List.singleton_append]
      · intro inner' other hother
        cases inner' with
        | nil =>
          have hsome := isSome_codeAfter hother
          rw [Option.map_eq_none_iff.mp hnone] at hsome
          cases hsome
        | cons d inner' =>
          obtain ⟨rfl, htail⟩ := closed_cons_iff.mp hother
          exact (hleast inner' other htail).cons d

/-- A caption is not empty, so that the scan goes past the first character in any case. -/
theorem split_start (c : Char) (text : List Char) : split? [] (c :: text) = split? [c] text := rfl

theorem isSome_split_start {text caption code : List Char} (hne : caption ≠ [])
    (h : Closed text caption code) : (split? [] text).isSome = true := by
  obtain ⟨c, caption, rfl⟩ := List.exists_cons_of_ne_nil hne
  cases text with
  | nil => exact absurd h (not_closed_nil _ code)
  | cons d text =>
    rw [split_start]
    exact isSome_split (List.cons_ne_nil _ _) (closed_cons_iff.mp h).2

theorem split_start_shortest {text caption code : List Char}
    (h : split? [] text = some (caption, code)) :
    caption ≠ [] ∧ Closed text caption code ∧ ∀ caption' code', caption' ≠ [] →
      Closed text caption' code' → Precedes caption code caption' code' := by
  cases text with
  | nil => cases h
  | cons c text =>
    rw [split_start] at h
    obtain ⟨inner, rfl, hclosed, hleast⟩ := split_shortest (List.cons_ne_nil _ _) h
    refine ⟨List.cons_ne_nil _ _, closed_cons_iff.mpr ⟨rfl, hclosed⟩, ?_⟩
    intro caption' code' hne hother
    obtain ⟨d, caption', rfl⟩ := List.exists_cons_of_ne_nil hne
    obtain ⟨rfl, htail⟩ := closed_cons_iff.mp hother
    exact (hleast caption' code' htail).cons d

end Caption

/-- An example with a caption, as it is written. -/
structure Captioned where
  blanks : List Char
  openTag : List Char
  caption : List Char
  closeTag : List Char
  gap : List Char
  code : List Char

namespace Captioned

open Caption

def inner (e : Captioned) : List Char := e.caption ++ (e.closeTag ++ (e.gap ++ e.code))

def text (e : Captioned) : List Char := e.blanks ++ (e.openTag ++ e.inner)

structure WellFormed (e : Captioned) : Prop where
  isBlank_of_mem : ∀ c ∈ e.blanks, isBlank c = true
  openTag : e.openTag.map foldCase = "<caption>".toList
  caption_ne_nil : e.caption ≠ []
  closeTag : e.closeTag.map foldCase = "</caption>".toList
  gap : IsGap e.gap
  code_ne_nil : e.code ≠ []

theorem WellFormed.closed {e : Captioned} (h : e.WellFormed) : Closed e.inner e.caption e.code :=
  ⟨e.closeTag, e.gap ++ e.code, h.closeTag, rfl, h.code_ne_nil, e.gap, h.gap, rfl⟩

def behindTag? (text : List Char) : Option (List Char) :=
  dropFrontAnyCase? opening (text.dropWhile isBlank)

theorem WellFormed.behindTag {e : Captioned} (h : e.WellFormed) :
    behindTag? e.text = some e.inner := by
  obtain ⟨c, rest, htag, hc, -⟩ := List.map_eq_cons_iff.mp h.openTag
  have hblank : isBlank c = false := by
    rw [eq_of_foldCase hc (by decide) (by decide)]
    decide
  have hdrop : e.text.dropWhile isBlank = e.openTag ++ e.inner := by
    rw [text, List.dropWhile_append_of_pos h.isBlank_of_mem, htag, List.cons_append,
      List.dropWhile_cons_of_neg (by simp [hblank])]
  rw [behindTag?, hdrop]
  exact dropFrontAnyCase_append opening_ascii h.openTag e.inner

theorem exists_of_behindTag {text inner caption code : List Char}
    (hinner : behindTag? text = some inner) (hne : caption ≠ []) (h : Closed inner caption code) :
    ∃ e : Captioned, e.WellFormed ∧ e.text = text ∧ e.caption = caption ∧ e.code = code := by
  obtain ⟨openTag, hopen, htag⟩ := of_dropFrontAnyCase opening_ascii hinner
  obtain ⟨closeTag, rest, hclose, rfl, hcode, gap, hgap, rfl⟩ := h
  refine ⟨⟨text.takeWhile isBlank, openTag, caption, closeTag, gap, code⟩,
    ⟨fun c hc => List.mem_takeWhile_imp hc, htag, hne, hclose, hgap, hcode⟩, ?_, rfl, rfl⟩
  exact (congrArg _ hopen.symm).trans List.takeWhile_append_dropWhile

def parts? (text : List Char) : Option (List Char × List Char) :=
  (behindTag? text).bind (split? [])

theorem WellFormed.isSome_parts {e : Captioned} (h : e.WellFormed) :
    (parts? e.text).isSome = true := by
  rw [parts?, h.behindTag]
  exact isSome_split_start h.caption_ne_nil h.closed

theorem exists_of_parts {text caption code : List Char} (h : parts? text = some (caption, code)) :
    ∃ e : Captioned, e.WellFormed ∧ e.text = text ∧ e.caption = caption ∧ e.code = code ∧
      ∀ e' : Captioned, e'.WellFormed → e'.text = text →
        Precedes caption code e'.caption e'.code := by
  obtain ⟨inner, hinner, hsplit⟩ := Option.bind_eq_some_iff.mp h
  obtain ⟨hne, hclosed, hleast⟩ := split_start_shortest hsplit
  obtain ⟨e, he, htext, hcaption, hcode⟩ := exists_of_behindTag hinner hne hclosed
  refine ⟨e, he, htext, hcaption, hcode, ?_⟩
  intro e' he' htext'
  have hsame := he'.behindTag
  rw [htext', hinner] at hsame
  apply hleast e'.caption e'.code he'.caption_ne_nil
  rw [Option.some.inj hsame]
  exact he'.closed

end Captioned

namespace Example

theorem splitCaption_raw (text : String) :
    (raw text).splitCaption = (Captioned.parts? text.toList).elim (split "" text) fun p =>
      split (String.ofList p.1) (String.ofList p.2) := by
  rw [splitCaption, Captioned.parts?, Captioned.behindTag?]
  cases (dropFrontAnyCase? Caption.opening (text.toList.dropWhile isBlank)).bind
    (Caption.split? []) <;> rfl

/-- An example that can be written with a caption is split into that caption and its code, and every
other example stays whole. -/
theorem splitCaption_parts (text : String) :
    (∃ e : Captioned, e.WellFormed ∧ e.text = text.toList ∧
      (raw text).splitCaption = split (String.ofList e.caption) (String.ofList e.code) ∧
      ∀ e' : Captioned, e'.WellFormed → e'.text = text.toList →
        Caption.Precedes e.caption e.code e'.caption e'.code) ∨
    ((raw text).splitCaption = split "" text ∧
      ∀ e : Captioned, e.WellFormed → e.text ≠ text.toList) := by
  rw [splitCaption_raw]
  cases hparts : Captioned.parts? text.toList with
  | some p =>
    obtain ⟨caption, code⟩ := p
    obtain ⟨e, he, htext, rfl, rfl, hleast⟩ := Captioned.exists_of_parts hparts
    exact .inl ⟨e, he, htext, rfl, hleast⟩
  | none =>
    refine .inr ⟨rfl, ?_⟩
    intro e he htext
    have hsome := he.isSome_parts
    rw [htext, hparts] at hsome
    cases hsome

/-- A closing tag that no code follows belongs to the caption, and the last line end stays with the
code where nothing else does. -/
example : (raw "<Caption>a</caption>b</CAPTION> \n\n").splitCaption =
    split "a</caption>b" "\n" := by
  decide

end Example

end Refsite
