import Mathlib.Data.List.TakeWhile
import Refsite.Link.Inline
import Refsite.Proofs.Text.LetterCase
import Refsite.Proofs.Text.Search
namespace Refsite.Link

open Text

/-- The characters with a meaning in running text. -/
def brackets : List Char := ['[', ']', '{', '}']

/-- A reference as it is written: a caption in square brackets where it has one, and between braces
a word, blanks and a body. -/
structure Reference where
  caption : Option (List Char)
  word : List Char
  blanks : List Char
  body : List Char
  deriving DecidableEq, Repr

namespace Reference

def isTutorial (g : Reference) : Bool := lower g.word == "tutorial".toList

/-- What stands between the word and the closing brace. -/
def inner (g : Reference) : List Char := g.blanks ++ g.body

def tag (g : Reference) : List Char := '{' :: '@' :: (g.word ++ (g.inner ++ ['}']))

def text (g : Reference) : List Char := (g.caption.elim [] fun c => '[' :: (c ++ [']'])) ++ g.tag

structure WellFormed (g : Reference) : Prop where
  /-- The word is that of a tag, in any letter case. -/
  word : lower g.word ∈ "tutorial".toList :: tagWords
  blanks_ne_nil : g.blanks ≠ []
  isBlank_of_mem : ∀ c ∈ g.blanks, isBlank c = true
  body : ∃ c ∈ g.body, isBlank c = false
  name : g.isTutorial = true → ∀ c ∈ g.body, isBlank c = false
  bodyFree : ∀ c ∈ brackets, c ∉ g.body
  caption : ∀ caption, g.caption = some caption → caption ≠ [] ∧ ∀ c ∈ brackets, c ∉ caption

/-- What a reference needs to be recognised where it begins: of the brackets, its caption and its
body leave out the one that would end them. -/
structure Legible (g : Reference) : Prop where
  word : lower g.word ∈ "tutorial".toList :: tagWords
  blanks_ne_nil : g.blanks ≠ []
  isBlank_of_mem : ∀ c ∈ g.blanks, isBlank c = true
  body : ∃ c ∈ g.body, isBlank c = false
  close_notMem_body : '}' ∉ g.body
  caption : ∀ caption, g.caption = some caption → caption ≠ [] ∧ ']' ∉ caption

def markup (r : Registry) (g : Reference) : List Char :=
  if g.isTutorial then
    (r.tutorialLink (String.ofList g.body) (g.caption.map String.ofList)).toList
  else
    let (target, label) := splitBody g.body
    let link := (r.linkTo (String.ofList target) ((g.caption <|> label).map String.ofList) none
      none).toList
    if lower g.word == "linkcode".toList then "<code>".toList ++ link ++ "</code>".toList else link

end Reference

/-- The characters that a reference can start with. -/
def opening : List Char := ['[', '{']

def Plain (text : List Char) : Prop := ∀ c ∈ opening, c ∉ text

instance (text : List Char) : Decidable (Plain text) :=
  List.decidableBAll (fun c => c ∉ text) opening

theorem of_tagBody {text : List Char} {p : List Char × Nat} (h : tagBody? text = some p) :
    ∃ c rest, text = c :: rest ∧ isBlank c = true := by
  rw [tagBody?] at h
  split at h
  · cases h
  · next inner rest hcut =>
    dsimp only at h
    split at h
    · cases h
    · next hblanks =>
      obtain ⟨rfl, -⟩ := eq_of_cutAt hcut
      cases inner with
      | nil => exact absurd rfl hblanks
      | cons c inner =>
        refine ⟨c, _, rfl, ?_⟩
        by_contra hc
        rw [List.takeWhile_cons_of_neg hc] at hblanks
        exact hblanks rfl

/-- What stands before the first character of a kind is the same in texts that are the same. -/
theorem eq_of_append_stop {p : Char → Bool} {front front' rest rest' : List Char} {c c' : Char}
    (h : front ++ c :: rest = front' ++ c' :: rest') (hfront : ∀ d ∈ front, p d = true)
    (hfront' : ∀ d ∈ front', p d = true) (hc : p c = false) (hc' : p c' = false) :
    front = front' := by
  have htake := congrArg (List.takeWhile p) h
  rwa [List.takeWhile_append_of_pos hfront, List.takeWhile_append_of_pos hfront',
    List.takeWhile_cons_of_neg (by simp [hc]), List.takeWhile_cons_of_neg (by simp [hc']),
    List.append_nil, List.append_nil] at htake

namespace Reference

theorem tag_append (g : Reference) (rest : List Char) :
    g.tag ++ rest = '{' :: '@' :: (g.word ++ (g.inner ++ '}' :: rest)) := by
  simp [tag]

theorem isTutorial_iff {g : Reference} :
    g.isTutorial = true ↔ lower g.word = "tutorial".toList := by
  rw [isTutorial, beq_iff_eq]

theorem ascii_of_letters {w : List Char} (hw : ∀ c ∈ w, isSmallLetter c = true) :
    ∀ d ∈ '{' :: '@' :: w, d.toNat < 128 := by
  rw [List.forall_mem_cons, List.forall_mem_cons]
  refine ⟨by decide, by decide, fun d hd => ?_⟩
  have hletter := isSmallLetter_iff.mp (hw d hd)
  omega

theorem WellFormed.legible {g : Reference} (h : g.WellFormed) : g.Legible where
  word := h.word
  blanks_ne_nil := h.blanks_ne_nil
  isBlank_of_mem := h.isBlank_of_mem
  body := h.body
  close_notMem_body := h.bodyFree '}' (by decide)
  caption := fun caption hcaption =>
    ⟨(h.caption caption hcaption).1, (h.caption caption hcaption).2 ']' (by decide)⟩

theorem WellFormed.notMem_inner {g : Reference} (h : g.WellFormed) {c : Char}
    (hc : c ∈ brackets) : c ∉ g.inner := by
  have hall : ∀ c ∈ brackets, isBlank c = false := forall_mem_of_all (by decide)
  intro hmem
  obtain hmem | hmem := List.mem_append.mp hmem
  · have hblank := h.isBlank_of_mem c hmem
    rw [hall c hc] at hblank
    cases hblank
  · exact h.bodyFree c hc hmem

namespace Legible

variable {g : Reference}

theorem isSmallLetter_lower (h : g.Legible) :
    ∀ c ∈ lower g.word, isSmallLetter c = true := by
  have hall : ∀ w ∈ "tutorial".toList :: tagWords, w.all isSmallLetter = true := by decide
  exact List.all_eq_true.mp (hall _ h.word)

theorem map_foldCase (h : g.Legible) : g.word.map foldCase = lower g.word := by
  apply map_foldCase_of_lowerAfter rfl
  intro c hc
  have hletter := isSmallLetter_iff.mp (h.isSmallLetter_lower c hc)
  omega

theorem not_isBlank_word (h : g.Legible) : ∀ c ∈ g.word, isBlank c = false := by
  intro c hc
  apply not_isBlank_of_isSmallLetter
  apply h.isSmallLetter_lower
  rw [← h.map_foldCase]
  exact List.mem_map_of_mem hc

theorem exists_inner (h : g.Legible) : ∃ c rest, g.inner = c :: rest ∧ isBlank c = true := by
  obtain ⟨c, blanks, hblanks⟩ := List.exists_cons_of_ne_nil h.blanks_ne_nil
  refine ⟨c, blanks ++ g.body, by rw [inner, hblanks, List.cons_append], ?_⟩
  exact h.isBlank_of_mem c (hblanks ▸ List.mem_cons_self)

theorem close_notMem_inner (h : g.Legible) : '}' ∉ g.inner := by
  intro hmem
  obtain hmem | hmem := List.mem_append.mp hmem
  · exact absurd (h.isBlank_of_mem '}' hmem) (by decide)
  · exact h.close_notMem_body hmem

theorem notMem_word (h : g.Legible) {c : Char} (hc : c ∈ brackets) : c ∉ g.word := by
  have hall : ∀ c ∈ brackets, isSmallLetter (foldCase c) = false :=
    forall_mem_of_all (by decide)
  intro hmem
  have hletter := h.isSmallLetter_lower (foldCase c) (h.map_foldCase ▸ List.mem_map_of_mem hmem)
  rw [hall c hc] at hletter
  cases hletter

theorem tagBody_inner (h : g.Legible) (rest : List Char) :
    tagBody? (g.inner ++ '}' :: rest) = some (g.inner.dropWhile isBlank, g.inner.length + 1) := by
  obtain ⟨b, tail, hinner, hb⟩ := h.exists_inner
  have hblanks : (g.inner.takeWhile isBlank).isEmpty = false := by
    rw [hinner, List.takeWhile_cons_of_pos hb]
    rfl
  have hbody : (g.inner.dropWhile isBlank).isEmpty = false := by
    rw [List.isEmpty_eq_false_iff, ne_eq, List.dropWhile_eq_nil_iff]
    intro hall
    obtain ⟨c, hc, hnot⟩ := h.body
    have hblank := hall c (List.mem_append_right _ hc)
    rw [hnot] at hblank
    cases hblank
  rw [tagBody?, cutAt_append h.close_notMem_inner]
  dsimp only
  rw [hblanks, hbody]
  rfl

theorem tagWithWord_self (h : g.Legible) (rest : List Char) :
    tagWithWord? (g.tag ++ rest) (lower g.word) =
      some ⟨g.tag.length, if lower g.word == "linkcode".toList then .code else .plain,
        g.inner.dropWhile isBlank⟩ := by
  have hfold : ('{' :: '@' :: g.word).map foldCase = '{' :: '@' :: lower g.word := by
    rw [List.map_cons, List.map_cons, h.map_foldCase]
    rfl
  have hlength : (lower g.word).length = g.word.length := by
    rw [← h.map_foldCase, List.length_map]
  have hdrop := dropFrontAnyCase_append (ascii_of_letters h.isSmallLetter_lower) hfold
    (g.inner ++ '}' :: rest)
  rw [List.cons_append, List.cons_append] at hdrop
  have htag : g.tag.length = 2 + g.word.length + (g.inner.length + 1) := by
    simp [tag]
    omega
  rw [tag_append, tagWithWord?, hdrop]
  dsimp only [bind, Option.bind]
  rw [h.tagBody_inner]
  dsimp only
  rw [List.drop_succ_cons, List.drop_succ_cons, List.drop_zero, hlength, List.take_left, htag]
  rfl

theorem tagWithWord_other (h : g.Legible) (rest : List Char) {w : List Char}
    (hw : ∀ c ∈ w, isSmallLetter c = true) (hne : w ≠ lower g.word) :
    tagWithWord? (g.tag ++ rest) w = none := by
  rw [tag_append, tagWithWord?]
  cases hdrop : dropFrontAnyCase? ('{' :: '@' :: w)
      ('{' :: '@' :: (g.word ++ (g.inner ++ '}' :: rest))) with
  | none => rfl
  | some behind =>
    obtain ⟨taken, htext, htaken⟩ := of_dropFrontAnyCase (ascii_of_letters hw) hdrop
    cases hbody : tagBody? behind with
    | none =>
      dsimp only [bind, Option.bind]
      rw [hbody]
    | some p =>
      exfalso
      obtain ⟨c, after, rfl, hc⟩ := of_tagBody hbody
      obtain ⟨b, tail, hinner, hb⟩ := h.exists_inner
      obtain ⟨brace, taken, rfl, -, htaken⟩ := List.map_eq_cons_iff.mp htaken
      obtain ⟨sign, taken, rfl, -, htaken⟩ := List.map_eq_cons_iff.mp htaken
      rw [hinner, List.cons_append, List.cons_append] at htext
      have hletters : ∀ d ∈ taken, isBlank d = false := by
        intro d hd
        apply not_isBlank_of_isSmallLetter
        apply hw
        rw [← htaken]
        exact List.mem_map_of_mem hd
      have hsame : g.word = taken := by
        apply eq_of_append_stop (p := fun d => !isBlank d) (List.cons.inj (List.cons.inj htext).2).2
        · simpa using h.not_isBlank_word
        · simpa using hletters
        · simp [hb]
        · simp [hc]
      exact hne (by rw [← htaken, ← hsame, h.map_foldCase])

theorem symbolTag_tag (h : g.Legible) (hg : g.isTutorial = false) (rest : List Char) :
    symbolTag? (g.tag ++ rest) =
      some ⟨g.tag.length, if lower g.word == "linkcode".toList then .code else .plain,
        g.inner.dropWhile isBlank⟩ := by
  have hword : lower g.word ∈ tagWords := by
    obtain hword | hword := List.mem_cons.mp h.word
    · rw [isTutorial_iff.mpr hword] at hg
      cases hg
    · exact hword
  obtain ⟨before, after, hsplit⟩ := List.append_of_mem hword
  rw [symbolTag?, List.findSome?_eq_some_iff]
  refine ⟨before, lower g.word, after, hsplit, h.tagWithWord_self rest, ?_⟩
  intro w hw
  have hletters : ∀ w ∈ tagWords, w.all isSmallLetter = true := by decide
  have hnodup : tagWords.Nodup := by decide
  have hmem : w ∈ tagWords := hsplit ▸ List.mem_append_left _ hw
  apply h.tagWithWord_other rest (List.all_eq_true.mp (hletters w hmem))
  rw [hsplit] at hnodup
  exact (List.nodup_append.mp hnodup).2.2 w hw _ List.mem_cons_self

theorem symbolTag_tutorial (h : g.Legible) (hg : g.isTutorial = true) (rest : List Char) :
    symbolTag? (g.tag ++ rest) = none := by
  rw [symbolTag?, List.findSome?_eq_none_iff]
  intro w hw
  have hletters : ∀ w ∈ tagWords, w.all isSmallLetter = true := by decide
  have hapart : "tutorial".toList ∉ tagWords := by decide
  apply h.tagWithWord_other rest (List.all_eq_true.mp (hletters w hw))
  rintro rfl
  exact hapart (isTutorial_iff.mp hg ▸ hw)

end Legible

theorem WellFormed.tutorialTag_tag {g : Reference} (h : g.WellFormed) (hg : g.isTutorial = true)
    (rest : List Char) :
    tutorialTag? (g.tag ++ rest) = some (g.tag.length, g.body) := by
  have hletters : ∀ c ∈ "tutorial".toList, isSmallLetter c = true :=
    forall_mem_of_all (by decide)
  have hfold : ('{' :: '@' :: g.word).map foldCase = '{' :: '@' :: "tutorial".toList := by
    rw [List.map_cons, List.map_cons, h.legible.map_foldCase, isTutorial_iff.mp hg]
    rfl
  have hdrop := dropFrontAnyCase_append (ascii_of_letters hletters) hfold (g.inner ++ '}' :: rest)
  have hword : "\x7b@tutorial".toList = '{' :: '@' :: "tutorial".toList := by decide
  have hlength : g.tag.length = 10 + g.blanks.length + g.body.length + 0 + 1 := by
    have hfolded := congrArg List.length hfold
    rw [List.length_map] at hfolded
    simp [tag, inner] at hfolded ⊢
    omega
  obtain ⟨c, hc, -⟩ := h.body
  obtain ⟨c, body, hbody⟩ := List.exists_cons_of_ne_nil (List.ne_nil_of_mem hc)
  have hname : ∀ d ∈ g.body, (d != '}' && !isBlank d) = true := by
    intro d hd
    have hne : d ≠ '}' := fun he => h.bodyFree '}' (by decide) (he ▸ hd)
    rw [h.name hg d hd, bne_iff_ne.mpr hne]
    rfl
  have hfirst : isBlank c = false := h.name hg c (hbody ▸ List.mem_cons_self)
  have hblanks : (g.inner ++ '}' :: rest).takeWhile isBlank = g.blanks := by
    rw [inner, List.append_assoc, List.takeWhile_append_of_pos h.isBlank_of_mem, hbody,
      List.cons_append, List.takeWhile_cons_of_neg (by simp [hfirst]), List.append_nil]
  have hafter : (g.inner ++ '}' :: rest).dropWhile isBlank = g.body ++ '}' :: rest := by
    rw [inner, List.append_assoc, List.dropWhile_append_of_pos h.isBlank_of_mem, hbody,
      List.cons_append, List.dropWhile_cons_of_neg (by simp [hfirst])]
  have hbehind : ∀ p : Char → Bool, p '}' = false → ('}' :: rest).dropWhile p = '}' :: rest :=
    fun p hp => List.dropWhile_cons_of_neg (by simp [hp])
  rw [tag_append, tutorialTag?, hword]
  rw [List.cons_append, List.cons_append] at hdrop
  rw [hdrop]
  dsimp only [bind, Option.bind]
  rw [hblanks, hafter, List.isEmpty_eq_false_iff.mpr h.blanks_ne_nil,
    List.takeWhile_append_of_pos hname, List.dropWhile_append_of_pos hname,
    List.takeWhile_cons_of_neg (by simp), hbehind _ (by simp), hbehind isBlank (by decide),
    List.takeWhile_cons_of_neg (by decide), List.append_nil, hlength, hbody]
  rfl

end Reference

section Captions

variable {τ : Type} {tag? : List Char → Option τ} {length : τ → Nat}
  {render : Option (List Char) → τ → List Char}

theorem captioned_tag (g : Reference) (rest : List Char) :
    captioned? tag? length render (g.tag ++ rest) =
      (tag? (g.tag ++ rest)).map fun t => (render none t, length t) := by
  have hnone : caption? (g.tag ++ rest) = none := by
    rw [Reference.tag_append]
    rfl
  rw [captioned?, hnone]

theorem captioned_text {g : Reference} (h : g.Legible) (rest : List Char) :
    captioned? tag? length render (g.text ++ rest) =
      (tag? (g.tag ++ rest)).map fun t =>
        (render g.caption t, (g.caption.elim 0 fun c => c.length + 2) + length t) := by
  cases hcaption : g.caption with
  | none =>
    have htext : g.text = g.tag := by
      rw [Reference.text, hcaption]
      rfl
    rw [htext, captioned_tag]
    simp
  | some caption =>
    obtain ⟨hne, hfree⟩ := h.caption caption hcaption
    have htext : g.text ++ rest = '[' :: (caption ++ ']' :: (g.tag ++ rest)) := by
      simp [Reference.text, hcaption]
    have hsome : caption? (g.text ++ rest) = some (caption, g.tag ++ rest) := by
      rw [htext, caption?, cutAt_append hfree]
      dsimp only
      rw [List.isEmpty_eq_false_iff.mpr hne]
      rfl
    rw [captioned?, hsome]
    rfl

theorem inert_captioned {c : Char} (hc : c ∉ opening)
    (h : ∀ rest, c ≠ '{' → tag? (c :: rest) = none) :
    Inert (captioned? tag? length render) c := by
  rw [opening, List.mem_cons, List.mem_singleton, not_or] at hc
  intro rest
  have hcaption : caption? (c :: rest) = none := by
    rw [caption?]
    intro rest' heq
    exact hc.1 (List.cons.inj heq).1
  rw [captioned?, hcaption]
  dsimp only
  rw [h rest hc.2, Option.map_none]

end Captions

end Refsite.Link
