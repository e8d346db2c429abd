import Refsite.Proofs.Text.Basic
import Refsite.Text.Lower
namespace Refsite.Text

def isSmallAscii (c : Char) : Bool := c.toNat < 128 && c.toLower == c

theorem lowerChar_of_isSmallAscii {c : Char} (h : isSmallAscii c = true) : lowerChar c = [c] := by
  rw [isSmallAscii, Bool.and_eq_true, decide_eq_true_eq, beq_iff_eq] at h
  rw [lowerChar, if_pos h.1, h.2]

theorem lowerAfter_of_isSmallAscii (before : List Char) {text : List Char}
    (h : ∀ c ∈ text, isSmallAscii c = true) : lowerAfter before text = text := by
  induction text generalizing before with
  | nil => rfl
  | cons c text ih =>
    have hc := h c List.mem_cons_self
    have hne : ¬ (c == '\u03A3') = true := by
      intro hsigma
      rw [beq_iff_eq.mp hsigma] at hc
      exact absurd hc (by decide)
    rw [lowerAfter, if_neg hne, lowerChar_of_isSmallAscii hc,
      ih (c :: before) fun d hd => h d (List.mem_cons_of_mem c hd), List.singleton_append]

/-- What follows a text changes the small forms of its characters and not their number. -/
theorem lowerAfter_append (before front back : List Char) :
    ∃ small, lowerAfter before (front ++ back) =
        small ++ lowerAfter (front.reverse ++ before) back ∧
      small.length = (lowerAfter before front).length := by
  induction front generalizing before with
  | nil => exact ⟨[], rfl, rfl⟩
  | cons c front ih =>
    obtain ⟨small, happ, hlen⟩ := ih (c :: before)
    rw [List.cons_append, lowerAfter, lowerAfter, happ, List.reverse_cons, List.append_assoc,
      List.singleton_append]
    by_cases hc : (c == '\u03A3') = true
    · rw [if_pos hc, if_pos hc]
      refine ⟨_ :: small, rfl, ?_⟩
      rw [List.length_cons, hlen, List.singleton_append, List.length_cons]
    · rw [if_neg hc, if_neg hc]
      refine ⟨lowerChar c ++ small, (List.append_assoc ..).symm, ?_⟩
      rw [List.length_append, List.length_append, hlen]

theorem lower_append_of_isSmallAscii (front : List Char) {back : List Char}
    (h : ∀ c ∈ back, isSmallAscii c = true) :
    ∃ small, lower (front ++ back) = small ++ back ∧ small.length = (lower front).length := by
  obtain ⟨small, happ, hlen⟩ := lowerAfter_append [] front back
  rw [lowerAfter_of_isSmallAscii _ h] at happ
  exact ⟨small, happ, hlen⟩

/-- The small letter as which a character is recognised, or else its own small form. -/
def foldCase (c : Char) : Char :=
  if c == '\u0130' || c == '\u0131' then 'i'
  else if c == '\u212A' then 'k'
  else if c == '\u017F' then 's'
  else c.toLower

/-- The characters beyond ASCII that are recognised as letters. -/
def lettersBeyond : List (Char × Char) :=
  [('\u0130', 'i'), ('\u0131', 'i'), ('\u212A', 'k'), ('\u017F', 's')]

def isSmallLetter (c : Char) : Bool := 97 ≤ c.toNat && c.toNat ≤ 122

theorem isSmallLetter_iff {c : Char} :
    isSmallLetter c = true ↔ 97 ≤ c.toNat ∧ c.toNat ≤ 122 := by
  simp [isSmallLetter]

theorem toLower_cases (c : Char) :
    c.toLower = c ∨ 65 ≤ c.toNat ∧ c.toNat ≤ 90 ∧ c.toLower.toNat = c.toNat + 32 := by
  unfold Char.toLower
  split
  · next h =>
    right
    simp only [ge_iff_le, UInt32.le_iff_toNat_le] at h
    change 65 ≤ c.toNat ∧ c.toNat ≤ 90 at h
    refine ⟨h.1, h.2, ?_⟩
    change (c.val + 32).toNat = _
    rw [UInt32.toNat_add]
    change (c.toNat + 32) % 2 ^ 32 = _
    omega
  · exact .inl rfl

theorem beq_of_lt {c d : Char} (hc : c.toNat < 128) (hd : 128 ≤ d.toNat) : (c == d) = false := by
  apply beq_false_of_ne
  rintro rfl
  omega

theorem foldCase_of_lt {c : Char} (h : c.toNat < 128) : foldCase c = c.toLower := by
  rw [foldCase, beq_of_lt h (by decide), beq_of_lt h (by decide), beq_of_lt h (by decide),
    beq_of_lt h (by decide)]
  rfl

theorem toLower_of_le {c : Char} (h : 128 ≤ c.toNat) : c.toLower = c := by
  obtain hc | ⟨-, hc, -⟩ := toLower_cases c
  · exact hc
  · omega

theorem foldCase_of_le {c : Char} (h : 128 ≤ c.toNat) :
    (c, foldCase c) ∈ lettersBeyond ∨ foldCase c = c := by
  rw [foldCase, toLower_of_le h]
  split
  · next hc =>
    rw [Bool.or_eq_true, beq_iff_eq, beq_iff_eq] at hc
    obtain rfl | rfl := hc <;> decide
  · split
    · next hc =>
      rw [beq_iff_eq.mp hc]
      decide
    · split
      · next hc =>
        rw [beq_iff_eq.mp hc]
        decide
      · exact .inr rfl

theorem sameLetter_iff {letter c : Char} (h : letter.toNat < 128) :
    sameLetter letter c = true ↔ foldCase c = letter := by
  by_cases hc : c.toNat < 128
  · rw [foldCase_of_lt hc, sameLetter, beq_of_lt hc (by decide), beq_of_lt hc (by decide),
      beq_of_lt hc (by decide), beq_of_lt hc (by decide)]
    simp
  · have hne : (c == letter) = false := by
      rw [BEq.comm]
      exact beq_of_lt h (by omega)
    rw [sameLetter, toLower_of_le (by omega), hne, foldCase, toLower_of_le (by omega)]
    grind

/-- Beyond ASCII only the Kelvin sign has a small form in it. -/
theorem lowerRuns_bounds : ∀ run ∈ lowerRuns, run.1 = 0x212A ∧ run.2.1 = 0x212A ∨
    128 ≤ (run.1 : Int) + run.2.2.2 ∧ ((run.2.1 : Int) + run.2.2.2 < 0xD800 ∨
      0xE000 ≤ (run.1 : Int) + run.2.2.2 ∧ (run.2.1 : Int) + run.2.2.2 < 0x110000) := by
  decide +kernel

theorem toNat_ofNat {n : Nat} (h : n < 0xD800 ∨ 0xE000 ≤ n ∧ n < 0x110000) :
    (Char.ofNat n).toNat = n := by
  have hvalid : n.isValidChar := by
    unfold Nat.isValidChar
    omega
  rw [Char.ofNat, dif_pos hvalid]
  rfl

/-- A small form that is ASCII is the letter as which the character is recognised. -/
theorem lowerChar_of_ascii {c : Char} (h : ∀ d ∈ lowerChar c, d.toNat < 128) :
    lowerChar c = [foldCase c] := by
  by_cases hc : c.toNat < 128
  · rw [lowerChar, if_pos hc, foldCase_of_lt hc]
  · by_cases hkelvin : c = '\u212A'
    · rw [hkelvin]
      decide +kernel
    · exfalso
      rw [lowerChar, if_neg hc] at h
      split at h
      · exact absurd (h '\u0307' (by simp)) (by decide)
      · split at h
        · next n hn =>
          change (lowerRuns.find? _).map _ = some n at hn
          obtain ⟨⟨first, last, step, distance⟩, hrun, rfl⟩ := Option.map_eq_some_iff.mp hn
          have hwithin := List.find?_some hrun
          have hbounds := lowerRuns_bounds _ (List.mem_of_find?_eq_some hrun)
          have hne : c.toNat ≠ 0x212A := fun heq => hkelvin (Char.toNat_inj.mp heq)
          simp only [Bool.and_eq_true, decide_eq_true_eq] at hwithin hbounds
          have hsmall : (Char.ofNat ((c.toNat : Int) + distance).toNat).toNat < 128 :=
            h _ List.mem_cons_self
          rw [toNat_ofNat (by omega)] at hsmall
          omega
        · exact absurd (h c (by simp)) hc

theorem map_foldCase_of_lowerAfter {before text word : List Char}
    (h : lowerAfter before text = word) (hword : ∀ d ∈ word, d.toNat < 128) :
    text.map foldCase = word := by
  subst h
  induction text generalizing before with
  | nil => rfl
  | cons c text ih =>
    rw [lowerAfter] at hword ⊢
    rw [List.map_cons, ih fun d hd => hword d (List.mem_append_right _ hd)]
    have hhead := fun d hd => hword d (List.mem_append_left _ hd)
    by_cases hsigma : (c == '\u03A3') = true
    · rw [if_pos hsigma] at hhead
      exfalso
      have hsmall := hhead _ List.mem_cons_self
      revert hsmall
      split <;> decide
    · rw [if_neg hsigma] at hhead ⊢
      rw [lowerChar_of_ascii hhead]
      rfl

theorem dropFrontAnyCase_append {front taken : List Char} (hfront : ∀ d ∈ front, d.toNat < 128)
    (h : taken.map foldCase = front) (rest : List Char) :
    dropFrontAnyCase? front (taken ++ rest) = some rest := by
  subst h
  induction taken with
  | nil => rfl
  | cons c taken ih =>
    rw [List.map_cons, List.forall_mem_cons] at hfront
    rw [List.map_cons, List.cons_append, dropFrontAnyCase?,
      if_pos ((sameLetter_iff hfront.1).mpr rfl)]
    exact ih hfront.2

theorem of_dropFrontAnyCase {front text rest : List Char} (hfront : ∀ d ∈ front, d.toNat < 128)
    (h : dropFrontAnyCase? front text = some rest) :
    ∃ taken, text = taken ++ rest ∧ taken.map foldCase = front := by
  induction front generalizing text with
  | nil => exact ⟨[], Option.some.inj h, rfl⟩
  | cons letter front ih =>
    rw [List.forall_mem_cons] at hfront
    cases text with
    | nil => cases h
    | cons c text =>
      rw [dropFrontAnyCase?] at h
      split at h
      · next hc =>
        obtain ⟨taken, rfl, htaken⟩ := ih hfront.2 h
        refine ⟨c :: taken, rfl, ?_⟩
        rw [List.map_cons, (sameLetter_iff hfront.1).mp hc, htaken]
      · cases h

theorem not_isBlank_of_bounds {c : Char} (hlow : 33 ≤ c.toNat) (hhigh : c.toNat < 0x85) :
    isBlank c = false := by
  simp only [isBlank, Bool.or_eq_false_iff, Bool.and_eq_false_iff, decide_eq_false_iff_not,
    beq_eq_false_iff_ne]
  omega

theorem not_isBlank_of_isSmallLetter {c : Char} (h : isSmallLetter (foldCase c) = true) :
    isBlank c = false := by
  by_cases hc : c.toNat < 128
  · rw [foldCase_of_lt hc, isSmallLetter_iff] at h
    obtain hsame | ⟨hlow, hhigh, -⟩ := toLower_cases c
    · rw [hsame] at h
      exact not_isBlank_of_bounds (by omega) (by omega)
    · exact not_isBlank_of_bounds (by omega) (by omega)
  · obtain hspecial | hsame := foldCase_of_le (Nat.le_of_not_lt hc)
    · have hall : ∀ p ∈ lettersBeyond, isBlank p.1 = false := by decide
      have hblank := hall (c, foldCase c) hspecial
      exact hblank
    · rw [hsame, isSmallLetter_iff] at h
      omega

theorem eq_of_foldCase {c mark : Char} (h : foldCase c = mark) (hmark : mark.toNat < 128)
    (hletter : isSmallLetter mark = false) : c = mark := by
  subst h
  rw [← Bool.not_eq_true, isSmallLetter_iff] at hletter
  by_cases hc : c.toNat < 128
  · rw [foldCase_of_lt hc] at hletter ⊢
    obtain hsame | ⟨hlow, hhigh, hnat⟩ := toLower_cases c
    · exact hsame.symm
    · omega
  · obtain hspecial | hsame := foldCase_of_le (Nat.le_of_not_lt hc)
    · have hall : ∀ p ∈ lettersBeyond, 97 ≤ p.2.toNat ∧ p.2.toNat ≤ 122 := by decide
      have hbounds := hall (c, foldCase c) hspecial
      dsimp only at hbounds
      omega
    · exact hsame.symm

theorem dropFrontAnyCase_of_ne {c mark : Char} (hne : c ≠ mark) (hmark : mark.toNat < 128)
    (hletter : isSmallLetter mark = false) (front text : List Char) :
    dropFrontAnyCase? (mark :: front) (c :: text) = none := by
  rw [dropFrontAnyCase?, if_neg]
  intro hsame
  exact hne (eq_of_foldCase ((sameLetter_iff hmark).mp hsame) hmark hletter)

end Refsite.Text
