import Mathlib.Logic.Function.Defs
import Refsite.Link.Stem
import Refsite.Proofs.Text.Basic
import Refsite.Proofs.Text.LetterCase
namespace Refsite.Link.Stem

open Refsite.Text

/-- What a file name may hold: none of the marks that separate directories, mean something to a
shell or start a fragment. -/
def isSafe (c : Char) : Bool := !unsafeMarks.contains c && c != '~' && c != '#'

theorem isSafe_replaceMark (c : Char) : isSafe (replaceMark c) = true := by
  unfold replaceMark
  split
  · decide
  · next hmark =>
    split
    · decide
    · next htilde =>
      split
      · decide
      · next hhash =>
        rw [isSafe, Bool.and_eq_true, Bool.and_eq_true, Bool.not_eq_true', bne_iff_ne, bne_iff_ne]
        rw [Bool.not_eq_true] at hmark
        rw [beq_iff_eq] at htilde hhash
        exact ⟨⟨hmark, htilde⟩, hhash⟩

/-- A variation at the end is cut off with all that follows the first opening bracket, but for a
line feed behind it. -/
theorem cutVariation_cases (text : List Char) :
    cutVariation text = text ∨ ∃ front inner lineEnd, (lineEnd = [] ∨ lineEnd = ['\n']) ∧
      text = front ++ '(' :: (inner ++ lineEnd) ∧ cutVariation text = front ++ lineEnd := by
  unfold cutVariation
  split
  next body lineEnd hsplit =>
  have hbody : text = body ++ lineEnd ∧ (lineEnd = [] ∨ lineEnd = ['\n']) := by
    split at hsplit
    · next rest hrev =>
      cases hsplit
      refine ⟨?_, .inr rfl⟩
      rw [← List.reverse_cons, ← hrev, List.reverse_reverse]
    · cases hsplit
      exact ⟨(List.append_nil _).symm, .inl rfl⟩
  split
  · next front inner hclose hcut =>
    refine .inr ⟨front, inner, lineEnd, hbody.2, ?_, rfl⟩
    rw [hbody.1, (eq_of_cutAt hcut).1, List.append_assoc, List.cons_append]
  · exact .inl rfl

theorem mem_of_mem_cutVariation {c : Char} {text : List Char} (h : c ∈ cutVariation text) :
    c ∈ text := by
  obtain heq | ⟨front, inner, lineEnd, -, htext, heq⟩ := cutVariation_cases text
  · rwa [heq] at h
  · rw [heq] at h
    rw [htext]
    cases List.mem_append.mp h with
    | inl h => exact List.mem_append_left _ h
    | inr h => exact List.mem_append_right _ (List.mem_cons_of_mem _ (List.mem_append_right _ h))

theorem mem_of_mem_dropLeadingMark {c : Char} {text : List Char} (h : c ∈ dropLeadingMark text) :
    c ∈ text := by
  unfold dropLeadingMark at h
  split at h
  · exact List.mem_cons_of_mem _ h
  · exact List.mem_cons_of_mem _ h
  · exact h

theorem isSafe_of_mem_ofText {c : Char} {text : List Char} (h : c ∈ ofText text) :
    isSafe c = true := by
  unfold ofText at h
  split at h
  · rw [List.mem_singleton.mp h]
    decide
  · have hmem := mem_of_mem_cutVariation (mem_of_mem_dropLeadingMark h)
    obtain ⟨d, _, rfl⟩ := List.mem_map.mp hmem
    exact isSafe_replaceMark d

theorem isDigit_counter {c : Char} {k : Nat} (h : c ∈ (toString k).toList) :
    c.isDigit = true := by
  rw [Nat.toString_eq_repr, Nat.toList_repr] at h
  exact Nat.isDigit_of_mem_toDigits (by decide) (by decide) h

theorem counter_injective {j k : Nat} (h : (toString j).toList = (toString k).toList) : j = k := by
  rw [Nat.toString_eq_repr, Nat.toString_eq_repr, Nat.toList_repr, Nat.toList_repr] at h
  have hread := congrArg (fun digits => Nat.ofDigitChars 10 digits 0) h
  simpa only [Nat.ofDigitChars_ten_toDigits] using hread

theorem isDigit_cases {c : Char} (h : c.isDigit = true) : c ∈ "0123456789".toList := by
  rw [Char.isDigit, Bool.and_eq_true, decide_eq_true_eq, decide_eq_true_eq] at h
  have hlow : 48 ≤ c.toNat := h.1
  have hhigh : c.toNat ≤ 57 := h.2
  rw [← Char.ofNat_toNat c]
  have hall : ∀ n < 10, Char.ofNat (48 + n) ∈ "0123456789".toList := by decide
  have hc := hall (c.toNat - 48) (by omega)
  rwa [show 48 + (c.toNat - 48) = c.toNat by omega] at hc

theorem counter_chars {c : Char} {k : Nat} (h : c ∈ '_' :: (toString k).toList) :
    isSafe c = true ∧ isSmallAscii c = true := by
  have hall : (('_' :: "0123456789".toList).all fun c => isSafe c && isSmallAscii c) = true := by
    decide
  rw [← Bool.and_eq_true]
  apply List.all_eq_true.mp hall
  cases h with
  | head => exact List.mem_cons_self
  | tail _ h => exact List.mem_cons_of_mem _ (isDigit_cases (isDigit_counter h))

theorem isSafe_of_mem_candidate {c : Char} {text : List Char} {k : Nat}
    (h : c ∈ candidate (ofText text) k) : isSafe c = true := by
  cases k with
  | zero => exact isSafe_of_mem_ofText h
  | succ k =>
    rw [candidate] at h
    cases List.mem_append.mp h with
    | inl h => exact isSafe_of_mem_ofText h
    | inr h => exact (counter_chars h).1

theorem lower_candidate (stem : List Char) (k : Nat) :
    ∃ small, lower (candidate stem (k + 1)) = small ++ '_' :: (toString (k + 1)).toList ∧
      small.length = (lower stem).length :=
  lower_append_of_isSmallAscii stem fun _ h => (counter_chars h).2

/-- The small forms of two candidates differ: the stem itself is the shortest, and the others end
in counters that start at one place. -/
theorem lower_candidate_injective (stem : List Char) :
    Function.Injective fun k => lower (candidate stem k) := by
  intro j k h
  dsimp only at h
  cases j with
  | zero =>
    cases k with
    | zero => rfl
    | succ k =>
      obtain ⟨small, hk, hlen⟩ := lower_candidate stem k
      have hlength := congrArg List.length (h.trans hk)
      rw [List.length_append, hlen, List.length_cons, candidate] at hlength
      omega
  | succ j =>
    obtain ⟨small, hj, hlen⟩ := lower_candidate stem j
    cases k with
    | zero =>
      have hlength := congrArg List.length (h.symm.trans hj)
      rw [List.length_append, hlen, List.length_cons, candidate] at hlength
      omega
    | succ k =>
      obtain ⟨small', hk, hlen'⟩ := lower_candidate stem k
      rw [hj, hk] at h
      have hsuffix := (List.append_inj h (hlen.trans hlen'.symm)).2
      exact counter_injective (List.cons.inj hsuffix).2

def StartsTwice (marks : List Char) : List Char → Prop
  | a :: b :: _ => a ∈ marks ∧ b ∈ marks
  | _ => False

theorem not_startsTwice {marks : List Char} {c : Char} (h : c ∉ marks) (text : List Char) :
    ¬ StartsTwice marks (c :: text) := by
  cases text with
  | nil => exact id
  | cons d text => exact fun hstarts => h hstarts.1

theorem dropLeadingMark_cons_of_mem {c : Char} (h : c ∈ ['.', '-']) (text : List Char) :
    dropLeadingMark (c :: text) = text := by
  rw [List.mem_cons, List.mem_singleton] at h
  obtain rfl | rfl := h <;> rfl

theorem dropLeadingMark_cons_of_notMem {c : Char} (h : c ∉ ['.', '-']) (text : List Char) :
    dropLeadingMark (c :: text) = c :: text := by
  rw [List.mem_cons, List.mem_singleton, not_or] at h
  unfold dropLeadingMark
  split
  · next heq => exact absurd (List.cons.inj heq).1 h.1
  · next heq => exact absurd (List.cons.inj heq).1 h.2
  · rfl

/-- One leading mark is dropped, so a mark is left in front exactly if there were two. -/
theorem head_dropLeadingMark_iff (text : List Char) :
    (∃ mark ∈ ['.', '-'], (dropLeadingMark text).head? = some mark) ↔
      StartsTwice ['.', '-'] text := by
  cases text with
  | nil => simp [dropLeadingMark, StartsTwice]
  | cons a rest =>
    by_cases ha : a ∈ ['.', '-']
    · rw [dropLeadingMark_cons_of_mem ha]
      cases rest with
      | nil => simp [StartsTwice]
      | cons b rest => simp [StartsTwice, ha]
    · rw [dropLeadingMark_cons_of_notMem ha]
      refine iff_of_false ?_ (not_startsTwice ha rest)
      rintro ⟨mark, hmark, hhead⟩
      exact ha (Option.some.inj hhead ▸ hmark)

theorem startsTwice_cutVariation (text : List Char) :
    StartsTwice ['.', '-'] (cutVariation text) ↔ StartsTwice ['.', '-'] text := by
  obtain heq | ⟨front, inner, lineEnd, hend, htext, heq⟩ := cutVariation_cases text
  · rw [heq]
  · rw [heq, htext]
    -- With fewer than two characters before it, the bracket or a line feed is among the first two.
    match front with
    | [] =>
      refine iff_of_false ?_ (not_startsTwice (by decide) _)
      obtain rfl | rfl := hend <;> exact id
    | [a] =>
      refine iff_of_false ?_ fun h => absurd h.2 (by decide)
      obtain rfl | rfl := hend
      · exact id
      · exact fun h => absurd h.2 (by decide)
    | a :: b :: front => rfl

theorem replaceMark_mem_iff {c : Char} :
    replaceMark c ∈ ['.', '-'] ↔ c ∈ ['.', '-', '~'] := by
  by_cases hc : c ∈ ['.', '-', '~']
  · have hall : ∀ c ∈ ['.', '-', '~'], replaceMark c ∈ ['.', '-'] := forall_mem_of_all (by decide)
    exact iff_of_true (hall c hc) hc
  · refine iff_of_false ?_ hc
    simp only [List.mem_cons, List.not_mem_nil, or_false, not_or] at hc
    unfold replaceMark
    split
    · decide
    · split
      · next htilde => exact absurd (beq_iff_eq.mp htilde) hc.2.2
      · split
        · decide
        · simp [hc.1, hc.2.1]

theorem startsTwice_replaceMark (text : List Char) :
    StartsTwice ['.', '-'] (text.map replaceMark) ↔ StartsTwice ['.', '-', '~'] text := by
  match text with
  | [] | [_] => rfl
  | a :: b :: rest => exact and_congr replaceMark_mem_iff replaceMark_mem_iff

theorem head_of_nameSpace {front : List Char}
    (h : nameSpaces.contains (String.ofList front) = true) :
    ∃ c rest, front = c :: rest ∧ c ∉ ['.', '-', '~'] := by
  have hall : ∀ word ∈ nameSpaces, (word.toList.head?.any fun c => c ∉ ['.', '-', '~']) = true := by
    decide
  have hhead := hall _ (List.contains_iff_mem.mp h)
  rw [String.toList_ofList] at hhead
  cases front with
  | nil => cases hhead
  | cons c rest => exact ⟨c, rest, rfl, of_decide_eq_true hhead⟩

/-- A word that stands before a colon begins with a letter, and so does what becomes of it. -/
theorem startsTwice_joinNameSpace (text : List Char) :
    StartsTwice ['.', '-', '~'] (joinNameSpace text) ↔ StartsTwice ['.', '-', '~'] text := by
  unfold joinNameSpace
  split
  · next front rest hcut =>
    split
    · next hname =>
      obtain ⟨c, front, rfl, hc⟩ := head_of_nameSpace hname
      rw [(eq_of_cutAt hcut).1]
      exact iff_of_false (not_startsTwice hc _) (not_startsTwice hc _)
    · rfl
  · rfl

theorem ofText_ne_nil (text : List Char) : ofText text ≠ [] := by
  unfold ofText
  split
  · exact List.cons_ne_nil _ _
  · next hne => exact hne

theorem head_candidate (text : List Char) (k : Nat) :
    (candidate (ofText text) k).head? = (ofText text).head? := by
  cases k with
  | zero => rfl
  | succ k => rw [candidate, List.head?_append_of_ne_nil _ (ofText_ne_nil text)]

theorem head_ofText_iff (text : List Char) :
    (∃ mark ∈ ['.', '-'], (ofText text).head? = some mark) ↔ StartsTwice ['.', '-', '~'] text := by
  rw [← startsTwice_joinNameSpace, ← startsTwice_replaceMark, ← startsTwice_cutVariation,
    ← head_dropLeadingMark_iff]
  unfold ofText
  split
  · next hnil =>
    rw [hnil]
    simp
  · rfl

end Refsite.Link.Stem
