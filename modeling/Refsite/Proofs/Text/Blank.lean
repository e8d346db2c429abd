import Mathlib.Data.List.DropRight
import Refsite.Text.Basic
namespace Refsite.Text

theorem stripLeft_blanks {blanks : List Char} (h : ∀ c ∈ blanks, isBlank c = true)
    (text : List Char) : stripLeft (blanks ++ text) = stripLeft text :=
  List.dropWhile_append_of_pos h

theorem stripRight_blanks {blanks : List Char} (h : ∀ c ∈ blanks, isBlank c = true)
    (text : List Char) : stripRight (text ++ blanks) = stripRight text := by
  rw [stripRight, List.reverse_append,
    List.dropWhile_append_of_pos fun c hc => h c (List.mem_reverse.mp hc)]
  rfl

theorem stripLeft_append {text : List Char} (h : ∃ c ∈ text, isBlank c = false)
    (rest : List Char) : stripLeft (text ++ rest) = stripLeft text ++ rest := by
  have hsome : (text.dropWhile isBlank).isEmpty = false := by
    obtain ⟨c, hc, hnot⟩ := h
    rw [List.isEmpty_eq_false_iff, ne_eq, List.dropWhile_eq_nil_iff]
    exact fun hall => Bool.eq_false_iff.mp hnot (hall c hc)
  rw [stripLeft, List.dropWhile_append, hsome]
  rfl

theorem stripRight_append {text : List Char} (h : ∃ c ∈ text, isBlank c = false)
    (front : List Char) : stripRight (front ++ text) = front ++ stripRight text := by
  have hreverse : ∃ c ∈ text.reverse, isBlank c = false := by simpa using h
  have hleft := stripLeft_append hreverse front.reverse
  rw [stripLeft] at hleft
  rw [stripRight, List.reverse_append, hleft, List.reverse_append, List.reverse_reverse]
  rfl

/-- What stands before a stripped text in the text itself, and what stands behind it, is blank. -/
theorem exists_strip (text : List Char) :
    ∃ blanks, (∀ c ∈ blanks, isBlank c = true) ∧
      text = text.takeWhile isBlank ++ (strip text ++ blanks) := by
  refine ⟨List.rtakeWhile isBlank (stripLeft text), fun c hc => List.mem_rtakeWhile_imp hc, ?_⟩
  calc
    text = text.takeWhile isBlank ++ stripLeft text := List.takeWhile_append_dropWhile.symm
    _ = _ := by rw [show strip text = List.rdropWhile isBlank (stripLeft text) from rfl,
      List.rdropWhile_append_rtakeWhile]

theorem strip_blanks {front back : List Char} (hfront : ∀ c ∈ front, isBlank c = true)
    (hback : ∀ c ∈ back, isBlank c = true) (text : List Char) :
    strip (front ++ (text ++ back)) = strip text := by
  rw [strip, stripLeft_blanks hfront]
  by_cases h : ∃ c ∈ text, isBlank c = false
  · rw [stripLeft_append h, stripRight_blanks hback]
    rfl
  · have htext : ∀ c ∈ text, isBlank c = true := by simpa using h
    have hboth : ∀ c ∈ text ++ back, isBlank c = true :=
      List.forall_mem_append.mpr ⟨htext, hback⟩
    rw [stripLeft, strip, stripLeft, List.dropWhile_eq_nil_iff.mpr hboth,
      List.dropWhile_eq_nil_iff.mpr htext]

theorem length_stripRight_le (text : List Char) : (stripRight text).length ≤ text.length :=
  (List.rdropWhile_prefix isBlank text).length_le

theorem length_strip_le (text : List Char) : (strip text).length ≤ text.length :=
  (length_stripRight_le (stripLeft text)).trans (List.dropWhile_suffix isBlank).length_le

theorem stripRight_strip (text : List Char) : stripRight (strip text) = strip text :=
  List.rdropWhile_idempotent isBlank (stripLeft text)

theorem strip_strip (text : List Char) : strip (strip text) = strip text := by
  obtain ⟨blanks, hblanks, htext⟩ := exists_strip text
  have hfront : ∀ c ∈ text.takeWhile isBlank, isBlank c = true :=
    fun c hc => List.mem_takeWhile_imp hc
  have h := strip_blanks hfront hblanks (strip text)
  rw [← htext] at h
  exact h.symm

theorem mem_strip {text : List Char} {c : Char} (hc : c ∈ text) (hnot : isBlank c = false) :
    c ∈ strip text := by
  obtain ⟨blanks, hblanks, htext⟩ := exists_strip text
  rw [htext, List.mem_append, List.mem_append] at hc
  obtain hc | hc | hc := hc
  · rw [List.mem_takeWhile_imp hc] at hnot
    cases hnot
  · exact hc
  · rw [hblanks c hc] at hnot
    cases hnot

/-- Behind a blank inside a stripped text there is something else. -/
theorem strip_ne_nil {text front back : List Char} {c : Char} (hc : isBlank c = true)
    (heq : strip text = front ++ c :: back) : strip back ≠ [] := by
  intro hnil
  have hback : ∀ d ∈ c :: back, isBlank d = true := by
    rw [List.forall_mem_cons]
    refine ⟨hc, fun d hd => ?_⟩
    by_contra hnot
    have hmem := mem_strip hd (Bool.eq_false_iff.mpr hnot)
    rw [hnil] at hmem
    cases hmem
  have hlength := congrArg List.length (stripRight_strip text)
  have hle := length_stripRight_le front
  rw [heq, stripRight_blanks hback, List.length_append, List.length_cons] at hlength
  omega

end Refsite.Text
