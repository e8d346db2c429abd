import Mathlib.Data.List.Infix
import Refsite.Proofs.Text.Basic
namespace Refsite.Text

variable {c : Char} {pieces : List (List Char)}

theorem splitAt_of_notMem {text : List Char} (h : c ∉ text) : splitAt c text = [text] := by
  induction text with
  | nil => rfl
  | cons d text ih =>
    rw [List.mem_cons, not_or] at h
    rw [splitAt, if_neg fun heq => h.1 (beq_iff_eq.mp heq).symm, ih h.2]

/-- A mark parts the pieces before it from those behind it. -/
theorem splitAt_append_cons (c : Char) (text rest : List Char) :
    splitAt c (text ++ c :: rest) = splitAt c text ++ splitAt c rest := by
  induction text with
  | nil =>
    have hmark : splitAt c (c :: rest) = [] :: splitAt c rest := by
      rw [splitAt.eq_2, if_pos (beq_self_eq_true c)]
    exact hmark
  | cons d text ih =>
    rw [List.cons_append, splitAt, splitAt, ih]
    split
    · rfl
    · cases h : splitAt c text with
      | nil => exact absurd h (splitAt_ne_nil c text)
      | cons piece pieces => rfl

/-- Pieces with a mark behind each. -/
def closed (c : Char) (pieces : List (List Char)) : List Char := pieces.flatMap (· ++ [c])

theorem closed_cons_append (piece rest : List Char) :
    closed c (piece :: pieces) ++ rest = piece ++ c :: (closed c pieces ++ rest) := by
  rw [closed, List.flatMap_cons, List.append_assoc, List.append_assoc]
  rfl

theorem closed_append (before after : List (List Char)) :
    closed c (before ++ after) = closed c before ++ closed c after :=
  List.flatMap_append

theorem closed_replicate (c : Char) (n : Nat) :
    closed c (List.replicate n []) = List.replicate n c := by
  induction n with
  | zero => rfl
  | succ n ih =>
    rw [List.replicate_succ, List.replicate_succ, closed, List.flatMap_cons]
    exact congrArg (c :: ·) ih

theorem splitAt_closed_append (h : ∀ piece ∈ pieces, c ∉ piece) (rest : List Char) :
    splitAt c (closed c pieces ++ rest) = pieces ++ splitAt c rest := by
  induction pieces with
  | nil => rfl
  | cons piece pieces ih =>
    rw [List.forall_mem_cons] at h
    rw [closed_cons_append, splitAt_append_cons, splitAt_of_notMem h.1, ih h.2]
    rfl

theorem afterLast_closed_append {last : List Char} (h : c ∉ last) (pieces : List (List Char)) :
    afterLast c (closed c pieces ++ last) = last := by
  induction pieces using List.reverseRecOn with
  | nil =>
    have hreverse : c ∉ last.reverse := by simpa using h
    show (upTo c last.reverse).reverse = last
    rw [upTo_eq_self hreverse, List.reverse_reverse]
  | append_singleton before piece _ =>
    rw [closed_append, List.append_assoc, closed_cons_append, ← List.append_assoc]
    exact afterLast_append h _

theorem joinWith_concat (c : Char) (pieces : List (List Char)) (last : List Char) :
    joinWith [c] (pieces ++ [last]) = closed c pieces ++ last := by
  induction pieces with
  | nil => rfl
  | cons piece pieces ih =>
    rw [List.cons_append, joinWith_cons (List.append_ne_nil_of_right_ne_nil _ (by simp)), ih,
      closed_cons_append, List.append_assoc]
    rfl

theorem joinWith_append_singleton (h : pieces ≠ []) :
    joinWith [c] pieces ++ [c] = closed c pieces := by
  have hnil : [([] : List Char)] ≠ [] := List.cons_ne_nil _ _
  have hjoin : joinWith [c] (pieces ++ [[]]) = joinWith [c] pieces ++ [c] ++ [] :=
    joinWith_append h hnil
  rw [joinWith_concat, List.append_nil, List.append_nil] at hjoin
  exact hjoin.symm

/-- A text is its pieces up to the last mark, and what stands behind that. -/
theorem eq_closed_append (c : Char) (text : List Char) :
    text = closed c (splitAt c text).dropLast ++ afterLast c text := by
  have hne := splitAt_ne_nil c text
  have htext : text = closed c (splitAt c text).dropLast ++ (splitAt c text).getLast hne := by
    rw [← joinWith_concat, List.dropLast_append_getLast, joinWith_splitAt]
  have hlast : afterLast c text = (splitAt c text).getLast hne := by
    conv_lhs => rw [htext]
    exact afterLast_closed_append (notMem_of_mem_splitAt (List.getLast_mem hne)) _
  rwa [hlast]

theorem closed_isPrefix {text : List Char} (h : pieces <+: (splitAt c text).dropLast) :
    closed c pieces <+: text := by
  obtain ⟨more, hmore⟩ := h
  rw [eq_closed_append c text, ← hmore, closed_append, List.append_assoc]
  exact List.prefix_append _ _

/-- Pieces with a mark behind each come first in a text when they come first among its pieces. -/
theorem closed_isPrefix_iff (h : ∀ piece ∈ pieces, c ∉ piece) (text : List Char) :
    closed c pieces <+: text ↔ pieces <+: (splitAt c text).dropLast := by
  refine ⟨?_, closed_isPrefix⟩
  rintro ⟨rest, rfl⟩
  rw [splitAt_closed_append h, List.dropLast_append_of_ne_nil (splitAt_ne_nil c rest)]
  exact List.prefix_append _ _

theorem notMem_of_mem_dropLast_splitAt {text piece : List Char}
    (h : piece ∈ (splitAt c text).dropLast) : c ∉ piece :=
  notMem_of_mem_splitAt (List.mem_of_mem_dropLast h)

theorem lines_replicate_append (n : Nat) (text : List Char) :
    lines (List.replicate n '\n' ++ text) = List.replicate n [] ++ lines text := by
  rw [lines, ← closed_replicate, splitAt_closed_append]
  · rfl
  · intro piece hpiece
    rw [List.eq_of_mem_replicate hpiece]
    exact List.not_mem_nil

theorem lines_append_replicate (text : List Char) (n : Nat) :
    lines (text ++ List.replicate n '\n') = lines text ++ List.replicate n [] := by
  cases n with
  | zero => rw [List.replicate_zero, List.append_nil, List.replicate_zero, List.append_nil]
  | succ n =>
    have hfeeds := lines_replicate_append n []
    rw [List.append_nil] at hfeeds
    rw [List.replicate_succ, lines, splitAt_append_cons, ← lines, ← lines, hfeeds,
      List.replicate_succ']
    rfl

theorem flatten_lines (text : List Char) : (lines text).flatten = text.filter (· != '\n') := by
  induction text with
  | nil => rfl
  | cons c text ih =>
    rw [lines] at ih
    rw [lines, splitAt, List.filter_cons]
    by_cases h : c = '\n'
    · rw [if_pos (beq_iff_eq.mpr h), if_neg (by simpa using h), List.flatten_cons, ih]
      rfl
    · rw [if_neg (by simpa using h), if_pos (bne_iff_ne.mpr h), ← ih]
      cases hsplit : splitAt '\n' text with
      | nil => exact absurd hsplit (splitAt_ne_nil _ _)
      | cons piece pieces => rfl

theorem unixLines_cons {c : Char} (h : c ≠ '\r') (rest : List Char) :
    unixLines (c :: rest) = c :: unixLines rest := by
  rw [unixLines.eq_def]
  split
  · next heq => cases heq
  · next heq => exact absurd (List.cons.inj heq).1 h
  · next heq => exact absurd (List.cons.inj heq).1 h
  · next heq =>
    obtain ⟨rfl, rfl⟩ := List.cons.inj heq
    rfl

theorem exists_unixLines_of_break {c : Char} (h : c = '\n' ∨ c = '\r') (rest : List Char) :
    ∃ text, unixLines (c :: rest) = '\n' :: text := by
  obtain rfl | rfl := h
  · exact ⟨_, unixLines_cons (by decide) rest⟩
  · rw [unixLines.eq_def]
    split
    · next heq => cases heq
    · exact ⟨_, rfl⟩
    · exact ⟨_, rfl⟩
    · next hcr heq =>
      obtain ⟨rfl, rfl⟩ := List.cons.inj heq
      exact absurd rfl hcr

theorem mem_unixLines_iff {c : Char} (h : c ≠ '\n') (code : List Char) :
    c ∈ unixLines code ↔ c ∈ code ∧ c ≠ '\r' := by
  fun_induction unixLines code with
  | case1 => simp
  | case2 text ih | case3 text _ ih =>
    simp only [List.mem_cons, h, false_or, ih]
    exact ⟨fun hc => ⟨.inr hc.1, hc.2⟩, fun hc => ⟨hc.1.resolve_left hc.2, hc.2⟩⟩
  | case4 d text _ hd ih =>
    rw [List.mem_cons, List.mem_cons, ih]
    constructor
    · rintro (rfl | hc)
      · exact ⟨.inl rfl, hd⟩
      · exact ⟨.inr hc.1, hc.2⟩
    · rintro ⟨rfl | hc, hne⟩
      · exact .inl rfl
      · exact .inr ⟨hc, hne⟩

end Refsite.Text
