import Mathlib.Data.List.Sort
import Mathlib.Data.String.Basic
import Refsite.Text.Basic
namespace Refsite.Text

/-- What each character of a list is decided to be. The list is what is run through here, where a
bounded statement about characters may be decided for every character that there is. -/
theorem forall_mem_of_all {p : Char → Prop} [DecidablePred p] {cs : List Char}
    (h : (cs.all fun c => decide (p c)) = true) : ∀ c ∈ cs, p c :=
  fun c hc => of_decide_eq_true (List.all_eq_true.mp h c hc)

theorem eq_of_cutAt {c : Char} {text front rest : List Char}
    (h : cutAt? c text = some (front, rest)) : text = front ++ c :: rest ∧ c ∉ front := by
  induction text generalizing front with
  | nil => cases h
  | cons d text ih =>
    rw [cutAt?] at h
    split at h
    · next hd =>
      cases h
      exact ⟨by rw [beq_iff_eq.mp hd, List.nil_append], List.not_mem_nil⟩
    · next hd =>
      obtain ⟨⟨front', rest'⟩, hcut, heq⟩ := Option.map_eq_some_iff.mp h
      cases heq
      obtain ⟨htext, hnot⟩ := ih hcut
      refine ⟨by rw [htext, List.cons_append], ?_⟩
      rw [List.mem_cons, not_or]
      exact ⟨fun he => hd (beq_iff_eq.mpr he.symm), hnot⟩

theorem cutAt_append {c : Char} {front : List Char} (h : c ∉ front) (rest : List Char) :
    cutAt? c (front ++ c :: rest) = some (front, rest) := by
  induction front with
  | nil => rw [List.nil_append, cutAt?, if_pos (beq_self_eq_true c)]
  | cons d front ih =>
    rw [List.mem_cons, not_or] at h
    rw [List.cons_append, cutAt?, if_neg fun he => h.1 (beq_iff_eq.mp he).symm, ih h.2]
    rfl

theorem cutAt_of_notMem {c : Char} {text : List Char} (h : c ∉ text) : cutAt? c text = none := by
  induction text with
  | nil => rfl
  | cons d text ih =>
    rw [List.mem_cons, not_or] at h
    rw [cutAt?, if_neg fun he => h.1 (beq_iff_eq.mp he).symm, ih h.2]
    rfl

theorem notMem_of_mem_splitAt {c : Char} {text piece : List Char} (h : piece ∈ splitAt c text) :
    c ∉ piece := by
  induction text generalizing piece with
  | nil =>
    rw [List.mem_singleton.mp h]
    exact List.not_mem_nil
  | cons d text ih =>
    unfold splitAt at h
    split at h
    · obtain rfl | h := List.mem_cons.mp h
      · exact List.not_mem_nil
      · exact ih h
    · next hd =>
      have hne : c ≠ d := fun heq => hd (beq_iff_eq.mpr heq.symm)
      split at h
      · rw [List.mem_singleton.mp h, List.mem_singleton]
        exact hne
      · next first pieces hpieces =>
        obtain rfl | h := List.mem_cons.mp h
        · rw [List.mem_cons, not_or]
          exact ⟨hne, ih (hpieces ▸ List.mem_cons_self)⟩
        · exact ih (hpieces ▸ List.mem_cons_of_mem _ h)

theorem splitAt_ne_nil (c : Char) (text : List Char) : splitAt c text ≠ [] := by
  cases text with
  | nil => nofun
  | cons d text =>
    rw [splitAt]
    split
    · nofun
    · split <;> nofun

theorem joinWith_cons {sep piece : List Char} {pieces : List (List Char)} (h : pieces ≠ []) :
    joinWith sep (piece :: pieces) = piece ++ sep ++ joinWith sep pieces := by
  cases pieces with
  | nil => exact absurd rfl h
  | cons next pieces => rfl

theorem joinWith_append {sep : List Char} {before after : List (List Char)} (hbefore : before ≠ [])
    (hafter : after ≠ []) :
    joinWith sep (before ++ after) = joinWith sep before ++ sep ++ joinWith sep after := by
  induction before with
  | nil => exact absurd rfl hbefore
  | cons piece before ih =>
    cases before with
    | nil => exact joinWith_cons hafter
    | cons next before =>
      have hne : next :: before ≠ [] := List.cons_ne_nil _ _
      rw [List.cons_append, joinWith_cons (List.append_ne_nil_of_left_ne_nil hne _), ih hne,
        joinWith_cons hne]
      simp only [List.append_assoc]

/-- Joining undoes splitting. -/
theorem joinWith_splitAt (c : Char) (text : List Char) :
    joinWith [c] (splitAt c text) = text := by
  induction text with
  | nil => rfl
  | cons d text ih =>
    rw [splitAt]
    split
    · next hd =>
      rw [joinWith_cons (splitAt_ne_nil c text), ih, beq_iff_eq.mp hd]
      rfl
    · split
      · next hnil => exact absurd hnil (splitAt_ne_nil c text)
      · next piece pieces hpieces =>
        rw [hpieces] at ih
        rw [← ih]
        cases pieces with
        | nil => rfl
        | cons next pieces => rfl

theorem dropFront_append (front rest : List Char) :
    dropFront? front (front ++ rest) = some rest := by
  induction front with
  | nil => rfl
  | cons c front ih => rw [List.cons_append, dropFront?, if_pos (beq_self_eq_true c), ih]

theorem dropBack_append (rest back : List Char) : dropBack? back (rest ++ back) = some rest := by
  rw [dropBack?, List.reverse_append, dropFront_append, Option.map_some, List.reverse_reverse]

theorem upTo_append_of_notMem {c : Char} {front : List Char} (h : c ∉ front) (rest : List Char) :
    upTo c (front ++ rest) = front ++ upTo c rest := by
  rw [upTo, List.takeWhile_append_of_pos]
  · rfl
  · intro d hd
    exact bne_iff_ne.mpr fun he => h (he ▸ hd)

theorem upTo_eq_self {c : Char} {text : List Char} (h : c ∉ text) : upTo c text = text := by
  have happ := upTo_append_of_notMem h []
  rwa [List.append_nil, upTo.eq_def c [], List.takeWhile_nil, List.append_nil] at happ

theorem upTo_append {c : Char} {front : List Char} (h : c ∉ front) (rest : List Char) :
    upTo c (front ++ c :: rest) = front := by
  rw [upTo_append_of_notMem h, upTo, List.takeWhile_cons_of_neg, List.append_nil]
  rw [bne_self_eq_false]
  exact Bool.false_ne_true

theorem notMem_upTo (c : Char) (text : List Char) : c ∉ upTo c text := by
  intro hmem
  have hne := List.all_eq_true.mp (List.all_takeWhile (p := (· != c)) (l := text)) c hmem
  rw [bne_self_eq_false] at hne
  cases hne

theorem notMem_afterLast (c : Char) (text : List Char) : c ∉ afterLast c text := by
  rw [afterLast, List.mem_reverse]
  exact notMem_upTo c text.reverse

theorem afterLast_append {c : Char} {back : List Char} (h : c ∉ back) (front : List Char) :
    afterLast c (front ++ c :: back) = back := by
  rw [afterLast, List.reverse_append, List.reverse_cons, List.append_assoc, List.singleton_append,
    upTo_append (by simpa using h), List.reverse_reverse]

section Order

variable {α : Type} {key : α → String} {as bs : List α}

theorem le_iff {a b : String} : le a b = true ↔ a ≤ b := by
  rw [le, Bool.or_eq_true, beq_iff_eq, decide_eq_true_eq, le_iff_eq_or_lt]

theorem pairwise_mergeSort (key : α → String) (as : List α) :
    (as.mergeSort fun a b => le (key a) (key b)).Pairwise fun a b => key a ≤ key b := by
  have hsorted : (as.mergeSort fun a b => le (key a) (key b)).Pairwise
      fun a b => le (key a) (key b) = true := by
    apply List.pairwise_mergeSort
    · intro a b c hab hbc
      exact le_iff.mpr ((le_iff.mp hab).trans (le_iff.mp hbc))
    · intro a b
      rw [Bool.or_eq_true, le_iff, le_iff]
      exact le_total (key a) (key b)
  exact hsorted.imp le_iff.mp

/-- Members with different texts have one order only. -/
theorem mergeSort_eq_of_perm (h : as.Perm bs)
    (hkeys : ∀ a ∈ as, ∀ b ∈ as, key a = key b → a = b) :
    (as.mergeSort fun a b => le (key a) (key b)) = bs.mergeSort fun a b => le (key a) (key b) := by
  have hperm := (List.mergeSort_perm as fun a b => le (key a) (key b)).trans
    (h.trans (List.mergeSort_perm bs fun a b => le (key a) (key b)).symm)
  refine hperm.eq_of_pairwise ?_ (pairwise_mergeSort key as) (pairwise_mergeSort key bs)
  intro a b ha hb hab hba
  have hb' : b ∈ as := h.mem_iff.mpr (List.mem_mergeSort.mp hb)
  exact hkeys a (List.mem_mergeSort.mp ha) b hb' (le_antisymm hab hba)

theorem sort_eq_of_perm {as bs : List String} (h : as.Perm bs) :
    as.mergeSort le = bs.mergeSort le :=
  mergeSort_eq_of_perm h fun _ _ _ _ heq => heq

/-- Different texts are sorted strictly. -/
theorem pairwise_sort_lt {as : List String} (h : as.Nodup) :
    (as.mergeSort le).Pairwise fun a b => a < b := by
  have hnodup := (List.mergeSort_perm as le).nodup_iff.mpr h
  have hboth := (pairwise_mergeSort id as).and hnodup
  exact hboth.imp fun h => lt_of_le_of_ne h.1 h.2

end Order

end Refsite.Text
