import Mathlib.Data.List.Infix
import Refsite.Proofs.Text.Basic
namespace Refsite.Text

theorem eq_of_dropFront {front text rest : List Char} (h : dropFront? front text = some rest) :
    text = front ++ rest := by
  induction front generalizing text with
  | nil => exact Option.some.inj h
  | cons f front ih =>
    cases text with
    | nil => cases h
    | cons c text =>
      rw [dropFront?] at h
      split at h
      · next heq => rw [beq_iff_eq.mp heq, ih h, List.cons_append]
      · cases h

theorem dropFront_of_not_isPrefix {front text : List Char} (h : ¬ front <+: text) :
    dropFront? front text = none := by
  cases hdrop : dropFront? front text with
  | none => rfl
  | some rest => exact absurd ⟨rest, (eq_of_dropFront hdrop).symm⟩ h

/-- What stands behind the first occurrence of a part. -/
def behind? (part : List Char) : List Char → Option (List Char)
  | [] => dropFront? part []
  | c :: text =>
    match dropFront? part (c :: text) with
    | some rest => some rest
    | none => behind? part text

theorem behind_append (part rest : List Char) : behind? part (part ++ rest) = some rest := by
  cases h : part ++ rest with
  | nil =>
    obtain ⟨rfl, rfl⟩ := List.append_eq_nil_iff.mp h
    rfl
  | cons c text => rw [behind?, ← h, dropFront_append]

theorem behind_cons_of_not_isPrefix {part text : List Char} {c : Char} (h : ¬ part <+: c :: text) :
    behind? part (c :: text) = behind? part text := by
  rw [behind?, dropFront_of_not_isPrefix h]

/-- A piece of text at no place of which the part begins, whatever follows. -/
def Skipped (part text : List Char) : Prop :=
  ∀ rest, behind? part (text ++ rest) = behind? part rest

section Skipping

variable {part text text' : List Char}

theorem skipped_nil (part : List Char) : Skipped part [] := fun _ => rfl

theorem skipped_cons {c : Char} (h : ∀ rest, ¬ part <+: c :: text ++ rest)
    (htext : Skipped part text) : Skipped part (c :: text) :=
  fun rest => (behind_cons_of_not_isPrefix (h rest)).trans (htext rest)

theorem Skipped.append (h : Skipped part text) (h' : Skipped part text') :
    Skipped part (text ++ text') := by
  intro rest
  rw [List.append_assoc, h, h']

theorem skipped_flatten {texts : List (List Char)} (h : ∀ t ∈ texts, Skipped part t) :
    Skipped part texts.flatten := by
  induction texts with
  | nil => exact skipped_nil part
  | cons t texts ih =>
    rw [List.forall_mem_cons] at h
    exact h.1.append (ih h.2)

theorem skipped_of_notMem {mark : Char} (h : mark ∉ text) : Skipped (mark :: part) text := by
  induction text with
  | nil => exact skipped_nil _
  | cons c text ih =>
    rw [List.mem_cons, not_or] at h
    refine skipped_cons (fun rest hfront => h.1 ?_) (ih h.2)
    exact (List.cons_prefix_cons.mp hfront).1

/-- Whether a text nowhere goes together with the beginning of a part. -/
def avoids (opening : List Char) : List Char → Bool
  | [] => true
  | c :: text =>
    !(opening.isPrefixOf (c :: text) || (c :: text).isPrefixOf opening) && avoids opening text

theorem skipped_of_avoids {opening : List Char} (hpart : opening <+: part)
    (h : avoids opening text = true) : Skipped part text := by
  induction text with
  | nil => exact skipped_nil part
  | cons c text ih =>
    rw [avoids, Bool.and_eq_true, Bool.not_eq_true', Bool.or_eq_false_iff, Bool.eq_false_iff,
      Bool.eq_false_iff, ne_eq, ne_eq, List.isPrefixOf_iff_prefix, List.isPrefixOf_iff_prefix] at h
    refine skipped_cons (fun rest hfront => ?_) (ih h.2)
    have hopening : opening <+: c :: text ++ rest := hpart.trans hfront
    obtain hleft | hright :=
      List.prefix_or_prefix_of_prefix hopening (List.prefix_append (c :: text) rest)
    · exact h.1.1 hleft
    · exact h.1.2 hright

theorem skipped_intercalate {sep : List Char} {texts : List (List Char)} (hsep : Skipped part sep)
    (h : ∀ t ∈ texts, Skipped part t) : Skipped part (sep.intercalate texts) := by
  induction texts with
  | nil => exact skipped_nil part
  | cons t texts ih =>
    rw [List.forall_mem_cons] at h
    cases texts with
    | nil =>
      rw [List.intercalate_singleton]
      exact h.1
    | cons t' texts =>
      rw [List.intercalate_cons_cons]
      exact (h.1.append hsep).append (ih h.2)

end Skipping

section Replacing

variable {found? : List Char → Option (List Char × Nat)}

/-- A character at which nothing is recognised, whatever follows. -/
def Inert (found? : List Char → Option (List Char × Nat)) (c : Char) : Prop :=
  ∀ rest, found? (c :: rest) = none

theorem substitute_cons_of_none {c : Char} {text : List Char} (h : found? (c :: text) = none) :
    substitute found? (c :: text) = c :: substitute found? text := by
  rw [substitute, substituteAfter, h]
  rfl

theorem substituteAfter_append (skipped text : List Char) :
    substituteAfter found? skipped.length (skipped ++ text) = substitute found? text := by
  induction skipped with
  | nil => rfl
  | cons c skipped ih =>
    rw [List.length_cons, List.cons_append, substituteAfter]
    exact ih

theorem substitute_append_of_some {old new : List Char} (rest : List Char) (hne : old ≠ [])
    (h : found? (old ++ rest) = some (new, old.length)) :
    substitute found? (old ++ rest) = new ++ substitute found? rest := by
  cases old with
  | nil => exact absurd rfl hne
  | cons c old =>
    rw [List.cons_append] at h ⊢
    rw [substitute, substituteAfter, h]
    exact congrArg (new ++ ·) (substituteAfter_append old rest)

theorem substitute_append_of_inert {text : List Char} (rest : List Char)
    (h : ∀ c ∈ text, Inert found? c) :
    substitute found? (text ++ rest) = text ++ substitute found? rest := by
  induction text with
  | nil => rfl
  | cons c text ih =>
    rw [List.cons_append, substitute_cons_of_none (h c List.mem_cons_self _),
      ih fun d hd => h d (List.mem_cons_of_mem c hd), List.cons_append]

theorem substitute_eq_self {text : List Char} (h : ∀ rest, rest <:+ text → found? rest = none) :
    substitute found? text = text := by
  induction text with
  | nil => rfl
  | cons c text ih =>
    rw [substitute_cons_of_none (h _ List.suffix_rfl),
      ih fun rest hrest => h rest (hrest.trans (List.suffix_cons c text))]

/-- A relation between texts that is closed under nil and append relates what is put together of
related parts. -/
theorem flatMap_related {α : Type} {R : List Char → List Char → Prop} (hnil : R [] [])
    (happend : ∀ {a b a' b'}, R a b → R a' b' → R (a ++ a') (b ++ b')) {f g : α → List Char}
    {as : List α} (h : ∀ a ∈ as, R (f a) (g a)) : R (as.flatMap f) (as.flatMap g) := by
  induction as with
  | nil => exact hnil
  | cons a as ih =>
    rw [List.flatMap_cons, List.flatMap_cons]
    exact happend (h a List.mem_cons_self) (ih fun b hb => h b (List.mem_cons_of_mem a hb))

/-- A piece of text that becomes another one, whatever follows. -/
def Rewrites (found? : List Char → Option (List Char × Nat)) (old new : List Char) : Prop :=
  ∀ rest, substitute found? (old ++ rest) = new ++ substitute found? rest

namespace Rewrites

variable {old new old' new' : List Char}

theorem append (h : Rewrites found? old new) (h' : Rewrites found? old' new') :
    Rewrites found? (old ++ old') (new ++ new') := by
  intro rest
  rw [List.append_assoc, h, h', List.append_assoc]

theorem cons {c : Char} (hc : ∀ rest, found? (c :: old ++ rest) = none)
    (h : Rewrites found? old new) : Rewrites found? (c :: old) (c :: new) := by
  intro rest
  have hnone := hc rest
  rw [List.cons_append] at hnone ⊢
  rw [substitute_cons_of_none hnone, h, List.cons_append]

theorem flatMap {α : Type} {f g : α → List Char} {as : List α}
    (h : ∀ a ∈ as, Rewrites found? (f a) (g a)) : Rewrites found? (as.flatMap f) (as.flatMap g) :=
  flatMap_related (fun _ => rfl) append h

theorem of_inert (h : ∀ c ∈ old, Inert found? c) : Rewrites found? old old :=
  fun rest => substitute_append_of_inert rest h

theorem substitute_eq (h : Rewrites found? old new) : substitute found? old = new := by
  have happ := h []
  rwa [List.append_nil, substitute.eq_def found? [], substituteAfter, List.append_nil] at happ

end Rewrites

section Occurrences

variable {old new text rest : List Char}

theorem replaceAll_of_dropFront (hold : old ≠ []) (h : dropFront? old text = some rest) :
    replaceAll old new text = new ++ replaceAll old new rest := by
  rw [eq_of_dropFront h]
  refine substitute_append_of_some rest hold ?_
  rw [dropFront_append, Option.map_some]

theorem replaceAll_cons {c : Char} (h : dropFront? old (c :: text) = none) :
    replaceAll old new (c :: text) = c :: replaceAll old new text :=
  substitute_cons_of_none (by rw [h, Option.map_none])

theorem replaceAll_of_not_occursIn (h : occursIn old text = false) :
    replaceAll old new text = text := by
  induction text with
  | nil => rfl
  | cons c text ih =>
    rw [occursIn, Bool.or_eq_false_iff, Option.isSome_eq_false_iff, Option.isNone_iff_eq_none] at h
    rw [replaceAll_cons h.1, ih h.2]

theorem length_replaceAll (hold : old ≠ []) (hlength : old.length < new.length)
    (text : List Char) :
    text.length ≤ (replaceAll old new text).length ∧
      (occursIn old text = true → text.length < (replaceAll old new text).length) := by
  induction hn : text.length using Nat.strong_induction_on generalizing text with
  | _ n ih =>
    subst hn
    cases text with
    | nil =>
      refine ⟨Nat.zero_le _, fun h => absurd (List.isEmpty_iff.mp h) hold⟩
    | cons c text =>
      cases hdrop : dropFront? old (c :: text) with
      | some rest =>
        have hsplit := congrArg List.length (eq_of_dropFront hdrop)
        rw [List.length_append] at hsplit
        have hpos : 0 < old.length := List.length_pos_iff.mpr hold
        obtain ⟨hrest, -⟩ := ih rest.length (by omega) rest rfl
        rw [replaceAll_of_dropFront hold hdrop, List.length_append]
        omega
      | none =>
        obtain ⟨hle, hlt⟩ := ih text.length (Nat.lt_succ_self _) text rfl
        rw [replaceAll_cons hdrop, List.length_cons, List.length_cons, occursIn, hdrop]
        exact ⟨Nat.succ_le_succ hle, fun h => Nat.succ_lt_succ (hlt h)⟩

theorem replaceAll_eq_self_iff (hold : old ≠ []) (hlength : old.length < new.length) :
    replaceAll old new text = text ↔ occursIn old text = false := by
  refine ⟨fun h => ?_, replaceAll_of_not_occursIn⟩
  by_contra hoccurs
  have hlt := (length_replaceAll hold hlength text).2 (Bool.not_eq_false _ ▸ hoccurs)
  rw [h] at hlt
  exact lt_irrefl _ hlt

end Occurrences

end Replacing

end Refsite.Text
