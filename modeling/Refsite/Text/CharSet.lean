namespace Refsite.Text

abbrev CharRanges := List (Char × Char)

structure CharSet where
  negated : Bool
  ranges : CharRanges
  deriving DecidableEq, Repr

namespace CharSet

/-- The ranges that a text between brackets writes: a hyphen between two characters makes a range of
them, and any other character stands for itself. -/
def rangesOf : List Char → CharRanges
  | first :: '-' :: last :: text => (first, last) :: rangesOf text
  | c :: text => (c, c) :: rangesOf text
  | [] => []

def textOf (ranges : CharRanges) : List Char :=
  ranges.flatMap fun (first, last) => if first == last then [first] else [first, '-', last]

def inRange (c : Char) (range : Char × Char) : Bool := range.1 ≤ c && c ≤ range.2

def contains (s : CharSet) (c : Char) : Bool := s.ranges.any (inRange c) != s.negated

def hasReversed (s : CharSet) : Bool := s.ranges.any fun range => range.2 < range.1

def ofText : List Char → CharSet
  | '!' :: text => ⟨true, rangesOf text⟩
  | text => ⟨false, rangesOf text⟩

/-- The text up to the closing bracket, and what follows that. A bracket at the front, or right
behind an exclamation mark there, does not close. -/
def cut? (text : List Char) : Option (List Char × List Char) :=
  let opening := match text with
    | '!' :: ']' :: _ => 2
    | '!' :: _ => 1
    | ']' :: _ => 1
    | _ => 0
  let inner := (text.drop opening).takeWhile (· != ']')
  match text.drop (opening + inner.length) with
  | [] => none
  | _ :: rest => some (text.take opening ++ inner, rest)

theorem length_of_cut? {text inner rest : List Char} (h : cut? text = some (inner, rest)) :
    rest.length < text.length := by
  unfold cut? at h
  revert h
  generalize (match text with
    | '!' :: ']' :: _ => 2
    | '!' :: _ => 1
    | ']' :: _ => 1
    | _ => 0) = opening
  intro h
  have key : ∀ n, text.drop n = [] ∨ ∃ c r, text.drop n = c :: r ∧ r.length < text.length := by
    intro n
    cases hd : text.drop n with
    | nil => exact .inl rfl
    | cons c r =>
      refine .inr ⟨c, r, rfl, ?_⟩
      have := congrArg List.length hd
      simp only [List.length_drop, List.length_cons] at this
      omega
  simp only at h
  rcases key (opening + ((text.drop opening).takeWhile (· != ']')).length) with hd | ⟨c, r, hd, hr⟩
  · simp [hd] at h
  · simp only [hd, Option.some.injEq, Prod.mk.injEq] at h
    exact h.2 ▸ hr

end CharSet

end Refsite.Text
