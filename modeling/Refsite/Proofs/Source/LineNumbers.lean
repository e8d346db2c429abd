import Mathlib.Data.List.DropRight
import Refsite.Page.Details
import Refsite.Proofs.Link.Anchor
import Refsite.Proofs.Source.Listing
import Refsite.Proofs.Text.Split
namespace Refsite.Source

open Refsite.Text Refsite.Html

def withoutMark : List Char → List Char
  | '\uFEFF' :: code => code
  | code => code

def codeLines (code : List Char) : List (List Char) := lines (unixLines code)

def filledLines (code : List Char) : List (List Char) := (codeLines code).rdropWhile (·.isEmpty)

def trimLines (text : List Char) : List Char :=
  (text.dropWhile (· == '\n')).rdropWhile (· == '\n')

theorem listedLines_eq (code : List Char) :
    listedLines code = lines (trimLines (unixLines (withoutMark code))) := by
  have htidy : tidy code = trimLines (unixLines (withoutMark code)) ++ '\n' :: [] := by
    unfold tidy withoutMark
    rfl
  rw [listedLines, htidy, lines, splitAt_append_cons]
  exact List.dropLast_concat

theorem exists_listedLines (code : List Char) :
    ∃ front back, codeLines (withoutMark code) =
      List.replicate front [] ++ (listedLines code ++ List.replicate back []) := by
  have hfeeds : ∀ {text : List Char}, (∀ c ∈ text, (c == '\n') = true) →
      text = List.replicate text.length '\n' := fun h =>
    List.eq_replicate_of_mem fun c hc => beq_iff_eq.mp (h c hc)
  generalize htext : unixLines (withoutMark code) = text
  refine ⟨(text.takeWhile (· == '\n')).length,
    ((text.dropWhile (· == '\n')).rtakeWhile (· == '\n')).length, ?_⟩
  rw [listedLines_eq, codeLines, htext, ← lines_append_replicate, ← lines_replicate_append,
    ← hfeeds (fun c hc => List.mem_rtakeWhile_imp (p := (· == '\n')) hc),
    ← hfeeds (fun c hc => List.mem_takeWhile_imp (p := (· == '\n')) hc),
    trimLines, List.rdropWhile_append_rtakeWhile, List.takeWhile_append_dropWhile]

theorem flatten_filledLines (code : List Char) :
    (filledLines code).flatten = (unixLines code).filter (· != '\n') := by
  have hempty : ((codeLines code).rtakeWhile (·.isEmpty)).flatten = [] :=
    List.flatten_eq_nil_iff.mpr fun line hline =>
      List.isEmpty_iff.mp (List.mem_rtakeWhile_imp hline)
  rw [← flatten_lines, ← codeLines]
  conv_rhs => rw [← List.rdropWhile_append_rtakeWhile (p := (·.isEmpty)) (l := codeLines code)]
  rw [List.flatten_append, hempty, List.append_nil, filledLines]

theorem flatten_listedLines (code : List Char) :
    (listedLines code).flatten = (unixLines (withoutMark code)).filter (· != '\n') := by
  obtain ⟨front, back, hlines⟩ := exists_listedLines code
  have h := congrArg List.flatten hlines
  rw [codeLines, flatten_lines] at h
  simpa using h.symm

theorem withoutMark_cons {c : Char} (h : c ≠ '\uFEFF') (rest : List Char) :
    withoutMark (c :: rest) = c :: rest := by
  unfold withoutMark
  split
  · next heq => exact absurd (List.cons.inj heq).1 h
  · rfl

theorem exists_listedLines_cons {code : List Char}
    (h : ∃ c ∈ unixLines (withoutMark code), c ≠ '\n') :
    ∃ line shown, listedLines code = line :: shown ∧ line ≠ [] := by
  obtain ⟨c, hc, hne⟩ := h
  rw [listedLines_eq]
  generalize unixLines (withoutMark code) = text at hc
  have hrest : text.dropWhile (· == '\n') ≠ [] := by
    rw [ne_eq, List.dropWhile_eq_nil_iff]
    exact fun hall => hne (beq_iff_eq.mp (hall c hc))
  obtain ⟨first, rest, hfirst⟩ := List.exists_cons_of_ne_nil hrest
  have hnot : first ≠ '\n' := by
    have hhead := List.head?_dropWhile_not (· == '\n') text
    rw [hfirst] at hhead
    simpa using hhead
  have htrim : ∃ more, trimLines text = first :: more := by
    rw [trimLines, hfirst]
    obtain ⟨more, hmore⟩ := List.rdropWhile_prefix (· == '\n') (first :: rest)
    cases hkept : (first :: rest).rdropWhile (· == '\n') with
    | nil =>
      rw [List.rdropWhile_eq_nil_iff] at hkept
      exact absurd (beq_iff_eq.mp (hkept first List.mem_cons_self)) hnot
    | cons d kept =>
      rw [hkept, List.cons_append] at hmore
      exact ⟨kept, by rw [(List.cons.inj hmore).1]⟩
  obtain ⟨more, hmore⟩ := htrim
  rw [hmore, lines, splitAt, if_neg (by simpa using hnot)]
  cases splitAt '\n' more with
  | nil => exact ⟨_, _, rfl, List.cons_ne_nil _ _⟩
  | cons piece pieces => exact ⟨_, _, rfl, List.cons_ne_nil _ _⟩

def LinesAtNumbers (code : String) : Prop :=
  ∀ k line, (filledLines code.toList)[k]? = some line →
    lineAt (lineAnchor (toString (k + 1))) (listing code) = some line

theorem linesAtNumbers_iff_isPrefix {code : String} :
    LinesAtNumbers code ↔ filledLines code.toList <+: listedLines code.toList := by
  rw [List.prefix_iff_getElem?]
  constructor
  · intro h k hk
    rw [← lineAt_listing]
    exact h k _ (List.getElem?_eq_getElem hk)
  · intro h k line hline
    obtain ⟨hk, rfl⟩ := List.getElem?_eq_some_iff.mp hline
    rw [lineAt_listing]
    exact h k hk

theorem filledLines_isPrefix {code : List Char} {back : Nat}
    (h : codeLines code = listedLines code ++ List.replicate back []) :
    filledLines code <+: listedLines code := by
  have hempty : ∀ line ∈ (List.replicate back ([] : List Char)).reverse, line.isEmpty = true := by
    intro line hline
    rw [List.eq_of_mem_replicate (List.mem_reverse.mp hline)]
    rfl
  have hdrop : (listedLines code ++ List.replicate back []).rdropWhile (·.isEmpty) =
      (listedLines code).rdropWhile (·.isEmpty) := by
    rw [List.rdropWhile, List.reverse_append, List.dropWhile_append_of_pos hempty]
    rfl
  rw [filledLines, h, hdrop]
  exact List.rdropWhile_prefix _ _

theorem filledLines_isPrefix_of_head {c : Char} {rest : List Char}
    (h : c ≠ '\n' ∧ c ≠ '\r' ∧ c ≠ '\uFEFF') :
    filledLines (c :: rest) <+: listedLines (c :: rest) := by
  obtain ⟨hfeed, hreturn, hmark⟩ := h
  obtain ⟨front, back, hlines⟩ := exists_listedLines (c :: rest)
  rw [withoutMark_cons hmark] at hlines
  cases front with
  | zero => exact filledLines_isPrefix hlines
  | succ front =>
    rw [codeLines, unixLines_cons hreturn, lines, splitAt, if_neg (by simpa using hfeed),
      List.replicate_succ] at hlines
    cases hsplit : splitAt '\n' (unixLines rest) with
    | nil => exact absurd hsplit (splitAt_ne_nil _ _)
    | cons piece pieces =>
      rw [hsplit] at hlines
      cases (List.cons.inj hlines).1

theorem not_isPrefix_of_mark (rest : List Char) :
    ¬ filledLines ('\uFEFF' :: rest) <+: listedLines ('\uFEFF' :: rest) := by
  intro hlisted
  have hlength := hlisted.flatten.length_le
  have hmark : withoutMark ('\uFEFF' :: rest) = rest := rfl
  rw [flatten_filledLines, flatten_listedLines, hmark, unixLines_cons (by decide),
    List.filter_cons_of_pos (by decide), List.length_cons] at hlength
  omega

theorem not_isPrefix_of_break {c d : Char} {rest : List Char} (hc : c = '\n' ∨ c = '\r')
    (hd : d ∈ c :: rest) (hfeed : d ≠ '\n') (hreturn : d ≠ '\r') :
    ¬ filledLines (c :: rest) <+: listedLines (c :: rest) := by
  intro hlisted
  have hmem : d ∈ unixLines (c :: rest) := (mem_unixLines_iff hfeed _).mpr ⟨hd, hreturn⟩
  have hmark : withoutMark (c :: rest) = c :: rest := by
    refine withoutMark_cons ?_ rest
    rintro rfl
    exact absurd hc (by decide)
  have hsome : ∃ c' ∈ unixLines (withoutMark (c :: rest)), c' ≠ '\n' :=
    ⟨d, by rwa [hmark], hfeed⟩
  -- The first line that is shown has characters, and the first one of the file has none.
  obtain ⟨line, shown, hshown, hne⟩ := exists_listedLines_cons hsome
  obtain ⟨text, htext⟩ := exists_unixLines_of_break hc rest
  cases hfilled : filledLines (c :: rest) with
  | nil =>
    have hflat := flatten_filledLines (c :: rest)
    rw [hfilled] at hflat
    exact List.filter_eq_nil_iff.mp hflat.symm d hmem (by simpa using hfeed)
  | cons first filled =>
    have hempty : first = [] := by
      have hfront : filledLines (c :: rest) <+: [] :: lines text := by
        have hcode : codeLines (c :: rest) = [] :: lines text := by
          rw [codeLines, htext, lines, splitAt, if_pos (beq_self_eq_true _)]
          rfl
        exact hcode ▸ List.rdropWhile_prefix _ _
      rw [hfilled] at hfront
      exact (List.cons_prefix_cons.mp hfront).1
    rw [hfilled, hshown, hempty] at hlisted
    exact hne (List.cons_prefix_cons.mp hlisted).1.symm

theorem filledLines_of_breaks {code : List Char} (h : ∀ c ∈ code, c = '\n' ∨ c = '\r') :
    filledLines code = [] := by
  have hflat : (codeLines code).flatten = [] := by
    rw [codeLines, flatten_lines, List.filter_eq_nil_iff]
    intro c hc hfeed
    have hne : c ≠ '\n' := by simpa using hfeed
    obtain ⟨hmem, hreturn⟩ := (mem_unixLines_iff hne code).mp hc
    exact (h c hmem).elim hne hreturn
  rw [filledLines, List.rdropWhile_eq_nil_iff]
  exact fun line hline => List.isEmpty_iff.mpr (List.flatten_eq_nil_iff.mp hflat line hline)

/-- Whether the source link of every symbol that is declared at a line of a file leads to that line
on the page of its listing. -/
def SourceLinksLand (code : String) : Prop :=
  ∀ (r : Registry) (s : Symbol) (origin : Origin) (path url : String) (k : Nat) (line : List Char),
    s.origin = some origin → origin.shortPath = some path → path ≠ "" →
    r.target? path = some url → origin.line = some ((k + 1 : Nat) : Int) →
    (filledLines code.toList)[k]? = some line →
    ∃ element fragment,
      (Page.sourceLink r s).toList = element ++ (", line " ++ toString (k + 1)).toList ∧
      Element (addressChars url (some fragment)) none path.toList element ∧
      lineAt fragment (listing code) = some line

theorem sourceLinksLand_of_linesAtNumbers {code : String} (h : LinesAtNumbers code) :
    SourceLinksLand code := by
  intro r s origin path url k line horigin hpath hne htarget hline hfilled
  have hlink : Page.sourceLink r s =
      anchor url path none (some (lineAnchor (toString (k + 1)))) ++ ", line " ++
        toString (k + 1) := by
    have hnumber : toString ((k + 1 : Nat) : Int) = toString (k + 1) := rfl
    rw [Page.sourceLink, horigin]
    dsimp only
    rw [hpath, Option.getD_some, if_neg (mt String.isEmpty_iff.mp hne), hline]
    dsimp only
    rw [Registry.linkTo_of_target htarget, hnumber]
    rfl
  refine ⟨_, _, ?_, element_anchor url path none _, h k line hfilled⟩
  rw [hlink, String.append_assoc, String.toList_append]

/-- A listing shows the lines between the empty ones at both ends of a file, and counts them from
one. So the lines are read under their numbers, and source links lead to them, exactly when the file
begins with neither a line end nor a mark of its encoding, or has nothing but line ends. -/
theorem linesAtNumbers_iff (code : String) :
    (∃ front back shown,
      codeLines (withoutMark code.toList) =
        List.replicate front [] ++ (shown ++ List.replicate back []) ∧
      ∀ k, lineAt (lineAnchor (toString (k + 1))) (listing code) = shown[k]?) ∧
    (LinesAtNumbers code ↔
      (∀ c ∈ code.toList, c = '\n' ∨ c = '\r') ∨
        ∃ c rest, code.toList = c :: rest ∧ c ≠ '\n' ∧ c ≠ '\r' ∧ c ≠ '\uFEFF') ∧
    (LinesAtNumbers code → SourceLinksLand code) := by
  refine ⟨?_, ?_, sourceLinksLand_of_linesAtNumbers⟩
  · obtain ⟨front, back, hlines⟩ := exists_listedLines code.toList
    exact ⟨front, back, _, hlines, lineAt_listing code⟩
  rw [linesAtNumbers_iff_isPrefix]
  generalize code.toList = text
  constructor
  · intro hlisted
    by_contra hnot
    rw [not_or] at hnot
    obtain ⟨hsome, hstart⟩ := hnot
    push Not at hsome hstart
    obtain ⟨d, hd, hfeed, hreturn⟩ := hsome
    cases text with
    | nil => exact List.not_mem_nil hd
    | cons c rest =>
      by_cases hc : c = '\n' ∨ c = '\r'
      · exact not_isPrefix_of_break hc hd hfeed hreturn hlisted
      · rw [not_or] at hc
        rw [hstart c rest rfl hc.1 hc.2] at hlisted
        exact not_isPrefix_of_mark rest hlisted
  · rintro (hbreaks | ⟨c, rest, rfl, h⟩)
    · rw [filledLines_of_breaks hbreaks]
      exact List.nil_prefix
    · exact filledLines_isPrefix_of_head h

/-- Empty lines inside a file and at its end do no harm. -/
theorem linesAtNumbers_of_function : LinesAtNumbers "f()\r\n\r\n  g()\n\n" :=
  (linesAtNumbers_iff _).2.1.mpr (.inr ⟨'f', _, rfl, by decide⟩)

/-- An empty line at the beginning of a file: its second line stands under the first number, and
under its own number there is nothing. -/
theorem second_line_under_first_number :
    ¬ LinesAtNumbers "\nf()" ∧ filledLines "\nf()".toList = [[], "f()".toList] ∧
      lineAt "line-1" (listing "\nf()") = some "f()".toList ∧
      lineAt "line-2" (listing "\nf()") = none := by
  have hshown : listedLines "\nf()".toList = ["f()".toList] := by decide
  have hfirst : lineAt "line-1" (listing "\nf()") = some "f()".toList := by
    have h := lineAt_listing "\nf()" 0
    rw [hshown] at h
    exact h
  have hsecond : lineAt "line-2" (listing "\nf()") = none := by
    have h := lineAt_listing "\nf()" 1
    rw [hshown] at h
    exact h
  have hfilled : filledLines "\nf()".toList = [[], "f()".toList] := by decide
  refine ⟨fun h => ?_, hfilled, hfirst, hsecond⟩
  have hline := h 1 "f()".toList (by rw [hfilled]; rfl)
  exact Option.some_ne_none _ (hline.symm.trans hsecond)

end Refsite.Source
