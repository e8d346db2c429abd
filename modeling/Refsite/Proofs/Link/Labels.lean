import Refsite.Proofs.Link.References
import Refsite.Proofs.Text.Blank
namespace Refsite.Link

open Text

def divisions : List Char := ['|', '{', '}']

/-- A target and a label with blanks between them. -/
structure Labelled where
  target : List Char
  blanks : List Char
  label : List Char
  deriving DecidableEq, Repr

namespace Labelled

def body (g : Labelled) : List Char := g.target ++ (g.blanks ++ g.label)

def written (g : Labelled) : String := "\x7b@link " ++ String.ofList g.body ++ "\x7d"

def reference (g : Labelled) : Reference := ⟨none, "link".toList, [' '], g.body⟩

structure WellFormed (g : Labelled) : Prop where
  target_ne_nil : g.target ≠ []
  target : ∀ c ∈ g.target, isBlank c = false ∧ c ∉ divisions
  blanks_ne_nil : g.blanks ≠ []
  blanks : ∀ c ∈ g.blanks, isBlank c = true
  label : ∃ c ∈ g.label, isBlank c = false
  label_free : ∀ c ∈ divisions, c ∉ g.label

/-- The blanks between the target and the first character of the label that is none. -/
def gap (g : Labelled) : List Char := g.blanks ++ g.label.takeWhile isBlank

def caption (g : Labelled) : List Char := strip g.label

theorem toList_written (g : Labelled) : g.written.toList = g.reference.text := by
  have hopen : "\x7b@link ".toList = '{' :: '@' :: ("link".toList ++ [' ']) := by decide
  have hclose : "\x7d".toList = ['}'] := by decide
  have hbody : (String.ofList g.body).toList = g.body := String.toList_ofList
  rw [written, String.toList_append, String.toList_append, hopen, hclose, hbody]
  simp [reference, Reference.text, Reference.tag, Reference.inner]

namespace WellFormed

variable {g : Labelled} (h : g.WellFormed)

include h

theorem isBlank_gap : ∀ c ∈ g.gap, isBlank c = true :=
  List.forall_mem_append.mpr ⟨h.blanks, fun _ hc => List.mem_takeWhile_imp hc⟩

theorem exists_caption : ∃ c ∈ g.caption, isBlank c = false := by
  obtain ⟨c, hc, hnot⟩ := h.label
  exact ⟨c, mem_strip hc hnot, hnot⟩

theorem exists_target : ∃ c ∈ g.target, isBlank c = false := by
  obtain ⟨c, hc⟩ := List.exists_mem_of_ne_nil _ h.target_ne_nil
  exact ⟨c, hc, (h.target c hc).1⟩

theorem stripLeft_target : stripLeft g.target = g.target := by
  obtain ⟨c, rest, heq⟩ := List.exists_cons_of_ne_nil h.target_ne_nil
  have hc : isBlank c = false := (h.target c (heq ▸ List.mem_cons_self)).1
  rw [heq, stripLeft, List.dropWhile_cons_of_neg (by simp [hc])]

theorem stripRight_target : stripRight g.target = g.target := by
  have hlast := (h.target _ (List.getLast_mem h.target_ne_nil)).1
  exact List.rdropWhile_eq_self_iff.mpr fun _ hblank => Bool.eq_false_iff.mp hlast hblank

theorem strip_target {blanks : List Char} (hblanks : ∀ c ∈ blanks, isBlank c = true) :
    strip (g.target ++ blanks) = g.target := by
  rw [strip, stripLeft_append h.exists_target, h.stripLeft_target, stripRight_blanks hblanks,
    h.stripRight_target]

theorem strip_body : strip g.body = g.target ++ (g.gap ++ g.caption) := by
  obtain ⟨blanks, hblanks, hlabel⟩ := exists_strip g.label
  have hbody : g.body = g.target ++ (g.gap ++ (g.caption ++ blanks)) := by
    conv_lhs => rw [body, hlabel]
    simp only [gap, caption, List.append_assoc]
  rw [hbody, strip, stripLeft_append h.exists_target, h.stripLeft_target, ← List.append_assoc,
    ← List.append_assoc, stripRight_blanks hblanks, stripRight_append h.exists_caption,
    caption, stripRight_strip, List.append_assoc]

theorem notMem_body {c : Char} (hc : c ∈ divisions) : c ∉ g.body := by
  have hall : ∀ c ∈ divisions, isBlank c = false := forall_mem_of_all (by decide)
  simp only [body, List.mem_append, not_or]
  refine ⟨fun hmem => (h.target c hmem).2 hc, fun hmem => ?_, h.label_free c hc⟩
  have hblank := h.blanks c hmem
  rw [hall c hc] at hblank
  cases hblank

theorem bar_notMem : '|' ∉ g.target ++ (g.gap ++ g.caption) := by
  rw [← h.strip_body]
  exact fun hmem => h.notMem_body (by decide) (strip_subset g.body hmem)

theorem space_notMem_target : ' ' ∉ g.target := fun hmem =>
  absurd (h.target _ hmem).1 (by decide)

theorem splitBody_of_space (hspace : ' ' ∈ g.gap) :
    splitBody g.body = (g.target, some g.caption) := by
  obtain ⟨front, back, hgap, hfirst⟩ := List.eq_append_cons_of_mem hspace
  have hfront : ∀ c ∈ front, isBlank c = true :=
    fun c hc => h.isBlank_gap c (hgap ▸ List.mem_append_left _ hc)
  have hback : ∀ c ∈ back, isBlank c = true :=
    fun c hc => h.isBlank_gap c (hgap ▸ List.mem_append_right _ (List.mem_cons_of_mem _ hc))
  have htext : g.target ++ (g.gap ++ g.caption) =
      (g.target ++ front) ++ ' ' :: (back ++ g.caption) := by
    rw [hgap]
    simp only [List.append_assoc, List.cons_append]
  have hcut : cutAt? ' ' (g.target ++ (g.gap ++ g.caption)) =
      some (g.target ++ front, back ++ g.caption) := by
    rw [htext, cutAt_append]
    rw [List.mem_append, not_or]
    exact ⟨h.space_notMem_target, hfirst⟩
  have hcaption : strip (back ++ g.caption) = g.caption := by
    have hstrip := strip_blanks hback (List.forall_mem_nil _) g.caption
    rwa [List.append_nil, caption, strip_strip] at hstrip
  obtain ⟨c, hc, -⟩ := h.exists_caption
  rw [splitBody, h.strip_body, cutAt_of_notMem h.bar_notMem]
  dsimp only
  rw [hcut]
  dsimp only
  rw [h.strip_target hfront, label?, hcaption,
    List.isEmpty_eq_false_iff.mpr (List.ne_nil_of_mem hc)]
  rfl

/-- Without a space among the blanks the target goes on into the label, and something of the label
is not shown as such. -/
theorem splitBody_of_no_space (hspace : ' ' ∉ g.gap) :
    (splitBody g.body).2.getD (splitBody g.body).1 ≠ g.caption := by
  rw [splitBody, h.strip_body, cutAt_of_notMem h.bar_notMem]
  dsimp only
  by_cases hcaption : ' ' ∈ g.caption
  · obtain ⟨front, back, heq, hfirst⟩ := List.eq_append_cons_of_mem hcaption
    have htext : g.target ++ (g.gap ++ g.caption) =
        (g.target ++ (g.gap ++ front)) ++ ' ' :: back := by
      rw [heq]
      simp only [List.append_assoc]
    have hcut : cutAt? ' ' (g.target ++ (g.gap ++ g.caption)) =
        some (g.target ++ (g.gap ++ front), back) := by
      rw [htext, cutAt_append]
      simp only [List.mem_append, not_or]
      exact ⟨h.space_notMem_target, hspace, hfirst⟩
    rw [hcut]
    dsimp only
    rw [label?, if_neg (by simpa using strip_ne_nil (by decide) heq)]
    intro hsame
    have hlength := congrArg List.length (heq.symm.trans hsame.symm)
    have hle := length_strip_le back
    simp only [Option.getD_some, List.length_append, List.length_cons] at hlength
    omega
  · have hnone : cutAt? ' ' (g.target ++ (g.gap ++ g.caption)) = none := by
      apply cutAt_of_notMem
      simp only [List.mem_append, not_or]
      exact ⟨h.space_notMem_target, hspace, hcaption⟩
    rw [hnone]
    intro heq
    have hlength := congrArg List.length heq
    have hpos := List.length_pos_iff.mpr h.target_ne_nil
    simp only [Option.getD_none, List.length_append] at hlength
    omega

theorem legible : g.reference.Legible where
  word := by
    change lower "link".toList ∈ "tutorial".toList :: tagWords
    decide
  blanks_ne_nil := List.cons_ne_nil _ _
  isBlank_of_mem := List.forall_mem_singleton.mpr (by decide)
  body := by
    obtain ⟨c, hc, hnot⟩ := h.exists_target
    exact ⟨c, List.mem_append_left _ hc, hnot⟩
  close_notMem_body := h.notMem_body (by decide)
  caption := nofun

end WellFormed

end Labelled

end Refsite.Link

namespace Refsite.Registry

open Link Labelled Text

variable {r : Registry} {g : Labelled}

theorem markup_labelled (r : Registry) (g : Labelled) :
    g.reference.markup r = (r.linkTo (String.ofList (splitBody g.body).1)
      ((splitBody g.body).2.map String.ofList) none none).toList := by
  have htutorial : g.reference.isTutorial = false := by
    change (lower "link".toList == "tutorial".toList) = false
    decide
  have hcode : (lower "link".toList == "linkcode".toList) = false := by decide
  rw [Reference.markup, htutorial, if_neg Bool.false_ne_true]
  change (if lower "link".toList == "linkcode".toList then _ else _) = _
  rw [hcode, if_neg Bool.false_ne_true]
  rfl

theorem resolveTags_labelled (hr : r.Lacks '{') (h : g.WellFormed) :
    r.resolveTags g.written = String.ofList (g.reference.markup r) := by
  have hsymbol : substitute (symbolReference? r) g.reference.text = g.reference.markup r :=
    (rewrites_symbol h.legible rfl).substitute_eq
  have hbody : '{' ∉ g.body := h.notMem_body (by decide)
  obtain ⟨htarget, hlabel⟩ := splitBody_subset g.body
  have hbrace : '{' ∉ g.reference.markup r := by
    rw [markup_labelled]
    have hlongname : '{' ∉ (String.ofList (splitBody g.body).1).toList := by
      rw [String.toList_ofList]
      exact fun hmem => hbody (htarget hmem)
    apply notMem_linkTo (by decide) hr hlongname
    cases hsplit : (splitBody g.body).2 with
    | none => exact hlongname
    | some label =>
      change '{' ∉ (String.ofList label).toList
      rw [String.toList_ofList]
      exact fun hmem => hbody (hlabel label hsplit hmem)
  rw [resolveTags, onChars, toList_written]
  change String.ofList (substitute (tutorialReference? r)
    (substitute (symbolReference? r) g.reference.text)) = _
  rw [hsymbol, substitute_tutorialReference r hbrace]

/-- A reference names its target and its label exactly if a space is among the blanks between
them. -/
theorem resolveTags_labelled_iff (hr : r.Lacks '{') (h : g.WellFormed) :
    r.resolveTags g.written =
        r.linkTo (String.ofList g.target) (some (String.ofList g.caption)) none none ↔
      ' ' ∈ g.gap := by
  rw [resolveTags_labelled hr h, markup_labelled]
  constructor
  · intro heq
    by_contra hspace
    apply h.splitBody_of_no_space hspace
    have hshown := congrArg (fun s => Html.shownText s.toList) heq
    rw [String.toList_ofList, (presents_linkTo r _ _ none none).shownText_eq,
      (presents_linkTo r _ _ none none).shownText_eq] at hshown
    cases hlabel : (splitBody g.body).2 with
    | none =>
      rw [hlabel] at hshown
      simpa using hshown
    | some label =>
      rw [hlabel] at hshown
      simpa using hshown
  · intro hspace
    rw [h.splitBody_of_space hspace, String.ofList_toList]
    rfl

theorem lacks_initial : initial.Lacks '{' := by
  intro longname url h
  have hmem : (longname, url) ∈ initial.urls := Bindings.mem_of_lookup h
  obtain ⟨-, rfl⟩ := Prod.mk.inj (List.mem_singleton.mp hmem)
  decide

/-- A label on the line below its target, set in by some blanks. -/
def wrapped (indent : List Char) : Labelled :=
  ⟨"global".toList, '\n' :: indent, "all globals".toList⟩

theorem wellFormed_wrapped {indent : List Char} (h : ∀ c ∈ indent, isBlank c = true) :
    (wrapped indent).WellFormed where
  target_ne_nil := List.cons_ne_nil _ _
  target := by
    have hall : ∀ c ∈ "global".toList, isBlank c = false ∧ c ∉ divisions :=
      forall_mem_of_all (by decide)
    exact hall
  blanks_ne_nil := List.cons_ne_nil _ _
  blanks := List.forall_mem_cons.mpr ⟨by decide, h⟩
  label := ⟨'a', List.mem_cons_self, by decide⟩
  label_free := by
    have hall : ∀ c ∈ divisions, c ∉ "all globals".toList := forall_mem_of_all (by decide)
    exact hall

theorem resolveTags_indented :
    initial.Lacks '{' ∧ (wrapped [' ']).WellFormed ∧ ' ' ∈ (wrapped [' ']).gap ∧
      initial.resolveTags "\x7b@link global\n all globals\x7d" =
        "<a href=\"global.html\">all globals</a>" := by
  have hwell : (wrapped [' ']).WellFormed := wellFormed_wrapped (forall_mem_of_all (by decide))
  have hspace : ' ' ∈ (wrapped [' ']).gap := by decide
  have hlink : initial.linkTo (String.ofList (wrapped [' ']).target)
      (some (String.ofList (wrapped [' ']).caption)) none none =
        "<a href=\"global.html\">all globals</a>" := by
    decide +kernel
  refine ⟨lacks_initial, hwell, hspace, ?_⟩
  rw [← hlink]
  exact (resolveTags_labelled_iff lacks_initial hwell).mpr hspace

/-- A label on the line below its target that is not set in is taken for a part of the target. What
stands behind the space in it is the label then, and leads nowhere. -/
theorem target_over_two_lines :
    (wrapped []).WellFormed ∧ (wrapped []).written = "\x7b@link global\nall globals\x7d" ∧
      initial.resolveTags "\x7b@link global\nall globals\x7d" = "globals" ∧
      initial.linkTo "global" (some "all globals") none none =
        "<a href=\"global.html\">all globals</a>" := by
  refine ⟨wellFormed_wrapped (List.forall_mem_nil _), by decide, ?_, by decide +kernel⟩
  decide +kernel

end Refsite.Registry
