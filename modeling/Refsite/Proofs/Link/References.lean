import Mathlib.Data.List.DropRight
import Refsite.Proofs.Basic
import Refsite.Proofs.Link.Anchor
import Refsite.Proofs.Link.Registry
import Refsite.Proofs.Link.Tags
namespace Refsite

open Text

theorem Text.Percent.isPlain_of_mem_encode {c : Char} {text : List Char}
    (h : c ∈ Percent.encode text) : Percent.isPlain c = true ∨ c = '%' := by
  have hdigit : ∀ n < 16, Percent.isPlain (upperHexDigits.getD n '0') = true := by decide
  obtain ⟨d, -, hc⟩ := List.mem_flatMap.mp h
  rw [Percent.encodeChar] at hc
  split at hc
  · next hplain =>
    rw [List.mem_singleton.mp hc]
    exact .inl hplain
  · obtain ⟨b, -, hb⟩ := List.mem_flatMap.mp hc
    rw [Percent.encodeByte_eq] at hb
    simp only [List.mem_cons, List.not_mem_nil, or_false] at hb
    obtain rfl | rfl | rfl := hb
    · exact .inr rfl
    · exact .inl (hdigit _ (Nat.div_lt_of_lt_mul b.toNat_lt))
    · exact .inl (hdigit _ (Nat.mod_lt _ (by omega)))

namespace Registry

/-- The addresses that a registry answers for longnames, symbols and tutorials. -/
inductive Composed : String → Prop
  | page {r r' : Registry} {longname url : String} (h : r.pageUrl longname = .ok (url, r')) :
    Composed url
  | symbol {r r' : Registry} {s : Symbol} {url : String} (h : r.createLink s = .ok (url, r')) :
    Composed url
  | tutorial {r r' : Registry} (hr : Later initial r) {name url : String}
    (h : r.registerTutorial name = .ok (url, r')) : Composed url

/-- All addresses that longnames are bound to are such. -/
def AllComposed (r : Registry) : Prop :=
  ∀ longname url, r.resolve? longname = some url → Composed url

theorem Change.tutorials_encoded {r r' : Registry} {file : Option String} (h : Change r file r')
    (hr : ∀ t ∈ r.tutorials, ∃ text, t.2 = encodeUrl text) :
    ∀ t ∈ r'.tutorials, ∃ text, t.2 = encodeUrl text := by
  cases h with
  | idle | claim hf text | page hf new | url hf longname url | freeze => exact hr
  | tutorial hf new =>
    intro t ht
    obtain ht | ht := List.mem_append.mp ht
    · exact hr t ht
    · rw [List.mem_singleton.mp ht]
      exact ⟨_, rfl⟩

theorem Later.tutorials_encoded {r : Registry} (h : Later initial r) :
    ∀ t ∈ r.tutorials, ∃ text, t.2 = encodeUrl text := by
  induction h with
  | refl => exact fun t ht => absurd ht List.not_mem_nil
  | tail _ hstep ih =>
    obtain ⟨file, hchange⟩ := hstep
    exact hchange.tutorials_encoded ih

theorem Composed.exists_encoded {url : String} (h : Composed url) :
    ∃ text, url = encodeUrl text := by
  cases h with
  | page h =>
    rw [pageUrl_eq] at h
    obtain ⟨⟨file, r⟩, -, heq⟩ := exists_of_map_ok h
    exact ⟨_, (Prod.mk.inj heq).1.symm⟩
  | symbol h =>
    rw [createLink_eq] at h
    obtain ⟨⟨file, r⟩, -, heq⟩ := exists_of_map_ok h
    exact ⟨_, (Prod.mk.inj heq).1.symm⟩
  | @tutorial r r' hr name url h =>
    obtain ⟨hbound, hchange⟩ := change_of_registerTutorial h
    exact Later.tutorials_encoded (hr.trans hchange.later) _ (Bindings.mem_of_lookup hbound)

/-- An address that the registry composes holds none of the characters that encoding replaces. -/
theorem Composed.notMem {url : String} (h : Composed url) {c : Char}
    (hplain : Percent.isPlain c = false) (hc : c ≠ '%') : c ∉ url.toList := by
  obtain ⟨text, rfl⟩ := h.exists_encoded
  rw [toList_encodeUrl]
  intro hmem
  obtain h | h := Percent.isPlain_of_mem_encode hmem
  · rw [hplain] at h
    cases h
  · exact hc h

end Registry

def Registry.Lacks (r : Registry) (c : Char) : Prop :=
  ∀ longname url, r.resolve? longname = some url → c ∉ url.toList

namespace Link

open Text

/-- The characters that a link holds besides those of its address and its label. -/
def anchorMarks : List Char := "<a href=\"></a>".toList ++ Html.marks.flatMap Html.escapeChar

section Plain

variable {r : Registry}

theorem plain_append {text text' : List Char} (h : Plain text) (h' : Plain text') :
    Plain (text ++ text') := by
  intro c hc hmem
  obtain hmem | hmem := List.mem_append.mp hmem
  · exact h c hc hmem
  · exact h' c hc hmem

theorem Plain.of_subset {text text' : List Char} (h : Plain text) (hsub : text' ⊆ text) :
    Plain text' :=
  fun c hc hmem => h c hc (hsub hmem)

theorem notMem_escapeChars {c : Char} (hc : c ∉ anchorMarks) {text : List Char} (h : c ∉ text) :
    c ∉ Html.escapeChars text := by
  intro hmem
  obtain ⟨d, hd, hmem⟩ := List.mem_flatMap.mp hmem
  by_cases hmark : d ∈ Html.marks
  · exact hc (List.mem_append_right _ (List.mem_flatMap.mpr ⟨d, hmark, hmem⟩))
  · rw [Html.escapeChar_of_notMem hmark] at hmem
    exact h (List.mem_singleton.mp hmem ▸ hd)

theorem notMem_anchor {c : Char} (hc : c ∉ anchorMarks) {url label : String}
    (hurl : c ∉ url.toList) (hlabel : c ∉ label.toList) :
    c ∉ (anchor url label none none).toList := by
  have hfixed : ∀ text : List Char, text ⊆ anchorMarks → c ∉ text :=
    fun _ hsub hmem => hc (hsub hmem)
  unfold anchor
  dsimp only
  simp only [String.toList_append, toList_escape, List.mem_append, not_or]
  refine ⟨⟨⟨⟨⟨⟨?_, notMem_escapeChars hc hurl⟩, ?_⟩, ?_⟩, ?_⟩, notMem_escapeChars hc hlabel⟩, ?_⟩ <;>
    exact hfixed _ (by decide)

/-- A character that no address in the registry holds, and that no link is made of, stands in a
link only where its longname or its label holds it. -/
theorem notMem_linkTo {c : Char} (hc : c ∉ anchorMarks) (hr : r.Lacks c) {longname : String}
    {label : Option String} (hlongname : c ∉ longname.toList)
    (hlabel : c ∉ (label.getD longname).toList) :
    c ∉ (r.linkTo longname label none none).toList := by
  have hresolved : ∀ {name url : String} (label : Option String), c ∉ name.toList →
      c ∉ (label.getD name).toList → r.target? name = some url →
      c ∉ (r.linkTo name label none none).toList := by
    intro name url label hname hlabel htarget
    rw [Registry.linkTo_of_target htarget]
    rw [Registry.target?] at htarget
    split at htarget
    · exact notMem_anchor hc (Option.some.inj htarget ▸ hname) hlabel
    · exact notMem_anchor hc (hr name url htarget) hlabel
  cases htarget : r.target? longname with
  | some url => exact hresolved label hlongname hlabel htarget
  | none =>
    by_cases hsame : label.getD longname = longname
    · rw [Registry.toList_linkTo_of_parts htarget hsame]
      intro hmem
      obtain ⟨p, hp, hmem⟩ := List.mem_flatMap.mp hmem
      have hpiece : c ∉ p.text := fun hin =>
        hlongname ((cut_pieces longname.toList).flatten ▸ List.mem_flatMap.mpr ⟨p, hp, hin⟩)
      revert hmem
      cases p with
      | separator text => exact notMem_escapeChars hc hpiece
      | name text =>
        rw [Registry.pieceChars]
        split
        · next hresolves =>
          have hname : c ∉ (String.ofList text).toList := by
            rw [String.toList_ofList]
            exact hpiece
          obtain ⟨url, hurl⟩ := Registry.target_isSome_of_resolve hresolves
          exact hresolved none hname hname hurl
        · exact notMem_escapeChars hc hpiece
    · rw [Registry.linkTo_of_label htarget hsame, toList_escape]
      exact notMem_escapeChars hc hlabel

theorem lacks_of_allComposed (hr : r.AllComposed) {c : Char} (hc : c ∈ brackets) : r.Lacks c := by
  have hall : ∀ c ∈ brackets, Percent.isPlain c = false ∧ c ≠ '%' :=
    forall_mem_of_all (by decide)
  exact fun longname url h => (hr longname url h).notMem (hall c hc).1 (hall c hc).2

/-- A link is plain where its longname and its label are. -/
theorem plain_linkTo (hr : r.AllComposed) {longname : String} {label : Option String}
    (hlongname : Plain longname.toList) (hlabel : Plain (label.getD longname).toList) :
    Plain (r.linkTo longname label none none).toList := by
  have hall : ∀ c ∈ opening, c ∉ anchorMarks ∧ c ∈ brackets := forall_mem_of_all (by decide)
  exact fun c hc => notMem_linkTo (hall c hc).1 (lacks_of_allComposed hr (hall c hc).2)
    (hlongname c hc) (hlabel c hc)

theorem strip_subset (text : List Char) : strip text ⊆ text := by
  intro c hc
  rw [strip, stripRight, List.mem_reverse] at hc
  have hleft := List.mem_reverse.mp (List.dropWhile_subset _ hc)
  exact List.dropWhile_subset _ hleft

theorem label_subset {text label : List Char} (h : label? text = some label) : label ⊆ text := by
  rw [label?] at h
  split at h
  · cases h
  · exact Option.some.inj h ▸ strip_subset text

theorem splitBody_subset (body : List Char) :
    (splitBody body).1 ⊆ body ∧ ∀ label, (splitBody body).2 = some label → label ⊆ body := by
  have hcut : ∀ {mark : Char} {target text : List Char},
      cutAt? mark (strip body) = some (target, text) →
        strip target ⊆ body ∧ ∀ label, label? text = some label → label ⊆ body := by
    intro mark target text h
    obtain ⟨heq, -⟩ := eq_of_cutAt h
    have htarget : target ⊆ body := fun c hc =>
      strip_subset body (heq ▸ List.mem_append_left _ hc)
    have htext : text ⊆ body := fun c hc =>
      strip_subset body (heq ▸ List.mem_append_right _ (List.mem_cons_of_mem _ hc))
    exact ⟨List.Subset.trans (strip_subset target) htarget,
      fun label hl => List.Subset.trans (label_subset hl) htext⟩
  rw [splitBody]
  split
  · next hbar => exact hcut hbar
  · split
    · next hspace => exact hcut hspace
    · exact ⟨strip_subset body, nofun⟩

end Plain

section Passes

variable (r : Registry)

def symbolReference? : List Char → Option (List Char × Nat) :=
  captioned? symbolTag? (·.length) (renderSymbolTag r)

def tutorialReference? : List Char → Option (List Char × Nat) :=
  captioned? tutorialTag? (·.1) fun caption tag => renderTutorialTag r caption tag.2

theorem behind_subset {text caption behind : List Char}
    (h : caption? text = some (caption, behind)) : behind ⊆ text := by
  rw [caption?.eq_def] at h
  split at h
  · next rest =>
    split at h
    · next found after hcut =>
      split at h
      · cases h
      · cases h
        obtain ⟨rfl, -⟩ := eq_of_cutAt hcut
        exact fun c hc =>
          List.mem_cons_of_mem _ (List.mem_append_right _ (List.mem_cons_of_mem _ hc))
    · cases h
  · cases h

theorem inert_symbolReference {c : Char} (hc : c ∉ opening) : Inert (symbolReference? r) c := by
  apply inert_captioned hc
  intro rest hne
  rw [symbolTag?, List.findSome?_eq_none_iff]
  intro w hw
  rw [tagWithWord?, dropFrontAnyCase_of_ne hne (by decide) (by decide)]
  rfl

theorem tutorialTag_of_ne {c : Char} (hne : c ≠ '{') (rest : List Char) :
    tutorialTag? (c :: rest) = none := by
  have hword : "\x7b@tutorial".toList = '{' :: '@' :: "tutorial".toList := by decide
  rw [tutorialTag?, hword, dropFrontAnyCase_of_ne hne (by decide) (by decide)]
  rfl

theorem inert_tutorialReference {c : Char} (hc : c ∉ opening) : Inert (tutorialReference? r) c :=
  inert_captioned hc fun rest hne => tutorialTag_of_ne hne rest

/-- The second pass leaves a text without opening braces, whatever else stands in it. -/
theorem substitute_tutorialReference {text : List Char} (h : '{' ∉ text) :
    substitute (tutorialReference? r) text = text := by
  have htag : ∀ rest : List Char, '{' ∉ rest → tutorialTag? rest = none := by
    intro rest hrest
    cases rest with
    | nil => rfl
    | cons c rest => exact tutorialTag_of_ne (fun he => hrest (he ▸ List.mem_cons_self)) rest
  apply substitute_eq_self
  intro rest hsuffix
  have hrest : '{' ∉ rest := fun hmem => h (hsuffix.subset hmem)
  rw [tutorialReference?, captioned?]
  split
  · next caption behind hcaption =>
    rw [htag behind (fun hmem => hrest (behind_subset hcaption hmem)), Option.map_none]
  · rw [htag rest hrest, Option.map_none]

theorem rewrites_plain {found? : List Char → Option (List Char × Nat)} {text : List Char}
    (hinert : ∀ c, c ∉ opening → Inert found? c) (htext : Plain text) : Rewrites found? text text :=
  .of_inert fun c hc => hinert c fun hopen => htext c hopen hc

variable {r} {g : Reference}

theorem splitBody_inner (h : g.Legible) :
    splitBody (g.inner.dropWhile isBlank) = splitBody g.body := by
  have hstrip : strip (g.inner.dropWhile isBlank) = strip g.body := by
    rw [strip, strip, stripLeft, stripLeft, List.dropWhile_idempotent, Reference.inner,
      List.dropWhile_append_of_pos h.isBlank_of_mem]
  rw [splitBody, splitBody, hstrip]

theorem tag_ne_nil (g : Reference) : g.tag ≠ [] := List.cons_ne_nil _ _

theorem text_ne_nil (g : Reference) : g.text ≠ [] :=
  List.append_ne_nil_of_right_ne_nil _ (tag_ne_nil g)

theorem length_text (g : Reference) :
    g.text.length = (g.caption.elim 0 fun c => c.length + 2) + g.tag.length := by
  rw [Reference.text, List.length_append]
  cases g.caption <;> simp

theorem rewrites_symbol (h : g.Legible) (hg : g.isTutorial = false) :
    Rewrites (symbolReference? r) g.text (g.markup r) := by
  intro rest
  have hmarkup : g.markup r = renderSymbolTag r g.caption
      ⟨g.tag.length, if lower g.word == "linkcode".toList then .code else .plain,
        g.inner.dropWhile isBlank⟩ := by
    rw [Reference.markup, hg, renderSymbolTag, splitBody_inner h]
    cases lower g.word == "linkcode".toList <;> rfl
  have hfound : symbolReference? r (g.text ++ rest) = some (g.markup r, g.text.length) := by
    rw [symbolReference?, captioned_text h, h.symbolTag_tag hg, Option.map_some, hmarkup,
      length_text]
  exact substitute_append_of_some rest (text_ne_nil g) hfound

theorem rewrites_tutorial_text (h : g.WellFormed) (hg : g.isTutorial = true) :
    Rewrites (symbolReference? r) g.text g.text := by
  have hplain : ∀ text : List Char, Plain text → Rewrites (symbolReference? r) text text :=
    fun text htext => rewrites_plain (fun _ => inert_symbolReference r) htext
  have hbrackets : ∀ c ∈ opening, c ∈ brackets := forall_mem_of_all (by decide)
  have htag : Rewrites (symbolReference? r) g.tag g.tag := by
    apply Rewrites.cons
    · intro rest
      change symbolReference? r (g.tag ++ rest) = none
      rw [symbolReference?, captioned_tag, h.legible.symbolTag_tutorial hg, Option.map_none]
    · apply hplain
      intro c hc hmem
      have hmarks : ∀ c ∈ opening, c ≠ '@' ∧ c ≠ '}' := forall_mem_of_all (by decide)
      simp only [List.mem_cons, List.mem_append, List.not_mem_nil, or_false] at hmem
      obtain hmem | hmem | hmem | hmem := hmem
      · exact (hmarks c hc).1 hmem
      · exact h.legible.notMem_word (hbrackets c hc) hmem
      · exact h.notMem_inner (hbrackets c hc) hmem
      · exact (hmarks c hc).2 hmem
  cases hcaption : g.caption with
  | none =>
    rw [Reference.text, hcaption]
    exact htag
  | some caption =>
    have htext : g.text = '[' :: ((caption ++ [']']) ++ g.tag) := by
      rw [Reference.text, hcaption]
      rfl
    have hnone : ∀ rest, symbolReference? r (g.text ++ rest) = none := by
      intro rest
      rw [symbolReference?, captioned_text h.legible, h.legible.symbolTag_tutorial hg,
        Option.map_none]
    rw [htext] at hnone ⊢
    apply Rewrites.cons hnone
    apply Rewrites.append _ htag
    apply hplain
    intro c hc hmem
    have hclose : ∀ c ∈ opening, c ≠ ']' := forall_mem_of_all (by decide)
    obtain hmem | hmem := List.mem_append.mp hmem
    · exact (h.caption caption hcaption).2 c (hbrackets c hc) hmem
    · exact hclose c hc (List.mem_singleton.mp hmem)

theorem rewrites_tutorial (h : g.WellFormed) (hg : g.isTutorial = true) :
    Rewrites (tutorialReference? r) g.text (g.markup r) := by
  intro rest
  have hmarkup : g.markup r = renderTutorialTag r g.caption g.body := by
    rw [Reference.markup, hg]
    rfl
  have hfound : tutorialReference? r (g.text ++ rest) = some (g.markup r, g.text.length) := by
    rw [tutorialReference?, captioned_text h.legible, h.tutorialTag_tag hg, Option.map_some, hmarkup,
      length_text]
  exact substitute_append_of_some rest (text_ne_nil g) hfound

theorem plain_markup (hr : r.AllComposed) (h : g.WellFormed)
    (hg : g.isTutorial = false) : Plain (g.markup r) := by
  have hbrackets : ∀ c ∈ opening, c ∈ brackets := forall_mem_of_all (by decide)
  have hbody : Plain g.body := fun c hc => h.bodyFree c (hbrackets c hc)
  obtain ⟨htarget, hlabel⟩ := splitBody_subset g.body
  have hlink : Plain (r.linkTo (String.ofList (splitBody g.body).1)
      ((g.caption <|> (splitBody g.body).2).map String.ofList) none none).toList := by
    have hplain : Plain (String.ofList (splitBody g.body).1).toList := by
      rw [String.toList_ofList]
      exact hbody.of_subset htarget
    apply plain_linkTo hr hplain
    cases hcaption : g.caption with
    | some caption =>
      change Plain (String.ofList caption).toList
      rw [String.toList_ofList]
      exact fun c hc => (h.caption caption hcaption).2 c (hbrackets c hc)
    | none =>
      cases htext : (splitBody g.body).2 with
      | some label =>
        change Plain (String.ofList label).toList
        rw [String.toList_ofList]
        exact hbody.of_subset (hlabel label htext)
      | none => exact hplain
  rw [Reference.markup, hg, if_neg Bool.false_ne_true]
  dsimp only
  split
  · exact plain_append (plain_append (by decide) hlink) (by decide)
  · exact hlink

def halfway (r : Registry) (g : Reference) : List Char :=
  if g.isTutorial then g.text else g.markup r

theorem rewrites_halfway (h : g.WellFormed) :
    Rewrites (symbolReference? r) g.text (halfway r g) := by
  rw [halfway]
  cases hg : g.isTutorial with
  | true => exact rewrites_tutorial_text h hg
  | false => exact rewrites_symbol h.legible hg

theorem rewrites_markup (hr : r.AllComposed) (h : g.WellFormed) :
    Rewrites (tutorialReference? r) (halfway r g) (g.markup r) := by
  rw [halfway]
  cases hg : g.isTutorial with
  | true => exact rewrites_tutorial h hg
  | false => exact rewrites_plain (fun _ => inert_tutorialReference r) (plain_markup hr h hg)

end Passes

theorem rewrites_parts {found? : List Char → Option (List Char × Nat)}
    {old new : Reference → List Char} (hinert : ∀ c, c ∉ opening → Inert found? c)
    {text : List Char} (htext : Plain text) {parts : List (Reference × List Char)}
    (hparts : ∀ p ∈ parts, Rewrites found? (old p.1) (new p.1) ∧ Plain p.2) :
    Rewrites found? (text ++ parts.flatMap fun p => old p.1 ++ p.2)
      (text ++ parts.flatMap fun p => new p.1 ++ p.2) := by
  apply (rewrites_plain hinert htext).append
  apply Rewrites.flatMap
  intro p hp
  obtain ⟨hreference, hbehind⟩ := hparts p hp
  exact hreference.append (rewrites_plain hinert hbehind)

end Link

namespace Registry

open Link Text

/-- Between references text stays as it is, and each reference becomes its own link. -/
theorem resolveTags_references {r : Registry} (hr : r.AllComposed) {text : List Char}
    (htext : Plain text) {parts : List (Reference × List Char)}
    (hparts : ∀ p ∈ parts, p.1.WellFormed ∧ Plain p.2) :
    r.resolveTags (String.ofList (text ++ parts.flatMap fun p => p.1.text ++ p.2)) =
      String.ofList (text ++ parts.flatMap fun p => p.1.markup r ++ p.2) := by
  have hfirst := rewrites_parts (fun _ => inert_symbolReference r) htext fun p hp =>
    ⟨rewrites_halfway (r := r) (hparts p hp).1, (hparts p hp).2⟩
  have hsecond := rewrites_parts (fun _ => inert_tutorialReference r) htext fun p hp =>
    ⟨rewrites_markup hr (hparts p hp).1, (hparts p hp).2⟩
  rw [resolveTags, onChars, String.toList_ofList]
  change String.ofList (substitute (tutorialReference? r) (substitute (symbolReference? r) _)) = _
  rw [hfirst.substitute_eq, hsecond.substitute_eq]

def withTutorial : Registry := initial.openTutorial "intro"

/-- References of two kinds side by side, one of them with a caption and both with capitals. -/
def neighbours : List (Reference × List Char) :=
  [(⟨some "all".toList, "linkCODE".toList, [' '], "global|globals".toList⟩, []),
   (⟨some "start".toList, "Tutorial".toList, ['\n', ' '], "intro".toList⟩, " of <b>].".toList)]

theorem allComposed_withTutorial : withTutorial.AllComposed := by
  intro longname url h
  have hmem : (longname, url) ∈ initial.urls := Bindings.mem_of_lookup h
  obtain ⟨-, rfl⟩ := Prod.mk.inj (List.mem_singleton.mp hmem)
  have hpage : initial.pageUrl globalName = .ok (globalUrl, initial) := by decide +kernel
  exact .page hpage

theorem wellFormed_neighbours : ∀ p ∈ neighbours, p.1.WellFormed ∧ Plain p.2 := by
  rw [neighbours, List.forall_mem_cons, List.forall_mem_singleton]
  constructor
  · refine ⟨⟨by decide, by decide, forall_mem_of_all (by decide), ⟨'g', by decide, by decide⟩,
      fun h => absurd h (by decide), forall_mem_of_all (by decide), ?_⟩, by decide⟩
    rintro _ ⟨⟩
    exact ⟨by decide, forall_mem_of_all (by decide)⟩
  · refine ⟨⟨by decide, by decide, forall_mem_of_all (by decide), ⟨'i', by decide, by decide⟩,
      fun _ => forall_mem_of_all (by decide), forall_mem_of_all (by decide), ?_⟩, by decide⟩
    rintro _ ⟨⟩
    exact ⟨by decide, forall_mem_of_all (by decide)⟩

theorem resolveTags_neighbours :
    withTutorial.AllComposed ∧ Plain "See ".toList ∧
      (∀ p ∈ neighbours, p.1.WellFormed ∧ Plain p.2) ∧
      withTutorial.resolveTags
          "See [all]\x7b@linkCODE global|globals\x7d[start]\x7b@Tutorial\n intro\x7d of <b>]." =
        "See <code><a href=\"global.html\">all</a></code>" ++
          "<a href=\"tutorial-intro.html\">start</a> of <b>]." := by
  have hsee : Plain "See ".toList := by decide
  have hwritten : String.ofList
      ("See ".toList ++ neighbours.flatMap fun p => p.1.text ++ p.2) =
        "See [all]\x7b@linkCODE global|globals\x7d[start]\x7b@Tutorial\n intro\x7d of <b>]." := by
    decide +kernel
  have hlinked : String.ofList
      ("See ".toList ++ neighbours.flatMap fun p => p.1.markup withTutorial ++ p.2) =
        "See <code><a href=\"global.html\">all</a></code>" ++
          "<a href=\"tutorial-intro.html\">start</a> of <b>]." := by
    decide +kernel
  have h := resolveTags_references allComposed_withTutorial hsee wellFormed_neighbours
  rw [hwritten, hlinked] at h
  exact ⟨allComposed_withTutorial, hsee, wellFormed_neighbours, h⟩

end Registry

end Refsite
