import Mathlib.Data.List.Basic
import Mathlib.Data.List.Induction
import Refsite.Proofs.Basic
import Refsite.Proofs.Html.Spans
import Refsite.Proofs.Link.Anchor
import Refsite.Proofs.Link.Owner
import Refsite.Symbol.Signature
namespace Refsite

open Html Link

def modifiersShown (words : List String) : String :=
  if words = [] then "" else "(" ++ ", ".intercalate words ++ ") "

/-- A parameter: an ellipsis if it takes any number of values, its name and its modifiers. -/
def Param.shown (p : Param) : String :=
  (if p.variadic = some true then "…" else "") ++ p.name ++ ", ".intercalate p.marks

namespace Symbol

def ownParams (s : Symbol) : List Param :=
  ((s.detail.call?.map (·.params)).getD []).filter fun p => p.name ≠ "" ∧ '.' ∉ p.name.toList

/-- The names of the types that come out of a call, each where it is declared first. -/
def outcomeNames (s : Symbol) : List String :=
  (s.outcomes.flatMap fun o => (o.type.map (·.names)).getD []).eraseDups

def declaredNames (s : Symbol) : List String := (s.detail.type?.join.map (·.names)).getD []

def outcomeShown (s : Symbol) (words : List String) : String :=
  if s.outcomeNames = [] then ""
  else " → " ++ modifiersShown words.eraseDups ++ "\x7b" ++ "|".intercalate s.outcomeNames ++ "\x7d"

def callShown (s : Symbol) (words : List String) : String :=
  s.name ++ "(" ++ ", ".intercalate (s.ownParams.map Param.shown) ++ ")" ++ s.outcomeShown words

def typesShown (s : Symbol) : String :=
  if s.declaredNames = [] then "" else " :" ++ "|".intercalate s.declaredNames

end Symbol

def Registry.Leads (r : Registry) (label address : List Char) : Prop :=
  r.target? (String.ofList label) = some (String.ofList address)

/-- Markup that shows a text, with links that lead where the registry says. -/
def Registry.Displays (r : Registry) (markup text : String) : Prop :=
  Shows r.Leads markup.toList text.toList

/-- What the signature of a symbol may be: markup with spans that shows a text. -/
structure Registry.SignatureMarkup (r : Registry) (markup text : String) : Prop where
  spanned : Spanned r.Leads markup.toList
  visible : visibleText markup.toList = text.toList

def isUnmarked (text : String) : Bool := text.toList.all fun c => c ∉ marks

theorem distinct_concat {α : Type} [BEq α] (as : List α) (a : α) :
    distinct (as ++ [a]) =
      if (distinct as).contains a then distinct as else distinct as ++ [a] := by
  rw [distinct, List.foldl_append]
  rfl

theorem distinct_eq {α : Type} [BEq α] [LawfulBEq α] (as : List α) :
    distinct as = as.eraseDups := by
  induction as using List.reverseRecOn with
  | nil => rfl
  | append_singleton as a ih =>
    rw [distinct_concat, ih, List.eraseDups_append]
    by_cases h : a ∈ as <;> simp [List.removeAll, h, List.eraseDups_cons]

theorem distinct_map {α β : Type} [BEq α] [LawfulBEq α] [BEq β] [LawfulBEq β] {f : α → β}
    (hf : Function.Injective f) (as : List α) : distinct (as.map f) = (distinct as).map f := by
  induction as using List.reverseRecOn with
  | nil => rfl
  | append_singleton as a ih =>
    rw [List.map_append, List.map_singleton, distinct_concat, distinct_concat, ih]
    by_cases h : a ∈ distinct as
    · have hmap : f a ∈ (distinct as).map f := List.mem_map_of_mem h
      rw [if_pos (List.contains_iff_mem.mpr h), if_pos (List.contains_iff_mem.mpr hmap)]
    · have hmap : f a ∉ (distinct as).map f := (List.mem_map_of_injective hf).not.mpr h
      rw [if_neg (mt List.contains_iff_mem.mp h), if_neg (mt List.contains_iff_mem.mp hmap),
        List.map_append, List.map_singleton]

namespace Registry

variable {r : Registry}

theorem displays_escape (text : String) : r.Displays (Html.escape text) text := by
  rw [Displays, toList_escape]
  exact .escapeChars text.toList

theorem displays_plain {text : String} (h : isUnmarked text) : r.Displays text text := by
  have hself : escapeChars text.toList = text.toList :=
    (List.flatMap_congr fun c hc =>
      escapeChar_of_notMem (of_decide_eq_true (List.all_eq_true.mp h c hc))).trans
        (List.flatMap_singleton' _)
  have hshows : Shows r.Leads (escapeChars text.toList) text.toList := .escapeChars text.toList
  rwa [hself] at hshows

theorem Displays.append {markup markup' text text' : String} (h : r.Displays markup text)
    (h' : r.Displays markup' text') : r.Displays (markup ++ markup') (text ++ text') := by
  rw [Displays, String.toList_append, String.toList_append]
  exact Shows.append h h'

theorem Displays.intercalate {α : Type} {separator : String} {f g : α → String} {as : List α}
    (hseparator : isUnmarked separator) (h : ∀ a ∈ as, r.Displays (f a) (g a)) :
    r.Displays (separator.intercalate (as.map f)) (separator.intercalate (as.map g)) := by
  induction as with
  | nil => exact Shows.nil
  | cons a as ih =>
    obtain ⟨ha, has⟩ := List.forall_mem_cons.mp h
    cases as with
    | nil =>
      simpa using ha
    | cons b as =>
      have hcons := (ha.append (displays_plain hseparator)).append (ih has)
      simpa only [List.map_cons, String.intercalate_cons_cons] using hcons

theorem Displays.span (cssClass : String) {opening markup text : String}
    (hopening : opening = "<span class=\"" ++ cssClass ++ "\">")
    (hclass : cssClass.toList ∈ spanClasses) (h : r.Displays markup text) :
    r.Displays (opening ++ markup ++ "</span>") text := by
  have hstart : "<span class=\"".toList = '<' :: "span class=\"".toList := by decide
  have hend : "\">".toList = "\"".toList ++ ['>'] := by decide
  have hclose : "</span>".toList = '<' :: ("/span".toList ++ ['>']) := by decide
  have hspan : (opening ++ markup ++ "</span>").toList =
      Html.span cssClass.toList markup.toList [] := by
    unfold Html.span spanTag tag
    rw [hopening, String.toList_append, String.toList_append, String.toList_append,
      String.toList_append, hstart, hend, hclose]
    -- The literals are left alone, or they would be taken apart.
    generalize "span class=\"".toList = start, "\"".toList = quote, "/span".toList = close
    simp
  rw [Displays, hspan]
  exact Shows.span hclass h

theorem shows_of_target {name url : String} (h : r.target? name = some url) :
    Shows r.Leads (r.linkTo name none none none).toList name.toList := by
  rw [linkTo_of_target h]
  refine .link (element_anchor url name none none) ?_
  rw [Leads, addressChars, String.ofList_toList, h]
  simp [nonEmpty?]

theorem displays_link (r : Registry) (name : String) : r.Displays (r.link name) name := by
  cases htarget : r.target? name with
  | some url => exact shows_of_target htarget
  | none =>
    have hparts : Shows r.Leads ((pieces name.toList).flatMap (r.pieceChars none))
        ((pieces name.toList).flatMap Piece.text) := by
      refine .flatMap fun p _ => ?_
      cases p with
      | separator text => exact .escapeChars text
      | name text =>
        rw [pieceChars]
        split
        · next hresolves =>
          obtain ⟨url, hurl⟩ := target_isSome_of_resolve hresolves
          have hshows := shows_of_target hurl
          rwa [String.toList_ofList] at hshows
        · exact .escapeChars text
    rw [(cut_pieces name.toList).flatten] at hparts
    rw [Displays, link, toList_linkTo_of_parts htarget rfl]
    exact hparts

theorem link_injective (r : Registry) : Function.Injective r.link := by
  intro a b h
  have ha := (displays_link r a).visibleText_eq
  rw [h, (displays_link r b).visibleText_eq] at ha
  exact (String.toList_injective ha).symm

end Registry

section Parts

variable {r : Registry}

theorem Param.mem_marks (p : Param) {mark : String} (h : mark ∈ p.marks) :
    mark ∈ ["opt", "nullable", "non-null"] := by
  rw [Param.marks, List.mem_append] at h
  obtain h | h := h
  · split at h
    · exact List.mem_cons.mpr (.inl (List.mem_singleton.mp h))
    · cases h
  · split at h
    · simp_all
    · simp_all
    · cases h

theorem Param.displays_markup (p : Param) : r.Displays p.markup p.shown := by
  have hname : r.Displays
      (if p.variadic == some true then "&hellip;" ++ Html.escape p.name else Html.escape p.name)
      ((if p.variadic = some true then "…" else "") ++ p.name) := by
    by_cases h : p.variadic = some true
    · have hsign : r.Displays "&hellip;" "…" := by
        have hdots : ("&hellip;".toList, '…') ∈ signs := by decide
        exact Shows.sign hdots
      rw [if_pos (beq_iff_eq.mpr h), if_pos h]
      exact hsign.append (Registry.displays_escape p.name)
    · rw [if_neg (mt beq_iff_eq.mp h), if_neg h, String.empty_append]
      exact Registry.displays_escape p.name
  have hwords : r.Displays (", ".intercalate p.marks) (", ".intercalate p.marks) := by
    have hplain : ∀ mark ∈ ["opt", "nullable", "non-null"], isUnmarked mark := by decide
    have hlist : r.Displays (", ".intercalate (p.marks.map fun mark => mark))
        (", ".intercalate (p.marks.map fun mark => mark)) :=
      .intercalate (by decide) fun mark hmark =>
        Registry.displays_plain (hplain mark (p.mem_marks hmark))
    rwa [List.map_id'] at hlist
  rw [Param.markup, Param.shown]
  by_cases hnone : p.marks = []
  · rw [if_pos (List.isEmpty_iff.mpr hnone), hnone, String.intercalate_nil, String.append_empty]
    exact hname
  · have hspan := hname.append (hwords.span "signature-attributes" rfl (by decide))
    rw [← String.append_assoc, ← String.append_assoc] at hspan
    rw [if_neg (mt List.isEmpty_iff.mp hnone)]
    exact hspan

theorem displays_modifierText (words : List String) :
    r.Displays (modifierText words) (modifiersShown words) := by
  cases words with
  | nil => exact Shows.nil
  | cons word words => exact Registry.displays_escape _

namespace Symbol

variable {s t : Symbol}

theorem displays_signatureParams : r.Displays s.signatureParams
    (s.name ++ "(" ++ ", ".intercalate (s.ownParams.map Param.shown) ++ ")") := by
  have hown : s.paramMarkup = s.ownParams.map Param.markup := by
    rw [paramMarkup, ownParams]
    congr 1
    refine List.filter_congr fun p _ => ?_
    rw [Bool.eq_iff_iff]
    simp [Param.isTopLevel]
  have hparams : r.Displays (", ".intercalate s.paramMarkup)
      (", ".intercalate (s.ownParams.map Param.shown)) := by
    rw [hown]
    exact .intercalate (by decide) fun p _ => p.displays_markup
  have hopen : r.Displays "(" "(" := Registry.displays_plain (by decide)
  have hclose : r.Displays ")" ")" := Registry.displays_plain (by decide)
  exact (((Registry.displays_escape s.name).append hopen).append hparams).append hclose

theorem displays_types (r : Registry) (names : List String) :
    r.Displays ("|".intercalate (names.map r.link)) ("|".intercalate names) := by
  have h : r.Displays ("|".intercalate (names.map r.link))
      ("|".intercalate (names.map fun name => name)) :=
    .intercalate (by decide) fun name _ => Registry.displays_link r name
  rwa [List.map_id'] at h

theorem eq_of_texts {items : List Json} {words : List String} (h : Json.texts? items = .ok words) :
    items = words.map Json.string := by
  induction items generalizing words with
  | nil =>
    cases h
    rfl
  | cons item items ih =>
    cases item with
    | string word =>
      obtain ⟨rest, hrest, rfl⟩ := exists_of_map_ok h
      rw [ih hrest, List.map_cons]
    | _ => cases h

theorem texts_map_string (words : List String) :
    Json.texts? (words.map Json.string) = .ok words := by
  induction words with
  | nil => rfl
  | cons word words ih =>
    rw [List.map_cons, Json.texts?, ih]
    rfl

theorem displays_signatureReturns {returns : String} (h : s.signatureReturns r = .ok returns) :
    ∃ words, (s.outcomeNames ≠ [] → s.outcomes.flatMap Outcome.modifiers = words.map Json.string) ∧
      r.Displays returns (s.outcomeShown words) := by
  have htypes : distinct ((s.outcomes.flatMap fun o => (o.type.map (·.names)).getD []).map r.link) =
      s.outcomeNames.map r.link := by
    rw [distinct_map r.link_injective, distinct_eq]
    rfl
  rw [signatureReturns] at h
  rw [htypes] at h
  by_cases hnone : s.outcomeNames = []
  · rw [hnone] at h
    cases h
    refine ⟨[], fun hne => absurd hnone hne, ?_⟩
    rw [outcomeShown, if_pos hnone]
    exact Shows.nil
  · rw [if_neg (by simpa using hnone)] at h
    obtain ⟨words, hwords, h⟩ := of_bind_ok h
    cases h
    refine ⟨words, fun _ => eq_of_texts hwords, ?_⟩
    rw [outcomeShown, if_neg hnone, ← distinct_eq]
    have harrow : r.Displays (" " ++ "&rarr;" ++ " ") (" " ++ "→" ++ " ") := by
      have hsign : ("&rarr;".toList, '→') ∈ signs := by decide
      have hentity : r.Displays "&rarr;" "→" := Shows.sign hsign
      have hblank : r.Displays " " " " := Registry.displays_plain (by decide)
      exact (hblank.append hentity).append hblank
    have hopen : r.Displays "\x7b" "\x7b" := Registry.displays_plain (by decide)
    have hclose : r.Displays "\x7d" "\x7d" := Registry.displays_plain (by decide)
    exact (((harrow.append (displays_modifierText _)).append hopen).append
      (displays_types r _)).append hclose

theorem exists_value (h : s.kind = .member ∨ s.kind = .constant) :
    ∃ value, s.detail = .member value ∨ s.detail = .constant value := by
  rw [kind] at h
  cases hdetail : s.detail with
  | member value => exact ⟨value, .inl rfl⟩
  | constant value => exact ⟨value, .inr rfl⟩
  | _ => simp [hdetail, Detail.kind] at h

theorem displays_signatureTypes {markup : String} (h : s.signatureTypes r = .ok markup)
    (hkind : s.kind = .member ∨ s.kind = .constant) : r.Displays markup s.typesShown := by
  have hnames : s.typeNames = .ok (s.declaredNames.map Json.string) := by
    obtain ⟨value, hvalue | hvalue⟩ := exists_value hkind
    all_goals
      rw [typeNames, declaredNames, hvalue]
      dsimp only [Detail.type?]
      cases value.type <;> rfl
  have htext : r.Displays (if (s.declaredNames.map r.link).isEmpty then ""
      else " :" ++ "|".intercalate (s.declaredNames.map r.link)) s.typesShown := by
    rw [typesShown, List.isEmpty_map]
    by_cases hnone : s.declaredNames = []
    · rw [if_pos hnone, if_pos (List.isEmpty_iff.mpr hnone)]
      exact Shows.nil
    · rw [if_neg hnone, if_neg (mt List.isEmpty_iff.mp hnone)]
      have hcolon : r.Displays " :" " :" := Registry.displays_plain (by decide)
      exact hcolon.append (displays_types r _)
  rw [signatureTypes, hnames] at h
  obtain ⟨names, hwords, h⟩ := of_bind_ok h
  cases hwords
  obtain ⟨words, hwords, h⟩ := of_bind_ok h
  cases hwords.symm.trans (texts_map_string _)
  cases h
  exact htext.span "type-signature" rfl (by decide)

end Symbol

end Parts

theorem Registry.Displays.signatureMarkup {r : Registry} {markup text : String}
    (h : r.Displays markup text) : r.SignatureMarkup markup text :=
  ⟨h.spanned, h.visibleText_eq⟩

namespace Symbol

/-- The signature of what can be called shows its name, the parameters that are no parts of others,
and the types of what comes out of it; that of a value shows its types. -/
theorem sign_markup {r : Registry} {s t : Symbol} (h : s.sign r = .ok t) :
    (s.needsSignature → ∃ words markup,
      (s.outcomeNames ≠ [] → s.outcomes.flatMap Outcome.modifiers = words.map Json.string) ∧
      t.signature = some markup ∧ r.SignatureMarkup markup (s.callShown words)) ∧
    (s.kind = .member ∨ s.kind = .constant → ∃ markup,
      t.signature = some markup ∧ r.SignatureMarkup markup s.typesShown) := by
  rw [sign] at h
  constructor
  · intro hneeds
    rw [if_pos hneeds] at h
    obtain ⟨returns, hreturns, h⟩ := of_bind_ok h
    cases h
    obtain ⟨words, hwords, hshown⟩ := displays_signatureReturns hreturns
    refine ⟨words, _, hwords, rfl, Registry.Displays.signatureMarkup ?_⟩
    have hparams := (displays_signatureParams (r := r) (s := s)).span "signature" rfl (by decide)
    have htypes := hshown.span "type-signature" rfl (by decide)
    have hseam : "</span><span class=\"type-signature\">" =
        "</span>" ++ "<span class=\"type-signature\">" := by
      decide
    have hboth := hparams.append htypes
    rw [← String.append_assoc, ← String.append_assoc] at hboth
    rw [hseam, ← String.append_assoc]
    exact hboth
  · intro hkind
    have hneeds : ¬s.needsSignature := by
      obtain ⟨value, hvalue | hvalue⟩ := exists_value hkind
      all_goals
        rw [needsSignature, hvalue]
        exact Bool.false_ne_true
    have hvalued : (s.kind == .member || s.kind == .constant) = true := by
      simpa using hkind
    rw [if_neg hneeds, if_pos hvalued] at h
    obtain ⟨markup, hmarkup, h⟩ := of_bind_ok h
    cases h
    exact ⟨markup, rfl, (displays_signatureTypes hmarkup hkind).signatureMarkup⟩

/-- A function with a type variable in its name, a parameter that takes any number of values, a part
of it, and two types, one of which is declared twice. -/
def generic : Symbol :=
  { Symbol.bare (.function
      { params := [⟨"opts", none, "", some true, none, some true, none, []⟩,
          ⟨"opts.depth", none, "", none, none, none, none, []⟩]
        returns := [⟨some ⟨["Array.<global>", "global", "global"], []⟩, "", none, some true,
          [("access", .string "private")]⟩]
        yields := [] }) "f<T>" "f" none with scope := some "global" }

/-- The part is left out, and the type is shown once. -/
theorem sign_generic : ∃ t, generic.sign .initial = .ok t ∧ generic.needsSignature ∧
    ∃ markup, t.signature = some markup ∧ Registry.initial.SignatureMarkup markup
      "f<T>(…optsopt) → (private, nullable) \x7bArray.<global>|global\x7d" := by
  obtain ⟨t, ht⟩ := exists_of_isOk (x := generic.sign .initial) (by decide +kernel)
  have hneeds : generic.needsSignature := by decide
  have hmodifiers : generic.outcomes.flatMap Outcome.modifiers =
      ["private", "nullable"].map Json.string := rfl
  obtain ⟨words, markup, hwords, hmarkup, hshown⟩ := (sign_markup ht).1 hneeds
  have hnames : generic.outcomeNames ≠ [] := by decide
  have hmap := (hwords hnames).symm.trans hmodifiers
  cases List.map_injective_iff.mpr (fun _ _ => Json.string.inj) hmap
  have htext : generic.callShown ["private", "nullable"] =
      "f<T>(…optsopt) → (private, nullable) \x7bArray.<global>|global\x7d" := by
    decide +kernel
  exact ⟨t, ht, hneeds, markup, hmarkup, htext ▸ hshown⟩

end Symbol

end Refsite
