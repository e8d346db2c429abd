import Refsite.Proofs.Symbol.Clean
namespace Refsite

open Json (Kept Tidy)
open Schema Schema.Checked

/-- The entries without a field are kept. -/
theorem kept_others {es : Json.Entries} {names dropped : List String} (h : Tidy (.object es))
    (hnames : names.Nodup) (hsub : names ⊆ dropped) : Kept names (others es dropped) := by
  cases h with
  | object distinct tidy =>
    constructor
    · rw [List.nodup_append]
      refine ⟨hnames, distinct.sublist (List.filter_sublist.map _), ?_⟩
      rintro name hname _ hother rfl
      obtain ⟨e, he, rfl⟩ := List.mem_map.mp hother
      have hnot := (List.mem_filter.mp he).2
      simp [hsub hname] at hnot
    · exact fun e he => tidy e (List.mem_filter.mp he).1

theorem TypeExpr.of_read_ok {x : Json} {t : TypeExpr} (h : read x = .ok t) :
    ∃ es, x = .object es ∧ t.extra = others es ["names"] := by
  replace h := of_record_ok h
  obtain ⟨es, rfl, h⟩ := h
  replace h := of_seq_ok h
  obtain ⟨g, extra, h, hextra, rfl⟩ := h
  replace h := of_map_ok h
  obtain ⟨names, -, rfl⟩ := h
  cases hextra
  exact ⟨es, rfl, rfl⟩

theorem TypeExpr.clean_of_read {x : Json} (hx : x.Tidy) {t : TypeExpr} (h : read x = .ok t) :
    t.Clean := by
  obtain ⟨es, rfl, hextra⟩ := of_read_ok h
  rw [Clean, hextra]
  exact kept_others hx (by decide) (List.Subset.refl _)

theorem clean_of_typeField {es : Json.Entries} (hes : Tidy (.object es)) {o : Option TypeExpr}
    (h : field es "type" none (orNull TypeExpr.read) = .ok o) : ∀ t ∈ o, t.Clean := by
  intro t ht
  obtain rfl | ⟨x, hx, h⟩ := of_field_ok h
  · cases ht
  · exact TypeExpr.clean_of_read (hes.of_find? hx) (of_orNull_ok h t ht)

theorem Param.of_read_ok {x : Json} {p : Param} (h : read x = .ok p) :
    ∃ es : Json.Entries, x = .object es ∧
      field es "type" none (orNull TypeExpr.read) = .ok p.type ∧
      p.defaultValue = es.find? "defaultvalue" ∧
      p.extra = others es
        ["name", "type", "description", "optional", "nullable", "variable", "defaultvalue"] := by
  replace h := of_record_ok h
  obtain ⟨es, rfl, h⟩ := h
  replace h := of_seq_ok h
  obtain ⟨g, extra, h, hextra, rfl⟩ := h
  replace h := of_seq_ok h
  obtain ⟨g, default, h, hdefault, rfl⟩ := h
  iterate 4
    replace h := of_seq_ok h
    obtain ⟨g, _, h, -, rfl⟩ := h
  replace h := of_seq_ok h
  obtain ⟨g, type, h, htype, rfl⟩ := h
  replace h := of_map_ok h
  obtain ⟨name, -, rfl⟩ := h
  cases hextra
  cases hdefault
  exact ⟨es, rfl, htype, rfl, rfl⟩

theorem Param.clean_of_read {x : Json} {p : Param} (hx : x.Tidy) (h : read x = .ok p) :
    p.Clean := by
  obtain ⟨es, rfl, htype, hdefault, hextra⟩ := of_read_ok h
  refine ⟨clean_of_typeField hx htype, fun y hy => hx.of_find? (hdefault ▸ hy), ?_⟩
  rw [hextra]
  exact kept_others hx (by decide) (List.Subset.refl _)

theorem Outcome.of_read_ok {x : Json} {o : Outcome} (h : read x = .ok o) :
    ∃ es, x = .object es ∧ field es "type" none (orNull TypeExpr.read) = .ok o.type ∧
      o.extra = others es ["type", "description", "optional", "nullable"] := by
  replace h := of_record_ok h
  obtain ⟨es, rfl, h⟩ := h
  replace h := of_seq_ok h
  obtain ⟨g, extra, h, hextra, rfl⟩ := h
  iterate 3
    replace h := of_seq_ok h
    obtain ⟨g, _, h, -, rfl⟩ := h
  replace h := of_map_ok h
  obtain ⟨type, htype, rfl⟩ := h
  cases hextra
  exact ⟨es, rfl, htype, rfl⟩

theorem Outcome.clean_of_read {x : Json} {o : Outcome} (hx : x.Tidy) (h : read x = .ok o) :
    o.Clean := by
  obtain ⟨es, rfl, htype, hextra⟩ := of_read_ok h
  refine ⟨clean_of_typeField hx htype, ?_⟩
  rw [hextra]
  exact kept_others hx (by decide) (List.Subset.refl _)

theorem Snippet.clean_empty : Snippet.empty.Clean :=
  ⟨.null, Json.kept_nil (by decide)⟩

theorem Snippet.of_read_ok {x : Json} {c : Snippet} (h : read x = .ok c) :
    ∃ es, x = .object es ∧ field es "value" .null free = .ok c.value ∧
      c.extra = others es ["name", "type", "value"] := by
  replace h := of_record_ok h
  obtain ⟨es, rfl, h⟩ := h
  replace h := of_seq_ok h
  obtain ⟨g, extra, h, hextra, rfl⟩ := h
  replace h := of_seq_ok h
  obtain ⟨g, value, h, hvalue, rfl⟩ := h
  replace h := of_seq_ok h
  obtain ⟨g, type, h, -, rfl⟩ := h
  replace h := of_map_ok h
  obtain ⟨name, -, rfl⟩ := h
  cases hextra
  exact ⟨es, rfl, hvalue, rfl⟩

theorem Snippet.clean_of_read {x : Json} (hx : x.Tidy) {c : Snippet} (h : read x = .ok c) :
    c.Clean := by
  obtain ⟨es, rfl, hvalue, hextra⟩ := of_read_ok h
  have htidy : c.value.Tidy := by
    obtain hnull | ⟨y, hy, hfree⟩ := of_field_ok hvalue
    · rw [hnull]
      exact .null
    · cases hfree
      exact hx.of_find? hy
  refine ⟨htidy, ?_⟩
  rw [hextra]
  exact kept_others hx (by decide) (List.Subset.refl _)

theorem Origin.of_read_ok {x : Json} {o : Origin} (h : read x = .ok o) :
    ∃ es, x = .object es ∧ field es "code" Snippet.empty Snippet.read = .ok o.snippet ∧
      o.extra = others es ["path", "filename", "lineno", "code", "shortpath"] := by
  replace h := of_record_ok h
  obtain ⟨es, rfl, h⟩ := h
  replace h := of_seq_ok h
  obtain ⟨g, extra, h, hextra, rfl⟩ := h
  replace h := of_seq_ok h
  obtain ⟨g, shortPath, h, -, rfl⟩ := h
  replace h := of_seq_ok h
  obtain ⟨g, snippet, h, hsnippet, rfl⟩ := h
  iterate 2
    replace h := of_seq_ok h
    obtain ⟨g, _, h, -, rfl⟩ := h
  replace h := of_map_ok h
  obtain ⟨path, -, rfl⟩ := h
  cases hextra
  exact ⟨es, rfl, hsnippet, rfl⟩

theorem Origin.clean_of_read {x : Json} (hx : x.Tidy) {o : Origin} (h : read x = .ok o) :
    o.Clean := by
  obtain ⟨es, rfl, hsnippet, hextra⟩ := of_read_ok h
  have hclean : o.snippet.Clean := by
    obtain hempty | ⟨y, hy, hread⟩ := of_field_ok hsnippet
    · rw [hempty]
      exact Snippet.clean_empty
    · exact Snippet.clean_of_read (hx.of_find? hy) hread
  refine ⟨hclean, ?_⟩
  rw [hextra]
  exact kept_others hx (by decide) (List.Subset.refl _)

theorem clean_of_listField {α : Type} {Clean : α → Prop} {read : Json → Checked α}
    (hread : ∀ x a, Tidy x → read x = .ok a → Clean a) {es : Json.Entries}
    (hes : Tidy (.object es)) {name : String} {as : List α}
    (h : field es name [] (list read) = .ok as) : ∀ a ∈ as, Clean a := by
  obtain rfl | ⟨x, hx, h⟩ := of_field_ok h
  · nofun
  · obtain ⟨items, rfl, hitems⟩ := of_list_ok h
    intro a ha
    obtain ⟨y, -, hy, hya⟩ := exists_of_forall₂ hitems ha
    cases hes.of_find? hx with
    | array tidy => exact hread y a (tidy y hy) hya

theorem Callable.of_read_ok {es : Json.Entries} {c : Callable} (h : read es = .ok c) :
    field es "params" [] (list Param.read) = .ok c.params ∧
      field es "returns" [] (list Outcome.read) = .ok c.returns ∧
      field es "yields" [] (list Outcome.read) = .ok c.yields := by
  replace h := of_seq_ok h
  obtain ⟨g, yields, h, hyields, rfl⟩ := h
  replace h := of_seq_ok h
  obtain ⟨g, returns, h, hreturns, rfl⟩ := h
  replace h := of_map_ok h
  obtain ⟨params, hparams, rfl⟩ := h
  exact ⟨hparams, hreturns, hyields⟩

theorem Callable.clean_of_read {es : Json.Entries} (hes : Tidy (.object es)) {c : Callable}
    (h : read es = .ok c) : c.Clean := by
  obtain ⟨hparams, hreturns, hyields⟩ := of_read_ok h
  exact ⟨clean_of_listField (fun _ _ => Param.clean_of_read) hes hparams,
    clean_of_listField (fun _ _ => Outcome.clean_of_read) hes hreturns,
    clean_of_listField (fun _ _ => Outcome.clean_of_read) hes hyields⟩

theorem Typed.of_read_ok {es : Json.Entries} {value : Typed} (h : read es = .ok value) :
    field es "type" none (orNull TypeExpr.read) = .ok value.type := by
  iterate 3
    replace h := of_seq_ok h
    obtain ⟨g, _, h, -, rfl⟩ := h
  replace h := of_map_ok h
  obtain ⟨type, htype, rfl⟩ := h
  exact htype

namespace Symbol

/-- The longname, and what a clean symbol depends on. -/
theorem of_readFields_ok {es : Json.Entries} {kind : Kind} {detail : Checked (Detail Symbol)}
    {s : Symbol} (h : readFields es kind detail = .ok s) :
    required es "longname" text = .ok s.longname ∧ detail = .ok s.detail ∧
      field es "meta" none (orNull Origin.read) = .ok s.origin ∧
      s.extra = others es (fieldNames es kind) := by
  replace h := of_seq_ok h
  obtain ⟨g, extra, h, hextra, rfl⟩ := h
  replace h := of_seq_ok h
  obtain ⟨g, detail, h, hdetail, rfl⟩ := h
  iterate 16
    replace h := of_seq_ok h
    obtain ⟨g, _, h, -, rfl⟩ := h
  replace h := of_seq_ok h
  obtain ⟨g, origin, h, horigin, rfl⟩ := h
  iterate 4
    replace h := of_seq_ok h
    obtain ⟨g, _, h, -, rfl⟩ := h
  replace h := of_seq_ok h
  obtain ⟨g, longname, h, hlongname, rfl⟩ := h
  obtain ⟨name, -, rfl⟩ := of_map_ok h
  cases hextra
  exact ⟨hlongname, hdetail, horigin, rfl⟩

/-- What a detail that was read has been, by what is common to several kinds. -/
theorem of_readDetail_ok {es : Json.Entries} {kind : Kind} {attached : Checked (List Symbol)}
    {d : Detail Symbol} (h : Detail.read es attached kind = .ok d) :
    d.kind = kind ∧ (∀ call ∈ d.call?, Callable.read es = .ok call) ∧
      (∀ type ∈ d.type?, field es "type" none (orNull TypeExpr.read) = .ok type) ∧
      ∀ t ∈ d.attached, ∃ ts, attached = .ok ts ∧ t ∈ ts := by
  cases kind with
  | moduleUnit =>
    obtain ⟨ts, hts, rfl⟩ := of_map_ok h
    exact ⟨rfl, nofun, nofun, fun t ht => ⟨ts, hts, ht⟩⟩
  | classType =>
    iterate 2
      replace h := of_seq_ok h
      obtain ⟨g, _, h, -, rfl⟩ := h
    obtain ⟨call, hcall, rfl⟩ := of_map_ok h
    exact ⟨rfl, fun _ heq => Option.some.inj heq ▸ hcall, nofun, nofun⟩
  | function =>
    obtain ⟨call, hcall, rfl⟩ := of_map_ok h
    exact ⟨rfl, fun _ heq => Option.some.inj heq ▸ hcall, nofun, nofun⟩
  | member =>
    obtain ⟨value, hvalue, rfl⟩ := of_map_ok h
    exact ⟨rfl, nofun, fun _ heq =>
      Option.some.inj heq ▸ Typed.of_read_ok hvalue, nofun⟩
  | constant =>
    obtain ⟨value, hvalue, rfl⟩ := of_map_ok h
    exact ⟨rfl, nofun, fun _ heq =>
      Option.some.inj heq ▸ Typed.of_read_ok hvalue, nofun⟩
  | nameSpace =>
    obtain ⟨call, hcall, rfl⟩ := of_map_ok h
    exact ⟨rfl, fun _ heq => Option.some.inj heq ▸ hcall, nofun, nofun⟩
  | mixin =>
    cases h
    exact ⟨rfl, nofun, nofun, nofun⟩
  | event =>
    replace h := of_seq_ok h
    obtain ⟨g, listeners, h, -, rfl⟩ := h
    obtain ⟨call, hcall, rfl⟩ := of_map_ok h
    exact ⟨rfl, fun _ heq => Option.some.inj heq ▸ hcall, nofun, nofun⟩
  | interface =>
    cases h
    exact ⟨rfl, nofun, nofun, nofun⟩
  | external =>
    cases h
    exact ⟨rfl, nofun, nofun, nofun⟩
  | typedef =>
    iterate 2
      replace h := of_seq_ok h
      obtain ⟨g, _, h, -, rfl⟩ := h
    replace h := of_seq_ok h
    obtain ⟨g, type, h, htype, rfl⟩ := h
    obtain ⟨call, hcall, rfl⟩ := of_map_ok h
    exact ⟨rfl, fun _ heq => Option.some.inj heq ▸ hcall,
      fun _ heq => Option.some.inj heq ▸ htype, nofun⟩

theorem clean_of_readDetail {es : Json.Entries} (hes : Tidy (.object es)) {kind : Kind}
    {attached : Checked (List Symbol)} {d : Detail Symbol}
    (h : Detail.read es attached kind = .ok d) : d.Clean := by
  obtain ⟨-, hcall, htype, -⟩ := of_readDetail_ok h
  refine ⟨fun call hc => Callable.clean_of_read hes (hcall call hc), fun t ht => ?_⟩
  exact clean_of_typeField hes (htype _ (Option.mem_of_mem_join ht)) t rfl

/-- The names of the fields of a symbol are distinct. -/
theorem nodup_fieldNames (k : Kind) : (commonNames ++ k.fieldNames).Nodup := by
  cases k <;> decide

theorem of_read_ok {es : Json.Entries} {s : Symbol} (h : read (.object es) = .ok s) :
    readKind es = .ok s.kind ∧ required es "longname" text = .ok s.longname ∧
      field es "meta" none (orNull Origin.read) = .ok s.origin ∧
      s.extra = others es (fieldNames es s.kind) ∧
      Detail.read es (parts es "modules" fun x _ => read x) s.kind = .ok s.detail := by
  rw [read] at h
  split at h
  · cases h
  · next kind hkind =>
    obtain ⟨hlongname, hdetail, horigin, hextra⟩ := of_readFields_ok (of_inside_ok h)
    obtain ⟨hsame, -⟩ := of_readDetail_ok hdetail
    rw [Symbol.kind, hsame]
    exact ⟨hkind, hlongname, horigin, hextra, hdetail⟩

/-- The symbols of a value, and of the items of a list, are clean. -/
theorem clean_of_read_or_items {x : Json} (hx : x.Tidy) :
    (∀ s, read x = .ok s → s.Clean) ∧
      ∀ items, x = .array items → ∀ y ∈ items, ∀ s, read y = .ok s → s.Clean := by
  have hscalar {x : Json} (h : ∀ es, x ≠ .object es) : ∀ s, read x = .ok s → s.Clean := by
    intro s hs
    cases x with
    | object es => exact absurd rfl (h es)
    | _ => simp [read, fail] at hs
  induction hx with
  | null => exact ⟨hscalar (by simp), by simp⟩
  | bool b => exact ⟨hscalar (by simp), by simp⟩
  | int n => exact ⟨hscalar (by simp), by simp⟩
  | float normal => exact ⟨hscalar (by simp), by simp⟩
  | string s => exact ⟨hscalar (by simp), by simp⟩
  | array tidy ih =>
    refine ⟨hscalar (by simp), fun items heq y hy => ?_⟩
    cases heq
    exact (ih y hy).1
  | @object es distinct tidy ih =>
    refine ⟨fun s hs => ?_, by simp⟩
    have hes : Tidy (.object es) := .object distinct tidy
    obtain ⟨-, -, horigin, hextra, hdetail⟩ := of_read_ok hs
    obtain ⟨-, -, -, hattached⟩ := of_readDetail_ok hdetail
    refine .mk (clean_of_readDetail hes hdetail) (fun o ho => ?_) ?_ fun t ht => ?_
    · obtain hnone | ⟨y, hy, hread⟩ := of_field_ok horigin
      · rw [hnone] at ho
        cases ho
      · exact Origin.clean_of_read (hes.of_find? hy) (of_orNull_ok hread o ho)
    · rw [hextra]
      exact kept_others hes (nodup_fieldNames s.kind) (List.subset_append_left _ _)
    · obtain ⟨ts, hts, ht⟩ := hattached t ht
      obtain ⟨items, hfind, y, hy, -, hread⟩ := of_parts_ok hts t ht
      exact (ih _ (Json.Entries.mem_of_find? hfind)).2 items rfl y hy t hread

theorem clean_of_read {x : Json} {s : Symbol} (hx : x.Tidy) (h : read x = .ok s) : s.Clean :=
  (clean_of_read_or_items hx).1 s h

end Symbol

end Refsite
