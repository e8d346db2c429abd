import Refsite.Proofs.Schema.Records
import Refsite.Proofs.Symbol.Reading
namespace Refsite

open Json (Tidy Objects Arrays)
open Json.Entries (Keep KeepAt)
open Schema Schema.Checked

def TypeExpr.Keeps : Json → Json → Prop := Objects (Keep ["names"])

theorem TypeExpr.keeps_of_read {x : Json} {t : TypeExpr} (hx : x.Tidy) (h : read x = .ok t) :
    Keeps x (t.record false).sorted := by
  have hclean : Json.Kept _ _ := clean_of_read hx h
  obtain ⟨es, rfl, hextra⟩ := of_read_ok h
  exact ⟨es, _, rfl, Json.sorted_ofFields _ _,
    keep_written hclean rfl hextra (List.Subset.refl _)⟩

def Param.Keeps : Json → Json → Prop :=
  Objects fun es ws =>
    es.Keep ["name", "type", "description", "optional", "nullable", "variable", "defaultvalue"] ws ∧
      es.KeepAt "type" TypeExpr.Keeps ws

theorem Param.keeps_of_read {x : Json} {p : Param} (hx : x.Tidy) (h : read x = .ok p) :
    Keeps x (p.record false).sorted := by
  have hclean := (clean_of_read hx h).extra
  obtain ⟨es, rfl, htype, -, hextra⟩ := of_read_ok h
  exact ⟨es, _, rfl, Json.sorted_ofFields _ _,
    keep_written hclean rfl hextra (List.Subset.refl _),
    keepAt_option hclean rfl hx htype rfl (fun _ => rfl) fun _ _ => TypeExpr.keeps_of_read⟩

def Outcome.Keeps : Json → Json → Prop :=
  Objects fun es ws =>
    es.Keep ["type", "description", "optional", "nullable"] ws ∧ es.KeepAt "type" TypeExpr.Keeps ws

theorem Outcome.keeps_of_read {x : Json} {o : Outcome} (hx : x.Tidy) (h : read x = .ok o) :
    Keeps x (o.record false).sorted := by
  have hclean := (clean_of_read hx h).extra
  obtain ⟨es, rfl, htype, hextra⟩ := of_read_ok h
  exact ⟨es, _, rfl, Json.sorted_ofFields _ _,
    keep_written hclean rfl hextra (List.Subset.refl _),
    keepAt_option hclean rfl hx htype rfl (fun _ => rfl) fun _ _ => TypeExpr.keeps_of_read⟩

def Snippet.Keeps : Json → Json → Prop := Objects (Keep ["name", "type", "value"])

theorem Snippet.keeps_of_read {x : Json} {c : Snippet} (hx : x.Tidy) (h : read x = .ok c) :
    Keeps x (c.record false).sorted := by
  have hclean := (clean_of_read hx h).extra
  obtain ⟨es, rfl, -, hextra⟩ := of_read_ok h
  exact ⟨es, _, rfl, Json.sorted_ofFields _ _,
    keep_written hclean rfl hextra (List.Subset.refl _)⟩

def Origin.Keeps : Json → Json → Prop :=
  Objects fun es ws =>
    es.Keep ["path", "filename", "lineno", "code", "shortpath"] ws ∧
      es.KeepAt "code" Snippet.Keeps ws

/-- A place without the path that depends on the other sources. -/
def Origin.declared (o : Origin) : Origin := { o with shortPath := none }

theorem Origin.keeps_of_read {x : Json} {o o' : Origin} (hx : x.Tidy) (h : read x = .ok o)
    (hsame : o'.declared = o.declared) : Keeps x (o'.record false).sorted := by
  have hsnippet : o'.snippet = o.snippet :=
    show o'.declared.snippet = o.declared.snippet by rw [hsame]
  have hextra : o'.extra = o.extra := show o'.declared.extra = o.declared.extra by rw [hsame]
  have hclean := (clean_of_read hx h).extra
  rw [← hextra] at hclean
  obtain ⟨es, rfl, hcode, hothers⟩ := of_read_ok h
  refine ⟨es, _, rfl, Json.sorted_ofFields _ _,
    keep_written hclean rfl (hextra.trans hothers) (List.Subset.refl _),
    keepAt_written hclean rfl rfl fun y hy _ => ⟨rfl, ?_⟩⟩
  rw [hsnippet]
  exact Snippet.keeps_of_read (hx.of_find? hy) (of_field_found hcode hy)

namespace Symbol

/-- All undeclared entries of a doclet of some kind stand in what is written for it, and so do those
of the records inside of it that its kind declares. -/
structure Keeps (kind : Kind) (es ws : Json.Entries) : Prop where
  longname : ∃ name, es.find? "longname" = some (.string name) ∧
    ws.find? "longname" = some (.string name)
  own : es.Keep (commonNames ++ kind.fieldNames ++ ["is_async"]) ws
  origin : es.KeepAt "meta" Origin.Keeps ws
  type : "type" ∈ kind.fieldNames → es.KeepAt "type" TypeExpr.Keeps ws
  params : "params" ∈ kind.fieldNames → es.KeepAt "params" (Arrays Param.Keeps) ws
  returns : "returns" ∈ kind.fieldNames → es.KeepAt "returns" (Arrays Outcome.Keeps) ws
  yields : "yields" ∈ kind.fieldNames → es.KeepAt "yields" (Arrays Outcome.Keeps) ws

/-- What of a symbol comes from its doclet alone, whatever is published with it. -/
structure Heritage where
  longname : String
  origin : Option Origin
  call? : Option Callable
  type? : Option (Option TypeExpr)
  extra : Json.Entries

def heritage (s : Symbol) : Heritage where
  longname := s.longname
  origin := s.origin.map Origin.declared
  call? := s.detail.call?
  type? := s.detail.type?
  extra := s.extra

theorem find?_type {s : Symbol} {type : Option TypeExpr} (h : s.detail.type? = some type)
    (full : Bool) :
    (s.fields full).find? "type" = some (Json.ofOption (TypeExpr.record full) type) := by
  cases s with
  | mk name longname memberof scope access description origin examples see listens fires ignore
      undocumented virtual isAsync generator version since variation attribs signature id ancestors
      detail extra =>
    cases detail <;> cases h <;> rfl

theorem find?_call {s : Symbol} {call : Callable} (h : s.detail.call? = some call)
    (full : Bool) :
    (s.fields full).find? "params" = some (.array (call.params.map (Param.record full))) ∧
      (s.fields full).find? "returns" = some (.array (call.returns.map (Outcome.record full))) ∧
      (s.fields full).find? "yields" = some (.array (call.yields.map (Outcome.record full))) := by
  cases s with
  | mk name longname memberof scope access description origin examples see listens fires ignore
      undocumented virtual isAsync generator version since variation attribs signature id ancestors
      detail extra =>
    cases detail <;> cases h <;> exact ⟨rfl, rfl, rfl⟩

theorem exists_call {d : Detail Symbol} {name : String} (hname : name ∈ Callable.names)
    (h : name ∈ d.kind.fieldNames) : ∃ call, d.call? = some call := by
  have hnone : d.call? = none → ∀ name ∈ Callable.names, name ∉ d.kind.fieldNames := by
    intro hd
    cases d <;> first | (simp only [Detail.kind]; decide) | cases hd
  cases hd : d.call? with
  | some call => exact ⟨call, rfl⟩
  | none => exact absurd h (hnone hd name hname)

theorem exists_type {d : Detail Symbol} (h : "type" ∈ d.kind.fieldNames) :
    ∃ type, d.type? = some type := by
  have hnone : d.type? = none → "type" ∉ d.kind.fieldNames := by
    intro hd
    cases d <;> first | (simp only [Detail.kind]; decide) | cases hd
  cases hd : d.type? with
  | some type => exact ⟨type, rfl⟩
  | none => exact absurd h (hnone hd)

section Read

variable {es : Json.Entries} {s t : Symbol}

theorem keepAt_call (hes : Tidy (.object es)) (hread : read (.object es) = .ok s) (ht : t.Clean)
    (hsame : t.heritage = s.heritage) {name : String} (hname : name ∈ Callable.names)
    (hdeclared : name ∈ s.kind.fieldNames) :
    let ws := Json.Entries.written (t.fields false) t.extra
    es.KeepAt "params" (Arrays Param.Keeps) ws ∧ es.KeepAt "returns" (Arrays Outcome.Keeps) ws ∧
      es.KeepAt "yields" (Arrays Outcome.Keeps) ws := by
  obtain ⟨-, -, -, -, hdetail⟩ := of_read_ok hread
  obtain ⟨-, hcall, -, -⟩ := of_readDetail_ok hdetail
  have hkept := ht.extra
  obtain ⟨call, hs⟩ := exists_call hname hdeclared
  obtain ⟨hparams, hreturns, hyields⟩ := Callable.of_read_ok (hcall call hs)
  obtain ⟨hparams', hreturns', hyields'⟩ :=
    find?_call ((congrArg Heritage.call? hsame).trans hs) false
  have hnames := names_fields false t
  exact ⟨keepAt_list hkept hnames hes hparams hparams' fun _ _ => Param.keeps_of_read,
    keepAt_list hkept hnames hes hreturns hreturns' fun _ _ => Outcome.keeps_of_read,
    keepAt_list hkept hnames hes hyields hyields' fun _ _ => Outcome.keeps_of_read⟩

theorem keepAt_type (hes : Tidy (.object es)) (hread : read (.object es) = .ok s) (ht : t.Clean)
    (hsame : t.heritage = s.heritage) (hdeclared : "type" ∈ s.kind.fieldNames) :
    es.KeepAt "type" TypeExpr.Keeps (Json.Entries.written (t.fields false) t.extra) := by
  obtain ⟨-, -, -, -, hdetail⟩ := of_read_ok hread
  obtain ⟨-, -, htype, -⟩ := of_readDetail_ok hdetail
  have hkept := ht.extra
  obtain ⟨type, hs⟩ := exists_type hdeclared
  have hfind := find?_type ((congrArg Heritage.type? hsame).trans hs) false
  exact keepAt_option hkept (names_fields false t) hes (htype type hs) hfind (fun _ => rfl)
    fun _ _ => TypeExpr.keeps_of_read

theorem keepAt_origin (hes : Tidy (.object es)) (hread : read (.object es) = .ok s) (ht : t.Clean)
    (hsame : t.heritage = s.heritage) :
    es.KeepAt "meta" Origin.Keeps (Json.Entries.written (t.fields false) t.extra) := by
  obtain ⟨-, -, horigin, -, -⟩ := of_read_ok hread
  have hkept := ht.extra
  have hfind : (t.fields false).find? "meta" =
      some (Json.ofOption (Origin.record false) t.origin) := rfl
  refine keepAt_written hkept (names_fields false t) hfind fun x hx hpresent => ?_
  obtain ⟨o, ho, hread⟩ := of_orNull_present (of_field_found horigin hx) hpresent
  have horigins : t.origin.map Origin.declared = s.origin.map Origin.declared :=
    congrArg Heritage.origin hsame
  rw [ho] at horigins
  obtain ⟨o', ho', hdeclared⟩ := Option.map_eq_some_iff.mp horigins
  rw [ho']
  exact ⟨rfl, Origin.keeps_of_read (hes.of_find? hx) hread hdeclared⟩

/-- Whatever becomes of a symbol that was read, if what it has of its doclet is left alone, nothing
undeclared is lost. -/
theorem keeps_of_read (hes : Tidy (.object es)) (hread : read (.object es) = .ok s) (ht : t.Clean)
    (hsame : t.heritage = s.heritage) :
    ∃ ws, t.written.sorted = .object ws ∧ Keeps s.kind es ws := by
  obtain ⟨-, hlongname, -, hextra, -⟩ := of_read_ok hread
  have hkept := ht.extra
  have hnames := names_fields false t
  refine ⟨_, by rw [written, record_eq, Json.sorted_ofFields], ?longname, ?own,
    keepAt_origin hes hread ht hsame, keepAt_type hes hread ht hsame,
    fun h => (keepAt_call hes hread ht hsame (by decide) h).1,
    fun h => (keepAt_call hes hread ht hsame (by decide) h).2.1,
    fun h => (keepAt_call hes hread ht hsame (by decide) h).2.2⟩
  case longname =>
    obtain ⟨x, hx, htext⟩ := of_required_ok hlongname
    obtain rfl := of_text_ok htext
    have hfind : (t.fields false).find? "longname" = some (.string s.longname) := by
      rw [← show t.longname = s.longname from congrArg Heritage.longname hsame]
      rfl
    exact ⟨_, hx, hkept.find?_present hnames hfind rfl⟩
  case own =>
    have hlisted : t.extra = s.extra := congrArg Heritage.extra hsame
    refine keep_written hkept hnames (hlisted.trans hextra) fun name hname => ?_
    obtain hname | hname := List.mem_append.mp hname
    · exact List.mem_append_left _ hname
    · split at hname
      · cases hname
      · exact List.mem_append_right _ hname

end Read

end Symbol

end Refsite
