import Mathlib.Data.List.Forall2
import Refsite.Proofs.Link.Owner
import Refsite.Proofs.Text.Search
import Refsite.Symbol.Exports
namespace Refsite

/-- Two choices from a list, of which one is narrower, are the same as far as some functions show
exactly when nothing else is chosen and the functions agree on it. -/
theorem map_filter_eq_map_filter_iff {α β : Type} {l : List α} {p q : α → Bool} {f g : α → β}
    (h : ∀ a, q a = true → p a = true) :
    (l.filter p).map f = (l.filter q).map g ↔
      ∀ a ∈ l, p a = true → q a = true ∧ f a = g a := by
  have hnarrow : l.filter q = (l.filter p).filter q := by
    rw [List.filter_filter]
    refine List.filter_congr fun a _ => ?_
    cases hq : q a with
    | false => rfl
    | true => rw [h a hq, Bool.true_and]
  constructor
  · intro heq a ha hp
    have hlength : (l.filter q).length = (l.filter p).length := by
      rw [← List.length_map g, ← heq, List.length_map]
    have hsame : l.filter q = l.filter p := by
      rw [hnarrow]
      exact List.filter_sublist.eq_of_length (by rw [← hnarrow, hlength])
    have hmem : a ∈ l.filter p := List.mem_filter.mpr ⟨ha, hp⟩
    rw [hsame] at heq
    exact ⟨(List.mem_filter.mp (hsame ▸ hmem)).2, List.map_inj_left.mp heq a hmem⟩
  · intro hall
    have hsame : l.filter p = l.filter q := by
      refine List.filter_congr fun a ha => ?_
      cases hp : p a with
      | true => exact (hall a ha hp).1.symm
      | false => exact (Bool.eq_false_iff.mpr fun hq => Bool.false_ne_true (hp ▸ h a hq)).symm
    rw [hsame]
    refine List.map_congr_left fun a ha => ?_
    obtain ⟨ha, hq⟩ := List.mem_filter.mp ha
    exact (hall a ha (h a hq)).2

namespace Symbol

variable {all : List Symbol} {s e m : Symbol} {x : String}

def moduleLongname (x : String) : String := "module:" ++ x

def exportName (x : String) : String := "(require(\"" ++ x ++ "\"))"

def isDescribed (s : Symbol) : Bool := !(s.description.getD "").isEmpty

def isExportable (s : Symbol) : Bool :=
  s.kind == .classType || (s.kind == .function && s.isDescribed)

def exportsOf (all : List Symbol) (x : String) : List Symbol :=
  (all.filter fun e => e.longname == moduleLongname x && e.isExportable).map fun e =>
    { e with name := exportName x }

structure IsExporting (all : List Symbol) (m : Symbol) : Prop where
  kind_eq : m.kind = .moduleUnit
  named : m.longname.startsWith "module:" = true
  exported : ∃ e ∈ all, e.kind ≠ .moduleUnit ∧ e.longname = m.longname

def isShownFor (x : String) (e : Symbol) : Bool :=
  e.longname == moduleLongname x && e.kind != .moduleUnit &&
    (e.kind == .classType || e.isDescribed)

/-- A symbol as it is attached: equal to the original but for the name, and only classes and
functions get another one. -/
structure IsCopy (e c : Symbol) : Prop where
  eq_original : c = { e with name := c.name }
  name_eq : c.name =
    if e.kind = .classType ∨ e.kind = .function then requireName e.name else e.name

theorem toList_requireName (name : String) :
    (requireName name).toList =
      Text.replaceAll "module:".toList "(require(\"".toList name.toList ++ "\"))".toList := by
  rw [requireName, onChars, String.toList_append, String.toList_ofList]

/-- The name of an export that is called like its module comes out right if the word `module:`
stands at its front only. -/
theorem requireName_moduleLongname_iff :
    requireName (moduleLongname x) = exportName x ↔
      Text.occursIn "module:".toList x.toList = false := by
  have hfront : Text.dropFront? "module:".toList (moduleLongname x).toList = some x.toList := by
    rw [moduleLongname, String.toList_append, Text.dropFront_append]
  have hself : Text.replaceAll "module:".toList "(require(\"".toList x.toList = x.toList ↔
      Text.occursIn "module:".toList x.toList = false :=
    Text.replaceAll_eq_self_iff (by decide) (by decide)
  rw [← hself, ← String.toList_inj, toList_requireName,
    Text.replaceAll_of_dropFront (by decide) hfront, exportName, String.toList_append,
    String.toList_append, List.append_assoc, List.append_assoc, List.append_cancel_left_eq,
    List.append_cancel_right_eq]

theorem isExportable_iff : e.isExportable = true ↔
    (e.kind = .classType ∨ e.kind = .function) ∧ (e.kind = .classType ∨ e.isDescribed = true) := by
  rw [isExportable, Bool.or_eq_true, Bool.and_eq_true, beq_iff_eq, beq_iff_eq, or_and_left]

theorem isShownFor_iff : isShownFor x e = true ↔
    e.longname = moduleLongname x ∧ e.kind ≠ .moduleUnit ∧
      (e.kind = .classType ∨ e.isDescribed = true) := by
  rw [isShownFor, Bool.and_eq_true, Bool.and_eq_true, Bool.or_eq_true, beq_iff_eq, bne_iff_ne,
    beq_iff_eq, and_assoc]

theorem startsWith_moduleLongname (x : String) :
    (moduleLongname x).startsWith "module:" = true := by
  rw [String.startsWith_string_iff, moduleLongname, String.toList_append]
  exact List.prefix_append _ _

theorem filter_isShownExport (h : m.longname = moduleLongname x) (all : List Symbol) :
    (all.filter (isExportOf m.longname)).filter isShownExport = all.filter (isShownFor x) := by
  rw [List.filter_filter]
  refine List.filter_congr fun e _ => ?_
  have hshown : e.isShownExport = (e.kind == .classType || e.isDescribed) := Bool.or_comm _ _
  rw [hshown, isExportOf, isShownFor, h, Bool.and_comm]
  by_cases hname : e.longname = moduleLongname x
  · rw [hname, startsWith_moduleLongname, Bool.and_true]
  · rw [beq_false_of_ne hname]
    rfl

theorem exportable_iff_shown : (e.longname == moduleLongname x && e.isExportable) = true ↔
    isShownFor x e = true ∧ (e.kind = .classType ∨ e.kind = .function) := by
  rw [Bool.and_eq_true, beq_iff_eq, isExportable_iff, isShownFor_iff]
  constructor
  · rintro ⟨hname, hkind, hshown⟩
    exact ⟨⟨hname, by rintro heq; simp [heq] at hkind, hshown⟩, hkind⟩
  · rintro ⟨⟨hname, -, hshown⟩, hkind⟩
    exact ⟨hname, hkind, hshown⟩

theorem isCopy_exportCopy (e : Symbol) : IsCopy e e.exportCopy := by
  rw [exportCopy]
  by_cases h : e.kind = .classType ∨ e.kind = .function
  · rw [if_pos (by simpa using h)]
    exact ⟨rfl, (if_pos h).symm⟩
  · rw [if_neg (by simpa using h)]
    exact ⟨by cases e; rfl, (if_neg h).symm⟩

theorem exportCopy_eq_iff (h : e.kind = .classType ∨ e.kind = .function) :
    e.exportCopy = { e with name := exportName x } ↔ requireName e.name = exportName x := by
  have hcopy : e.exportCopy = { e with name := requireName e.name } := if_pos (by simpa using h)
  rw [hcopy]
  exact ⟨fun heq => congrArg Symbol.name heq, fun heq => by rw [heq]⟩

/-- The copies of what is shown for a module are its exports exactly when only classes and functions
are shown and their names become the name of the export. -/
theorem copies_eq_exportsOf_iff :
    (all.filter (isShownFor x)).map exportCopy = exportsOf all x ↔
      ∀ e ∈ all, isShownFor x e = true →
        (e.kind = .classType ∨ e.kind = .function) ∧ requireName e.name = exportName x := by
  rw [exportsOf, map_filter_eq_map_filter_iff fun e he => (exportable_iff_shown.mp he).1]
  refine forall₂_congr fun e _ => forall_congr' fun hshown => ?_
  rw [exportable_iff_shown, and_iff_right hshown]
  exact and_congr_right exportCopy_eq_iff

theorem IsExporting.filter_ne_nil (h : IsExporting all m) :
    all.filter (isExportOf m.longname) ≠ [] := by
  obtain ⟨-, hnamed, e, he, hkind, hlongname⟩ := h
  refine List.ne_nil_of_mem (List.mem_filter.mpr ⟨he, ?_⟩)
  rw [isExportOf, hlongname, hnamed, beq_self_eq_true, bne_iff_ne.mpr hkind]
  rfl

theorem attachExports_of_isExporting (h : IsExporting all m) (hx : m.longname = moduleLongname x) :
    attachExports all m =
      { m with detail := .moduleUnit ((all.filter (isShownFor x)).map exportCopy) } := by
  have hkind := h.kind_eq
  rw [kind] at hkind
  cases hd : m.detail with
  | moduleUnit attached =>
    rw [attachExports, hd, ← filter_isShownExport hx]
    exact if_neg (mt List.isEmpty_iff.mp h.filter_ne_nil)
  | _ =>
    rw [hd] at hkind
    cases hkind

theorem attachExports_of_not_isExporting (h : ¬ IsExporting all m) : attachExports all m = m := by
  cases hd : m.detail with
  | moduleUnit attached =>
    rw [attachExports, hd]
    refine if_pos (List.isEmpty_iff.mpr (List.filter_eq_nil_iff.mpr fun e he hexport => h ?_))
    rw [isExportOf, Bool.and_eq_true, Bool.and_eq_true, beq_iff_eq, bne_iff_ne] at hexport
    obtain ⟨⟨hlongname, hnamed⟩, hkind⟩ := hexport
    exact ⟨by rw [kind, hd]; rfl, hlongname ▸ hnamed, e, he, hkind, hlongname⟩
  | _ => rw [attachExports, hd]

/-- Only modules whose longname another symbol has are changed. What is attached to such a module
are copies of all that is shown for it, in order. These are the module's exports exactly when there
is nothing but classes and functions among them and the name of each becomes the name of the export;
a name that is the longname of the module does so if the word at its front does not come again. -/
theorem attachAllExports_iff (symbols : List Symbol) :
    (∀ x, requireName (moduleLongname x) = exportName x ↔
      Text.occursIn "module:".toList x.toList = false) ∧
    List.Forall₂ (fun m t =>
      (¬ IsExporting symbols m → t = m) ∧
      ∀ x, IsExporting symbols m → m.longname = moduleLongname x →
        (∃ attached, t = { m with detail := .moduleUnit attached } ∧
          List.Forall₂ IsCopy (symbols.filter (isShownFor x)) attached) ∧
        (t = { m with detail := .moduleUnit (exportsOf symbols x) } ↔
          ∀ e ∈ symbols, isShownFor x e = true →
            (e.kind = .classType ∨ e.kind = .function) ∧ requireName e.name = exportName x))
      symbols (attachAllExports symbols) := by
  refine ⟨fun x => requireName_moduleLongname_iff, List.forall₂_map_right_iff.mpr
    (List.forall₂_same.mpr fun m _ => ⟨attachExports_of_not_isExporting, fun x h hx => ?_⟩)⟩
  rw [attachExports_of_isExporting h hx]
  refine ⟨⟨_, rfl, List.forall₂_map_right_iff.mpr
    (List.forall₂_same.mpr fun e _ => isCopy_exportCopy e)⟩, ?_⟩
  rw [← copies_eq_exportsOf_iff]
  refine ⟨fun heq => ?_, fun heq => by rw [heq]⟩
  exact Detail.moduleUnit.inj (congrArg Symbol.detail heq)

def utilModule : Symbol := bare (.moduleUnit []) "util" (moduleLongname "util") none

theorem isExporting_utilModule {all : List Symbol} (he : e ∈ all) (hkind : e.kind ≠ .moduleUnit)
    (hname : e.longname = moduleLongname "util") : IsExporting all utilModule :=
  ⟨rfl, startsWith_moduleLongname "util", e, he, hkind, hname⟩

def utilSymbols : List Symbol :=
  [utilModule,
    bare (.function ⟨[], [], []⟩) "module:util" "module:util" none,
    { bare (.classType ⟨[], [], []⟩ none []) "module:util" "module:util" none with
      description := none },
    { bare (.function ⟨[], [], []⟩) "module:util" "module:util" none with description := none }]

theorem utilModule_exports :
    IsExporting utilSymbols utilModule ∧ utilModule.longname = moduleLongname "util" ∧
      (exportsOf utilSymbols "util").map (fun e => (e.kind, e.name)) =
        [(.function, "(require(\"util\"))"), (.classType, "(require(\"util\"))")] ∧
      ∃ others, attachAllExports utilSymbols =
        { utilModule with detail := .moduleUnit (exportsOf utilSymbols "util") } :: others := by
  have hexporting : IsExporting utilSymbols utilModule :=
    isExporting_utilModule (List.mem_cons_of_mem _ List.mem_cons_self) (by decide) rfl
  obtain ⟨hname, hall⟩ := attachAllExports_iff utilSymbols
  have hutil : requireName (moduleLongname "util") = exportName "util" :=
    (hname "util").mpr (by decide)
  have hkinds : ∀ e ∈ utilSymbols, isShownFor "util" e = true →
      (e.kind = .classType ∨ e.kind = .function) ∧ e.name = moduleLongname "util" := by decide
  obtain ⟨-, hattached⟩ := (List.forall₂_cons.mp hall).1
  have hmodule := (hattached "util" hexporting rfl).2.mpr fun e he hshown =>
    ⟨(hkinds e he hshown).1, (hkinds e he hshown).2 ▸ hutil⟩
  exact ⟨hexporting, rfl, by decide, _, congrArg (· :: _) hmodule⟩

def looseSymbols : List Symbol :=
  [utilModule,
    bare (.member ⟨none, false, none, none⟩) "module:util" "module:util" none,
    bare (.function ⟨[], [], []⟩) "util" "module:util" none]

/-- The member is attached too, under its own name, and the function under half a name. -/
theorem member_attached_to_module :
    (exportsOf looseSymbols "util").map (fun e => (e.kind, e.name)) =
        [(.function, "(require(\"util\"))")] ∧
      ∃ attached others, attachAllExports looseSymbols =
          { utilModule with detail := .moduleUnit attached } :: others ∧
        attached.map (fun e => (e.kind, e.name)) =
          [(.member, "module:util"), (.function, "util\"))")] := by
  have hexporting : IsExporting looseSymbols utilModule :=
    isExporting_utilModule (List.mem_cons_of_mem _ List.mem_cons_self) (by decide) rfl
  exact ⟨by decide, _, _, congrArg (· :: _) (attachExports_of_isExporting hexporting rfl),
    by decide⟩

end Symbol

end Refsite
