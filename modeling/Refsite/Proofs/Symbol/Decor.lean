import Refsite.Proofs.Json.Entries
import Refsite.Proofs.Site.Decorate
import Refsite.Proofs.Symbol.Ancestry
import Refsite.Proofs.Symbol.Anchors
import Refsite.Proofs.Symbol.Clean
namespace Refsite

/-- The four ways in which addresses decorate symbols. -/
inductive Decoration where
  | places
  | ids
  | signatures
  | ancestors
  deriving DecidableEq, Repr

namespace Symbol

/-- What the decorations of a symbol are made of. -/
structure Decor where
  /-- The page that places among the see-items are on. -/
  page : String
  id : String
  signature : Option String
  badge : String
  ancestors : List String

/-- The signature and the badge of a symbol; some symbols have no signature. -/
def marking (r : Registry) (s : Symbol) : Except Misfit (Option String × String) :=
  if s.needsSignature then do
    let returns ← s.signatureReturns r
    let signature := "<span class=\"signature\">" ++ s.signatureParams ++
      "</span><span class=\"type-signature\">" ++ returns ++ "</span>"
    return (some signature, s.badge)
  else if s.kind == .member || s.kind == .constant then do
    let signature ← s.signatureTypes r
    return (some signature, s.badge)
  else return (none, "")

def decor (r : Registry) (symbols : List Symbol) (s : Symbol) : Decor :=
  let marks := (s.marking r).toOption.getD (none, "")
  { page := onChars (Text.upTo '#') (r.addressOf s.longname)
    id := s.idAt (r.addressOf s.longname)
    signature := marks.1
    badge := marks.2
    ancestors := ancestorLinks (firstIndex symbols) r none s }

theorem placeLink_placeLink (page item : String) :
    placeLink page (placeLink page item) = placeLink page item := by
  by_cases h : isPlace item = true
  · have hopen : "<a href=\"".toList = '<' :: "a href=\"".toList := by decide
    have hlink : ¬isPlace (placeLink page item) = true := by
      rw [placeLink, if_pos h, isPlace]
      simp only [String.toList_append, hopen, List.cons_append]
      exact Bool.false_ne_true
    exact if_neg hlink
  · have hself : placeLink page item = item := if_neg h
    rw [hself, hself]

theorem linkPlaces_of_isSome {r : Registry} {s : Symbol} (h : (r.resolve? s.longname).isSome) :
    linkPlaces r s = .ok { s with
      see := s.see.map (placeLink (onChars (Text.upTo '#') (r.addressOf s.longname))) } := by
  rw [linkPlaces]
  split
  · rw [Registry.require_of_isSome h]
    rfl
  · next hnone =>
    have hself : ∀ page, s.see.map (placeLink page) = s.see := by
      intro page
      have hitem : ∀ item ∈ s.see, placeLink page item = item := fun item hitem =>
        if_neg fun hplace => hnone (List.any_eq_true.mpr ⟨item, hitem, hplace⟩)
      exact (List.map_congr_left hitem).trans (List.map_id s.see)
    rw [hself]
    -- Symbols hold symbols, so a symbol is its fields only once it is taken apart.
    cases s
    rfl

theorem sign_eq {r : Registry} (s : Symbol) : s.sign r = (s.marking r).map fun marks =>
    { s with signature := marks.1.or s.signature, attribs := some marks.2 } := by
  rw [sign, marking]
  split
  · cases s.signatureReturns r <;> rfl
  · split
    · cases s.signatureTypes r <;> rfl
    · cases s
      rfl

end Symbol

namespace Decoration

open Refsite.Symbol

def set (d : Decor) (s : Symbol) : Decoration → Symbol
  | places => { s with see := s.see.map (placeLink d.page) }
  | ids => { s with id := some d.id }
  | signatures => { s with signature := d.signature.or s.signature, attribs := some d.badge }
  | ancestors => { s with ancestors := d.ancestors }

variable (d : Decor) (s : Symbol)

theorem set_comm (a b : Decoration) : b.set d (a.set d s) = a.set d (b.set d s) := by
  cases a <;> cases b <;> rfl

theorem set_set (a : Decoration) : a.set d (a.set d s) = a.set d s := by
  cases a with
  | places =>
    have hmap : (s.see.map (placeLink d.page)).map (placeLink d.page) =
        s.see.map (placeLink d.page) := by
      rw [List.map_map]
      exact List.map_congr_left fun item _ => placeLink_placeLink d.page item
    exact congrArg (fun see => { s with see }) hmap
  | signatures =>
    have hor : d.signature.or (d.signature.or s.signature) = d.signature.or s.signature := by
      cases d.signature <;> rfl
    exact congrArg (fun signature => { s with signature, attribs := some d.badge }) hor
  | ids | ancestors => rfl

theorem undecorated_set (a : Decoration) : (a.set d s).undecorated = s.undecorated := by
  cases a <;> rfl

theorem longname_set (a : Decoration) : (a.set d s).longname = s.longname := by
  cases a <;> rfl

end Decoration

namespace Symbol

def decoratedNames : List String := ["see", "attribs", "signature", "id", "ancestors"]

/-- The names of the values that modifiers are read off. -/
def modifierNames : List String :=
  ["kind", "generator", "virtual", "scope", "readonly", "optional", "nullable"]

theorem ofEntries_congr {es es' : Json.Entries}
    (h : ∀ name ∈ modifierNames, es.find? name = es'.find? name) (isAsync : Bool) :
    Modifiers.ofEntries isAsync es = Modifiers.ofEntries isAsync es' := by
  simp only [modifierNames, List.forall_mem_cons] at h
  obtain ⟨hkind, hgenerator, hvirtual, hscope, hreadonly, hoptional, hnullable, -⟩ := h
  unfold Modifiers.ofEntries Json.Entries.has
  rw [hkind, hgenerator, hvirtual, hscope, hreadonly, hoptional, hnullable]

theorem entries_eq (s : Symbol) : s.entries = s.fields true ++ s.extra := by
  rw [entries, record_eq]
  exact List.filter_true _

theorem find?_undecorated (s : Symbol) {name : String} (h : name ∉ decoratedNames) :
    s.undecorated.entries.find? name = s.entries.find? name := by
  have hcommon : (s.undecorated.commonFields true).find? name =
      (s.commonFields true).find? name := by
    simp only [decoratedNames, List.mem_cons, List.not_mem_nil, or_false, not_or] at h
    obtain ⟨hsee, hattribs, hsignature, hid, hancestors⟩ := h
    simp only [commonFields, Json.Entries.find?, List.lookup_cons, beq_false_of_ne hsee,
      beq_false_of_ne hattribs, beq_false_of_ne hsignature, beq_false_of_ne hid,
      beq_false_of_ne hancestors]
    rfl
  have htail : ∃ tail, s.entries = s.commonFields true ++ tail ∧
      s.undecorated.entries = s.undecorated.commonFields true ++ tail := by
    refine ⟨(s.detail.withAttached (s.detail.attached.map (record true))).fields true ++ s.extra,
      ?_, ?_⟩
    · rw [entries_eq, fields, List.append_assoc]
    · rw [entries_eq, fields, List.append_assoc]
      rfl
  obtain ⟨tail, hentries, hundecorated⟩ := htail
  rw [Json.Entries.find?] at hcommon ⊢
  rw [hundecorated, hentries, List.lookup_append, hcommon, Json.Entries.find?, Json.Entries.find?,
    List.lookup_append]

theorem modifiers_undecorated (s : Symbol) : s.undecorated.modifiers = s.modifiers := by
  have hplain : ∀ name ∈ modifierNames, name ∉ decoratedNames := by decide
  have hread : Modifiers.ofEntries s.isAsync s.undecorated.entries =
      Modifiers.ofEntries s.isAsync s.entries :=
    ofEntries_congr (fun name hname => s.find?_undecorated (hplain name hname)) s.isAsync
  show (Modifiers.ofEntries s.isAsync s.undecorated.entries).front ++ _ ++
    (Modifiers.ofEntries s.isAsync s.undecorated.entries).back = _
  rw [hread]
  rfl

theorem marking_undecorated (r : Registry) (s : Symbol) :
    s.undecorated.marking r = s.marking r := by
  have hbadge : s.undecorated.badge = s.badge := by
    show "<span class=\"type-signature\">" ++ modifierText s.undecorated.modifiers ++ "</span>" = _
    rw [modifiers_undecorated]
    rfl
  have hneeds : s.undecorated.needsSignature = s.needsSignature := rfl
  have hparams : s.undecorated.signatureParams = s.signatureParams := rfl
  have hreturns : s.undecorated.signatureReturns r = s.signatureReturns r := rfl
  have hkind : s.undecorated.kind = s.kind := rfl
  have htypes : s.undecorated.signatureTypes r = s.signatureTypes r := rfl
  rw [marking, marking, hbadge, hneeds, hparams, hreturns, hkind, htypes]

/-- An index of the symbols without their decorations. -/
def Index.undecorated (index : Index) : Index := index.map fun e => (e.1, e.2.undecorated)

theorem Index.lookup_undecorated (index : Index) (name : String) :
    index.undecorated.lookup name = (index.lookup name).map Symbol.undecorated := by
  induction index with
  | nil => rfl
  | cons e index ih =>
    rw [Index.undecorated, List.map_cons, List.lookup_cons, List.lookup_cons]
    split
    · rfl
    · exact ih

theorem Index.without_undecorated (index : Index) (name : String) :
    index.undecorated.without name = (index.without name).undecorated := by
  rw [Index.without, Index.undecorated, List.filter_map]
  rfl

theorem chain_undecorated (index : Index) (parent : Option String) :
    chain index.undecorated parent = (chain index parent).map undecorated := by
  induction index, parent using chain.induct with
  | case1 index => rw [chain, chain, List.map_nil]
  | case2 index name hempty =>
    rw [chain, chain, if_pos hempty, if_pos hempty, List.map_nil]
  | case3 index name hname hnone =>
    have hlookup : index.undecorated.lookup name = none := by
      rw [Index.lookup_undecorated, hnone, Option.map_none]
    rw [chain_of_none hnone, chain_of_none hlookup, List.map_nil]
  | case4 index name hname s hs _ ih =>
    have hlookup : index.undecorated.lookup name = some s.undecorated := by
      rw [Index.lookup_undecorated, hs, Option.map_some]
    rw [chain_of_some hname hs, chain_of_some hname hlookup, Index.without_undecorated,
      List.map_cons]
    exact congrArg (s.undecorated :: ·) ih

theorem ancestorLinks_undecorated (symbols : List Symbol) (r : Registry) (s : Symbol) :
    ancestorLinks (firstIndex (symbols.map undecorated)) r none s.undecorated =
      ancestorLinks (firstIndex symbols) r none s := by
  have hindex : firstIndex (symbols.map undecorated) = (firstIndex symbols).undecorated := by
    rw [firstIndex, firstIndex, Index.undecorated, List.map_map, List.map_map]
    rfl
  have hlinks :
      (chain (firstIndex (symbols.map undecorated)) s.undecorated.memberof).map
        (ancestorLink r none) =
      (chain (firstIndex symbols) s.memberof).map (ancestorLink r none) := by
    rw [hindex, chain_undecorated, List.map_map]
    rfl
  rw [ancestorLinks, hlinks]
  rfl

theorem decor_undecorated (r : Registry) (symbols : List Symbol) (s : Symbol) :
    decor r (symbols.map undecorated) s.undecorated = decor r symbols s := by
  rw [decor, marking_undecorated, ancestorLinks_undecorated]
  rfl

end Symbol

end Refsite
