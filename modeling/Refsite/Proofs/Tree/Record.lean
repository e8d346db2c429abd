import Refsite.Proofs.Symbol.Clean
import Refsite.Proofs.Tree.Graft
import Refsite.Tree.Check
import Refsite.Tree.Record
namespace Refsite.Tree

open Json (Kept Tidy)
open Schema Schema.Checked

/-- The check of the nodes in a list. -/
def Bucket.check : Bucket → Json → Checked Unit
  | namespaces | mixins => checkAs .nameSpace
  | classes => checkAs .classType
  | functions | events => checkCall
  | properties => checkProperty

theorem passes_either_left {name other : String} {check check' : Json → Checked Unit} {x : Json}
    (h : (check x).Passes) : (either name check other check' x).Passes := by
  obtain ⟨a, h⟩ := h
  rw [either, h]
  exact passes_ok ()

theorem passes_either_right {name other : String} {check check' : Json → Checked Unit} {x : Json}
    (h : (check' x).Passes) : (either name check other check' x).Passes := by
  obtain ⟨a, h⟩ := h
  rw [either, h]
  cases check x <;> exact passes_ok ()

theorem passes_checkType (types : List String) : (checkType (typeRecord types).sorted).Passes := by
  unfold typeRecord
  split
  · exact passes_either_left (by simp)
  · exact passes_either_left (by simp)
  · exact passes_either_right (by simp)

theorem passes_checkFlag (flag : Option Bool) : (checkFlag (flagRecord flag).sorted).Passes := by
  cases flag with
  | none => exact passes_either_right (by simp [flagRecord])
  | some b => exact passes_either_left (by simp [flagRecord])

theorem passes_checkParameter (p : Parameter) : (checkParameter p.record.sorted).Passes := by
  have hkept : Kept ["name", "type", "description", "default", "optional", "nullable"] [] :=
    Json.kept_nil (by decide)
  rw [Parameter.record, Json.sorted_ofFields]
  simp only [checkParameter, Schema.record, passes_seqRight]
  refine ⟨⟨⟨⟨?_, ?_⟩, ?_⟩, ?_⟩, ?_⟩
  · exact passes_field_written hkept rfl rfl fun _ => by simp
  · exact passes_field_written hkept rfl rfl fun _ => passes_checkType p.types
  · exact passes_field_written hkept rfl rfl fun _ => by simp
  · exact passes_field_written hkept rfl rfl fun _ => passes_checkFlag p.optional
  · exact passes_field_written hkept rfl rfl fun _ => passes_checkFlag p.nullable

theorem passes_checkReturn (r : Return) : (checkReturn r.record.sorted).Passes := by
  have hnames : (Json.Entries.names [("type", typeRecord r.types),
      ("description", .string r.description)]).Nodup := by
    simp [Json.Entries.names]
  rw [Return.record, Json.Entries.sorted_object]
  simp only [checkReturn, Schema.record, passes_seqRight]
  exact ⟨passes_field_sorted hnames rfl (passes_checkType r.types),
    passes_field_sorted hnames rfl (by simp)⟩

section Fields

variable {es : Json.Entries} (hnames : es.names.Nodup)
include hnames

theorem passes_checkHeading {heading : Heading}
    (hname : es.find? "name" = some (.string heading.name))
    (haccess : es.find? "access" = some (.string heading.access))
    (hvirtual : es.find? "virtual" = some (.bool heading.virtual))
    (hdescription : es.find? "description" = some (.string heading.description)) :
    (checkHeading (Json.Entries.sorted es)).Passes := by
  simp only [checkHeading, passes_seqRight]
  exact ⟨⟨⟨passes_required_sorted hnames hname (by simp),
    passes_field_sorted hnames haccess (by simp)⟩,
    passes_field_sorted hnames hvirtual (by simp)⟩,
    passes_field_sorted hnames hdescription (by simp)⟩

theorem passes_checkParameters {params : List Parameter}
    (hfind : es.find? "parameters" = some (.array (params.map Parameter.record))) :
    (checkParameters (Json.Entries.sorted es)).Passes := by
  refine passes_field_sorted hnames hfind ?_
  simpa using fun p _ => passes_checkParameter p

theorem passes_checkExamples {examples : List Example}
    (hfind : es.find? "examples" = some (.array (examples.map Example.record))) :
    (checkExamples (Json.Entries.sorted es)).Passes := by
  refine passes_field_sorted hnames hfind ?_
  simp [Schema.free]

end Fields

/-- The record of a node that holds no others passes the check of its list. -/
theorem passes_call {heading : Heading} {call : Call} :
    (checkCall (Json.object (heading.fields ++ call.fields)).sorted).Passes := by
  obtain ⟨params, examples, returns⟩ := call
  rw [Json.Entries.sorted_object]
  simp only [checkCall, Schema.record, passes_seqRight]
  cases returns with
  | none =>
    have hnames : (heading.fields ++ Call.fields ⟨params, examples, none⟩ :
        Json.Entries).names.Nodup := by
      simp [Json.Entries.names, Heading.fields, Call.fields, paramsField, examplesField]
    refine ⟨⟨⟨passes_checkHeading hnames rfl rfl rfl rfl, passes_checkParameters hnames rfl⟩,
      passes_checkExamples hnames rfl⟩, passes_field fun x hx => ?_⟩
    rw [Json.Entries.find?_sorted hnames] at hx
    cases hx
  | some r =>
    have hnames : (heading.fields ++ Call.fields ⟨params, examples, some r⟩ :
        Json.Entries).names.Nodup := by
      simp [Json.Entries.names, Heading.fields, Call.fields, paramsField, examplesField]
    refine ⟨⟨⟨passes_checkHeading hnames rfl rfl rfl rfl, passes_checkParameters hnames rfl⟩,
      passes_checkExamples hnames rfl⟩, passes_field_sorted hnames rfl ?_⟩
    rw [passes_only]
    exact passes_orNull fun _ => passes_checkReturn r

theorem passes_property {heading : Heading} {types : List String} :
    (checkProperty (Json.object
      (heading.fields ++ [("type", typeRecord types)])).sorted).Passes := by
  have hnames : (heading.fields ++ [("type", typeRecord types)] : Json.Entries).names.Nodup := by
    simp [Json.Entries.names, Heading.fields]
  rw [Json.Entries.sorted_object]
  simp only [checkProperty, Schema.record, passes_seqRight]
  exact ⟨passes_checkHeading hnames rfl rfl rfl rfl,
    passes_field_sorted hnames rfl (passes_checkType types)⟩

theorem passes_constructor {name description : String} {params : List Parameter}
    {examples : List Example} :
    (checkConstructor (Json.object [("name", .string name), ("description", .string description),
      paramsField params, examplesField examples]).sorted).Passes := by
  have hnames : (Json.Entries.names [("name", .string name), ("description", .string description),
      paramsField params, examplesField examples]).Nodup := by
    simp [Json.Entries.names, paramsField, examplesField]
  rw [Json.Entries.sorted_object]
  simp only [checkConstructor, Schema.record, passes_seqRight]
  exact ⟨⟨⟨passes_required_sorted hnames rfl (by simp), passes_field_sorted hnames rfl (by simp)⟩,
    passes_checkParameters hnames rfl⟩, passes_checkExamples hnames rfl⟩

theorem find?_bucketFields (front : Json.Entries) (nodes : List (Bucket × Json))
    (hnames : (front ++ bucketFields nodes : Json.Entries).names.Nodup) (b : Bucket) :
    (Json.Entries.sorted (front ++ bucketFields nodes)).find? b.word =
      some (.array ((nodes.filter (·.1 == b)).map fun n => n.2.sorted)) := by
  have hmem : (b.word, Json.array ((nodes.filter (·.1 == b)).map (·.2))) ∈
      front ++ bucketFields nodes := by
    apply List.mem_append_right
    refine List.mem_map.mpr ⟨b, ?_, rfl⟩
    cases b <;> decide
  rw [Json.Entries.find?_sorted hnames, Json.Entries.find?_of_mem hnames hmem]
  simp

/-- A container passes if its own fields do and all nodes pass the checks of their lists. -/
theorem passes_checkAs {role : Role} {front : Json.Entries} {nodes : List (Bucket × Json)}
    (hnames : (front ++ bucketFields nodes : Json.Entries).names.Nodup)
    (hrole : (role.check (Json.Entries.sorted (front ++ bucketFields nodes))).Passes)
    (hnodes : ∀ n ∈ nodes, (n.1.check n.2.sorted).Passes) :
    (checkAs role (Json.object (front ++ bucketFields nodes)).sorted).Passes := by
  have hbucket (b : Bucket) : ∀ x ∈ (nodes.filter (·.1 == b)).map (fun n => n.2.sorted),
      (b.check x).Passes := by
    intro x hx
    obtain ⟨n, hn, rfl⟩ := List.mem_map.mp hx
    obtain ⟨hmem, hb⟩ := List.mem_filter.mp hn
    obtain rfl := eq_of_beq hb
    exact hnodes n hmem
  have hparts (b : Bucket) := find?_bucketFields front nodes hnames b
  have hfield {b : Bucket} {check : Json → Checked Unit} (h : b.check = check) :
      (field (Json.Entries.sorted (front ++ bucketFields nodes)) b.word ()
        (only (list check))).Passes := by
    apply passes_field
    intro x hx
    rw [hparts b] at hx
    cases hx
    rw [passes_only, passes_list]
    exact h ▸ hbucket b
  rw [Json.Entries.sorted_object, checkAs]
  simp only [passes_seqRight]
  refine ⟨⟨⟨⟨hrole, ⟨?_, ?_⟩, ?_⟩, hfield (b := .functions) rfl⟩, hfield (b := .properties) rfl⟩,
    hfield (b := .events) rfl⟩
  · exact passes_parts (hparts .namespaces) fun x hx _ => hbucket .namespaces x hx
  · exact passes_parts (hparts .mixins) fun x hx _ => hbucket .mixins x hx
  · exact passes_parts (hparts .classes) fun x hx _ => hbucket .classes x hx

/-- The names of the lists of a container. -/
def bucketNames : List String := Bucket.all.map Bucket.word

def headingNames : List String := ["name", "access", "virtual", "description"]

/-- The names of the fields that are no lists of nodes. -/
def Entry.fieldNames : Entry → List String
  | nameSpace _ | mixin _ => headingNames
  | function _ call | event _ call =>
    headingNames ++ ["parameters", "examples"] ++ call.returns.toList.map fun _ => "returns"
  | property .. => headingNames ++ ["type"]
  | classType .. => headingNames ++ ["extends", "fires", "constructor"]

theorem names_fields (entry : Entry) : (entry.fields : Json.Entries).names = entry.fieldNames := by
  cases entry with
  | function heading call =>
    obtain ⟨params, examples, returns⟩ := call
    cases returns <;> rfl
  | event heading call =>
    obtain ⟨params, examples, returns⟩ := call
    cases returns <;> rfl
  | _ => rfl

theorem nodup_callNames {α : Type} (o : Option α) : (headingNames ++ ["parameters", "examples"] ++
    (o.toList.map fun _ => "returns") ++ bucketNames).Nodup := by
  cases o with
  | none => exact (by decide : (headingNames ++ ["parameters", "examples"] ++ [] ++
      bucketNames).Nodup)
  | some a => exact (by decide : (headingNames ++ ["parameters", "examples"] ++ ["returns"] ++
      bucketNames).Nodup)

theorem nodup_fieldNames (entry : Entry) : (entry.fieldNames ++ bucketNames).Nodup := by
  cases entry with
  | function heading call => exact nodup_callNames call.returns
  | event heading call => exact nodup_callNames call.returns
  | _ =>
    dsimp only [Entry.fieldNames]
    decide

theorem nodup_container (entry : Entry) (nodes : List (Bucket × Json)) :
    (entry.fields ++ bucketFields nodes : Json.Entries).names.Nodup := by
  have hbuckets : (bucketFields nodes : Json.Entries).names = bucketNames := rfl
  have happend : (entry.fields ++ bucketFields nodes : Json.Entries).names =
      entry.fieldNames ++ bucketNames := by
    rw [← hbuckets, ← names_fields, Json.Entries.names, List.map_append]
    rfl
  rw [happend]
  exact nodup_fieldNames entry

/-- A node passes the check of its list if those below it do. -/
theorem passes_entry (entry : Entry) {nodes : List (Bucket × Json)}
    (hnodes : ∀ n ∈ nodes, (n.1.check n.2.sorted).Passes) :
    (entry.bucket.check (Json.object
      (entry.fields ++ if entry.isContainer then bucketFields nodes else [])).sorted).Passes := by
  have hnames := nodup_container entry nodes
  cases entry with
  | nameSpace heading =>
    exact passes_checkAs hnames (passes_checkHeading hnames rfl rfl rfl rfl) hnodes
  | mixin heading =>
    exact passes_checkAs hnames (passes_checkHeading hnames rfl rfl rfl rfl) hnodes
  | classType heading augments fires constructorText params examples =>
    refine passes_checkAs hnames ?_ hnodes
    simp only [Role.check, passes_seqRight]
    exact ⟨⟨⟨passes_checkHeading hnames rfl rfl rfl rfl,
      passes_field_sorted hnames rfl (by simp)⟩, passes_field_sorted hnames rfl (by simp)⟩,
      passes_required_sorted hnames rfl passes_constructor⟩
  | function heading call =>
    have hleaf : (Entry.function heading call).isContainer = false := rfl
    rw [hleaf, if_neg Bool.false_ne_true, List.append_nil]
    exact passes_call
  | event heading call =>
    have hleaf : (Entry.event heading call).isContainer = false := rfl
    rw [hleaf, if_neg Bool.false_ne_true, List.append_nil]
    exact passes_call
  | property heading types =>
    have hleaf : (Entry.property heading types).isContainer = false := rfl
    rw [hleaf, if_neg Bool.false_ne_true, List.append_nil]
    exact passes_property

mutual

theorem passes_node : (n : Node) → (n.entry.bucket.check n.record.sorted).Passes
  | .mk entry children => by
    have hchildren := passes_nodes children
    rw [Node.record]
    exact passes_entry entry hchildren

theorem passes_nodes : (nodes : List Node) →
    ∀ n ∈ Node.records nodes, (n.1.check n.2.sorted).Passes
  | [] => nofun
  | n :: nodes => by
    have hn := passes_node n
    have hnodes := passes_nodes nodes
    rw [Node.records]
    exact List.forall_mem_cons.mpr ⟨hn, hnodes⟩

end

theorem passes_check (nodes : List Node) : (check (record nodes).sorted).Passes := by
  have hnames : ([] ++ bucketFields (Node.records nodes) : Json.Entries).names.Nodup :=
    (by decide : bucketNames.Nodup)
  exact passes_checkAs hnames (passes_ok ()) (passes_nodes nodes)

/-- The parameters whose defaults an entry shows. -/
def Entry.params : Entry → List Parameter
  | function _ call | event _ call => call.params
  | classType _ _ _ _ params _ => params
  | _ => []

theorem tidy_typeRecord (types : List String) : (typeRecord types).Tidy := by
  unfold typeRecord
  split <;> simp [Json.tidy_ofStrings]

theorem tidy_flagRecord (flag : Option Bool) : (flagRecord flag).Tidy := by
  cases flag <;> simp [flagRecord]

theorem tidy_parameter {p : Parameter} (h : p.defaultValue.Tidy) : p.record.Tidy :=
  Json.tidy_ofFields (Json.kept_nil (by decide : ["name", "type", "description", "default",
    "optional", "nullable"].Nodup)) rfl (by simp [tidy_typeRecord, tidy_flagRecord, h]) false

theorem tidy_paramsField {params : List Parameter} (h : ∀ p ∈ params, p.defaultValue.Tidy) :
    (paramsField params).2.Tidy :=
  Json.tidy_array_map fun p hp => tidy_parameter (h p hp)

theorem tidy_examplesField (examples : List Example) : (examplesField examples).2.Tidy :=
  Json.tidy_array_map fun e _ => e.tidy_record

theorem tidy_headingFields (heading : Heading) : ∀ e ∈ heading.fields, e.2.Tidy := by
  simp [Heading.fields]

theorem tidy_callFields {call : Call} (h : ∀ p ∈ call.params, p.defaultValue.Tidy) :
    ∀ e ∈ call.fields, e.2.Tidy := by
  have hreturn (r : Return) : r.record.Tidy := .object (by simp) (by simp [tidy_typeRecord])
  simp [Call.fields, tidy_paramsField h, tidy_examplesField, hreturn]

theorem tidy_entryFields {entry : Entry} (h : ∀ p ∈ entry.params, p.defaultValue.Tidy) :
    ∀ e ∈ entry.fields, e.2.Tidy := by
  cases entry with
  | nameSpace heading => exact tidy_headingFields heading
  | mixin heading => exact tidy_headingFields heading
  | function heading call =>
    exact List.forall_mem_append.mpr ⟨tidy_headingFields heading, tidy_callFields h⟩
  | event heading call =>
    exact List.forall_mem_append.mpr ⟨tidy_headingFields heading, tidy_callFields h⟩
  | property heading types =>
    exact List.forall_mem_append.mpr ⟨tidy_headingFields heading, by simp [tidy_typeRecord]⟩
  | classType heading augments fires constructorText params examples =>
    have hparams : (paramsField params).2.Tidy := tidy_paramsField h
    have hconstructor : (Json.object [("name", .string heading.name),
        ("description", .string constructorText), paramsField params,
        examplesField examples]).Tidy :=
      .object (by simp [paramsField, examplesField])
        (by simp [hparams, tidy_examplesField])
    exact List.forall_mem_append.mpr ⟨tidy_headingFields heading,
      by simp [Json.tidy_ofStrings, hconstructor]⟩

theorem tidy_bucketFields {nodes : List (Bucket × Json)} (h : ∀ n ∈ nodes, n.2.Tidy) :
    ∀ e ∈ bucketFields nodes, e.2.Tidy := by
  intro e he
  obtain ⟨b, -, rfl⟩ := List.mem_map.mp he
  exact Json.tidy_array_map fun n hn => h n (List.mem_filter.mp hn).1

mutual

theorem tidy_node : (n : Node) → (∀ entry ∈ n.entries, ∀ p ∈ entry.params, p.defaultValue.Tidy) →
    n.record.Tidy
  | .mk entry children => by
    intro h
    rw [Node.entries] at h
    obtain ⟨hentry, hbelow⟩ := List.forall_mem_cons.mp h
    have hchildren := tidy_bucketFields (tidy_nodes children hbelow)
    have hnames := nodup_container entry (Node.records children)
    rw [Node.record]
    split
    · exact .object hnames (List.forall_mem_append.mpr ⟨tidy_entryFields hentry, hchildren⟩)
    · rw [List.append_nil]
      rw [Json.Entries.names, List.map_append] at hnames
      exact .object (List.nodup_append.mp hnames).1 (tidy_entryFields hentry)

theorem tidy_nodes : (nodes : List Node) →
    (∀ entry ∈ Node.entriesOfAll nodes, ∀ p ∈ entry.params, p.defaultValue.Tidy) →
    ∀ n ∈ Node.records nodes, n.2.Tidy
  | [] => nofun
  | n :: nodes => by
    intro h
    rw [Node.entriesOfAll] at h
    obtain ⟨hn, hnodes⟩ := List.forall_mem_append.mp h
    have hhead := tidy_node n hn
    have htail := tidy_nodes nodes hnodes
    rw [Node.records]
    exact List.forall_mem_cons.mpr ⟨hhead, htail⟩

end

/-- The entries of the tree are those of some of the symbols. -/
theorem ofSymbol_of_mem_graft {symbols : List Symbol} {entry : Entry}
    (h : entry ∈ Node.entriesOfAll (graft symbols)) :
    ∃ s ∈ symbols, Entry.ofSymbol? s = some entry := by
  have hfree : free symbols [] < symbols.length + 1 := by simp [free]
  obtain ⟨fresh, hgrown⟩ := @expand_spec symbols _ [] none hfree
  have hmem := hgrown.entries.mem_iff.mp h
  rw [List.nil_append] at hmem
  obtain ⟨parent, -, hbelow⟩ := List.mem_flatMap.mp hmem
  obtain ⟨s, hs, heq⟩ := List.mem_filterMap.mp hbelow
  exact ⟨s, (List.mem_filter.mp hs).1, heq⟩

theorem tidy_params {s : Symbol} (h : s.Clean) {entry : Entry}
    (hentry : Entry.ofSymbol? s = some entry) : ∀ p ∈ entry.params, p.defaultValue.Tidy := by
  have hparams {call : Callable} (hcall : s.detail.call? = some call) :
      ∀ p ∈ call.params.map Parameter.ofParam, p.defaultValue.Tidy := by
    intro p hp
    obtain ⟨q, hq, rfl⟩ := List.mem_map.mp hp
    obtain ⟨detail, -, -, -⟩ := h
    have hclean := (detail.call call hcall).params q hq
    cases hd : q.defaultValue with
    | none => simp [Parameter.ofParam, hd]
    | some x => simpa [Parameter.ofParam, hd] using hclean.default x hd
  unfold Entry.ofSymbol? at hentry
  cases hd : s.detail with
  | function call =>
    rw [hd] at hentry
    cases hentry
    exact hparams (by rw [hd]; rfl)
  | event call listeners =>
    rw [hd] at hentry
    cases hentry
    exact hparams (by rw [hd]; rfl)
  | classType call classdesc augments =>
    rw [hd] at hentry
    cases hentry
    exact hparams (by rw [hd]; rfl)
  | _ =>
    rw [hd] at hentry
    cases hentry <;> nofun

theorem tidy_record {symbols : List Symbol} (h : ∀ s ∈ symbols, s.Clean) :
    (record (graft symbols)).Tidy := by
  refine .object (by decide : bucketNames.Nodup) (tidy_bucketFields (tidy_nodes _ ?_))
  intro entry hentry
  obtain ⟨s, hs, heq⟩ := ofSymbol_of_mem_graft hentry
  exact tidy_params (h s hs) heq

end Refsite.Tree
