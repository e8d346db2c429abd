import Mathlib.Logic.Relation
import Refsite.Plain
import Refsite.Proofs.Disk.Follow
import Refsite.Proofs.Tutorial.Edges
import Refsite.Proofs.Tutorial.Loader
namespace Refsite.Tutorial

open Relation

/-- The pairs of a parent and a child that the configurations of some tutorials declare, in order. -/
def declared (configs : Configs) (names : List String) : List (String × String) :=
  names.flatMap fun name =>
    match childrenIn (configs.of name) with
    | .ok children => children.map fun child => (name, child)
    | .error _ => []

def parentsAfter (names : List String) (ps : Parents) (decls : List (String × String)) : Parents :=
  decls.foldl (fun ps decl => (adopt names decl.1 ps decl.2).1) ps

theorem parentsAfter_append (names : List String) (ps : Parents)
    (decls more : List (String × String)) : parentsAfter names ps (decls ++ more) =
      parentsAfter names (parentsAfter names ps decls) more := List.foldl_append

theorem adoptAll_eq (names : List String) (name : String) (ps : Parents) (children : List String) :
    (adoptAll names name ps children).1 =
      parentsAfter names ps (children.map fun child => (name, child)) := by
  induction children generalizing ps with
  | nil => rfl
  | cons child children ih => exact ih _

theorem nest_eq {configs : Configs} {names : List String} {ps ps' : Parents} {rest : List String}
    (h : (nest configs names ps rest).2 = .ok ps') :
    ps' = parentsAfter names ps (declared configs rest) := by
  induction rest generalizing ps with
  | nil =>
    cases h
    rfl
  | cons name rest ih =>
    rw [nest] at h
    split at h
    · cases h
    · next children hchildren =>
      have hrest := ih h
      rw [adoptAll_eq] at hrest
      simp only [declared, List.flatMap_cons, hchildren, parentsAfter_append] at hrest ⊢
      exact hrest

theorem mem_names_of_declared {configs : Configs} {names : List String} {decl : String × String}
    (h : decl ∈ declared configs names) : decl.1 ∈ names := by
  obtain ⟨name, hname, hdecl⟩ := List.mem_flatMap.mp h
  split at hdecl
  · obtain ⟨child, -, rfl⟩ := List.mem_map.mp hdecl
    exact hname
  · cases hdecl

section Taking

variable {names : List String} {ps : Parents} {decls : List (String × String)}

theorem sound_parentsAfter (h : ps.Sound names) (hdecls : ∀ decl ∈ decls, decl.1 ∈ names) :
    (parentsAfter names ps decls).Sound names := by
  induction decls generalizing ps with
  | nil => exact h
  | cons decl decls ih =>
    have hrest := fun d hd => hdecls d (List.mem_cons_of_mem _ hd)
    exact ih (sound_adopt h (hdecls decl List.mem_cons_self) decl.2) hrest

theorem below_adopt (h : ps.Sound names) (name child : String) {x y : String} :
    (adopt names name ps child).1.Below x y → ps.Below x y ∨ x = child ∧ y = name := by
  cases adopt_cases h name child with
  | inl htaken =>
    rw [htaken.1]
    exact (Parents.below_append htaken.2.2.1).mp
  | inr hleft =>
    rw [hleft.1]
    exact .inl

theorem below_adopt_of_below (h : ps.Sound names) (name child : String) {x y : String}
    (hxy : ps.Below x y) : (adopt names name ps child).1.Below x y := by
  cases adopt_cases h name child with
  | inl htaken =>
    rw [htaken.1]
    exact (Parents.below_append htaken.2.2.1).mpr (.inl hxy)
  | inr hleft =>
    rw [hleft.1]
    exact hxy

theorem below_or_declared (h : ps.Sound names) (hdecls : ∀ decl ∈ decls, decl.1 ∈ names)
    {x y : String} (hxy : (parentsAfter names ps decls).Below x y) :
    ps.Below x y ∨ (y, x) ∈ decls := by
  induction decls generalizing ps with
  | nil => exact .inl hxy
  | cons decl decls ih =>
    have hrest := fun d hd => hdecls d (List.mem_cons_of_mem _ hd)
    cases ih (sound_adopt h (hdecls decl List.mem_cons_self) decl.2) hrest hxy with
    | inl hadopted =>
      cases below_adopt h _ _ hadopted with
      | inl hold => exact .inl hold
      | inr hnew =>
        right
        rw [hnew.1, hnew.2]
        exact List.mem_cons_self
    | inr hmem => exact .inr (List.mem_cons_of_mem _ hmem)

theorem below_parentsAfter (h : ps.Sound names) (hdecls : ∀ decl ∈ decls, decl.1 ∈ names)
    {x y : String} (hxy : ps.Below x y) : (parentsAfter names ps decls).Below x y := by
  induction decls generalizing ps with
  | nil => exact hxy
  | cons decl decls ih =>
    have hrest := fun d hd => hdecls d (List.mem_cons_of_mem _ hd)
    apply ih (sound_adopt h (hdecls decl List.mem_cons_self) decl.2) hrest
    exact below_adopt_of_below h _ _ hxy

theorem taken_or_refused (h : ps.Sound names) {parent child : String} (hchild : child ∈ names) :
    (adopt names parent ps child).1.Below child parent ∨ child = parent ∨
      (∃ other, ps.Below child other) ∨ TransGen ps.Below parent child := by
  cases adopt_cases h parent child with
  | inl htaken =>
    rw [htaken.1]
    exact .inl ((Parents.below_append htaken.2.2.1).mpr (.inr ⟨rfl, rfl⟩))
  | inr hleft =>
    right
    obtain hunknown | hparent | habove := hleft.2
    · exact absurd hchild hunknown
    · exact .inr (.inl hparent)
    · cases reflTransGen_iff_eq_or_transGen.mp habove with
      | inl heq => exact .inl heq
      | inr hproper => exact .inr (.inr hproper)

end Taking

/-- How a forest comes of declarations: its edges are declared ones, those that were taken at some
point among them, and whatever was not taken had a reason when its turn came. -/
structure Follows (names : List String) (decls : List (String × String))
    (ts : List Tutorial) : Prop where
  declared : ∀ parent child, Edge ts parent child → (parent, child) ∈ decls
  kept : ∀ before after parent child, decls = before ++ after →
    (parentsAfter names [] before).Below child parent → Edge ts parent child
  decided : ∀ before after parent child, decls = before ++ (parent, child) :: after →
    child ∈ names → Edge ts parent child ∨ child = parent ∨
      (∃ other, (parentsAfter names [] before).Below child other) ∨
      TransGen (parentsAfter names [] before).Below parent child

theorem follows_forest (configs : Configs) {tutorials : List Tutorial}
    {decls : List (String × String)} (hdecls : ∀ decl ∈ decls, decl.1 ∈ tutorials.map (·.name)) :
    Follows (tutorials.map (·.name)) decls
      (forest configs tutorials (parentsAfter (tutorials.map (·.name)) [] decls)) := by
  have hnil := Parents.sound_nil (tutorials.map (·.name))
  have hsound := sound_parentsAfter hnil hdecls
  constructor
  · intro parent child hedge
    cases below_or_declared hnil hdecls ((edge_forest_iff hsound).mp hedge) with
    | inl hold => cases hold
    | inr hmem => exact hmem
  · rintro before after parent child rfl hbelow
    rw [edge_forest_iff hsound, parentsAfter_append]
    have hbefore := fun decl hdecl => hdecls decl (List.mem_append_left after hdecl)
    have hafter := fun decl hdecl => hdecls decl (List.mem_append_right before hdecl)
    exact below_parentsAfter (sound_parentsAfter hnil hbefore) hafter hbelow
  · rintro before after parent child rfl hchild
    rw [edge_forest_iff hsound, parentsAfter_append]
    have hbefore := fun decl hdecl => hdecls decl (List.mem_append_left _ hdecl)
    have hafter := fun decl hdecl =>
      hdecls decl (List.mem_append_right before (List.mem_cons_of_mem _ hdecl))
    have hparent : parent ∈ tutorials.map (·.name) :=
      hdecls (parent, child) (List.mem_append_right before List.mem_cons_self)
    have hps := sound_parentsAfter hnil hbefore
    have hcases := @taken_or_refused _ _ hps parent child hchild
    cases hcases with
    | inl htaken => exact .inl (below_parentsAfter (sound_adopt hps hparent child) hafter htaken)
    | inr hrefused => exact .inr hrefused

/-- Reading a directory makes a forest over the tutorials that were read, and it follows the
children that their configurations declare, in the order of the files. -/
theorem load_forestOver [Text.Codecs] {directory : Path} {encoding : String} {ts : List Tutorial} {w w' : World}
    (hrun : (load directory encoding).start w = (.ok ts, w')) :
    ∃ files loaded v configs, w.disk.list directory = .ok files ∧
      (readFiles directory encoding [] (files.mergeSort Text.le)).start w = (.ok loaded, v) ∧
      readConfigs v.disk directory (loaded.map (·.name)) [] (files.mergeSort Text.le) =
        .ok configs ∧
      ForestOver configs loaded ts ∧
      Follows (loaded.map (·.name)) (declared configs (loaded.map (·.name))) ts := by
  obtain ⟨files, loaded, v, configs, ps, hlist, hread, hconfigs, hnest, rfl⟩ := of_load hrun
  have hloose := loose_readFiles loose_nil hread
  have hps := sound_nest (Parents.sound_nil _) (List.Subset.refl _) hnest
  refine ⟨files, loaded, v, configs, hlist, hread, hconfigs, ?_, ?_⟩
  · exact forestOver_forest hps hloose.leaf hloose.nodup
  · rw [nest_eq hnest]
    exact follows_forest configs fun decl => mem_names_of_declared

def tutorialPlace : Path := ⟨false, ["t"]⟩

/-- A configuration that declares another tutorial and the configured one itself. -/
def nestedConfig : List UInt8 := Text.Utf8.encode "\x7b\"children\":[\"b\",\"a\"]\x7d".toList

def nestedWorld : World where
  disk := ⟨[(["t"], .directory), (["t", "a.json"], .file nestedConfig),
    (["t", "a.md"], .file []), (["t", "b.md"], .file [])]⟩

section Reading

variable [Text.Codecs]

theorem start_readFiles_empty {w : World} (name stem : String) {names : List String}
    {ts : List Tutorial} (hformat : formatOf? (tutorialPlace.child name) = some .markdown)
    (hstem : (tutorialPlace.child name).stem = stem)
    (hplain : w.disk.isPlainPath (tutorialPlace.child name) = true)
    (hentry : w.disk.entry? ["t", name] = some (.file [])) :
    (readFiles tutorialPlace "utf-8" ts (name :: names)).start w =
      (readFiles tutorialPlace "utf-8" (addNamed ⟨stem, stem, "", .markdown, []⟩ ts)
        names).start w := by
  have hlocate : w.disk.locate (tutorialPlace.child name) = .ok ["t", name] :=
    Disk.locate_of_isPlainPath hplain
  have hlook : w.disk.look (tutorialPlace.child name) = .ok (some (.file [])) := by
    rw [Disk.look, hlocate, ← hentry]
  have hread : w.disk.read (tutorialPlace.child name) = .ok [] := by
    rw [Disk.read, hlocate]
    dsimp only
    rw [hentry]
  have htext := @Run.start_readText w _ (tutorialPlace.child name) "utf-8" .utf8 [] [] (by decide +kernel) hread
    (by decide +kernel) rfl
  rw [start_readFiles_file hformat (Run.start_isFile hlook) htext, hstem]
  rfl

theorem start_load_nestedWorld : ∃ w', (load tutorialPlace "utf-8").start nestedWorld =
    (.ok [⟨"a", "a", "", .markdown, [⟨"b", "b", "", .markdown, []⟩]⟩], w') := by
  have hlist : nestedWorld.disk.list tutorialPlace = .ok ["a.json", "a.md", "b.md"] := by
    rw [Disk.list, Disk.locate_of_isPlainPath (by decide +kernel)]
    rfl
  have hsort : ["a.json", "a.md", "b.md"].mergeSort Text.le = ["a.json", "a.md", "b.md"] :=
    List.mergeSort_of_pairwise (by decide +kernel)
  have hread : (readFiles tutorialPlace "utf-8" [] ["a.json", "a.md", "b.md"]).start nestedWorld =
      (.ok [⟨"a", "a", "", .markdown, []⟩, ⟨"b", "b", "", .markdown, []⟩], nestedWorld) := by
    rw [start_readFiles_other (by decide +kernel),
      start_readFiles_empty "a.md" "a" (by decide +kernel) (by decide +kernel) (by decide +kernel)
        rfl,
      start_readFiles_empty "b.md" "b" (by decide +kernel) (by decide +kernel) (by decide +kernel)
        rfl]
    rfl
  have hbytes : nestedWorld.disk.read (tutorialPlace.child "a.json") = .ok nestedConfig := by
    rw [Disk.read, Disk.locate_of_isPlainPath (by decide +kernel)]
    rfl
  have hjson : Json.ofBytes? nestedConfig =
      some (.object [("children", .array [.string "b", .string "a"])]) := by
    decide +kernel
  have hconfigs : readConfigs nestedWorld.disk tutorialPlace ["a", "b"] []
      ["a.json", "a.md", "b.md"] =
        .ok [("a", .object [("children", .array [.string "b", .string "a"])])] := by
    rw [readConfigs, if_pos (by decide +kernel)]
    dsimp only
    rw [hbytes, configOfBytes, hjson]
    rfl
  rw [← hsort] at hread hconfigs
  exact exists_load hlist hread hconfigs rfl

end Reading

open scoped Plain in
theorem nestedWorld_forestOver : ∃ w' configs loaded,
    (load tutorialPlace "utf-8").start nestedWorld =
      (.ok [⟨"a", "a", "", .markdown, [⟨"b", "b", "", .markdown, []⟩]⟩], w') ∧
    ForestOver configs loaded [⟨"a", "a", "", .markdown, [⟨"b", "b", "", .markdown, []⟩]⟩] ∧
    Follows (loaded.map (·.name)) (declared configs (loaded.map (·.name)))
      [⟨"a", "a", "", .markdown, [⟨"b", "b", "", .markdown, []⟩]⟩] := by
  obtain ⟨w', hload⟩ := start_load_nestedWorld
  obtain ⟨_, loaded, _, configs, -, -, -, hforest, hfollows⟩ := load_forestOver hload
  exact ⟨w', configs, loaded, hload, hforest, hfollows⟩

end Refsite.Tutorial
