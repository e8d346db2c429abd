import Refsite.Proofs.Site.Loading
import Refsite.Proofs.Tutorial.Declarations
import Refsite.Proofs.Tutorial.Growth
namespace Refsite.Tutorial

/-- A directory with the files of some tutorials and one configuration file, its stem and its
record. -/
def Configured [Text.Codecs] (directory : Path) (encoding : String) (w : World) (loose : List Tutorial)
    (stem : String) (config : Json.Entries) : Prop :=
  ∃ files v file bytes, w.disk.list directory = .ok files ∧
    (readFiles directory encoding [] (files.mergeSort Text.le)).start w = (.ok loose, v) ∧
    files.filter isConfigName = [file] ∧ (directory.child file).stem = stem ∧
    w.disk.read (directory.child file) = .ok bytes ∧
    Json.ofBytes? bytes = some (.object config)

def Configs.Flat (config : Json.Entries) : Prop :=
  ∀ children name inner, config.find? "children" = some (.object children) →
    (name, .object inner) ∉ children

section Reading

variable {d : Disk} {directory : Path} {encoding stem : String} {names files : List String}
  {w : World} {loose : List Tutorial} {config : Json.Entries}

theorem readConfigs_filter (configs : Configs) :
    readConfigs d directory names configs files =
      readConfigs d directory names configs (files.filter isConfigName) := by
  induction files generalizing configs with
  | nil => rfl
  | cons file files ih =>
    rw [readConfigs, List.filter_cons]
    split
    · rw [readConfigs, if_pos ‹_›]
      dsimp only
      cases configOfBytes (directory.child file) (d.read (directory.child file)) with
      | error e => rfl
      | ok es => exact ih _
    · exact ih configs

variable [Text.Codecs]

theorem Configured.configs (h : Configured directory encoding w loose stem config) :
    ∃ files v, w.disk.list directory = .ok files ∧
      (readFiles directory encoding [] (files.mergeSort Text.le)).start w = (.ok loose, v) ∧
      readConfigs v.disk directory (loose.map (·.name)) [] (files.mergeSort Text.le) =
        .ok (addConfig (loose.map (·.name)) stem config []) := by
  obtain ⟨files, v, file, bytes, hlist, hread, hfilter, rfl, hbytes, hjson⟩ := h
  refine ⟨files, v, hlist, hread, ?_⟩
  have hperm := (List.mergeSort_perm files Text.le).filter isConfigName
  rw [hfilter, List.perm_singleton] at hperm
  have hconfig : isConfigName file = true :=
    List.of_mem_filter (hfilter ▸ List.mem_singleton_self file)
  rw [readConfigs_filter, hperm, readConfigs, if_pos hconfig,
    (reads_readFiles _ _ _ _).disk_eq hread]
  dsimp only
  rw [hbytes, configOfBytes, hjson]
  rfl

theorem Configured.of_load {ts : List Tutorial} {w' : World}
    (h : Configured directory encoding w loose stem config)
    (hrun : (load directory encoding).start w = (.ok ts, w')) :
    (loose.map (·.name)).Nodup ∧
      ∃ ps, (nest (addConfig (loose.map (·.name)) stem config []) (loose.map (·.name)) []
          (loose.map (·.name))).2 = .ok ps ∧
        ts = forest (addConfig (loose.map (·.name)) stem config []) loose ps := by
  obtain ⟨files, v, hlist, hread, hconfigs⟩ := h.configs
  obtain ⟨files', loose', v', configs, ps, hlist', hread', hconfigs', hnest, rfl⟩ :=
    Tutorial.of_load hrun
  cases hlist.symm.trans hlist'
  cases hread.symm.trans hread'
  cases hconfigs.symm.trans hconfigs'
  exact ⟨(loose_readFiles loose_nil hread).nodup, ps, hnest, rfl⟩

theorem Configured.exists_load {ps : Parents}
    (h : Configured directory encoding w loose stem config)
    (hnest : (nest (addConfig (loose.map (·.name)) stem config []) (loose.map (·.name)) []
      (loose.map (·.name))).2 = .ok ps) :
    ∃ w', (load directory encoding).start w =
      (.ok (forest (addConfig (loose.map (·.name)) stem config []) loose ps), w') := by
  obtain ⟨files, v, hlist, hread, hconfigs⟩ := h.configs
  exact Tutorial.exists_load hlist hread hconfigs hnest

end Reading

namespace Configs

theorem shared_nil (configs : Configs) : shared [] configs = configs := by rw [shared]

theorem shared_of_notMem {es : Json.Entries} (h : ∀ name inner, (name, .object inner) ∉ es)
    (configs : Configs) : shared es configs = configs := by
  induction es with
  | nil => exact shared_nil configs
  | cons e es ih =>
    obtain ⟨name, x⟩ := e
    have hrest := ih fun name inner hmem => h name inner (List.mem_cons_of_mem _ hmem)
    cases x with
    | object inner => exact absurd List.mem_cons_self (h name inner)
    | _ =>
      rw [shared]
      · exact hrest
      · intro other inner hentry
        cases hentry

theorem shared_cons_of_children {config children : Json.Entries}
    (h : config.find? "children" = some (.object children)) (name : String) (es : Json.Entries)
    (configs : Configs) :
    shared ((name, .object config) :: es) configs =
      shared es (shared children (configs.put name (.object config))) := by
  rw [shared]
  split
  · next children' hchildren =>
    cases h.symm.trans hchildren
    rfl
  · next hnone => exact absurd h (hnone children)

theorem shared_cons_of_flat {config : Json.Entries} (h : Flat config) (name : String)
    (es : Json.Entries) (configs : Configs) :
    shared ((name, .object config) :: es) configs =
      shared es (configs.put name (.object config)) := by
  rw [shared]
  split
  · next children hchildren =>
    rw [shared_of_notMem fun child inner => h children child inner hchildren]
  · rfl

end Configs

/-- A configuration in the file of its tutorial makes the same forest as in a shared file exactly if
the configurations inside it, which only the shared file hands on, give no tutorial another title
and change no parent. -/
theorem load_own_eq_shared_iff [Text.Codecs] {directory directory' : Path} {encoding encoding' name stem : String}
    {w w' v v' : World} {loose ts us : List Tutorial} {config : Json.Entries}
    (hown : Configured directory encoding w loose name config)
    (hname : name ∈ loose.map (·.name))
    (hshared : Configured directory' encoding' w' loose stem [(name, .object config)])
    (hstem : stem ∉ loose.map (·.name))
    (hrun : (load directory encoding).start w = (.ok ts, v))
    (hrun' : (load directory' encoding').start w' = (.ok us, v')) :
    let names := loose.map (·.name)
    let own : Configs := [(name, .object config)]
    let shared := Configs.shared own []
    (ts = us ↔
      (∀ t ∈ loose, shownTitle own t = shownTitle shared t) ∧
        parentsAfter names [] (declared own names) =
          parentsAfter names [] (declared shared names)) ∧
      (Configs.Flat config → ts = us) := by
  intro names own shared
  have hadd : addConfig names name config [] = own := by
    rw [addConfig, if_pos (List.contains_iff_mem.mpr hname)]
    rfl
  have hadd' : addConfig names stem own [] = shared := by
    rw [addConfig, if_neg (mt List.contains_iff_mem.mp hstem)]
  obtain ⟨hnames, ps, hnest, rfl⟩ := hown.of_load hrun
  obtain ⟨-, qs, hnest', rfl⟩ := hshared.of_load hrun'
  rw [hadd] at hnest ⊢
  rw [hadd'] at hnest' ⊢
  rw [← nest_eq hnest, ← nest_eq hnest']
  refine ⟨forest_eq_iff hnames hnest hnest', fun hflat => ?_⟩
  have hsame : shared = own := by
    change Configs.shared own [] = own
    rw [Configs.shared_cons_of_flat hflat, Configs.shared_nil]
    rfl
  rw [hsame] at hnest' ⊢
  rw [Except.ok.inj (hnest.symm.trans hnest')]

def configFile (own : Bool) : String := if own then "a.json" else "A.json"

/-- Two empty tutorials and a configuration file before them, which is named for the first one or
for none. -/
def configWorld (own : Bool) (text : String) : World where
  disk :=
    { entries :=
        [(["t"], .directory), (["t", configFile own], .file (Text.Utf8.encode text.toList)),
          (["t", "a.md"], .file []), (["t", "b.md"], .file [])] }

def twoTutorials : List Tutorial :=
  [⟨"a", "a", "", .markdown, []⟩, ⟨"b", "b", "", .markdown, []⟩]

theorem configured_configWorld [Text.Codecs] (own : Bool) {text : String} {config : Json.Entries}
    (hjson : Json.ofBytes? (Text.Utf8.encode text.toList) = some (.object config)) :
    Configured tutorialPlace "utf-8" (configWorld own text) twoTutorials
      (if own then "a" else "A") config := by
  have hlist : (configWorld own text).disk.list tutorialPlace =
      .ok [configFile own, "a.md", "b.md"] := by
    rw [Disk.list, Disk.locate_of_isPlainPath (by cases own <;> rfl)]
    cases own <;> rfl
  have hsort : [configFile own, "a.md", "b.md"].mergeSort Text.le =
      [configFile own, "a.md", "b.md"] :=
    List.mergeSort_of_pairwise (by cases own <;> decide +kernel)
  have hother : formatOf? (tutorialPlace.child (configFile own)) = none := by
    cases own <;> decide +kernel
  refine ⟨_, configWorld own text, configFile own, _, hlist, ?_, ?_, ?_, ?_, hjson⟩
  · rw [hsort, start_readFiles_other hother,
      start_readFiles_empty "a.md" "a" (by decide +kernel) (by decide +kernel)
        (by cases own <;> rfl) (by cases own <;> rfl),
      start_readFiles_empty "b.md" "b" (by decide +kernel) (by decide +kernel)
        (by cases own <;> rfl) (by cases own <;> rfl)]
    rfl
  · cases own <;> decide +kernel
  · cases own <;> decide +kernel
  · rw [Disk.read, Disk.locate_of_isPlainPath (by cases own <;> rfl)]
    cases own <;> rfl

def titleConfig (titled : Bool) : Json.Entries :=
  if titled then [("title", .string "B!")] else []

def nestingConfig (titled : Bool) : Json.Entries :=
  [("children", .object [("b", .object (titleConfig titled))])]

def ownText (titled : Bool) : String :=
  if titled then "\x7b\"children\":\x7b\"b\":\x7b\"title\":\"B!\"\x7d\x7d\x7d"
  else "\x7b\"children\":\x7b\"b\":\x7b\x7d\x7d\x7d"

def sharedText (titled : Bool) : String :=
  if titled then "\x7b\"a\":\x7b\"children\":\x7b\"b\":\x7b\"title\":\"B!\"\x7d\x7d\x7d\x7d"
  else "\x7b\"a\":\x7b\"children\":\x7b\"b\":\x7b\x7d\x7d\x7d\x7d"

section Plain

open scoped Plain

theorem configured_own (titled : Bool) :
    Configured tutorialPlace "utf-8" (configWorld true (ownText titled)) twoTutorials "a"
      (nestingConfig titled) :=
  configured_configWorld true (by cases titled <;> decide +kernel)

theorem configured_shared (titled : Bool) :
    Configured tutorialPlace "utf-8" (configWorld false (sharedText titled)) twoTutorials "A"
      [("a", .object (nestingConfig titled))] :=
  configured_configWorld false (by cases titled <;> decide +kernel)

theorem shared_nestingConfig (titled : Bool) :
    Configs.shared [("a", .object (nestingConfig titled))] [] =
      [("a", .object (nestingConfig titled)), ("b", .object (titleConfig titled))] := by
  have hflat : Configs.Flat (titleConfig titled) := by
    intro children name inner h
    cases titled <;> cases h
  rw [Configs.shared_cons_of_children rfl, Configs.shared_cons_of_flat hflat, Configs.shared_nil,
    Configs.shared_nil]
  rfl

theorem load_own (titled : Bool) : ∃ v,
    (load tutorialPlace "utf-8").start (configWorld true (ownText titled)) =
      (.ok [⟨"a", "a", "", .markdown, [⟨"b", "b", "", .markdown, []⟩]⟩], v) :=
  have hnest : (nest [("a", .object (nestingConfig titled))] ["a", "b"] [] ["a", "b"]).2 =
      .ok [("b", "a")] := rfl
  (configured_own titled).exists_load hnest

theorem load_shared (titled : Bool) : ∃ v,
    (load tutorialPlace "utf-8").start (configWorld false (sharedText titled)) =
      (.ok [⟨"a", "a", "", .markdown,
        [⟨"b", if titled then "B!" else "b", "", .markdown, []⟩]⟩], v) := by
  have hadd : addConfig (twoTutorials.map (·.name)) "A" [("a", .object (nestingConfig titled))] [] =
      [("a", .object (nestingConfig titled)), ("b", .object (titleConfig titled))] :=
    shared_nestingConfig titled
  have hload := @Configured.exists_load _ _ _ _ _ _ _ [("b", "a")] (configured_shared titled)
  rw [hadd] at hload
  cases titled <;> exact hload rfl

/-- Both places make the same of a child that is configured as nothing. -/
theorem load_empty_child : ∃ ts us v v',
    (load tutorialPlace "utf-8").start (configWorld true (ownText false)) = (.ok ts, v) ∧
      (load tutorialPlace "utf-8").start (configWorld false (sharedText false)) = (.ok us, v') ∧
      ts = us := by
  obtain ⟨v, hown⟩ := load_own false
  obtain ⟨v', hshared⟩ := load_shared false
  refine ⟨_, _, v, v', hown, hshared, ?_⟩
  have hiff := (load_own_eq_shared_iff (configured_own false) (by decide)
    (configured_shared false) (by decide) hown hshared).1
  rw [hiff, shared_nestingConfig]
  decide

/-- The title that a configuration holds for a child is lost in the file of the parent. -/
theorem inner_title_lost :
    Configured tutorialPlace "utf-8" (configWorld true (ownText true)) twoTutorials "a"
        (nestingConfig true) ∧
      Configured tutorialPlace "utf-8" (configWorld false (sharedText true)) twoTutorials "A"
        [("a", .object (nestingConfig true))] ∧
      ∃ v v', (load tutorialPlace "utf-8").start (configWorld true (ownText true)) =
          (.ok [⟨"a", "a", "", .markdown, [⟨"b", "b", "", .markdown, []⟩]⟩], v) ∧
        (load tutorialPlace "utf-8").start (configWorld false (sharedText true)) =
          (.ok [⟨"a", "a", "", .markdown, [⟨"b", "B!", "", .markdown, []⟩]⟩], v') := by
  obtain ⟨v, hown⟩ := load_own true
  obtain ⟨v', hshared⟩ := load_shared true
  exact ⟨configured_own true, configured_shared true, v, v', hown, hshared⟩

end Plain

end Refsite.Tutorial
