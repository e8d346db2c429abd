import Refsite.Proofs.Site.Snapshots
import Refsite.Proofs.Site.Writing
namespace Refsite

open Schema Schema.Checked

namespace Snapshot

inductive Conforms : Snapshot → Json → Prop
  | docsRaw {items : List Json} (hitems : ∀ x ∈ items, ∃ es, x = .object es) :
      Conforms .docsRaw (.array items)
  | docs {items : List Json} (hitems : ∀ x ∈ items, (Symbol.read x).Passes) :
      Conforms .docs (.array items)
  | members {es : Json.Entries} (hnames : ∀ name ∈ es.names, name ∈ Members.categoryNames)
      (hrecord : (Members.check (.object es)).Passes) : Conforms .members (.object es)
  | nav {items : List Json} (hitems : ∀ x ∈ items, (NavNode.check x).Passes) :
      Conforms .nav (.array items)
  | tree {es : Json.Entries} (hrecord : (Tree.check (.object es)).Passes) :
      Conforms .tree (.object es)

theorem rawProblems_warn_iff {items : List Json} {position : Nat} :
    (∀ p ∈ rawProblems position items, p.2.isWarning) ↔ ∀ x ∈ items, ∃ es, x = .object es := by
  induction items generalizing position with
  | nil => exact iff_of_true nofun nofun
  | cons x items ih =>
    cases x with
    | object es =>
      rw [rawProblems, ih, List.forall_mem_cons]
      exact ⟨fun h => ⟨⟨es, rfl⟩, h⟩, fun h => h.2⟩
    | null | bool _ | int _ | float _ | string _ | array _ =>
      refine iff_of_false (fun h => ?_) (fun h => ?_)
      · exact absurd (h _ List.mem_cons_self) Bool.false_ne_true
      · obtain ⟨_, hes⟩ := h _ List.mem_cons_self
        cases hes

theorem docsProblems_warn_iff {items : List Json} {position : Nat} {seen : List String} :
    (∀ p ∈ docsProblems position seen items, p.2.isWarning) ↔
      ∀ x ∈ items, (Symbol.read x).Passes := by
  refine ⟨fun h => ?_, fun h => isWarning_docsProblems h position seen⟩
  induction items generalizing position seen with
  | nil => nofun
  | cons x items ih =>
    rw [docsProblems] at h
    split at h
    · next faults hx => exact absurd (h _ List.mem_cons_self) Bool.false_ne_true
    · next s hx =>
      have hrest : ∀ p ∈ docsProblems (position + 1) (s.longname :: seen) items, p.2.isWarning :=
        fun p hp => h p (List.mem_append_right _ hp)
      exact List.forall_mem_cons.mpr ⟨⟨s, hx⟩, ih hrest⟩

theorem unfitProblem_warn_iff {c : Checked Unit} :
    (∀ p ∈ unfitProblem c, p.2.isWarning) ↔ c.Passes := by
  cases c with
  | ok a => exact iff_of_true nofun (passes_ok a)
  | bad faults =>
    refine iff_of_false (fun h => ?_) (not_passes_bad faults)
    exact absurd (h _ (List.mem_singleton_self _)) Bool.false_ne_true

theorem unknownCategories_warn_iff {es : Json.Entries} :
    (∀ p ∈ (Members.unknownCategories es).map fun name =>
      ((none : Option Nat), Problem.unknownCategory name), p.2.isWarning) ↔
      ∀ name ∈ es.names, name ∈ Members.categoryNames := by
  have hmem : ∀ name, name ∈ Members.unknownCategories es ↔
      name ∈ es.names ∧ name ∉ Members.categoryNames := by
    intro name
    rw [Members.unknownCategories, List.mem_mergeSort, others]
    simp only [Json.Entries.names, List.mem_map, List.mem_filter]
    grind
  constructor
  · intro h name hname
    by_contra hunknown
    have hfound := h _ (List.mem_map_of_mem ((hmem name).mpr ⟨hname, hunknown⟩))
    exact absurd hfound Bool.false_ne_true
  · intro h p hp
    obtain ⟨name, hname, rfl⟩ := List.mem_map.mp hp
    obtain ⟨hthere, hunknown⟩ := (hmem name).mp hname
    exact absurd (h name hthere) hunknown

/-- Nothing but warnings is found about a value exactly if it is null or has the right shape. -/
theorem problems_warn_iff {s : Snapshot} {x : Json} :
    (∀ p ∈ s.problems x, p.2.isWarning) ↔ x = .null ∨ s.Conforms x := by
  constructor
  · intro h
    unfold problems at h
    split at h
    · exact .inl rfl
    · exact .inr (.docsRaw (rawProblems_warn_iff.mp h))
    · exact .inr (.docs (docsProblems_warn_iff.mp h))
    · obtain ⟨hnames, hrecord⟩ := List.forall_mem_append.mp h
      exact .inr (.members (unknownCategories_warn_iff.mp hnames)
        (unfitProblem_warn_iff.mp hrecord))
    · have hitems := unfitProblem_warn_iff.mp h
      rw [passes_only, passes_list] at hitems
      exact .inr (.nav hitems)
    · exact .inr (.tree (unfitProblem_warn_iff.mp h))
    all_goals exact absurd (h _ (List.mem_singleton_self _)) Bool.false_ne_true
  · rintro (rfl | h)
    · cases s <;> nofun
    · cases h with
      | docsRaw hitems => exact rawProblems_warn_iff.mpr hitems
      | docs hitems => exact docsProblems_warn_iff.mpr hitems
      | members hnames hrecord =>
        exact List.forall_mem_append.mpr
          ⟨unknownCategories_warn_iff.mpr hnames, unfitProblem_warn_iff.mpr hrecord⟩
      | nav hitems => exact unfitProblem_warn_iff.mpr (by rwa [passes_only, passes_list])
      | tree hrecord => exact unfitProblem_warn_iff.mpr hrecord

variable {d : Disk} {directory file : Path} {s : Snapshot}

def StandsIn (d : Disk) (file : Path) (s : Snapshot) : Prop :=
  ∃ bytes x, d.read file = .ok bytes ∧ Json.ofBytes? bytes = some x ∧ (x = .null ∨ s.Conforms x)

theorem fileProblems_warn_iff :
    (∀ p ∈ fileProblems d file s, p.2.isWarning) ↔ s.StandsIn d file := by
  have hbad : ¬∀ p ∈ [((none : Option Nat), Problem.notJson)], p.2.isWarning :=
    fun h => absurd (h _ (List.mem_singleton_self _)) Bool.false_ne_true
  rw [fileProblems, StandsIn]
  cases d.read file with
  | error e => exact iff_of_false hbad nofun
  | ok bytes =>
    simp only [Except.toOption, Option.bind_some, Except.ok.injEq, ↓existsAndEq, true_and]
    cases Json.ofBytes? bytes with
    | none => exact iff_of_false hbad nofun
    | some x =>
      simp only [Option.some.injEq, exists_eq_left']
      exact problems_warn_iff

theorem isSome_look_of_read {bytes : List UInt8} (h : d.read file = .ok bytes) :
    ∃ entry, d.look file = .ok (some entry) := by
  obtain ⟨place, hplace, hfile⟩ := Disk.read_ok_iff.mp h
  exact ⟨_, (Disk.look_of_locate hplace).trans (congrArg _ hfile)⟩

theorem snapshotFindings_warn_iff :
    (∃ found, snapshotFindings d directory s = .ok found ∧ ∀ f ∈ found, f.problem.isWarning) ↔
      s.StandsIn d (s.path directory) := by
  rw [← fileProblems_warn_iff]
  constructor
  · rintro ⟨found, hfound, hwarn⟩
    obtain ⟨entry, hlook, hfound⟩ := of_bind_ok hfound
    cases hfound
    cases entry with
    | none => exact absurd (hwarn _ (List.mem_singleton_self _)) Bool.false_ne_true
    | some entry => exact fun p hp => hwarn _ (List.mem_map_of_mem hp)
  · intro hwarn
    obtain ⟨bytes, x, hread, -, -⟩ := fileProblems_warn_iff.mp hwarn
    obtain ⟨entry, hlook⟩ := isSome_look_of_read hread
    refine ⟨(fileProblems d (s.path directory) s).map fun p =>
      ⟨some s, s.path directory, p.1, p.2⟩, ?_, ?_⟩
    · rw [snapshotFindings]
      dsimp only
      rw [← path, hlook]
      rfl
    · intro f hf
      obtain ⟨p, hp, rfl⟩ := List.mem_map.mp hf
      exact hwarn p hp

theorem mem_all (s : Snapshot) : s ∈ all := by
  cases s <;> decide

theorem findings_warn_iff :
    (∃ found, findings d directory = .ok found ∧ ∀ f ∈ found, f.problem.isWarning) ↔
      d.isDirectory directory = true ∧ ∀ s : Snapshot, s.StandsIn d (s.path directory) := by
  constructor
  · rintro ⟨found, hfound, hwarn⟩
    obtain ⟨entry, hlook, hfound⟩ := of_bind_ok hfound
    have hsingle : ∀ problem : Problem, problem.isWarning = false →
        found ≠ [⟨none, directory, none, problem⟩] := by
      rintro problem hproblem rfl
      have h := hwarn _ (List.mem_singleton_self _)
      rw [hproblem] at h
      cases h
    match entry with
    | none => exact absurd (Except.ok.inj hfound).symm (hsingle _ rfl)
    | some (.file _) | some (.link _) => exact absurd (Except.ok.inj hfound).symm (hsingle _ rfl)
    | some .directory =>
      obtain ⟨founds, hfounds, hfound⟩ := of_bind_ok hfound
      cases hfound
      have heach := exists_mapM_ok_iff.mp
        ⟨founds, hfounds, fun b hb f hf => hwarn f (List.mem_flatten.mpr ⟨b, hb, hf⟩)⟩
      refine ⟨Disk.isDirectory_of_look hlook, fun s => ?_⟩
      exact snapshotFindings_warn_iff.mp (heach s s.mem_all)
  · rintro ⟨hdirectory, hstands⟩
    obtain ⟨founds, hfounds, hwarn⟩ := exists_mapM_ok_iff.mpr fun s (_ : s ∈ all) =>
      snapshotFindings_warn_iff.mpr (hstands s)
    refine ⟨founds.flatten, ?_, fun f hf => ?_⟩
    · rw [findings, Disk.look_of_isDirectory hdirectory, hfounds]
      rfl
    · obtain ⟨b, hb, hf⟩ := List.mem_flatten.mp hf
      exact hwarn b hb f hf

end Snapshot

namespace Site

variable {directory : Path} {w : World}

theorem isClean_ofFindings_iff {found : List Finding} :
    (Report.ofFindings found).isClean = true ↔ ∀ f ∈ found, f.problem.isWarning := by
  rw [Report.isClean, List.isEmpty_iff, Report.ofFindings, List.filter_eq_nil_iff]
  simp

theorem isClean_validate_iff :
    (∃ report, (validate directory).start w = (.ok report, w) ∧ report.isClean = true) ↔
      ∃ found, Snapshot.findings w.disk directory = .ok found ∧
        ∀ f ∈ found, f.problem.isWarning := by
  have hstart : (validate directory).start w =
      ((Snapshot.findings w.disk directory).map Report.ofFindings |>.mapError Failure.disk, w) := by
    rw [validate, Run.start_bind_ok (Run.start_disk w)]
    cases Snapshot.findings w.disk directory <;> rfl
  rw [hstart]
  constructor
  · rintro ⟨report, hreport, hclean⟩
    obtain ⟨found, hfound, rfl⟩ := exists_of_map_ok (of_mapError_ok (congrArg Prod.fst hreport))
    exact ⟨found, hfound, isClean_ofFindings_iff.mp hclean⟩
  · rintro ⟨found, hfound, hwarn⟩
    rw [hfound]
    exact ⟨.ofFindings found, rfl, isClean_ofFindings_iff.mpr hwarn⟩

/-- A directory validates exactly if it is there and each of its snapshots is there, is JSON, and is
null or has the right shape. -/
theorem validate_isClean_iff :
    (∃ report, (validate directory).start w = (.ok report, w) ∧ report.isClean = true) ↔
      w.disk.isDirectory directory = true ∧
        ∀ s : Snapshot, ∃ bytes x, w.disk.read (s.path directory) = .ok bytes ∧
          Json.ofBytes? bytes = some x ∧ (x = .null ∨ s.Conforms x) :=
  isClean_validate_iff.trans Snapshot.findings_warn_iff

/-- What stands in the files of a directory without symbols, but for the sidebar: there stands a
null. -/
def sparse : Snapshot → String × Json
  | .docsRaw | .docs => ("[]", .array [])
  | .members | .tree => ("\x7b\x7d", .object [])
  | .nav => ("null", .null)

def nullSidebar : Disk where
  entries :=
    (["o"], .directory) :: (["o", "dist"], .directory) ::
      Snapshot.all.map fun s =>
        (["o", "dist", s.fileName], .file (Text.Utf8.encode (sparse s).1.toList))

theorem read_nullSidebar (s : Snapshot) :
    nullSidebar.read (s.path ⟨false, ["o"]⟩) = .ok (Text.Utf8.encode (sparse s).1.toList) := by
  cases s <;> exact Disk.read_ok_iff.mpr ⟨_, Disk.locate_of_isPlainPath rfl, rfl⟩

theorem ofBytes?_sparse (s : Snapshot) :
    Json.ofBytes? (Text.Utf8.encode (sparse s).1.toList) = some (sparse s).2 := by
  cases s <;> decide +kernel

/-- A sidebar that is null is valid, and is no list. -/
theorem null_sidebar_clean :
    (∃ report, (validate ⟨false, ["o"]⟩).start { disk := nullSidebar } =
        (.ok report, { disk := nullSidebar }) ∧ report.isClean = true) ∧
      nullSidebar.read (Snapshot.path ⟨false, ["o"]⟩ .nav) =
        .ok (Text.Utf8.encode "null".toList) ∧
      Json.ofBytes? (Text.Utf8.encode "null".toList) = some .null ∧
      ¬Snapshot.Conforms .nav .null := by
  refine ⟨?_, read_nullSidebar .nav, ofBytes?_sparse .nav, nofun⟩
  have hdirectory : nullSidebar.isDirectory ⟨false, ["o"]⟩ = true :=
    Disk.isDirectory_of_isPlainPath rfl rfl
  refine isClean_validate_iff.mpr (Snapshot.findings_warn_iff.mpr ⟨hdirectory, fun s => ?_⟩)
  refine ⟨_, _, read_nullSidebar s, ofBytes?_sparse s, ?_⟩
  cases s with
  | docsRaw => exact .inr (.docsRaw nofun)
  | docs => exact .inr (.docs nofun)
  | members => exact .inr (.members nofun ⟨(), by decide +kernel⟩)
  | nav => exact .inl rfl
  | tree => exact .inr (.tree ⟨(), by decide +kernel⟩)

end Site

end Refsite
