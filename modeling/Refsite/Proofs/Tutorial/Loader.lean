import Refsite.Proofs.Run
import Refsite.Proofs.Tutorial.Forest
import Refsite.Tutorial.Loader
namespace Refsite.Tutorial

theorem names_addNamed_of_mem {t : Tutorial} {ts : List Tutorial}
    (h : t.name ∈ ts.map (·.name)) : (addNamed t ts).map (·.name) = ts.map (·.name) := by
  induction ts with
  | nil => cases h
  | cons u ts ih =>
    rw [addNamed]
    split
    · next heq => rw [List.map_cons, List.map_cons, beq_iff_eq.mp heq]
    · next hne =>
      cases List.mem_cons.mp h with
      | inl heq => exact absurd (beq_iff_eq.mpr heq.symm) hne
      | inr hmem => rw [List.map_cons, List.map_cons, ih hmem]

theorem addNamed_of_notMem {t : Tutorial} {ts : List Tutorial} (h : t.name ∉ ts.map (·.name)) :
    addNamed t ts = ts ++ [t] := by
  induction ts with
  | nil => rfl
  | cons u ts ih =>
    rw [List.map_cons, List.mem_cons, not_or] at h
    rw [addNamed, if_neg fun heq => h.1 (beq_iff_eq.mp heq).symm, ih h.2, List.cons_append]

theorem nodup_names_addNamed {ts : List Tutorial} (h : (ts.map (·.name)).Nodup) (t : Tutorial) :
    ((addNamed t ts).map (·.name)).Nodup := by
  by_cases hmem : t.name ∈ ts.map (·.name)
  · rw [names_addNamed_of_mem hmem]
    exact h
  · rw [addNamed_of_notMem hmem, List.map_append]
    refine List.nodup_append.mpr ⟨h, List.nodup_singleton _, ?_⟩
    rintro name hname other hother rfl
    rw [List.mem_singleton.mp hother] at hname
    exact hmem hname

theorem mem_of_mem_addNamed {t u : Tutorial} {ts : List Tutorial} (h : u ∈ addNamed t ts) :
    u = t ∨ u ∈ ts := by
  induction ts with
  | nil => exact .inl (List.mem_singleton.mp h)
  | cons v ts ih =>
    rw [addNamed] at h
    split at h
    · cases List.mem_cons.mp h with
      | inl heq => exact .inl heq
      | inr hmem => exact .inr (List.mem_cons_of_mem _ hmem)
    · cases List.mem_cons.mp h with
      | inl heq => exact .inr (heq ▸ List.mem_cons_self)
      | inr hmem => exact (ih hmem).imp_right (List.mem_cons_of_mem _)

/-- Tutorials as files hold them: each name once, and no children yet. -/
structure Loose (ts : List Tutorial) : Prop where
  nodup : (ts.map (·.name)).Nodup
  leaf : ∀ t ∈ ts, t.children = []

theorem loose_nil : Loose [] where
  nodup := List.nodup_nil
  leaf := by
    intro t ht
    cases ht

theorem Loose.addNamed {ts : List Tutorial} (h : Loose ts) {t : Tutorial} (ht : t.children = []) :
    Loose (addNamed t ts) where
  nodup := nodup_names_addNamed h.nodup t
  leaf := by
    intro u hu
    cases mem_of_mem_addNamed hu with
    | inl heq => rw [heq, ht]
    | inr hmem => exact h.leaf u hmem

variable [Text.Codecs]

theorem loose_readFiles {directory : Path} {encoding : String} {ts result : List Tutorial}
    {files : List String} {w w' : World} (h : Loose ts)
    (hrun : (readFiles directory encoding ts files).start w = (.ok result, w')) : Loose result := by
  induction files generalizing ts w with
  | nil =>
    obtain ⟨rfl, -⟩ := Run.of_start_pure hrun
    exact h
  | cons name files ih =>
    unfold readFiles at hrun
    dsimp only at hrun
    split at hrun
    · exact ih h hrun
    · obtain ⟨isFile, _, -, hrun⟩ := Run.of_start_bind hrun
      split at hrun
      · obtain ⟨content, _, -, hrun⟩ := Run.of_start_bind hrun
        exact ih (h.addNamed rfl) hrun
      · exact ih h hrun

section Reading

variable {directory : Path} {encoding name content : String} {names : List String}
  {ts : List Tutorial} {format : TutorialFormat} {w : World}

theorem start_readFiles_other (h : formatOf? (directory.child name) = none) :
    (readFiles directory encoding ts (name :: names)).start w =
      (readFiles directory encoding ts names).start w := by
  conv_lhs => unfold readFiles
  dsimp only
  rw [h]

theorem start_readFiles_file (h : formatOf? (directory.child name) = some format)
    (hfile : (Run.isFile (directory.child name)).start w = (.ok true, w))
    (hread : (Run.readText (directory.child name) encoding).start w = (.ok content, w)) :
    (readFiles directory encoding ts (name :: names)).start w =
      (readFiles directory encoding (addNamed ⟨(directory.child name).stem,
        (directory.child name).stem, content, format, []⟩ ts) names).start w := by
  conv_lhs => unfold readFiles
  dsimp only
  rw [h]
  dsimp only
  rw [Run.start_bind_ok hfile, if_pos rfl, Run.start_bind_ok hread]

end Reading

/-- Reading a directory goes from its files to tutorials, configurations, parents and a forest. -/
theorem of_load {directory : Path} {encoding : String} {ts : List Tutorial} {w w' : World}
    (hrun : (load directory encoding).start w = (.ok ts, w')) :
    ∃ files loose v configs ps, w.disk.list directory = .ok files ∧
      (readFiles directory encoding [] (files.mergeSort Text.le)).start w = (.ok loose, v) ∧
      readConfigs v.disk directory (loose.map (·.name)) [] (files.mergeSort Text.le) =
        .ok configs ∧
      (nest configs (loose.map (·.name)) [] (loose.map (·.name))).2 = .ok ps ∧
      ts = forest configs loose ps := by
  obtain ⟨disk, _, hdisk, hrun⟩ := Run.of_start_bind hrun
  obtain ⟨rfl, rfl⟩ := Run.of_start_disk hdisk
  obtain ⟨files, _, hfiles, hrun⟩ := Run.of_start_bind hrun
  obtain ⟨hlist, rfl⟩ := Run.of_start_ofExcept hfiles
  obtain ⟨loose, v, hread, hrun⟩ := Run.of_start_bind hrun
  obtain ⟨disk, _, hdisk, hrun⟩ := Run.of_start_bind hrun
  obtain ⟨rfl, rfl⟩ := Run.of_start_disk hdisk
  obtain ⟨configs, _, hread', hrun⟩ := Run.of_start_bind hrun
  obtain ⟨hconfigs, rfl⟩ := Run.of_start_ofExcept hread'
  cases hnest : nest configs (loose.map (·.name)) [] (loose.map (·.name)) with
  | mk remarks result =>
    rw [hnest] at hrun
    obtain ⟨_, _, -, hrun⟩ := Run.of_start_bind hrun
    obtain ⟨ps, _, hresult, hrun⟩ := Run.of_start_bind hrun
    obtain ⟨rfl, -⟩ := Run.of_start_ofExcept hresult
    obtain ⟨rfl, -⟩ := Run.of_start_pure hrun
    exact ⟨files, loose, v, configs, ps, hlist, hread, hconfigs, congrArg Prod.snd hnest, rfl⟩

/-- A directory whose tutorials, configurations and declarations can be read yields a forest. -/
theorem exists_load {directory : Path} {encoding : String} {files : List String}
    {loose : List Tutorial} {configs : Configs} {ps : Parents} {w v : World}
    (hlist : w.disk.list directory = .ok files)
    (hread : (readFiles directory encoding [] (files.mergeSort Text.le)).start w = (.ok loose, v))
    (hconfigs : readConfigs v.disk directory (loose.map (·.name)) [] (files.mergeSort Text.le) =
      .ok configs)
    (hnest : (nest configs (loose.map (·.name)) [] (loose.map (·.name))).2 = .ok ps) :
    ∃ w', (load directory encoding).start w = (.ok (forest configs loose ps), w') := by
  have hfiles : (Run.ofExcept .disk (w.disk.list directory)).start w = (.ok files, w) := by
    rw [hlist]
    rfl
  have hgiven : (Run.ofExcept .input (.ok configs)).start v = (.ok configs, v) := rfl
  rw [load, Run.start_bind_ok (Run.start_disk w), Run.start_bind_ok hfiles,
    Run.start_bind_ok hread, Run.start_bind_ok (Run.start_disk v), hconfigs,
    Run.start_bind_ok hgiven, Run.start_bind_ok (Run.start_remarkAll _ v), hnest]
  exact ⟨_, rfl⟩

theorem load_spec {directory : Path} {encoding : String} {ts : List Tutorial} {w w' : World}
    (hrun : (load directory encoding).start w = (.ok ts, w')) :
    ∃ configs loose ps, Loose loose ∧ Parents.Sound (loose.map (·.name)) ps ∧
      ts = forest configs loose ps := by
  obtain ⟨_, loose, _, configs, ps, -, hread, -, hnest, rfl⟩ := of_load hrun
  refine ⟨configs, loose, ps, loose_readFiles loose_nil hread, ?_, rfl⟩
  exact sound_nest (Parents.sound_nil _) (List.Subset.refl _) hnest

theorem nodup_of_load {directory : Path} {encoding : String} {ts : List Tutorial} {w w' : World}
    (hrun : (load directory encoding).start w = (.ok ts, w')) : (namesOfAll ts).Nodup := by
  obtain ⟨configs, loose, ps, hloose, hps, rfl⟩ := load_spec hrun
  exact nodup_forest hps hloose.leaf hloose.nodup

end Refsite.Tutorial
