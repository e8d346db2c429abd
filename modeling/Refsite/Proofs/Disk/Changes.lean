import Refsite.Proofs.Disk.Growth
namespace Refsite.Disk

variable {d d' d'' : Disk} {p q source target : Path} {written later : List Path}
  {bytes : List UInt8}

/-- The disk grows, and of the files that were there only those of the paths get new bytes. -/
structure Changes (d : Disk) (written : List Path) (d' : Disk) : Prop where
  grows : d.Grows d'
  located : ∀ p ∈ written, ∃ place, d'.locate p = .ok place
  kept : ∀ {place bytes}, d.entry? place = some (.file bytes) →
    (∀ p ∈ written, d'.locate p ≠ .ok place) → d'.entry? place = some (.file bytes)

theorem Changes.refl (d : Disk) : d.Changes [] d := ⟨.refl d, nofun, fun h _ => h⟩

theorem Changes.trans (h : d.Changes written d') (h' : d'.Changes later d'') :
    d.Changes (written ++ later) d'' where
  grows := h.grows.trans h'.grows
  located := by
    intro p hp
    obtain hp | hp := List.mem_append.mp hp
    · obtain ⟨place, hplace⟩ := h.located p hp
      exact ⟨place, h'.grows.locate hplace⟩
    · exact h'.located p hp
  kept := by
    intro place bytes hfile hother
    refine h'.kept (h.kept hfile fun p hp heq => ?_) fun p hp => ?_
    · exact hother p (List.mem_append_left _ hp) (h'.grows.locate heq)
    · exact hother p (List.mem_append_right _ hp)

/-- A file has its bytes still if no path that was written is the same file. -/
theorem Changes.read (h : d.Changes written d') (hread : d.read p = .ok bytes)
    (hother : ∀ q ∈ written, d'.isSame q p = false) : d'.read p = .ok bytes := by
  obtain ⟨place, hplace, hfile⟩ := read_ok_iff.mp hread
  refine read_ok_iff.mpr ⟨place, h.grows.locate hplace, h.kept hfile fun q hq heq => ?_⟩
  have hsome := h.grows.isSome_entry (Option.isSome_iff_exists.mpr ⟨_, hfile⟩)
  have hsame := isSame_iff.mpr ⟨place, heq, h.grows.locate hplace, hsome⟩
  exact absurd hsame (by rw [hother q hq]; exact Bool.false_ne_true)

theorem changes_put_directory {place : Place} (hnone : d.entry? place = none) :
    d.Changes [] (d.put place .directory) := by
  refine ⟨grows_put_directory hnone, nofun, fun {q bytes} hfile _ => ?_⟩
  have hne : q ≠ place := by
    rintro rfl
    rw [hnone] at hfile
    cases hfile
  rw [entry?_put d (ne_nil_of_entry hnone nofun), if_neg hne, hfile]

theorem makeDirectory_spec (h : d.makeDirectory p = .ok d') :
    d.Changes [] d' ∧ d'.isDirectory p = true := by
  unfold makeDirectory at h
  split at h
  · cases h
  · next place hreach =>
    split at h
    · next hnone =>
      cases h
      obtain ⟨hnull, hlength, hleads⟩ := of_reach_ok hreach
      have hlocate : d.locate p = .ok place :=
        reach_of_leads hnull hlength (hleads.followed (by rw [hnone]; nofun))
      have hchanges := changes_put_directory hnone
      have hput : entry? (d.put place .directory) place = some .directory := by
        rw [entry?_put d (ne_nil_of_entry hnone nofun), if_pos rfl]
      exact ⟨hchanges, isDirectory_iff.mpr ⟨place, hchanges.grows.locate hlocate, hput⟩⟩
    · split at h
      · next hdirectory =>
        cases h
        exact ⟨.refl d, hdirectory⟩
      · cases h

theorem makeDirectoriesFrom_cases {above : Nat}
    (h : d.makeDirectoriesFrom (above + 1) p = .ok d') :
    d.makeDirectory p = .ok d' ∨
      ∃ d₁, d.makeDirectoriesFrom above p.parent = .ok d₁ ∧ d₁.makeDirectory p = .ok d' := by
  rw [makeDirectoriesFrom] at h
  split at h
  · split at h
    · split at h
      · next d₁ hparents => exact .inr ⟨d₁, hparents, h⟩
      · cases h
    · cases h
  · next d₁ hmade => exact .inl (hmade.trans h)

theorem makeDirectoriesFrom_of_makeDirectory (h : d.makeDirectory p = .ok d') (above : Nat) :
    d.makeDirectoriesFrom above p = .ok d' := by
  cases above with
  | zero => exact h
  | succ above => rw [makeDirectoriesFrom, h]

theorem makeDirectoriesFrom_spec {above : Nat} (h : d.makeDirectoriesFrom above p = .ok d') :
    d.Changes [] d' ∧ d'.isDirectory p = true := by
  induction above generalizing p d' with
  | zero => exact makeDirectory_spec h
  | succ above ih =>
    obtain hmade | ⟨d₁, hparents, hmade⟩ := makeDirectoriesFrom_cases h
    · exact makeDirectory_spec hmade
    · obtain ⟨hparents, -⟩ := ih hparents
      obtain ⟨hlast, hdirectory⟩ := makeDirectory_spec hmade
      exact ⟨hparents.trans hlast, hdirectory⟩

theorem makeDirectories_spec (h : d.makeDirectories p = .ok d') :
    d.Changes [] d' ∧ d'.isDirectory p = true := makeDirectoriesFrom_spec h

theorem write_of_ne_directory {place : Place} (hplace : d.locate p = .ok place)
    (hentry : d.entry? place ≠ some .directory) :
    d.write p bytes = .ok (d.put place (.file bytes)) := by
  rw [write, hplace]
  dsimp only
  split
  · next hdirectory => exact absurd hdirectory hentry
  · rfl

theorem write_of_directory {place : Place} (hplace : d.locate p = .ok place)
    (hentry : d.entry? place = some .directory) : d.write p bytes = fail .isDirectory p := by
  rw [write, hplace]
  dsimp only
  rw [hentry]

theorem write_spec (h : d.write p bytes = .ok d') :
    d.Changes [p] d' ∧ d'.read p = .ok bytes := by
  unfold write at h
  split at h
  · cases h
  · next place hplace =>
    split at h
    · cases h
    · next hdirectory =>
      cases h
      have htop := ne_nil_of_entry rfl hdirectory
      have hgrows := grows_put_file hdirectory (ne_link_of_locate hplace) bytes
      have hlocate := hgrows.locate hplace
      refine ⟨⟨hgrows, ?_, ?_⟩, ?_⟩
      · intro q hq
        rw [List.mem_singleton.mp hq]
        exact ⟨place, hlocate⟩
      · intro q bytes' hfile hother
        have hne : q ≠ place := by
          rintro rfl
          exact hother p (List.mem_singleton_self p) hlocate
        rw [entry?_put d htop, if_neg hne, hfile]
      · refine read_ok_iff.mpr ⟨place, hlocate, ?_⟩
        rw [entry?_put d htop, if_pos rfl]

theorem copy_spec (h : d.copy source target = .ok d') : d.Changes [target] d' := by
  unfold copy at h
  split at h
  · cases h
  · cases hread : d.read source with
    | error e =>
      rw [hread] at h
      cases h
    | ok bytes =>
      rw [hread] at h
      exact (write_spec h).1

/-- Two disks that differ in the bytes of files only. -/
structure Alike (d d' : Disk) : Prop where
  grows : d.Grows d'
  back : d'.Grows d

theorem Alike.refl (d : Disk) : d.Alike d := ⟨.refl d, .refl d⟩

theorem Alike.trans (h : d.Alike d') (h' : d'.Alike d'') : d.Alike d'' :=
  ⟨h.grows.trans h'.grows, h'.back.trans h.back⟩

theorem Alike.entry?_none {place : Place} (h : d.Alike d') (hnone : d.entry? place = none) :
    d'.entry? place = none := by
  rw [← Option.not_isSome_iff_eq_none]
  intro hsome
  have hback := h.back.isSome_entry hsome
  rw [hnone] at hback
  cases hback

theorem makeDirectory_of_isDirectory (h : d.isDirectory p = true) : d.makeDirectory p = .ok d := by
  obtain ⟨place, hplace, hdirectory⟩ := isDirectory_iff.mp h
  obtain ⟨hnull, hlength, hleads⟩ := of_reach_ok hplace
  obtain ⟨stop, hleads, hstop⟩ := hleads.unfollowed
  have hsome : (d.entry? stop).isSome = true := by
    obtain rfl | hsome := hstop
    · rw [hdirectory, Option.isSome_some]
    · exact hsome
  obtain ⟨entry, hentry⟩ := Option.isSome_iff_exists.mp hsome
  rw [makeDirectory, reach_of_leads hnull hlength hleads]
  dsimp only
  rw [hentry]
  exact if_pos h

theorem makeDirectories_of_isDirectory (h : d.isDirectory p = true) :
    d.makeDirectories p = .ok d :=
  makeDirectoriesFrom_of_makeDirectory (makeDirectory_of_isDirectory h) _

/-- A file that is there can be written, and nothing else comes of it. -/
theorem exists_write (h : d.isFile p = true) (bytes : List UInt8) :
    ∃ d', d.write p bytes = .ok d' ∧ d.Alike d' := by
  obtain ⟨place, old, hplace, hfile⟩ := isFile_iff.mp h
  have hwrite : d.write p bytes = .ok (d.put place (.file bytes)) := by
    rw [write, hplace]
    dsimp only
    rw [hfile]
  exact ⟨_, hwrite, (write_spec hwrite).1.grows, put_file_grows hfile bytes⟩

end Refsite.Disk
