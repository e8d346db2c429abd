import Refsite.Proofs.Basic
import Refsite.Proofs.Disk.Changes
import Refsite.Proofs.Disk.Follow
namespace Refsite

/-- An entry without the bytes of a file. -/
def DiskEntry.blank : DiskEntry → DiskEntry
  | file _ => file []
  | entry => entry

namespace Disk

variable {hidden : Place → Bool} {d d' : Disk} {here place : Place} {p source target : Path}

def veilEntry (hidden : Place → Bool) (place : Place) (entry : DiskEntry) : DiskEntry :=
  if hidden place then entry.blank else entry

/-- A disk without the bytes of the files at some places. -/
def veil (hidden : Place → Bool) (d : Disk) : Disk :=
  ⟨d.entries.map fun e => (e.1, veilEntry hidden e.1 e.2)⟩

/-- Two disks that differ at most in the bytes of files at some places. -/
def Twins (hidden : Place → Bool) (d d' : Disk) : Prop := d.veil hidden = d'.veil hidden

theorem Twins.refl (hidden : Place → Bool) (d : Disk) : d.Twins hidden d := rfl

theorem entry?_veil (hidden : Place → Bool) (d : Disk) (place : Place) :
    entry? (d.veil hidden) place = (d.entry? place).map (veilEntry hidden place) := by
  by_cases htop : place = []
  · subst htop
    rw [entry?_top, entry?_top, Option.map_some, veilEntry]
    split <;> rfl
  · rw [entry?_of_ne_nil _ htop, entry?_of_ne_nil _ htop, veil]
    generalize d.entries = es
    induction es with
    | nil => rfl
    | cons e es ih =>
      rw [List.map_cons, List.lookup_cons, List.lookup_cons, ih]
      by_cases he : place = e.1
      · subst he
        rw [beq_self_eq_true]
        rfl
      · rw [beq_eq_false_iff_ne.mpr he]

theorem Twins.entry?_veil (h : d.Twins hidden d') (place : Place) :
    (d.entry? place).map (veilEntry hidden place) =
      (d'.entry? place).map (veilEntry hidden place) := by
  rw [← Disk.entry?_veil, ← Disk.entry?_veil, h]

/-- Outside of the hidden places the disks are the same. -/
theorem Twins.entry?_eq (h : d.Twins hidden d') (hplace : hidden place = false) :
    d.entry? place = d'.entry? place := by
  have hid : veilEntry hidden place = id := by
    funext entry
    rw [veilEntry, hplace]
    rfl
  have heq := h.entry?_veil place
  rwa [hid, Option.map_id, id, id] at heq

theorem veilEntry_eq_directory {entry : DiskEntry} :
    veilEntry hidden place entry = .directory ↔ entry = .directory := by
  rw [veilEntry]
  cases entry <;> split <;> simp [DiskEntry.blank]

theorem veilEntry_eq_link {entry : DiskEntry} {target : String} :
    veilEntry hidden place entry = .link target ↔ entry = .link target := by
  rw [veilEntry]
  cases entry <;> split <;> simp [DiskEntry.blank]

theorem isFile_veilEntry (hidden : Place → Bool) (place : Place) (entry : DiskEntry) :
    (veilEntry hidden place entry).isFile = entry.isFile := by
  rw [veilEntry]
  cases entry <;> split <;> rfl

theorem grows_of_twins (h : d.Twins hidden d') : d.Grows d' := by
  constructor
  · intro place hentry
    have heq := h.entry?_veil place
    rw [hentry, Option.map_some, veilEntry_eq_directory.mpr rfl] at heq
    obtain ⟨entry, hentry', hveil⟩ := Option.map_eq_some_iff.mp heq.symm
    rw [hentry', veilEntry_eq_directory.mp hveil]
  · intro place target
    have hiff : ∀ o : Option DiskEntry,
        o = some (.link target) ↔ o.map (veilEntry hidden place) = some (.link target) := by
      intro o
      cases o with
      | none => simp
      | some entry => simp [veilEntry_eq_link]
    rw [hiff, hiff (d.entry? place), h.entry?_veil place]
  · intro place bytes hentry
    have heq := h.entry?_veil place
    rw [hentry, Option.map_some] at heq
    obtain ⟨entry, hentry', hveil⟩ := Option.map_eq_some_iff.mp heq.symm
    have hfile := isFile_veilEntry hidden place entry
    rw [hveil, isFile_veilEntry] at hfile
    cases entry with
    | file bytes' => exact ⟨bytes', hentry'⟩
    | directory => cases hfile
    | link target => cases hfile

theorem Twins.alike (h : d.Twins hidden d') : d.Alike d' :=
  ⟨grows_of_twins h, grows_of_twins h.symm⟩

theorem Alike.symm (h : d.Alike d') : d'.Alike d := ⟨h.back, h.grows⟩

theorem Alike.ne_link (h : d.Alike d') (hlink : ∀ target, d.entry? place ≠ some (.link target))
    (target : String) : d'.entry? place ≠ some (.link target) :=
  fun heq => hlink target (h.grows.link.mp heq)

theorem Alike.walk (h : d.Alike d') (through : Bool) (links : Nat) (here : Place)
    (names : List String) : d'.walk through links here names = d.walk through links here names := by
  -- A walk asks only what kind of entry a place has and where a link leads, never for bytes.
  induction links, here, names using walk.induct d through with
  | case1 links here => rw [Disk.walk, Disk.walk]
  | case2 links here name rest hhere => rw [Disk.walk, Disk.walk, hhere, h.entry?_none hhere]
  | case3 links here name rest bytes hhere =>
    obtain ⟨bytes', hhere'⟩ := h.grows.file hhere
    rw [Disk.walk, Disk.walk, hhere, hhere']
  | case4 links here name rest target hhere =>
    rw [Disk.walk, Disk.walk, hhere, h.grows.link.mpr hhere]
  | case5 links here name rest hhere hup ih =>
    obtain rfl := beq_iff_eq.mp hup
    rw [walk_up hhere, walk_up (h.grows.directory hhere), ih]
  | case6 links here name rest hhere hup hlong =>
    rw [Disk.walk, Disk.walk, hhere, h.grows.directory hhere]
    dsimp only
    rw [if_neg hup, if_pos hlong, if_neg hup, if_pos hlong]
  | case7 links here name rest hhere hup hlong target hlink hlast =>
    have hname : name ≠ Path.up := by simpa using hup
    have hshort := Bool.eq_false_iff.mpr hlong
    rw [walk_link hhere hname hshort hlink,
      walk_link (h.grows.directory hhere) hname hshort (h.grows.link.mpr hlink), if_pos hlast,
      if_pos hlast]
  | case8 here name rest hhere hup hlong target hlink hlast =>
    have hname : name ≠ Path.up := by simpa using hup
    have hshort := Bool.eq_false_iff.mpr hlong
    rw [walk_link hhere hname hshort hlink,
      walk_link (h.grows.directory hhere) hname hshort (h.grows.link.mpr hlink), if_neg hlast,
      if_neg hlast, if_pos rfl, if_pos rfl]
  | case9 here name rest hhere hup hlong target hlink hlast links ih =>
    have hname : name ≠ Path.up := by simpa using hup
    have hshort := Bool.eq_false_iff.mpr hlong
    rw [walk_link hhere hname hshort hlink,
      walk_link (h.grows.directory hhere) hname hshort (h.grows.link.mpr hlink), if_neg hlast,
      if_neg hlast, if_neg (Nat.succ_ne_zero links), if_neg (Nat.succ_ne_zero links)]
    exact ih
  | case10 links here name rest hhere hup hlong hlink ih =>
    have hname : name ≠ Path.up := by simpa using hup
    have hshort := Bool.eq_false_iff.mpr hlong
    rw [walk_down hhere hname hshort hlink,
      walk_down (h.grows.directory hhere) hname hshort (h.ne_link hlink), ih]

theorem Alike.follow (h : d.Alike d') (links : Nat) (here : Place) (names : List String) :
    d'.follow links here names = d.follow links here names := by
  induction links, here, names using follow.induct d with
  | case1 links here => rw [follow_nil, follow_nil]
  | case2 links here name rest hup ih =>
    rw [follow_up hup, follow_up hup, ih]
  | case3 here name rest hup links target hlink ih =>
    rw [follow_link hup hlink, follow_link hup (h.grows.link.mpr hlink), ih]
  | case4 here name rest hup links hlink ih =>
    rw [follow_down hup hlink, follow_down hup, ih]
    intro more target hlinks
    exact h.ne_link (fun target => hlink more target hlinks) target

theorem Alike.reach (h : d.Alike d') (through : Bool) (p : Path) :
    d'.reach through p = d.reach through p := by
  rw [Disk.reach, Disk.reach, h.walk]

theorem Alike.locate (h : d.Alike d') (p : Path) : d'.locate p = d.locate p := h.reach true p

theorem Alike.resolve (h : d.Alike d') (p : Path) : d'.resolve p = d.resolve p := by
  rw [Disk.resolve, Disk.resolve, h.follow]

theorem Alike.any_isFile (h : d.Alike d') (place : Place) :
    (d'.entry? place).any DiskEntry.isFile = (d.entry? place).any DiskEntry.isFile := by
  cases hentry : d.entry? place with
  | none => rw [h.entry?_none hentry]
  | some entry =>
    cases entry with
    | file bytes =>
      obtain ⟨bytes', hentry'⟩ := h.grows.file hentry
      rw [hentry']
      rfl
    | directory => rw [h.grows.directory hentry]
    | link target => rw [h.grows.link.mpr hentry]

theorem Alike.isSome_entry (h : d.Alike d') (place : Place) :
    (d'.entry? place).isSome = (d.entry? place).isSome := by
  rw [Bool.eq_iff_iff]
  exact ⟨h.back.isSome_entry, h.grows.isSome_entry⟩

theorem Alike.entry?_directory (h : d.Alike d') (place : Place) :
    d'.entry? place = some .directory ↔ d.entry? place = some .directory :=
  ⟨h.back.directory, h.grows.directory⟩

theorem Alike.isFile (h : d.Alike d') (p : Path) : d'.isFile p = d.isFile p := by
  rw [Bool.eq_iff_iff]
  exact ⟨h.back.isFile, h.grows.isFile⟩

theorem Alike.isDirectory (h : d.Alike d') (p : Path) : d'.isDirectory p = d.isDirectory p := by
  rw [Bool.eq_iff_iff]
  exact ⟨h.back.isDirectory, h.grows.isDirectory⟩

theorem Alike.isSame (h : d.Alike d') (p q : Path) : d'.isSame p q = d.isSame p q := by
  rw [Bool.eq_iff_iff]
  exact ⟨h.back.isSame, h.grows.isSame⟩

/-- A path that leads to no hidden place. -/
def Shows (hidden : Place → Bool) (d : Disk) (p : Path) : Prop :=
  ∀ place, d.locate p = .ok place → hidden place = false

theorem Twins.read (h : d.Twins hidden d') (hp : d.Shows hidden p) : d'.read p = d.read p := by
  rw [Disk.read, Disk.read, h.alike.locate]
  cases hplace : d.locate p with
  | error obstacle => rfl
  | ok place =>
    dsimp only
    rw [h.entry?_eq (hp place hplace)]

theorem Twins.namesIn (h : d.Twins hidden d') (place : Place) :
    d'.namesIn place = d.namesIn place := by
  have hveil : ∀ d : Disk, (d.veil hidden).namesIn place = d.namesIn place := by
    intro d
    rw [Disk.namesIn, Disk.namesIn, veil, List.filterMap_map]
    rfl
  rw [← hveil d, ← hveil d', h]

theorem Twins.list (h : d.Twins hidden d') (p : Path) : d'.list p = d.list p := by
  rw [Disk.list, Disk.list, h.alike.locate]
  cases d.locate p with
  | error obstacle => rfl
  | ok place =>
    dsimp only
    cases hentry : d.entry? place with
    | none => rw [h.alike.entry?_none hentry]
    | some entry =>
      cases entry with
      | file bytes =>
        obtain ⟨bytes', hentry'⟩ := h.alike.grows.file hentry
        rw [hentry']
      | directory => rw [h.alike.grows.directory hentry, h.namesIn]
      | link target => rw [h.alike.grows.link.mpr hentry]

/-- What stands below a place, as far as it is not hidden. -/
theorem Twins.placesBelow (h : d.Twins hidden d') (place : Place) :
    (d'.placesBelow place).map (fun e => (e.1, e.2.isFile)) =
      (d.placesBelow place).map fun e => (e.1, e.2.isFile) := by
  have hveil : ∀ d : Disk, ((d.veil hidden).placesBelow place).map (fun e => (e.1, e.2.isFile)) =
      (d.placesBelow place).map fun e => (e.1, e.2.isFile) := by
    intro d
    rw [Disk.placesBelow, Disk.placesBelow, veil, List.filterMap_map, List.map_filterMap,
      List.map_filterMap]
    congr 1
    funext e
    dsimp only [Function.comp]
    split
    · rw [Option.map_some, Option.map_some, isFile_veilEntry]
    · rfl
  rw [← hveil d, ← hveil d', h]

theorem Twins.scan (h : d.Twins hidden d') (p : Path) :
    (d'.scan p).map (fun e => (e.1, e.2.isFile)) = (d.scan p).map fun e => (e.1, e.2.isFile) := by
  rw [Disk.scan, Disk.scan, h.alike.locate]
  cases d.locate p with
  | error obstacle => rfl
  | ok place =>
    dsimp only
    by_cases hentry : d.entry? place = some .directory
    · rw [if_pos (beq_iff_eq.mpr hentry),
        if_pos (beq_iff_eq.mpr ((h.alike.entry?_directory place).mpr hentry))]
      exact h.placesBelow place
    · rw [if_neg (mt beq_iff_eq.mp hentry),
        if_neg (mt beq_iff_eq.mp (mt (h.alike.entry?_directory place).mp hentry))]

/-- Results of changing a disk that are the same but for hidden bytes. -/
def SameChange (hidden : Place → Bool) (x y : Except DiskError Disk) : Prop :=
  x.map (veil hidden) = y.map (veil hidden)

theorem SameChange.exists_ok {x y : Except DiskError Disk} (h : SameChange hidden x y)
    (hx : x = .ok d) : ∃ d', y = .ok d' ∧ d.Twins hidden d' := by
  rw [SameChange, hx] at h
  obtain ⟨d', hy, hveil⟩ := exists_of_map_ok h.symm
  exact ⟨d', hy, hveil.symm⟩

theorem SameChange.eq_error {x y : Except DiskError Disk} {e : DiskError}
    (h : SameChange hidden x y) (hx : x = .error e) : y = .error e := by
  rw [SameChange, hx] at h
  cases y with
  | error e' => exact congrArg Except.error (Except.error.inj h).symm
  | ok d => cases h

theorem Twins.put (h : d.Twins hidden d') {entry entry' : DiskEntry}
    (hentry : veilEntry hidden place entry = veilEntry hidden place entry') :
    (d.put place entry).Twins hidden (d'.put place entry') := by
  have hveil : ∀ (d : Disk) entry, (d.put place entry).veil hidden =
      (d.veil hidden).put place (veilEntry hidden place entry) := by
    intro d entry
    rw [Disk.put, Disk.put, veil, veil, List.map_append, List.filter_map]
    rfl
  rw [Twins, hveil, hveil, h, hentry]

theorem Twins.sameChange_ok (h : d.Twins hidden d') : SameChange hidden (.ok d) (.ok d') :=
  congrArg Except.ok h

theorem sameChange_fail (obstacle : Obstacle) (p : Path) :
    SameChange hidden (fail obstacle p) (fail obstacle p) := rfl

theorem Twins.makeDirectory (h : d.Twins hidden d') (p : Path) :
    SameChange hidden (d.makeDirectory p) (d'.makeDirectory p) := by
  rw [Disk.makeDirectory, Disk.makeDirectory, h.alike.reach]
  cases d.reach false p with
  | error obstacle => exact sameChange_fail obstacle p
  | ok place =>
    dsimp only
    cases hentry : d.entry? place with
    | none =>
      rw [h.alike.entry?_none hentry]
      exact (h.put rfl).sameChange_ok
    | some entry =>
      have hsome := h.alike.isSome_entry place
      rw [hentry] at hsome
      obtain ⟨entry', hentry'⟩ := Option.isSome_iff_exists.mp hsome
      rw [hentry', h.alike.isDirectory]
      dsimp only
      split
      · exact h.sameChange_ok
      · exact sameChange_fail _ p

theorem Twins.makeDirectoriesFrom (h : d.Twins hidden d') (above : Nat) (p : Path) :
    SameChange hidden (d.makeDirectoriesFrom above p) (d'.makeDirectoriesFrom above p) := by
  induction above generalizing p with
  | zero => exact h.makeDirectory p
  | succ above ih =>
    have hmade := h.makeDirectory p
    rw [Disk.makeDirectoriesFrom, Disk.makeDirectoriesFrom]
    cases hfirst : d.makeDirectory p with
    | ok made =>
      obtain ⟨made', hfirst', htwins⟩ := hmade.exists_ok hfirst
      rw [hfirst']
      exact htwins.sameChange_ok
    | error e =>
      rw [hmade.eq_error hfirst]
      dsimp only
      split
      · cases hparents : d.makeDirectoriesFrom above p.parent with
        | ok made =>
          obtain ⟨made', hparents', htwins⟩ := (ih p.parent).exists_ok hparents
          rw [hparents']
          exact htwins.makeDirectory p
        | error e =>
          rw [(ih p.parent).eq_error hparents]
          rfl
      · rfl

theorem Twins.makeDirectories (h : d.Twins hidden d') (p : Path) :
    SameChange hidden (d.makeDirectories p) (d'.makeDirectories p) :=
  h.makeDirectoriesFrom _ p

/-- Writing the same bytes, or any to a hidden place. -/
theorem Twins.write (h : d.Twins hidden d') {bytes bytes' : List UInt8}
    (hbytes : bytes = bytes' ∨ ∀ place, d.locate p = .ok place → hidden place = true) :
    SameChange hidden (d.write p bytes) (d'.write p bytes') := by
  have hlocate := h.alike.locate p
  cases hplace : d.locate p with
  | error obstacle =>
    rw [hplace] at hlocate
    rw [Disk.write, Disk.write, hplace, hlocate]
    exact sameChange_fail obstacle p
  | ok place =>
    rw [hplace] at hlocate
    have hdirectory := h.alike.entry?_directory place
    by_cases hentry : d.entry? place = some .directory
    · rw [write_of_directory hplace hentry, write_of_directory hlocate (hdirectory.mpr hentry)]
      exact sameChange_fail _ p
    · rw [write_of_ne_directory hplace hentry,
        write_of_ne_directory hlocate (mt hdirectory.mp hentry)]
      apply Twins.sameChange_ok
      apply h.put
      obtain rfl | hhidden := hbytes
      · rfl
      · rw [veilEntry, veilEntry, if_pos (hhidden place hplace), if_pos (hhidden place hplace)]
        rfl

theorem Twins.copy (h : d.Twins hidden d') (hsource : d.Shows hidden source) :
    SameChange hidden (d.copy source target) (d'.copy source target) := by
  rw [Disk.copy, Disk.copy, h.alike.isSame, h.read hsource]
  split
  · exact sameChange_fail _ _
  · cases d.read source with
    | error e => rfl
    | ok bytes => exact h.write (.inl rfl)

end Disk

end Refsite
