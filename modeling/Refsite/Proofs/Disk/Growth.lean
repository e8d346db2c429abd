import Refsite.Proofs.Basic
import Refsite.Proofs.Disk.Follow
namespace Refsite.Disk

variable {d d' d'' : Disk} {here place : Place} {p q : Path}

theorem entry?_top (d : Disk) : d.entry? [] = some .directory := rfl

theorem entry?_of_ne_nil (d : Disk) (h : place ≠ []) : d.entry? place = d.entries.lookup place :=
  if_neg (by simpa using h)

theorem entry?_put (d : Disk) (hplace : place ≠ []) (entry : DiskEntry) (q : Place) :
    entry? (d.put place entry) q = if q = place then some entry else d.entry? q := by
  by_cases htop : q = []
  · subst htop
    rw [if_neg hplace.symm, entry?_top, entry?_top]
  · rw [entry?_of_ne_nil _ htop, entry?_of_ne_nil _ htop, put, List.lookup_append,
      lookup_filter_key, List.lookup_cons]
    by_cases hq : q = place
    · rw [if_pos hq, hq, beq_self_eq_true]
      rfl
    · rw [if_neg hq, beq_false_of_ne hq]
      exact Option.or_none

theorem ne_nil_of_entry {o : Option DiskEntry} (h : d.entry? place = o)
    (hne : o ≠ some .directory) : place ≠ [] := by
  rintro rfl
  exact hne h.symm

/-- All of a disk is still there: directories and links as they were, files with any bytes. There is
no new link. -/
structure Grows (d d' : Disk) : Prop where
  directory : ∀ {place}, d.entry? place = some .directory → d'.entry? place = some .directory
  link : ∀ {place target},
    d'.entry? place = some (.link target) ↔ d.entry? place = some (.link target)
  file : ∀ {place bytes}, d.entry? place = some (.file bytes) →
    ∃ bytes', d'.entry? place = some (.file bytes')

theorem Grows.refl (d : Disk) : d.Grows d := ⟨id, .rfl, fun h => ⟨_, h⟩⟩

theorem Grows.trans (h : d.Grows d') (h' : d'.Grows d'') : d.Grows d'' where
  directory hd := h'.directory (h.directory hd)
  link := h'.link.trans h.link
  file hf := by
    obtain ⟨bytes, hf⟩ := h.file hf
    exact h'.file hf

theorem Grows.isSome_entry (h : d.Grows d') (hsome : (d.entry? place).isSome) :
    (d'.entry? place).isSome := by
  obtain ⟨entry, hentry⟩ := Option.isSome_iff_exists.mp hsome
  cases entry with
  | file bytes =>
    obtain ⟨bytes', h'⟩ := h.file hentry
    rw [h', Option.isSome_some]
  | directory => rw [h.directory hentry, Option.isSome_some]
  | link target => rw [h.link.mpr hentry, Option.isSome_some]

/-- Where there is nothing or a file, a file may be put. -/
theorem grows_put_file (hdirectory : d.entry? place ≠ some .directory)
    (hlink : ∀ target, d.entry? place ≠ some (.link target)) (bytes : List UInt8) :
    d.Grows (d.put place (.file bytes)) := by
  have hplace := ne_nil_of_entry rfl hdirectory
  constructor
  · intro q hq
    have hne : q ≠ place := fun heq => hdirectory (heq ▸ hq)
    rw [entry?_put d hplace, if_neg hne, hq]
  · intro q target
    rw [entry?_put d hplace]
    split
    · next heq => exact iff_of_false nofun (heq ▸ hlink target)
    · exact .rfl
  · intro q bytes' hq
    rw [entry?_put d hplace]
    split
    · exact ⟨bytes, rfl⟩
    · exact ⟨bytes', hq⟩

theorem put_file_grows {old : List UInt8} (hfile : d.entry? place = some (.file old))
    (bytes : List UInt8) : (d.put place (.file bytes)).Grows d := by
  have hplace := ne_nil_of_entry hfile nofun
  constructor
  · intro q hq
    rw [entry?_put d hplace] at hq
    split at hq
    · cases hq
    · exact hq
  · intro q target
    rw [entry?_put d hplace]
    split
    · next heq => exact iff_of_false (by rw [heq, hfile]; nofun) nofun
    · exact .rfl
  · intro q bytes' hq
    rw [entry?_put d hplace] at hq
    split at hq
    · next heq => exact ⟨old, heq ▸ hfile⟩
    · exact ⟨bytes', hq⟩

theorem grows_put_directory (hnone : d.entry? place = none) :
    d.Grows (d.put place .directory) := by
  have hplace := ne_nil_of_entry hnone nofun
  have hne : ∀ {q entry}, d.entry? q = some entry → q ≠ place := by
    rintro q entry hq rfl
    rw [hnone] at hq
    cases hq
  constructor
  · intro q hq
    rw [entry?_put d hplace, if_neg (hne hq), hq]
  · intro q target
    rw [entry?_put d hplace]
    split
    · next heq => exact iff_of_false nofun (by rw [heq, hnone]; nofun)
    · exact .rfl
  · intro q bytes hq
    exact ⟨bytes, by rw [entry?_put d hplace, if_neg (hne hq), hq]⟩

/-- A walk that comes to a place, step by step. -/
inductive Leads (d : Disk) (through : Bool) : (links : Nat) → Place → List String → Place → Prop
  | done {links here} : Leads d through links here [] here
  | up {links here rest place} (hhere : d.entry? here = some .directory)
      (hrest : Leads d through links here.dropLast rest place) :
      Leads d through links here (Path.up :: rest) place
  | atLink {links here name target} (hhere : d.entry? here = some .directory)
      (hname : name ≠ Path.up) (hshort : isLongName name = false)
      (hlink : d.entry? (here ++ [name]) = some (.link target)) (hthrough : through = false) :
      Leads d through links here [name] (here ++ [name])
  | follow {links here name rest target place} (hhere : d.entry? here = some .directory)
      (hname : name ≠ Path.up) (hshort : isLongName name = false)
      (hlink : d.entry? (here ++ [name]) = some (.link target))
      (hthrough : (rest.isEmpty && !through) = false)
      (hrest : Leads d through links (linkStart here target) (Path.namesOf target ++ rest) place) :
      Leads d through (links + 1) here (name :: rest) place
  | down {links here name rest place} (hhere : d.entry? here = some .directory)
      (hname : name ≠ Path.up) (hshort : isLongName name = false)
      (hlink : ∀ target, d.entry? (here ++ [name]) ≠ some (.link target))
      (hrest : Leads d through links (here ++ [name]) rest place) :
      Leads d through links here (name :: rest) place

variable {through : Bool} {links : Nat} {name target : String} {names rest : List String}

theorem walk_up (hhere : d.entry? here = some .directory) :
    d.walk through links here (Path.up :: rest) = d.walk through links here.dropLast rest := by
  rw [walk, hhere]
  rfl

section Named

variable (hhere : d.entry? here = some .directory) (hname : name ≠ Path.up)
  (hshort : isLongName name = false)

include hhere hname hshort

/-- At a link the walk stops, if it is last and not to be followed, or goes on from its target. -/
theorem walk_link (hlink : d.entry? (here ++ [name]) = some (.link target)) :
    d.walk through links here (name :: rest) =
      if rest.isEmpty && !through then .ok (here ++ [name])
      else if links = 0 then .error .tooManyLinks
      else d.walk through (links - 1) (linkStart here target) (Path.namesOf target ++ rest) := by
  rw [walk, hhere]
  dsimp only
  rw [if_neg (by simpa using hname), hshort, if_neg Bool.false_ne_true, hlink]
  cases links with
  | zero => rfl
  | succ links => rfl

theorem walk_down (hlink : ∀ target, d.entry? (here ++ [name]) ≠ some (.link target)) :
    d.walk through links here (name :: rest) = d.walk through links (here ++ [name]) rest := by
  rw [walk, hhere]
  dsimp only
  rw [if_neg (by simpa using hname), hshort, if_neg Bool.false_ne_true]
  cases hentry : d.entry? (here ++ [name]) with
  | none => rfl
  | some entry =>
    cases entry with
    | file bytes => rfl
    | directory => rfl
    | link target => exact absurd hentry (hlink target)

end Named

theorem leads_of_walk (h : d.walk through links here names = .ok place) :
    d.Leads through links here names place := by
  induction links, here, names using walk.induct d through with
  | case1 links here =>
    rw [walk] at h
    cases h
    exact .done
  | case2 links here name rest hhere | case3 links here name rest _ hhere
  | case4 links here name rest _ hhere =>
    rw [walk, hhere] at h
    cases h
  | case5 links here name rest hhere hup ih =>
    obtain rfl := beq_iff_eq.mp hup
    rw [walk_up hhere] at h
    exact .up hhere (ih h)
  | case6 links here name rest hhere hup hlong =>
    rw [walk, hhere] at h
    dsimp only at h
    rw [if_neg hup, if_pos hlong] at h
    cases h
  | case7 links here name rest hhere hup hlong target hlink hlast =>
    have hname : name ≠ Path.up := by simpa using hup
    have hshort := Bool.eq_false_iff.mpr hlong
    rw [walk_link hhere hname hshort hlink, if_pos hlast] at h
    cases h
    obtain ⟨hrest, hthrough⟩ := Bool.and_eq_true_iff.mp hlast
    obtain rfl := List.isEmpty_iff.mp hrest
    exact .atLink hhere hname hshort hlink (by simpa using hthrough)
  | case8 here name rest hhere hup hlong target hlink hlast =>
    rw [walk_link hhere (by simpa using hup) (Bool.eq_false_iff.mpr hlong) hlink, if_neg hlast,
      if_pos rfl] at h
    cases h
  | case9 here name rest hhere hup hlong target hlink hlast links ih =>
    have hname : name ≠ Path.up := by simpa using hup
    have hshort := Bool.eq_false_iff.mpr hlong
    rw [walk_link hhere hname hshort hlink, if_neg hlast, if_neg (Nat.succ_ne_zero links)] at h
    exact .follow hhere hname hshort hlink (Bool.eq_false_iff.mpr hlast) (ih h)
  | case10 links here name rest hhere hup hlong hlink ih =>
    have hname : name ≠ Path.up := by simpa using hup
    have hshort := Bool.eq_false_iff.mpr hlong
    rw [walk_down hhere hname hshort hlink] at h
    exact .down hhere hname hshort hlink (ih h)

theorem Leads.walk (h : d.Leads through links here names place) :
    d.walk through links here names = .ok place := by
  induction h with
  | done => rw [Disk.walk]
  | up hhere _ ih => rw [walk_up hhere, ih]
  | atLink hhere hname hshort hlink hthrough =>
    rw [walk_link hhere hname hshort hlink, hthrough]
    rfl
  | follow hhere hname hshort hlink hthrough _ ih =>
    rw [walk_link hhere hname hshort hlink, hthrough, if_neg Bool.false_ne_true,
      if_neg (Nat.succ_ne_zero _)]
    exact ih
  | down hhere hname hshort hlink _ ih =>
    rw [walk_down hhere hname hshort hlink, ih]

/-- A walk goes the same way on a disk that has grown. -/
theorem Leads.grow (hgrows : d.Grows d') (h : d.Leads through links here names place) :
    d'.Leads through links here names place := by
  induction h with
  | done => exact .done
  | up hhere _ ih => exact .up (hgrows.directory hhere) ih
  | atLink hhere hname hshort hlink hthrough =>
    exact .atLink (hgrows.directory hhere) hname hshort (hgrows.link.mpr hlink) hthrough
  | follow hhere hname hshort hlink hthrough _ ih =>
    exact .follow (hgrows.directory hhere) hname hshort (hgrows.link.mpr hlink) hthrough ih
  | down hhere hname hshort hlink _ ih =>
    exact .down (hgrows.directory hhere) hname hshort
      (fun target heq => hlink target (hgrows.link.mp heq)) ih

/-- Neither at a place nor above it stands a link. -/
def IsLinkFree (d : Disk) (place : Place) : Prop :=
  ∀ init, init <+: place → ∀ target, d.entry? init ≠ some (.link target)

theorem isLinkFree_top (d : Disk) : d.IsLinkFree [] := by
  intro init hinit target
  rw [List.prefix_nil.mp hinit, entry?_top]
  nofun

theorem Leads.isLinkFree (h : d.Leads true links here names place) (hhere : d.IsLinkFree here) :
    d.IsLinkFree place := by
  induction h with
  | done => exact hhere
  | up _ _ ih =>
    exact ih fun init hinit => hhere init (hinit.trans (List.dropLast_prefix _))
  | atLink _ _ _ _ hthrough => cases hthrough
  | @follow _ _ _ _ target _ _ _ _ _ _ _ ih =>
    refine ih ?_
    rw [linkStart]
    split
    · exact d.isLinkFree_top
    · exact hhere
  | down _ _ _ hlink _ ih =>
    refine ih fun init hinit => ?_
    obtain heq | hinit := List.prefix_concat_iff.mp hinit
    · exact heq ▸ hlink
    · exact hhere init hinit

/-- Whether a last link would be followed does not matter where there is none. -/
theorem Leads.followed (h : d.Leads false links here names place)
    (hplace : ∀ target, d.entry? place ≠ some (.link target)) :
    d.Leads true links here names place := by
  induction h with
  | done => exact .done
  | up hhere _ ih => exact .up hhere (ih hplace)
  | atLink _ _ _ hlink => exact absurd hlink (hplace _)
  | follow hhere hname hshort hlink _ _ ih =>
    exact .follow hhere hname hshort hlink (Bool.and_false _) (ih hplace)
  | down hhere hname hshort hlink _ ih => exact .down hhere hname hshort hlink (ih hplace)

/-- Where following all links comes to a place, not following a last one comes there too, or to the
link. -/
theorem Leads.unfollowed (h : d.Leads true links here names place) :
    ∃ stop, d.Leads false links here names stop ∧
      (stop = place ∨ (d.entry? stop).isSome = true) := by
  induction h with
  | done => exact ⟨_, .done, .inl rfl⟩
  | up hhere _ ih =>
    obtain ⟨stop, hleads, hstop⟩ := ih
    exact ⟨stop, .up hhere hleads, hstop⟩
  | atLink _ _ _ _ hthrough => cases hthrough
  | @follow _ here name rest _ _ hhere hname hshort hlink _ _ ih =>
    cases rest with
    | nil =>
      refine ⟨here ++ [name], .atLink hhere hname hshort hlink rfl, .inr ?_⟩
      rw [hlink, Option.isSome_some]
    | cons next rest =>
      obtain ⟨stop, hleads, hstop⟩ := ih
      exact ⟨stop, .follow hhere hname hshort hlink rfl hleads, hstop⟩
  | down hhere hname hshort hlink _ ih =>
    obtain ⟨stop, hleads, hstop⟩ := ih
    exact ⟨stop, .down hhere hname hshort hlink hleads, hstop⟩

variable {p q : Path}

theorem of_reach_ok (h : d.reach through p = .ok place) :
    hasNull p = false ∧ (Text.Utf8.encode p.text.toList).length ≤ pathLimit ∧
      d.Leads through linkLimit [] p.names place := by
  unfold reach at h
  split at h
  · cases h
  · next hnull =>
    split at h
    · cases h
    · next hlength =>
      exact ⟨Bool.eq_false_iff.mpr hnull, Nat.not_lt.mp hlength, leads_of_walk h⟩

theorem reach_of_leads (hnull : hasNull p = false)
    (hlength : (Text.Utf8.encode p.text.toList).length ≤ pathLimit)
    (h : d.Leads through linkLimit [] p.names place) : d.reach through p = .ok place := by
  rw [reach, hnull, if_neg Bool.false_ne_true, if_neg (Nat.not_lt.mpr hlength), h.walk]

theorem Grows.locate (hgrows : d.Grows d') (h : d.locate p = .ok place) :
    d'.locate p = .ok place := by
  obtain ⟨hnull, hlength, hleads⟩ := of_reach_ok h
  exact reach_of_leads hnull hlength (hleads.grow hgrows)

/-- A walk that follows all links comes where following the names does. -/
theorem Leads.follow_eq (h : d.Leads true links here names place) :
    d.follow links here names = place := by
  induction h with
  | done => rw [follow_nil]
  | up _ _ ih => rw [follow_up (beq_self_eq_true Path.up), ih]
  | atLink _ _ _ _ hthrough => cases hthrough
  | follow _ hname _ hlink _ _ ih => rw [follow_link (by simpa using hname) hlink, ih]
  | down _ hname _ hlink _ ih =>
    rw [follow_down (by simpa using hname) fun _ target _ => hlink target, ih]

theorem resolve_of_locate (h : d.locate p = .ok place) : d.resolve p = ⟨false, place⟩ := by
  obtain ⟨-, -, hleads⟩ := of_reach_ok h
  rw [resolve, hleads.follow_eq]

theorem Grows.follow (hgrows : d.Grows d') (links : Nat) (here : Place) (names : List String) :
    d'.follow links here names = d.follow links here names := by
  induction links, here, names using follow.induct d with
  | case1 links here => rw [follow_nil, follow_nil]
  | case2 links here name rest hup ih => rw [follow_up hup, follow_up hup, ih]
  | case3 here name rest hup links target hlink ih =>
    rw [follow_link hup hlink, follow_link hup (hgrows.link.mpr hlink), ih]
  | case4 here name rest hup links hlink ih =>
    rw [follow_down hup hlink,
      follow_down hup fun more target heq => mt hgrows.link.mp (hlink more target heq), ih]

theorem Grows.resolve (hgrows : d.Grows d') (p : Path) : d'.resolve p = d.resolve p :=
  congrArg (Path.mk false) (hgrows.follow linkLimit [] p.names)

theorem ne_link_of_locate (h : d.locate p = .ok place) (target : String) :
    d.entry? place ≠ some (.link target) := by
  obtain ⟨-, -, hleads⟩ := of_reach_ok h
  exact hleads.isLinkFree d.isLinkFree_top place List.prefix_rfl target

theorem isDirectory_iff : d.isDirectory p = true ↔
    ∃ place, d.locate p = .ok place ∧ d.entry? place = some .directory := by
  rw [isDirectory, find?, beq_iff_eq]
  cases d.locate p with
  | error e => simp
  | ok place => simp

theorem isFile_iff : d.isFile p = true ↔
    ∃ place bytes, d.locate p = .ok place ∧ d.entry? place = some (.file bytes) := by
  rw [isFile, find?]
  cases d.locate p with
  | error e => simp
  | ok place =>
    cases hentry : d.entry? place with
    | none => simp [hentry]
    | some entry => cases entry <;> simp [hentry, DiskEntry.isFile]

theorem Grows.isFile (hgrows : d.Grows d') (h : d.isFile p = true) : d'.isFile p = true := by
  obtain ⟨place, bytes, hplace, hfile⟩ := isFile_iff.mp h
  obtain ⟨bytes', hfile'⟩ := hgrows.file hfile
  exact isFile_iff.mpr ⟨place, bytes', hgrows.locate hplace, hfile'⟩

theorem Grows.isDirectory (hgrows : d.Grows d') (h : d.isDirectory p = true) :
    d'.isDirectory p = true := by
  obtain ⟨place, hplace, hdirectory⟩ := isDirectory_iff.mp h
  exact isDirectory_iff.mpr ⟨place, hgrows.locate hplace, hgrows.directory hdirectory⟩

theorem isSame_iff : d.isSame p q = true ↔
    ∃ place, d.locate p = .ok place ∧ d.locate q = .ok place ∧ (d.entry? place).isSome = true := by
  unfold isSame
  split
  · next a b ha hb =>
    rw [Bool.and_eq_true, beq_iff_eq, ha, hb]
    constructor
    · rintro ⟨rfl, hsome⟩
      exact ⟨a, rfl, rfl, hsome⟩
    · rintro ⟨place, hp, hq, hsome⟩
      cases hp
      cases hq
      exact ⟨rfl, hsome⟩
  · next hne =>
    refine iff_of_false Bool.false_ne_true ?_
    rintro ⟨place, hp, hq, -⟩
    exact hne place place hp hq

theorem isSame_eq_false {a b : Place} (hp : d.locate p = .ok a) (hq : d.locate q = .ok b)
    (hne : a ≠ b) : d.isSame p q = false := by
  rw [isSame, hp, hq]
  dsimp only
  rw [beq_eq_false_iff_ne.mpr hne, Bool.false_and]

theorem Grows.isSame (hgrows : d.Grows d') (h : d.isSame p q = true) : d'.isSame p q = true := by
  obtain ⟨place, hp, hq, hsome⟩ := isSame_iff.mp h
  exact isSame_iff.mpr
    ⟨place, hgrows.locate hp, hgrows.locate hq, hgrows.isSome_entry hsome⟩

theorem read_ok_iff {bytes : List UInt8} : d.read p = .ok bytes ↔
    ∃ place, d.locate p = .ok place ∧ d.entry? place = some (.file bytes) := by
  unfold read
  split
  · next hp => simp [hp, fail]
  · next place hp =>
    rw [hp]
    split
    · next hentry => simp [hentry]
    · next hentry => simp [hentry, fail]
    · next hentry => simp [hentry, fail]
    · next hentry => simp [hentry, fail]

theorem isFile_of_read {bytes : List UInt8} (h : d.read p = .ok bytes) : d.isFile p = true := by
  obtain ⟨place, hplace, hfile⟩ := read_ok_iff.mp h
  exact isFile_iff.mpr ⟨place, bytes, hplace, hfile⟩

theorem read_of_look {bytes : List UInt8} (h : d.look p = .ok (some (.file bytes))) :
    d.read p = .ok bytes := by
  unfold look at h
  split at h
  · next place hplace => exact read_ok_iff.mpr ⟨place, hplace, Except.ok.inj h⟩
  · cases h
  · cases h

theorem isFile_of_isPlainPath (h : d.isPlainPath p = true)
    (hfile : (d.entry? p.names).any DiskEntry.isFile = true) : d.isFile p = true := by
  rw [isFile, find?, locate_of_isPlainPath h]
  exact hfile

theorem isDirectory_of_isPlainPath (h : d.isPlainPath p = true)
    (hdirectory : d.entry? p.names = some .directory) : d.isDirectory p = true :=
  isDirectory_iff.mpr ⟨p.names, locate_of_isPlainPath h, hdirectory⟩

theorem look_of_locate (h : d.locate p = .ok place) : d.look p = .ok (d.entry? place) := by
  rw [look, h]

theorem look_of_isDirectory (h : d.isDirectory p = true) : d.look p = .ok (some .directory) := by
  obtain ⟨place, hplace, hdirectory⟩ := isDirectory_iff.mp h
  rw [look_of_locate hplace, hdirectory]

theorem find?_of_look {entry : Option DiskEntry} (h : d.look p = .ok entry) :
    d.find? p = entry := by
  unfold look at h
  rw [find?]
  split at h
  · next hplace =>
    rw [hplace]
    exact Except.ok.inj h
  · cases h
  · next hobstacle =>
    rw [hobstacle]
    exact Except.ok.inj h

theorem isDirectory_of_look (h : d.look p = .ok (some .directory)) : d.isDirectory p = true := by
  unfold look at h
  split at h
  · next place hplace => exact isDirectory_iff.mpr ⟨place, hplace, Except.ok.inj h⟩
  · cases h
  · cases h

end Refsite.Disk
