import Refsite.Proofs.Disk.Opened
import Refsite.Proofs.Disk.Runs
namespace Refsite

open Refsite.Path

namespace Disk

variable {d d' before : Disk} {base : Path} {place : Place} {rooms files : List (List String)}
  {names : List String}

instance (p : Path) : Decidable (IsUsable p) :=
  decidable_of_iff (hasNull p = false ∧
    (Text.Utf8.encode p.text.toList).length ≤ pathLimit ∧ ∀ name ∈ p.names, isLongName name = false)
    ⟨fun h => ⟨h.1, h.2.1, h.2.2⟩, fun h => ⟨h.null, h.length, h.short⟩⟩

/-- Names of directories and of files below a directory, such that a directory is planned wherever
something is to stand below, and no file. -/
structure IsPlan (base : Path) (rooms files : List (List String)) : Prop where
  top : [] ∈ rooms
  isEntryName : ∀ names ∈ rooms ++ files, ∀ name ∈ names, IsEntryName name
  usable : ∀ names ∈ rooms ++ files, IsUsable (base.below names)
  above : ∀ names ∈ rooms ++ files, names.dropLast ∈ rooms
  apart : ∀ names ∈ files, names ∉ rooms

instance : Decidable (IsPlan base rooms files) :=
  decidable_of_iff ([] ∈ rooms ∧ (∀ names ∈ rooms ++ files, ∀ name ∈ names, IsEntryName name) ∧
      (∀ names ∈ rooms ++ files, IsUsable (base.below names)) ∧
      (∀ names ∈ rooms ++ files, names.dropLast ∈ rooms) ∧ ∀ names ∈ files, names ∉ rooms)
    ⟨fun ⟨htop, hnames, husable, habove, hapart⟩ => ⟨htop, hnames, husable, habove, hapart⟩,
      fun h => ⟨h.top, h.isEntryName, h.usable, h.above, h.apart⟩⟩

/-- Below the directory nothing stands in the way of a plan, and elsewhere the disk is as it was
before. -/
structure Laid (before : Disk) (base : Path) (place : Place) (rooms files : List (List String))
    (d : Disk) : Prop where
  opened : d.Opened base place
  room : ∀ names ∈ rooms,
    d.entry? (place ++ names) = none ∨ d.entry? (place ++ names) = some .directory
  file : ∀ names ∈ files, d.entry? (place ++ names) ≠ some .directory
  kept : ∀ q, (∀ names ∈ rooms ++ files, q ≠ place ++ names) → d.entry? q = before.entry? q

theorem Laid.kept_below (h : Laid before base place rooms files d)
    (hother : names ∉ rooms ++ files) :
    d.entry? (place ++ names) = before.entry? (place ++ names) :=
  h.kept _ fun _ hmore heq => hother (List.append_cancel_left heq ▸ hmore)

theorem Laid.look_child {name : String} (h : Laid before .top [] rooms files d)
    (hname : IsEntryName name) (husable : IsUsable (Path.top.child name))
    (hother : [name] ∉ rooms ++ files) :
    d.look (Path.top.child name) = .ok (before.entry? [name]) := by
  have hplace : d.locate (Path.top.below [name]) = .ok ([] ++ [name]) :=
    h.opened.reach (List.forall_mem_singleton.mpr hname) husable (List.cons_ne_nil _ _)
      d.entry?_top
  exact (look_of_locate hplace).trans (congrArg Except.ok (h.kept_below hother))

variable (hplan : IsPlan base rooms files)

include hplan

theorem IsPlan.mem_of_prefix {init : List String} (hnames : names ∈ rooms ++ files)
    (hinit : init <+: names) (hne : init ≠ names) : init ∈ rooms := by
  induction names using List.reverseRecOn with
  | nil => exact absurd (List.prefix_nil.mp hinit) hne
  | append_singleton names last ih =>
    have hparent := hplan.above _ hnames
    rw [List.dropLast_concat] at hparent
    have hinit := (List.prefix_concat_iff.mp hinit).resolve_left hne
    by_cases heq : init = names
    · exact heq ▸ hparent
    · exact ih (List.mem_append_left _ hparent) hinit heq

theorem IsPlan.mem_of_prefix_room {init : List String} (hnames : names ∈ rooms)
    (hinit : init <+: names) : init ∈ rooms := by
  by_cases heq : init = names
  · exact heq ▸ hnames
  · exact hplan.mem_of_prefix (List.mem_append_left _ hnames) hinit heq

theorem Laid.makeDirectories (h : Laid before base place rooms files d) (hnames : names ∈ rooms) :
    ∃ d', d.makeDirectories (base.below names) = .ok d' ∧
      Laid before base place rooms files d' ∧ d'.entry? (place ++ names) = some .directory := by
  have hrooms : ∀ {init}, init <+: names → init ∈ rooms := fun hinit =>
    hplan.mem_of_prefix_room hnames hinit
  have hentryNames := hplan.isEntryName _ (List.mem_append_left _ hnames)
  obtain ⟨d', hmade⟩ := h.opened.exists_makeDirectories hentryNames
    (fun init hinit => hplan.usable _ (List.mem_append_left _ (hrooms hinit)))
    fun init hinit => h.room _ (hrooms hinit)
  obtain ⟨hopened, hmakes⟩ := h.opened.of_makeDirectories hentryNames hmade
  refine ⟨d', hmade, ⟨hopened, fun more hmore => ?_, fun more hmore => ?_, fun q hq => ?_⟩,
    hmakes.made _ List.prefix_rfl⟩
  · by_cases hinit : more <+: names
    · exact .inr (hmakes.made more hinit)
    · rw [hmakes.kept_below hinit]
      exact h.room more hmore
  · have hinit : ¬ more <+: names := fun hinit => hplan.apart _ hmore (hrooms hinit)
    rw [hmakes.kept_below hinit]
    exact h.file more hmore
  · rw [hmakes.kept q fun init hinit => hq init (List.mem_append_left _ (hrooms hinit))]
    exact h.kept q hq

theorem IsPlan.ne_nil (hnames : names ∈ files) : names ≠ [] := by
  rintro rfl
  exact hplan.apart _ hnames hplan.top

theorem Laid.write (h : Laid before base place rooms files d) (hnames : names ∈ files)
    (hparent : d.entry? (place ++ names.dropLast) = some .directory) (bytes : List UInt8) :
    ∃ d', d.write (base.below names) bytes = .ok d' ∧ Laid before base place rooms files d' := by
  have hmem : names ∈ rooms ++ files := List.mem_append_right _ hnames
  have hne := hplan.ne_nil hnames
  have htop : place ++ names ≠ [] := List.append_ne_nil_of_right_ne_nil _ hne
  have hwrite := h.opened.write (hplan.isEntryName _ hmem) (hplan.usable _ hmem) hne hparent
    (h.file _ hnames) bytes
  obtain ⟨hopened, -, -⟩ := h.opened.of_write (hplan.isEntryName _ hmem) hne hwrite
  have hother : ∀ q, q ≠ place ++ names →
      entry? (d.put (place ++ names) (.file bytes)) q = d.entry? q := fun q hq => by
    rw [entry?_put d htop, if_neg hq]
  refine ⟨_, hwrite, hopened, fun more hmore => ?_, fun more hmore => ?_, fun q hq => ?_⟩
  · rw [hother _ fun heq => hplan.apart _ hnames (List.append_cancel_left heq ▸ hmore)]
    exact h.room more hmore
  · by_cases heq : more = names
    · rw [heq, entry?_put d htop, if_pos rfl]
      nofun
    · rw [hother _ fun heq' => heq (List.append_cancel_left heq')]
      exact h.file more hmore
  · rw [hother q (hq names hmem)]
    exact h.kept q hq

end Disk

namespace Run

variable {α β : Type} {P : Disk → Prop}

/-- Coming to a result on a disk with a property, and leaving one with it, and the same chance. -/
def completing (P : Disk → Prop) : Invariant where
  Holds w x := P w.disk → ∃ a v, x.start w = (.ok a, v) ∧ P v.disk ∧ v.chance = w.chance
  pure w a hw := ⟨a, w, rfl, hw, rfl⟩
  bind hx hf hw := by
    obtain ⟨a, u, hfirst, hu, hchance⟩ := hx hw
    obtain ⟨b, v, hrest, hv, hchance'⟩ := hf a u hfirst hu
    exact ⟨b, v, by rw [start_bind_ok hfirst, hrest], hv, hchance'.trans hchance⟩

/-- A run comes to a result on all disks with a property, and leaves one with it. -/
def Completes (P : Disk → Prop) (x : Run α) : Prop := ∀ w, (completing P).Holds w x

theorem Completes.bind {x : Run α} {f : α → Run β} (hx : x.Completes P)
    (hf : ∀ a, (f a).Completes P) : (x >>= f).Completes P :=
  fun w => (completing P).bind (hx w) fun a u _ => hf a u

theorem completes_pure (a : α) : (pure a : Run α).Completes P := fun w hw => ⟨a, w, rfl, hw, rfl⟩

theorem completes_remark (r : Remark) : (remark r).Completes P := fun w hw =>
  ⟨(), _, start_remark r w, hw, rfl⟩

theorem completes_of_start {x : Run α} {a : α} (h : ∀ w, P w.disk → x.start w = (.ok a, w)) :
    x.Completes P := fun w hw => ⟨a, w, h w hw, hw, rfl⟩

theorem completes_overwrite {d : Disk} {p : Path} (hparent : d.isDirectory p.parent = true)
    (hfile : d.isFile p = true) (bytes : List UInt8) : (write p bytes).Completes d.Alike := by
  intro w (hw : d.Alike w.disk)
  have hmade := Disk.makeDirectories_of_isDirectory (hw.grows.isDirectory hparent)
  obtain ⟨d', hwrite, halike⟩ := Disk.exists_write (hw.grows.isFile hfile) bytes
  refine ⟨(), { w with disk := d' }, ?_, hw.trans halike, rfl⟩
  rw [write, makeDirectories, start_bind_ok (start_change hmade), start_change hwrite]

section Laid

variable {before : Disk} {base : Path} {place : Place} {rooms files : List (List String)}
  {names : List String} (hplan : Disk.IsPlan base rooms files)

include hplan

theorem completes_makeDirectories (hnames : names ∈ rooms) :
    (makeDirectories (base.below names)).Completes
      (Disk.Laid before base place rooms files) := by
  intro w (hw : Disk.Laid before base place rooms files w.disk)
  obtain ⟨d, hmade, hlaid, -⟩ := hw.makeDirectories hplan hnames
  exact ⟨(), { w with disk := d }, start_change hmade, hlaid, rfl⟩

theorem completes_write (hnames : names ∈ files) (bytes : List UInt8) :
    (write (base.below names) bytes).Completes (Disk.Laid before base place rooms files) := by
  intro w (hw : Disk.Laid before base place rooms files w.disk)
  have hparent : (base.below names).parent = base.below names.dropLast := by
    rw [parent, below, below, List.dropLast_append_of_ne_nil (hplan.ne_nil hnames)]
  obtain ⟨d, hmade, hlaid, hdirectory⟩ :=
    hw.makeDirectories hplan (hplan.above _ (List.mem_append_right _ hnames))
  obtain ⟨d', hwrite, hlaid'⟩ := hlaid.write hplan hnames hdirectory bytes
  have hmake : (makeDirectories (base.below names).parent).start w =
      (.ok (), { w with disk := d }) := by
    rw [hparent]
    exact start_change hmade
  refine ⟨(), { w with disk := d' }, ?_, hlaid', rfl⟩
  rw [write, start_bind_ok hmake]
  exact start_change hwrite

theorem completes_write_beside {known : List (List String × List UInt8)} (hnames : names ∈ files)
    (hknown : ∀ file ∈ known, file.1 ∈ files ∧ file.1 ≠ names) (bytes : List UInt8) :
    (write (base.below names) bytes).Completes fun d =>
      Disk.Laid before base place rooms files d ∧
        ∀ file ∈ known, d.read (base.below file.1) = .ok file.2 := by
  rintro w ⟨hw, hread⟩
  obtain ⟨_, v, hstart, hv, hchance⟩ := completes_write hplan hnames bytes w hw
  obtain ⟨hchanges, hwritten, -⟩ := of_start_write hstart
  have hplace : ∀ {more bytes}, more ∈ files → v.disk.read (base.below more) = .ok bytes →
      v.disk.locate (base.below more) = .ok (place ++ more) := by
    intro more bytes hmore hbytes
    obtain ⟨q, hq, -⟩ := Disk.read_ok_iff.mp hbytes
    rw [hq, hv.opened.eq_of_locate (hplan.isEntryName _ (List.mem_append_right _ hmore)) hq]
  refine ⟨_, v, hstart, ⟨hv, fun file hfile => ?_⟩, hchance⟩
  obtain ⟨hmem, hne⟩ := hknown file hfile
  obtain ⟨q, hq, -⟩ := Disk.read_ok_iff.mp (hread file hfile)
  have hq' := hchanges.grows.locate hq
  rw [hv.opened.eq_of_locate (hplan.isEntryName _ (List.mem_append_right _ hmem)) hq'] at hq'
  refine hchanges.read (hread file hfile) (List.forall_mem_singleton.mpr ?_)
  exact Disk.isSame_eq_false (hplace hnames hwritten) hq' fun heq =>
    hne (List.append_cancel_left heq).symm

end Laid

end Run

end Refsite
