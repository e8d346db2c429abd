import Refsite.Asset.Scan
import Refsite.Proofs.Basic
import Refsite.Proofs.Disk.Apart
namespace Refsite

open Refsite.Path

namespace Disk

variable {d : Disk} {p : Path}

theorem IsTree.names_of_mem_scan (hd : d.IsTree) {e : List String × DiskEntry}
    (h : e ∈ d.scan p) : e.1 ≠ [] ∧ ∀ name ∈ e.1, IsEntryName name := by
  obtain ⟨place, -, -, hne, hentry⟩ := hd.mem_scan.mp h
  exact ⟨hne, fun name hname => hd.isEntryName hentry name (List.mem_append_right place hname)⟩

theorem IsTree.nodup_scan (hd : d.IsTree) (p : Path) : ((d.scan p).map (·.1)).Nodup := by
  have hscan : (d.scan p).Nodup := by
    unfold scan
    split
    · split
      · exact hd.nodup_placesBelow _
      · exact List.nodup_nil
    · exact List.nodup_nil
  refine hscan.map_on ?_
  rintro ⟨names, entry⟩ he ⟨names', entry'⟩ he' rfl
  obtain ⟨place, hplace, -, -, hentry⟩ := hd.mem_scan.mp he
  obtain ⟨place', hplace', -, -, hentry'⟩ := hd.mem_scan.mp he'
  cases hplace.symm.trans hplace'
  cases hentry.symm.trans hentry'
  rfl

end Disk

namespace Asset

theorem textOf_injective {a b : List String} (ha : a ≠ []) (hb : b ≠ [])
    (hnames : ∀ name ∈ a, '/' ∉ name.toList) (hnames' : ∀ name ∈ b, '/' ∉ name.toList)
    (h : textOf a = textOf b) : a = b := by
  have hsplit : ∀ {names : List String}, names ≠ [] → (∀ name ∈ names, '/' ∉ name.toList) →
      List.splitOn '/' (textOf names).toList = names.map String.toList := by
    intro names hne hnames
    rw [textOf, String.toList_intercalate]
    refine List.splitOn_intercalate '/' ?_ (by rwa [ne_eq, List.map_eq_nil_iff])
    intro chars hchars
    obtain ⟨name, hname, rfl⟩ := List.mem_map.mp hchars
    exact hnames name hname
  have hlists :=
    (hsplit ha hnames).symm.trans ((congrArg _ (congrArg _ h)).trans (hsplit hb hnames'))
  exact List.map_injective_iff.mpr (fun _ _ => String.toList_injective) hlists

variable {d : Disk} {directory : Path} {patterns : List String} {ignore : Option Ignore}
  {matched : Path → Bool} {es met : List (List String × DiskEntry)} {kept : List (List String)}
  {names : List String}

def isCandidate (d : Disk) (directory : Path) (e : List String × DiskEntry) : Bool :=
  e.2.isFile && isWithin d directory e.1

def isLeftOut (directory : Path) (patterns : List String) (ignore : Option Ignore)
    (names : List String) : Bool :=
  (isIgnored ignore (directory.below names)).toOption.getD false || isExcluded patterns names

theorem isLeftOut_of_isIgnored {ignored : Bool}
    (h : isIgnored ignore (directory.below names) = .ok ignored) :
    isLeftOut directory patterns ignore names = (ignored || isExcluded patterns names) := by
  rw [isLeftOut, h]
  rfl

theorem keep_ok_iff : keep d directory patterns ignore es = .ok kept ↔
    (∀ e ∈ es, isCandidate d directory e = true →
      ∃ ignored, isIgnored ignore (directory.below e.1) = .ok ignored) ∧
    kept = (es.filter fun e => isCandidate d directory e &&
      !isLeftOut directory patterns ignore e.1).map (·.1) := by
  induction es generalizing kept with
  | nil =>
    refine ⟨fun h => ⟨List.forall_mem_nil _, ?_⟩, fun ⟨_, h⟩ => h ▸ rfl⟩
    cases h
    rfl
  | cons e es ih =>
    obtain ⟨names, entry⟩ := e
    rw [keep, List.forall_mem_cons]
    by_cases hcandidate : isCandidate d directory (names, entry) = true
    · have hpos : (entry.isFile && isWithin d directory names) = true := hcandidate
      rw [if_pos hpos]
      have hfilter : ∀ ignored, isIgnored ignore (directory.below names) = .ok ignored →
          (((names, entry) :: es).filter fun e => isCandidate d directory e &&
            !isLeftOut directory patterns ignore e.1).map (·.1) =
          if ignored || isExcluded patterns names then
            (es.filter fun e => isCandidate d directory e &&
              !isLeftOut directory patterns ignore e.1).map (·.1)
          else names :: (es.filter fun e => isCandidate d directory e &&
            !isLeftOut directory patterns ignore e.1).map (·.1) := by
        intro ignored hignored
        rw [List.filter_cons, hcandidate, Bool.true_and, isLeftOut_of_isIgnored hignored]
        cases ignored || isExcluded patterns names <;> rfl
      constructor
      · intro h
        obtain ⟨ignored, hignored, h⟩ := of_bind_ok h
        obtain ⟨rest, hrest, h⟩ := of_bind_ok h
        obtain ⟨hall, rfl⟩ := ih.mp hrest
        cases h
        exact ⟨⟨fun _ => ⟨ignored, hignored⟩, hall⟩, (hfilter ignored hignored).symm⟩
      · rintro ⟨⟨hfirst, hall⟩, rfl⟩
        obtain ⟨ignored, hignored⟩ := hfirst hcandidate
        rw [hignored, ih.mpr ⟨hall, rfl⟩, hfilter ignored hignored]
        rfl
    · have hneg : ¬ (entry.isFile && isWithin d directory names) = true := hcandidate
      rw [if_neg hneg, ih, List.filter_cons, Bool.eq_false_iff.mpr hcandidate, Bool.false_and,
        if_neg Bool.false_ne_true]
      exact and_congr_left' (by simp)

theorem mem_of_keep (h : keep d directory patterns ignore es = .ok kept) :
    ∀ names ∈ kept, ∃ e ∈ es, e.1 = names := by
  obtain ⟨-, rfl⟩ := keep_ok_iff.mp h
  intro names hnames
  obtain ⟨e, he, rfl⟩ := List.mem_map.mp hnames
  exact ⟨e, (List.mem_filter.mp he).1, rfl⟩

/-- What is left of what a scan has met, ordered by the paths; a predicate says which files are to
be ignored. -/
def select (d : Disk) (directory : Path) (patterns : List String) (matched : Path → Bool)
    (met : List (List String × DiskEntry)) : List (List String) :=
  ((met.filter fun e => isCandidate d directory e &&
    !(matched (directory.below e.1) || isExcluded patterns e.1)).map (·.1)).mergeSort
      fun a b => Text.le (textOf a) (textOf b)

theorem scan_eq_select (h : ∀ e ∈ d.scan directory, isCandidate d directory e = true →
      isIgnored ignore (directory.below e.1) = .ok (matched (directory.below e.1))) :
    scan d directory patterns ignore =
      .ok (select d directory patterns matched (d.scan directory)) := by
  have hfilter : ((d.scan directory).filter fun e => isCandidate d directory e &&
        !(matched (directory.below e.1) || isExcluded patterns e.1)) =
      (d.scan directory).filter fun e => isCandidate d directory e &&
        !isLeftOut directory patterns ignore e.1 := by
    refine List.filter_congr fun e he => ?_
    cases hcandidate : isCandidate d directory e with
    | false => rfl
    | true =>
      rw [isLeftOut, h e he hcandidate]
      rfl
  rw [scan, keep_ok_iff.mpr ⟨fun e he hcandidate => ⟨_, h e he hcandidate⟩, rfl⟩, select, hfilter]
  rfl

/-- What a scan meets: every place once, under names that things in directories may have. -/
structure IsScan (met : List (List String × DiskEntry)) : Prop where
  nodup : (met.map (·.1)).Nodup
  names : ∀ e ∈ met, e.1 ≠ [] ∧ ∀ name ∈ e.1, IsEntryName name

theorem isScan_scan (hd : d.IsTree) (p : Path) : IsScan (d.scan p) :=
  ⟨hd.nodup_scan p, fun _ he => hd.names_of_mem_scan he⟩

structure IsLeft (d : Disk) (directory : Path) (patterns : List String) (matched : Path → Bool)
    (met : List (List String × DiskEntry)) (names : List String) : Prop where
  isFile : ∃ bytes, (names, .file bytes) ∈ met
  within : (d.resolve directory).names <+: (d.resolve (directory.below names)).names
  not_matched : matched (directory.below names) = false
  not_excluded : ∀ pattern ∈ patterns, Text.fitsPattern pattern (textOf names) = false ∧
    Text.fitsPattern pattern (names.getLast?.getD "") = false

/-- The files that are left, in order. Where they are copied, which adds files and directories to
the disk and no links, the paths lead to places inside the directory. -/
structure Selects (d : Disk) (directory : Path) (patterns : List String) (matched : Path → Bool)
    (met : List (List String × DiskEntry)) (files : List (List String)) : Prop where
  increasing : files.Pairwise fun a b => textOf a < textOf b
  mem_iff : ∀ names, names ∈ files ↔ IsLeft d directory patterns matched met names
  inside : ∀ names ∈ files, ∀ d' : Disk, d.Grows d' → ∀ root place,
    d'.locate directory = .ok root → d'.locate (directory.below names) = .ok place → root <+: place

theorem isWithin_iff : isWithin d directory names = true ↔
    (d.resolve directory).names <+: (d.resolve (directory.below names)).names := by
  rw [isWithin, isBelow, Bool.and_eq_true, List.isPrefixOf_iff_prefix]
  exact and_iff_right (beq_self_eq_true false)

theorem isExcluded_eq_false_iff : isExcluded patterns names = false ↔
    ∀ pattern ∈ patterns, Text.fitsPattern pattern (textOf names) = false ∧
      Text.fitsPattern pattern (names.getLast?.getD "") = false := by
  simp only [isExcluded, List.any_eq_false, Bool.or_eq_true, not_or, Bool.not_eq_true]

theorem mem_select : names ∈ select d directory patterns matched met ↔
    IsLeft d directory patterns matched met names := by
  rw [select, List.mem_mergeSort, List.mem_map]
  constructor
  · rintro ⟨⟨names, entry⟩, he, rfl⟩
    obtain ⟨he, hleft⟩ := List.mem_filter.mp he
    rw [isCandidate, Bool.and_eq_true, Bool.and_eq_true, Bool.not_eq_true', Bool.or_eq_false_iff,
      isWithin_iff, isExcluded_eq_false_iff] at hleft
    obtain ⟨⟨hfile, hwithin⟩, hmatched, hexcluded⟩ := hleft
    cases entry with
    | file bytes => exact ⟨⟨bytes, he⟩, hwithin, hmatched, hexcluded⟩
    | directory | link target => cases hfile
  · rintro ⟨⟨bytes, he⟩, hwithin, hmatched, hexcluded⟩
    refine ⟨_, List.mem_filter.mpr ⟨he, ?_⟩, rfl⟩
    rw [isCandidate, isWithin_iff.mpr hwithin, hmatched, isExcluded_eq_false_iff.mpr hexcluded]
    rfl

theorem select_increasing (h : IsScan met) :
    (select d directory patterns matched met).Pairwise fun a b => textOf a < textOf b := by
  have hnodup : (select d directory patterns matched met).Nodup :=
    (List.mergeSort_perm _ _).nodup_iff.mpr ((List.filter_sublist.map _).nodup h.nodup)
  have hnames : ∀ names ∈ select d directory patterns matched met,
      names ≠ [] ∧ ∀ name ∈ names, '/' ∉ name.toList := by
    intro names hmem
    obtain ⟨bytes, he⟩ := (mem_select.mp hmem).isFile
    obtain ⟨hne, hentry⟩ := h.names _ he
    exact ⟨hne, fun name hname => (hentry name hname).1.2.2⟩
  refine List.Pairwise.imp_of_mem ?_ ((Text.pairwise_mergeSort textOf _).and hnodup)
  rintro a b ha hb ⟨hle, hne⟩
  refine lt_of_le_of_ne hle fun heq => hne ?_
  exact textOf_injective (hnames a ha).1 (hnames b hb).1 (hnames a ha).2 (hnames b hb).2 heq

theorem locate_within {d' : Disk} {root place : Place} (hgrows : d.Grows d')
    (h : IsLeft d directory patterns matched met names) (hroot : d'.locate directory = .ok root)
    (hplace : d'.locate (directory.below names) = .ok place) : root <+: place := by
  have hwithin := h.within
  rwa [← hgrows.resolve, ← hgrows.resolve, Disk.resolve_of_locate hroot,
    Disk.resolve_of_locate hplace] at hwithin

theorem selects_select (h : IsScan met) : Selects d directory patterns matched met
    (select d directory patterns matched met) :=
  ⟨select_increasing h, fun _ => mem_select, fun _ hnames _ hgrows _ _ hroot hplace =>
    locate_within hgrows (mem_select.mp hnames) hroot hplace⟩

/-- The scan of a directory meets all that stands below the place it leads to, past no link. Of this
the files to be copied are selected, whatever predicate the rules decide; and of what any scan
meets, one that goes through links as well, the same is selected by any predicate. -/
theorem scan_selects (hd : d.IsTree) (directory : Path) (patterns : List String)
    (matched : Path → Bool) :
    (∀ names entry, (names, entry) ∈ d.scan directory ↔
      ∃ root, d.locate directory = .ok root ∧ d.entry? root = some .directory ∧ names ≠ [] ∧
        d.entry? (root ++ names) = some entry) ∧
    (∀ ignore : Option Ignore,
      (∀ e ∈ d.scan directory, isCandidate d directory e = true →
        isIgnored ignore (directory.below e.1) = .ok (matched (directory.below e.1))) →
      ∃ files, scan d directory patterns ignore = .ok files ∧
        Selects d directory patterns matched (d.scan directory) files) ∧
    ∀ met, IsScan met → Selects d directory patterns matched met
      (select d directory patterns matched met) :=
  ⟨fun _ _ => hd.mem_scan,
    fun _ h => ⟨_, scan_eq_select h, selects_select (isScan_scan hd directory)⟩,
    fun _ h => selects_select h⟩

def linkedAssets : Disk := ⟨[(["assets"], .directory), (["assets", "img"], .directory),
  (["assets", "img", "logo.png"], .file []), (["assets", "img.css"], .file []),
  (["assets", "draft.tmp"], .file []), (["assets", "out"], .link "/private"),
  (["private"], .directory), (["private", "key.css"], .file [])]⟩

theorem resolve_linkedAssets_key : linkedAssets.resolve ⟨false, ["assets", "out", "key.css"]⟩ =
    ⟨false, ["private", "key.css"]⟩ := by
  have hstart : Disk.linkStart ["assets"] "/private" = [] := by decide +kernel
  have hnames : Path.namesOf "/private" = ["private"] := by decide +kernel
  rw [Disk.resolve, Disk.linkLimit, Disk.follow_down (by decide) (by rintro _ _ - ⟨⟩),
    Disk.follow_link (by decide) rfl]
  rw [List.nil_append, hstart, hnames, List.singleton_append]
  rw [Disk.follow_down (by decide) (by rintro _ _ - ⟨⟩),
    Disk.follow_down (by decide) (by rintro _ _ - ⟨⟩), Disk.follow_nil]
  rfl

/-- A pattern leaves the draft out. The key beside the directory is left out as well, also where a
scan has gone through the link. -/
theorem linkedAssets_selects : linkedAssets.IsTree ∧
    (∃ files, scan linkedAssets ⟨false, ["assets"]⟩ ["*.tmp"] none = .ok files ∧
      ["img.css"] ∈ files ∧ ["img", "logo.png"] ∈ files ∧ ["draft.tmp"] ∉ files) ∧
    ["out", "key.css"] ∉ select linkedAssets ⟨false, ["assets"]⟩ ["*.tmp"] (fun _ => false)
      [(["img.css"], .file []), (["out", "key.css"], .file [])] := by
  have htree : linkedAssets.IsTree := by decide
  have hroot : linkedAssets.locate ⟨false, ["assets"]⟩ = .ok ["assets"] :=
    Disk.locate_of_isPlainPath (by decide)
  have hwithin : ∀ names, linkedAssets.isPlainPath ⟨false, "assets" :: names⟩ = true →
      (linkedAssets.resolve ⟨false, ["assets"]⟩).names <+:
        (linkedAssets.resolve ⟨false, "assets" :: names⟩).names := by
    intro names hplain
    rw [Disk.resolve_of_locate hroot, Disk.resolve_of_locate (Disk.locate_of_isPlainPath hplain)]
    exact List.prefix_append ["assets"] names
  obtain ⟨hmet, hscan, hfollowed⟩ :=
    scan_selects htree ⟨false, ["assets"]⟩ ["*.tmp"] fun _ => false
  obtain ⟨files, hfiles, hselects⟩ := hscan none fun _ _ _ => rfl
  have hfile : ∀ names, linkedAssets.entry? ("assets" :: names) = some (.file []) → names ≠ [] →
      ∃ bytes, (names, .file bytes) ∈ linkedAssets.scan ⟨false, ["assets"]⟩ :=
    fun names hentry hne => ⟨[], (hmet names _).mpr ⟨_, hroot, rfl, hne, hentry⟩⟩
  refine ⟨htree, ⟨files, hfiles, ?_, ?_, ?_⟩, ?_⟩
  · exact (hselects.mem_iff ["img.css"]).mpr
      ⟨hfile _ rfl (by decide), hwithin _ (by decide), rfl, by decide +kernel⟩
  · exact (hselects.mem_iff ["img", "logo.png"]).mpr
      ⟨hfile _ rfl (by decide), hwithin _ (by decide), rfl, by decide +kernel⟩
  · intro h
    exact absurd ((hselects.mem_iff _).mp h).not_excluded (by decide +kernel)
  · intro h
    have hout := (((hfollowed _ ⟨by decide, by decide⟩).mem_iff _).mp h).within
    change _ <+: (linkedAssets.resolve ⟨false, ["assets", "out", "key.css"]⟩).names at hout
    rw [Disk.resolve_of_locate hroot, resolve_linkedAssets_key] at hout
    exact absurd hout (by decide)

end Asset

end Refsite
