import Refsite.Proofs.Disk.Apart
import Refsite.Proofs.Disk.Steps
namespace Refsite.Disk

open Refsite.Path

variable {d d' d'' : Disk} {through : Bool} {links : Nat} {here place q : Place}
  {names init : List String} {base p : Path} {last : String} {bytes : List UInt8}

/-- A path that a system takes. -/
structure IsUsable (p : Path) : Prop where
  null : hasNull p = false
  length : (Text.Utf8.encode p.text.toList).length ≤ pathLimit
  short : ∀ name ∈ p.names, isLongName name = false

/-- A path leads to a directory with no link in it or below it. -/
structure Opened (d : Disk) (base : Path) (place : Place) : Prop where
  tree : d.IsTree
  proper : base.IsProper
  leads : d.locate base = .ok place
  directory : d.entry? place = some .directory
  free : ∀ q, place <+: q → ∀ target, d.entry? q ≠ some (.link target)

theorem Opened.ne_link (h : d.Opened base place) (hq : q <+: place ++ names) (target : String) :
    d.entry? q ≠ some (.link target) := by
  obtain ⟨-, -, hleads⟩ := of_reach_ok h.leads
  obtain habove | hbelow := List.prefix_or_prefix_of_prefix hq (List.prefix_append place names)
  · exact hleads.isLinkFree d.isLinkFree_top q habove target
  · exact h.free q hbelow target

theorem Opened.eq_of_reach (h : d.Opened base place) (hnames : ∀ name ∈ names, IsEntryName name)
    (hne : names ≠ []) (hreach : d.reach through (base.below names) = .ok q) :
    q = place ++ names := by
  obtain ⟨-, -, hbase⟩ := of_reach_ok h.leads
  obtain ⟨-, -, hleads⟩ := of_reach_ok hreach
  obtain ⟨left, hleft⟩ := hbase.walk_append
  have hwalk : d.walk through left place names = .ok q :=
    (hleft through names hne).symm.trans hleads.walk
  exact (leads_of_walk hwalk).eq_append (fun name hname => (hnames name hname).2)
    fun _ hinit => h.ne_link hinit

theorem Opened.eq_of_locate (h : d.Opened base place) (hnames : ∀ name ∈ names, IsEntryName name)
    (hlocate : d.locate (base.below names) = .ok q) : q = place ++ names := by
  by_cases hne : names = []
  · subst hne
    rw [below_nil, h.leads] at hlocate
    rw [List.append_nil, Except.ok.inj hlocate]
  · exact h.eq_of_reach hnames hne hlocate

theorem leadsPlainly_of_directories (hnames : ∀ name ∈ names, name ≠ Path.up)
    (hshort : ∀ name ∈ names, isLongName name = false)
    (hdirectory : ∀ init, init <+: names → init ≠ names →
      d.entry? (here ++ init) = some .directory)
    (hlink : ∀ target, d.entry? (here ++ names) ≠ some (.link target)) :
    d.leadsPlainly here names = true := by
  induction names generalizing here with
  | nil => rfl
  | cons name rest ih =>
    obtain ⟨hname, hrest⟩ := List.forall_mem_cons.mp hnames
    obtain ⟨hshortName, hshortRest⟩ := List.forall_mem_cons.mp hshort
    have hassoc : ∀ more, here ++ [name] ++ more = here ++ name :: more := fun more => by
      rw [List.append_assoc, List.singleton_append]
    have hnext : d.leadsPlainly (here ++ [name]) rest = true := by
      refine ih hrest hshortRest (fun init hinit hne => ?_) (by rwa [hassoc])
      rw [hassoc]
      exact hdirectory _ (List.cons_prefix_cons.mpr ⟨rfl, hinit⟩) fun heq =>
        hne (List.cons.inj heq).2
    have hhere := hdirectory [] List.nil_prefix (List.cons_ne_nil _ _).symm
    rw [List.append_nil] at hhere
    have hfree : ∀ target, d.entry? (here ++ [name]) ≠ some (.link target) := by
      intro target htarget
      by_cases hnil : rest = []
      · exact hlink target (hnil ▸ htarget)
      · rw [hdirectory [name] ⟨rest, rfl⟩ fun heq => hnil (List.cons.inj heq).2.symm] at htarget
        cases htarget
    rw [leadsPlainly, hhere, hnext, hshortName, bne_iff_ne.mpr hname]
    cases hentry : d.entry? (here ++ [name]) with
    | none => rfl
    | some entry =>
      cases entry with
      | link target => exact absurd hentry (hfree target)
      | file _ | directory => rfl

theorem Opened.reach (h : d.Opened base place) (hnames : ∀ name ∈ names, IsEntryName name)
    (husable : IsUsable (base.below names)) (hne : names ≠ [])
    (hparent : d.entry? (place ++ names.dropLast) = some .directory) :
    d.reach through (base.below names) = .ok (place ++ names) := by
  obtain ⟨-, -, hbase⟩ := of_reach_ok h.leads
  obtain ⟨left, hleft⟩ := hbase.walk_append
  have hplain : d.leadsPlainly place names = true := by
    refine leadsPlainly_of_directories (fun name hname => (hnames name hname).2)
      (fun name hname => husable.short name (List.mem_append_right _ hname))
      (fun init hinit hinit' => ?_) fun target => h.free _ (List.prefix_append _ _) target
    by_cases heq : init = names.dropLast
    · rw [heq, hparent]
    · refine h.tree.entry_above hparent ?_ fun heq' => heq (List.append_cancel_left heq')
      rw [List.prefix_append_right_inj]
      rw [← List.dropLast_append_getLast hne] at hinit hinit'
      exact (List.prefix_concat_iff.mp hinit).resolve_left hinit'
  rw [Disk.reach, husable.null, if_neg Bool.false_ne_true, if_neg (Nat.not_lt.mpr husable.length)]
  exact (hleft through names hne).trans (walk_of_leadsPlainly hplain)

theorem Opened.read_iff {bytes : List UInt8} (h : d.Opened base place)
    (hnames : ∀ name ∈ names, IsEntryName name) (husable : IsUsable (base.below names))
    (hne : names ≠ []) :
    d.read (base.below names) = .ok bytes ↔ d.entry? (place ++ names) = some (.file bytes) := by
  constructor
  · intro hread
    obtain ⟨q, hq, hfile⟩ := read_ok_iff.mp hread
    rwa [← h.eq_of_locate hnames hq]
  · intro hfile
    have hparent := h.tree.parent_of_entry hfile
    rw [List.dropLast_append_of_ne_nil hne] at hparent
    exact read_ok_iff.mpr ⟨_, h.reach hnames husable hne hparent, hfile⟩

theorem Opened.of_directory (h : d.Opened base place) (hnames : ∀ name ∈ names, IsEntryName name)
    (husable : IsUsable (base.below names)) (hne : names ≠ [])
    (hdirectory : d.entry? (place ++ names) = some .directory) :
    d.Opened (base.below names) (place ++ names) where
  tree := h.tree
  proper name hname := by
    obtain hbase | hname := List.mem_append.mp hname
    · exact h.proper name hbase
    · exact (hnames name hname).1
  leads := by
    have hparent := h.tree.parent_of_entry hdirectory
    rw [List.dropLast_append_of_ne_nil hne] at hparent
    exact h.reach hnames husable hne hparent
  directory := hdirectory
  free q hq := h.free q ((List.prefix_append _ _).trans hq)

/-- A walk that only misses directories says that something is not there. -/
theorem walk_notFound (hnames : ∀ name ∈ names, name ≠ Path.up)
    (hshort : ∀ name ∈ names, isLongName name = false) (hne : names ≠ [])
    (hroom : ∀ init, init <+: names → init ≠ names →
      d.entry? (here ++ init) = none ∨ d.entry? (here ++ init) = some .directory)
    (hmissing : d.entry? (here ++ names.dropLast) ≠ some .directory) :
    d.walk through links here names = .error .notFound := by
  induction names generalizing here with
  | nil => exact absurd rfl hne
  | cons name rest ih =>
    obtain ⟨hname, hrest⟩ := List.forall_mem_cons.mp hnames
    obtain ⟨hshortName, hshortRest⟩ := List.forall_mem_cons.mp hshort
    have hassoc : ∀ more, here ++ [name] ++ more = here ++ name :: more := fun more => by
      rw [List.append_assoc, List.singleton_append]
    have hhere := hroom [] List.nil_prefix (List.cons_ne_nil _ _).symm
    rw [List.append_nil] at hhere
    obtain hnone | hdirectory := hhere
    · rw [walk, hnone]
    · have hnil : rest ≠ [] := by
        rintro rfl
        rw [List.dropLast_singleton, List.append_nil] at hmissing
        exact hmissing hdirectory
      have hnext := hroom [name] ⟨rest, rfl⟩ fun heq => hnil (List.cons.inj heq).2.symm
      rw [walk_down hdirectory hname hshortName fun target htarget => by
        rw [htarget] at hnext
        obtain hnext | hnext := hnext <;> cases hnext]
      refine ih hrest hshortRest hnil (fun init hinit hne => ?_) ?_
      · rw [hassoc]
        exact hroom _ (List.cons_prefix_cons.mpr ⟨rfl, hinit⟩) fun heq =>
          hne (List.cons.inj heq).2
      · rwa [hassoc, ← List.dropLast_cons_of_ne_nil hnil]

theorem Opened.puts {entry : DiskEntry} (h : d.Opened base place)
    (hnames : ∀ name ∈ names, IsEntryName name) (hne : names ≠ [])
    (hputs : d.Puts (base.below names) q entry) :
    q = place ++ names ∧ (d.put q entry).Opened base place := by
  have hq : q = place ++ names := by
    cases hputs with
    | directory hreach | file hreach => exact h.eq_of_reach hnames hne hreach
  have hplace : place ≠ q := fun heq => hne (List.append_right_eq_self.mp (heq ▸ hq).symm)
  have hgrows : d.Grows (d.put q entry) := by
    cases hputs with
    | directory _ hnone => exact grows_put_directory hnone
    | file _ hdirectory bytes =>
      refine grows_put_file hdirectory (fun target => h.free q ?_ target) bytes
      rw [hq]
      exact List.prefix_append _ _
  refine ⟨hq, ?_, h.proper, hgrows.locate h.leads, hgrows.directory h.directory, ?_⟩
  · exact hputs.isTree h.tree (h.proper.below fun name hname => (hnames name hname).1)
  · intro r hr target htarget
    exact h.free r hr target (hgrows.link.mp htarget)

/-- The directories of some names are made, where nothing or a directory stood. -/
structure Makes (place : Place) (names : List String) (d d' : Disk) : Prop where
  room : ∀ init, init <+: names →
    d.entry? (place ++ init) = none ∨ d.entry? (place ++ init) = some .directory
  made : ∀ init, init <+: names → d'.entry? (place ++ init) = some .directory
  kept : ∀ q, (∀ init, init <+: names → q ≠ place ++ init) → d'.entry? q = d.entry? q

theorem Makes.kept_below {more : List String} (h : Makes place names d d')
    (hmore : ¬ more <+: names) : d'.entry? (place ++ more) = d.entry? (place ++ more) :=
  h.kept _ fun _ hinit heq => hmore (List.append_cancel_left heq ▸ hinit)

theorem Makes.trans (h : Makes place init d d') (h' : Makes place (init ++ [last]) d' d'') :
    Makes place (init ++ [last]) d d'' := by
  have hlast : ∀ more, more <+: init → place ++ (init ++ [last]) ≠ place ++ more := by
    intro more hmore heq
    rw [← List.append_cancel_left heq] at hmore
    have hlength := hmore.length_le
    rw [List.length_append, List.length_singleton] at hlength
    omega
  refine ⟨fun more hmore => ?_, h'.made, fun q hq => ?_⟩
  · obtain rfl | hmore := List.prefix_concat_iff.mp hmore
    · rw [← h.kept _ hlast]
      exact h'.room _ List.prefix_rfl
    · exact h.room more hmore
  · rw [h'.kept q hq]
    exact h.kept q fun more hmore => hq more (hmore.trans (List.prefix_append _ _))

theorem Opened.makes_of_directory (h : d.Opened base place)
    (hdirectory : d.entry? (place ++ names) = some .directory) : Makes place names d d := by
  have hmade : ∀ init, init <+: names → d.entry? (place ++ init) = some .directory := by
    intro init hinit
    by_cases heq : init = names
    · rw [heq, hdirectory]
    · exact h.tree.entry_above hdirectory ((List.prefix_append_right_inj place).mpr hinit)
        fun heq' => heq (List.append_cancel_left heq')
  exact ⟨fun init hinit => .inr (hmade init hinit), hmade, fun _ _ => rfl⟩

theorem Opened.of_makeDirectory (h : d.Opened base place)
    (hnames : ∀ name ∈ names, IsEntryName name)
    (hmade : d.makeDirectory (base.below names) = .ok d') :
    d'.Opened base place ∧ Makes place names d d' := by
  have hspec := (makeDirectory_spec hmade).2
  by_cases hne : names = []
  · subst hne
    rw [below_nil, makeDirectory_of_isDirectory (isDirectory_iff.mpr ⟨place, h.leads, h.directory⟩)]
      at hmade
    cases hmade
    exact ⟨h, h.makes_of_directory (by rw [List.append_nil, h.directory])⟩
  · obtain rfl | ⟨q, hputs, rfl⟩ := makeDirectory_cases hmade
    · obtain ⟨q, hq, hdirectory⟩ := isDirectory_iff.mp hspec
      rw [h.eq_of_locate hnames hq] at hdirectory
      exact ⟨h, h.makes_of_directory hdirectory⟩
    · obtain ⟨rfl, hopened⟩ := h.puts hnames hne hputs
      refine ⟨hopened, ?_⟩
      have hput : entry? (d.put (place ++ names) .directory) (place ++ names) =
          some .directory := by
        rw [entry?_put d hputs.ne_nil, if_pos rfl]
      have hmakes := (hopened.makes_of_directory hput).made
      have hother : ∀ q, q ≠ place ++ names →
          entry? (d.put (place ++ names) .directory) q = d.entry? q := by
        intro q hq
        rw [entry?_put d hputs.ne_nil, if_neg hq]
      refine ⟨fun init hinit => ?_, hmakes, fun q hq => hother q (hq names List.prefix_rfl)⟩
      by_cases heq : init = names
      · cases hputs with
        | directory _ hnone => exact .inl (heq ▸ hnone)
      · rw [← hother _ fun heq' => heq (List.append_cancel_left heq')]
        exact .inr (hmakes init hinit)

theorem parent_below (base : Path) (init : List String) (last : String) :
    (base.below (init ++ [last])).parent = base.below init := by
  rw [parent, below, below, ← List.append_assoc, List.dropLast_concat]

theorem Opened.of_makeDirectoriesFrom (h : d.Opened base place)
    (hnames : ∀ name ∈ names, IsEntryName name) {above : Nat}
    (hmade : d.makeDirectoriesFrom above (base.below names) = .ok d') :
    d'.Opened base place ∧ Makes place names d d' := by
  induction names using List.reverseRecOn generalizing above d' with
  | nil =>
    have hdirectory : d.isDirectory (base.below []) = true := by
      rw [below_nil]
      exact isDirectory_iff.mpr ⟨place, h.leads, h.directory⟩
    have hfirst := makeDirectory_of_isDirectory hdirectory
    rw [makeDirectoriesFrom_of_makeDirectory hfirst] at hmade
    exact h.of_makeDirectory hnames (hfirst.trans hmade)
  | append_singleton init last ih =>
    cases above with
    | zero => exact h.of_makeDirectory hnames hmade
    | succ above =>
      obtain hmade | ⟨d₁, hparents, hmade⟩ := makeDirectoriesFrom_cases hmade
      · exact h.of_makeDirectory hnames hmade
      · rw [parent_below] at hparents
        obtain ⟨hopened, hmakes⟩ :=
          ih (fun name hname => hnames name (List.mem_append_left _ hname)) hparents
        obtain ⟨hopened', hmakes'⟩ := hopened.of_makeDirectory hnames hmade
        exact ⟨hopened', hmakes.trans hmakes'⟩

theorem Opened.of_makeDirectories (h : d.Opened base place)
    (hnames : ∀ name ∈ names, IsEntryName name)
    (hmade : d.makeDirectories (base.below names) = .ok d') :
    d'.Opened base place ∧ Makes place names d d' :=
  h.of_makeDirectoriesFrom hnames hmade

theorem Opened.exists_makeDirectory (h : d.Opened base place)
    (hnames : ∀ name ∈ names, IsEntryName name) (husable : IsUsable (base.below names))
    (hne : names ≠ []) (hparent : d.entry? (place ++ names.dropLast) = some .directory)
    (hroom : d.entry? (place ++ names) = none ∨ d.entry? (place ++ names) = some .directory) :
    ∃ d', d.makeDirectory (base.below names) = .ok d' := by
  have hreach : ∀ {through}, d.reach through (base.below names) = .ok (place ++ names) :=
    h.reach hnames husable hne hparent
  obtain hnone | hdirectory := hroom
  · refine ⟨d.put (place ++ names) .directory, ?_⟩
    rw [makeDirectory, hreach]
    dsimp only
    rw [hnone]
  · exact ⟨d, makeDirectory_of_isDirectory (isDirectory_iff.mpr ⟨_, hreach, hdirectory⟩)⟩

/-- A directory cannot be made alone where the one above it is missing. -/
theorem Opened.makeDirectory_notFound (h : d.Opened base place)
    (hnames : ∀ name ∈ init ++ [last], IsEntryName name)
    (husable : IsUsable (base.below (init ++ [last])))
    (hroom : ∀ more, more <+: init ++ [last] →
      d.entry? (place ++ more) = none ∨ d.entry? (place ++ more) = some .directory)
    (hparent : d.entry? (place ++ init) ≠ some .directory) :
    d.makeDirectory (base.below (init ++ [last])) =
      fail .notFound (base.below (init ++ [last])) := by
  have hne : init ++ [last] ≠ [] := List.append_ne_nil_of_right_ne_nil _ (List.cons_ne_nil _ _)
  have hmissing : d.reach false (base.below (init ++ [last])) = .error .notFound := by
    obtain ⟨-, -, hbase⟩ := of_reach_ok h.leads
    obtain ⟨left, hleft⟩ := hbase.walk_append
    rw [Disk.reach, husable.null, if_neg Bool.false_ne_true,
      if_neg (Nat.not_lt.mpr husable.length)]
    refine (hleft false _ hne).trans (walk_notFound (fun name hname => (hnames name hname).2)
      (fun name hname => husable.short name (List.mem_append_right _ hname)) hne
      (fun more hmore _ => hroom more hmore) ?_)
    rwa [List.dropLast_concat]
  rw [makeDirectory, hmissing]

/-- Directories can be made where nothing or a directory stands. -/
theorem Opened.exists_makeDirectoriesFrom (h : d.Opened base place)
    (hnames : ∀ name ∈ names, IsEntryName name)
    (husable : ∀ init, init <+: names → IsUsable (base.below init))
    (hroom : ∀ init, init <+: names →
      d.entry? (place ++ init) = none ∨ d.entry? (place ++ init) = some .directory)
    {above : Nat} (habove : names.length ≤ above + 1) :
    ∃ d', d.makeDirectoriesFrom above (base.below names) = .ok d' := by
  induction names using List.reverseRecOn generalizing above with
  | nil =>
    have hdirectory : d.isDirectory (base.below []) = true := by
      rw [below_nil]
      exact isDirectory_iff.mpr ⟨place, h.leads, h.directory⟩
    exact ⟨d, makeDirectoriesFrom_of_makeDirectory (makeDirectory_of_isDirectory hdirectory) above⟩
  | append_singleton init last ih =>
    have hne : init ++ [last] ≠ [] := List.append_ne_nil_of_right_ne_nil _ (List.cons_ne_nil _ _)
    have hwhole := husable _ List.prefix_rfl
    by_cases hparent : d.entry? (place ++ init) = some .directory
    · obtain ⟨d', hfirst⟩ := h.exists_makeDirectory hnames hwhole hne
        (by rwa [List.dropLast_concat]) (hroom _ List.prefix_rfl)
      exact ⟨d', makeDirectoriesFrom_of_makeDirectory hfirst above⟩
    · have hinit : init ≠ [] := by
        rintro rfl
        rw [List.append_nil] at hparent
        exact hparent h.directory
      have hfirst := h.makeDirectory_notFound hnames hwhole hroom hparent
      have hlength := List.length_pos_iff.mpr hinit
      rw [List.length_append, List.length_singleton] at habove
      obtain ⟨above, rfl⟩ : ∃ less, above = less + 1 := ⟨above - 1, by omega⟩
      have hwithin : ∀ more, more <+: init → more <+: init ++ [last] :=
        fun more hmore => hmore.trans (List.prefix_append _ _)
      have hshorter : init.length ≤ above + 1 := by omega
      obtain ⟨d₁, hparents⟩ := ih
        (fun name hname => hnames name (List.mem_append_left _ hname))
        (fun more hmore => husable more (hwithin more hmore))
        (fun more hmore => hroom more (hwithin more hmore)) hshorter
      obtain ⟨hopened, hmakes⟩ := h.of_makeDirectoriesFrom
        (fun name hname => hnames name (List.mem_append_left _ hname)) hparents
      have hlast : d₁.entry? (place ++ (init ++ [last])) = d.entry? (place ++ (init ++ [last])) := by
        refine hmakes.kept_below fun hmore => ?_
        have hlonger := hmore.length_le
        rw [List.length_append, List.length_singleton] at hlonger
        omega
      obtain ⟨d', hsecond⟩ := hopened.exists_makeDirectory hnames hwhole hne
        (by rw [List.dropLast_concat]; exact hmakes.made init List.prefix_rfl)
        (by rw [hlast]; exact hroom _ List.prefix_rfl)
      refine ⟨d', ?_⟩
      rw [makeDirectoriesFrom, hfirst]
      dsimp only [fail]
      rw [if_pos (beq_self_eq_true _), parent_below, hparents]
      exact hsecond

theorem Opened.exists_makeDirectories (h : d.Opened base place)
    (hnames : ∀ name ∈ names, IsEntryName name)
    (husable : ∀ init, init <+: names → IsUsable (base.below init))
    (hroom : ∀ init, init <+: names →
      d.entry? (place ++ init) = none ∨ d.entry? (place ++ init) = some .directory) :
    ∃ d', d.makeDirectories (base.below names) = .ok d' := by
  refine h.exists_makeDirectoriesFrom hnames husable hroom ?_
  rw [below, List.length_append]
  omega

theorem Opened.of_write (h : d.Opened base place) (hnames : ∀ name ∈ names, IsEntryName name)
    (hne : names ≠ []) (hwrite : d.write (base.below names) bytes = .ok d') :
    d'.Opened base place ∧ d.entry? (place ++ names) ≠ some .directory ∧
      d' = d.put (place ++ names) (.file bytes) := by
  obtain ⟨q, hputs, rfl⟩ := write_cases hwrite
  obtain ⟨rfl, hopened⟩ := h.puts hnames hne hputs
  cases hputs with
  | file _ hdirectory => exact ⟨hopened, hdirectory, rfl⟩

theorem Opened.write (h : d.Opened base place) (hnames : ∀ name ∈ names, IsEntryName name)
    (husable : IsUsable (base.below names)) (hne : names ≠ [])
    (hparent : d.entry? (place ++ names.dropLast) = some .directory)
    (hdirectory : d.entry? (place ++ names) ≠ some .directory) (bytes : List UInt8) :
    d.write (base.below names) bytes = .ok (d.put (place ++ names) (.file bytes)) :=
  write_of_ne_directory (h.reach hnames husable hne hparent) hdirectory

theorem Opened.entry_on_way (h : d.Opened base place) {above : Path} {more : List String}
    (hbase : base = above.below more) (hreach : d.reach false above = .ok q) :
    d.entry? q ≠ none := by
  intro hnone
  obtain ⟨hnull, hlength, hleads⟩ := of_reach_ok hreach
  have hthrough := hleads.followed (by rw [hnone]; nofun)
  obtain ⟨-, -, hwhole⟩ := of_reach_ok h.leads
  have hwalk : d.walk true linkLimit [] (above.names ++ more) = .ok place := by
    rw [← hwhole.walk, hbase]
    rfl
  cases more with
  | nil =>
    rw [List.append_nil, hthrough.walk] at hwalk
    rw [Except.ok.inj hwalk, h.directory] at hnone
    cases hnone
  | cons name more =>
    obtain ⟨left, hleft⟩ := hthrough.walk_append
    rw [hleft true _ (List.cons_ne_nil _ _), walk, hnone] at hwalk
    cases hwalk

theorem Opened.step (h : d.Opened base place) (hstep : d.Step base.Inside d') :
    d'.Opened base place ∧
      ∀ q, (¬ place <+: q ∨ q = place) → d'.entry? q = d.entry? q := by
  obtain rfl | ⟨p, names, q, entry, ⟨inner, hinner, hnames, heq⟩, hlast, hputs, rfl⟩ := hstep.cases
  · exact ⟨h, fun _ _ => rfl⟩
  have hdoubled : (p.below names).doubled = (base.below inner).doubled := congrArg _ heq
  rw [below, below] at hdoubled
  obtain ⟨more, hmore, hrest⟩ | ⟨inside, hinside, hrest⟩ :=
    List.append_eq_append_iff.mp (congrArg Path.names heq)
  · -- The path does not go beyond the directory, so a directory stands there already.
    obtain rfl | rfl := hlast
    · cases hputs with
      | directory hreach hnone =>
        have hbase : base = p.below more := by
          rw [below, ← hmore, hdoubled]
        exact absurd hnone (h.entry_on_way hbase hreach)
    · exact absurd (List.append_eq_nil_iff.mp hrest.symm).2 hinner
  · have hp : p = base.below inside := by
      rw [below, ← hinside, ← hdoubled]
    subst hp
    have hinsideNames : ∀ name ∈ inside, IsEntryName name := fun name hname =>
      hnames name (by rw [hrest]; exact List.mem_append_left _ hname)
    by_cases hne : inside = []
    · subst hne
      obtain rfl | rfl := hlast
      · cases hputs with
        | directory hreach hnone =>
          have hbase : base = (base.below []).below [] := by
            rw [below_nil, below_nil]
          exact absurd hnone (h.entry_on_way hbase hreach)
      · exact absurd hrest hinner
    · obtain ⟨rfl, hopened⟩ := h.puts hinsideNames hne hputs
      refine ⟨hopened, fun q hq => ?_⟩
      rw [entry?_put d hputs.ne_nil, if_neg]
      rintro rfl
      obtain hq | hq := hq
      · exact hq (List.prefix_append _ _)
      · exact hne (List.append_right_eq_self.mp hq)

theorem Opened.steps (h : d.Opened base place) (hsteps : d.Steps base.Inside d') :
    d'.Opened base place ∧
      ∀ q, (¬ place <+: q ∨ q = place) → d'.entry? q = d.entry? q := by
  induction hsteps with
  | refl => exact ⟨h, fun _ _ => rfl⟩
  | tail _ hstep ih =>
    obtain ⟨hopened, hbefore⟩ := ih
    obtain ⟨hafter, hlast⟩ := hopened.step hstep
    exact ⟨hafter, fun q hq => (hlast q hq).trans (hbefore q hq)⟩

theorem entry_of_makeDirectory (h : d.makeDirectory p = .ok d') (q : Place) :
    d'.entry? q = d.entry? q ∨ d.entry? q = none ∧ d'.entry? q = some .directory := by
  obtain rfl | ⟨place, hputs, rfl⟩ := makeDirectory_cases h
  · exact .inl rfl
  · rw [entry?_put d hputs.ne_nil]
    split
    · next heq =>
      cases hputs with
      | directory _ hnone => exact .inr ⟨heq ▸ hnone, rfl⟩
    · exact .inl rfl

theorem entry_of_makeDirectoriesFrom {above : Nat} (h : d.makeDirectoriesFrom above p = .ok d')
    (q : Place) :
    d'.entry? q = d.entry? q ∨ d.entry? q = none ∧ d'.entry? q = some .directory := by
  induction above generalizing p d' with
  | zero => exact entry_of_makeDirectory h q
  | succ above ih =>
    obtain hmade | ⟨d₁, hparents, hmade⟩ := makeDirectoriesFrom_cases h
    · exact entry_of_makeDirectory hmade q
    · obtain heq | ⟨hnone, hlast⟩ := entry_of_makeDirectory hmade q
      · rw [heq]
        exact ih hparents
      · obtain heq | ⟨-, hdirectory⟩ := ih hparents
        · exact .inr ⟨heq ▸ hnone, hlast⟩
        · rw [hdirectory] at hnone
          cases hnone

theorem Leads.exists_parent {all : List String} (h : d.Leads through links here all q)
    (hall : all = names ++ [last]) :
    ∃ place, d.Leads true links here names place ∧ d.entry? place = some .directory := by
  induction h generalizing names with
  | done => exact absurd hall.symm (List.append_ne_nil_of_right_ne_nil _ (List.cons_ne_nil _ _))
  | up hhere _ ih =>
    cases names with
    | nil => exact ⟨_, .done, hhere⟩
    | cons name names =>
      obtain ⟨rfl, hrest⟩ := List.cons.inj hall
      obtain ⟨place, hleads, hplace⟩ := ih hrest
      exact ⟨place, .up hhere hleads, hplace⟩
  | atLink hhere =>
    cases names with
    | nil => exact ⟨_, .done, hhere⟩
    | cons name names =>
      have hrest := (List.cons.inj hall).2
      exact absurd hrest.symm (List.append_ne_nil_of_right_ne_nil _ (List.cons_ne_nil _ _))
  | follow hhere hname hshort hlink _ _ ih =>
    cases names with
    | nil => exact ⟨_, .done, hhere⟩
    | cons name names =>
      obtain ⟨rfl, rfl⟩ := List.cons.inj hall
      obtain ⟨place, hleads, hplace⟩ := ih (List.append_assoc ..).symm
      exact ⟨place, .follow hhere hname hshort hlink (Bool.and_false _) hleads, hplace⟩
  | down hhere hname hshort hlink _ ih =>
    cases names with
    | nil => exact ⟨_, .done, hhere⟩
    | cons name names =>
      obtain ⟨rfl, hrest⟩ := List.cons.inj hall
      obtain ⟨place, hleads, hplace⟩ := ih hrest
      exact ⟨place, .down hhere hname hshort hlink hleads, hplace⟩

theorem makeDirectories_child {name : String} (h : d.makeDirectories (base.child name) = .ok d') :
    (∃ d₁, d.makeDirectories base = .ok d₁ ∧ d₁.makeDirectory (base.child name) = .ok d') ∨
      d.makeDirectory (base.child name) = .ok d' := by
  have hparent : (base.child name).parent = base := by
    rw [parent, child, List.dropLast_concat]
  have hlength : (base.child name).names.length = base.names.length + 1 := List.length_append
  rw [makeDirectories, hlength] at h
  obtain hmade | ⟨d₁, hparents, hmade⟩ := makeDirectoriesFrom_cases h
  · exact .inr hmade
  · rw [hparent] at hparents
    exact .inl ⟨d₁, hparents, hmade⟩

theorem makeDirectories_of_makeDirectory (h : d.makeDirectory p = .ok d') :
    d.makeDirectories p = .ok d' := makeDirectoriesFrom_of_makeDirectory h _

theorem exists_directory_above {name : String} (h : d.makeDirectory (base.child name) = .ok d') :
    ∃ above, d.Leads true linkLimit [] base.names above ∧ d.entry? above = some .directory := by
  obtain rfl | ⟨q, hputs, -⟩ := makeDirectory_cases h
  · obtain ⟨q, hq, -⟩ := isDirectory_iff.mp (makeDirectory_spec h).2
    obtain ⟨-, -, hleads⟩ := of_reach_ok hq
    exact hleads.exists_parent rfl
  · cases hputs with
    | directory hreach =>
      obtain ⟨-, -, hleads⟩ := of_reach_ok hreach
      exact hleads.exists_parent rfl

/-- Where a directory is made in a new one, the new one is made first, and is empty then but for
directories. -/
theorem exists_opened {goal : Disk} {name : String} (hd : d.IsTree) (hbase : base.IsProper)
    (hmade : d.makeDirectories (base.child name) = .ok d') (hgrows : d'.Grows goal)
    (hplace : goal.locate base = .ok place) (hnew : d.entry? place = none) :
    ∃ d₁, d.makeDirectories base = .ok d₁ ∧ d₁.makeDirectories (base.child name) = .ok d' ∧
      d₁.Opened base place ∧
      ∀ q, place <+: q → d₁.entry? q = none ∨ d₁.entry? q = some .directory := by
  obtain ⟨d₁, hopen, hfirst⟩ | halone := makeDirectories_child hmade
  · have hafter := (makeDirectory_spec hfirst).1.grows.trans hgrows
    obtain ⟨q, hq, hdirectory⟩ := isDirectory_iff.mp (makeDirectories_spec hopen).2
    have hlocate := hafter.locate hq
    rw [hplace] at hlocate
    obtain rfl : place = q := Except.ok.inj hlocate
    have hempty : ∀ r, place <+: r → d₁.entry? r = none ∨ d₁.entry? r = some .directory := by
      intro r hr
      obtain heq | ⟨-, hmade⟩ := entry_of_makeDirectoriesFrom hopen r
      · exact .inl (heq.trans (hd.entry_below hnew hr))
      · exact .inr hmade
    have hproper : (base.below []).IsProper := by
      rwa [below_nil]
    have htree : d₁.IsTree := (steps_makeDirectories hopen hproper).isTree (fun _ hp => hp) hd
    refine ⟨d₁, hopen, makeDirectories_of_makeDirectory hfirst,
      ⟨htree, hbase, hq, hdirectory, fun r hr target htarget => ?_⟩, hempty⟩
    have hr := hempty r hr
    rw [htarget] at hr
    obtain hr | hr := hr <;> cases hr
  · -- The directory above would have been there before.
    obtain ⟨above, hleads, hdirectory⟩ := exists_directory_above halone
    have hwhole := (makeDirectories_spec hmade).1.grows.trans hgrows
    obtain ⟨-, -, hplaceLeads⟩ := of_reach_ok hplace
    have heq := (hleads.grow hwhole).walk
    rw [hplaceLeads.walk] at heq
    obtain rfl : place = above := Except.ok.inj heq
    rw [hnew] at hdirectory
    cases hdirectory

end Refsite.Disk
