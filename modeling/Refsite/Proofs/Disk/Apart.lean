import Mathlib.Data.List.Induction
import Refsite.Proofs.Disk.Tree
import Refsite.Proofs.Text.Basic
namespace Refsite.Disk

/-- The places on the way that names lead from a place, by way of the links on it. -/
inductive Meets (d : Disk) : (links : Nat) → Place → List String → Place → Prop
  | here {links here names} : Meets d links here names here
  | up {links here rest q} (h : Meets d links here.dropLast rest q) :
      Meets d links here (Path.up :: rest) q
  | next {links here name rest} (hname : name ≠ Path.up) :
      Meets d links here (name :: rest) (here ++ [name])
  | follow {links here name rest target q} (hname : name ≠ Path.up)
      (hlink : d.entry? (here ++ [name]) = some (.link target))
      (h : Meets d links (linkStart here target) (Path.namesOf target ++ rest) q) :
      Meets d (links + 1) here (name :: rest) q
  | down {links here name rest q} (hname : name ≠ Path.up)
      (hlink : ∀ more target, links = more + 1 → d.entry? (here ++ [name]) ≠ some (.link target))
      (h : Meets d links (here ++ [name]) rest q) : Meets d links here (name :: rest) q

variable {bad : Place → Prop} {d d' : Disk} {through : Bool} {links : Nat} {here place q : Place}
  {names rest : List String} {p : Path}

theorem Leads.meets (h : d.Leads through links here names place) :
    d.Meets links here names place := by
  induction h with
  | done => exact .here
  | up _ _ ih => exact .up ih
  | atLink _ hname => exact .next hname
  | follow _ hname _ hlink _ _ ih => exact .follow hname hlink ih
  | down _ hname _ hlink _ ih => exact .down hname (fun _ target _ => hlink target) ih

/-- A walk asks for nothing but the entries on its way. -/
theorem walk_congr (through : Bool)
    (h : ∀ q, d.Meets links here names q → d'.entry? q = d.entry? q) :
    d'.walk through links here names = d.walk through links here names := by
  induction links, here, names using walk.induct d through with
  | case1 links here => rw [walk, walk]
  | case2 links here name rest hhere | case3 links here name rest _ hhere
  | case4 links here name rest _ hhere => rw [walk, walk, h here .here, hhere]
  | case5 links here name rest hhere hup ih =>
    obtain rfl := beq_iff_eq.mp hup
    rw [walk_up hhere, walk_up ((h here .here).trans hhere)]
    exact ih fun q hq => h q (.up hq)
  | case6 links here name rest hhere hup hlong =>
    rw [walk, walk, h here .here, hhere]
    dsimp only
    rw [if_neg hup, if_pos hlong, if_neg hup, if_pos hlong]
  | case7 links here name rest hhere hup hlong target hlink hlast =>
    have hname : name ≠ Path.up := by simpa using hup
    have hshort := Bool.eq_false_iff.mpr hlong
    rw [walk_link hhere hname hshort hlink, if_pos hlast,
      walk_link ((h here .here).trans hhere) hname hshort ((h _ (.next hname)).trans hlink),
      if_pos hlast]
  | case8 here name rest hhere hup hlong target hlink hlast =>
    have hname : name ≠ Path.up := by simpa using hup
    have hshort := Bool.eq_false_iff.mpr hlong
    rw [walk_link hhere hname hshort hlink, if_neg hlast, if_pos rfl,
      walk_link ((h here .here).trans hhere) hname hshort ((h _ (.next hname)).trans hlink),
      if_neg hlast, if_pos rfl]
  | case9 here name rest hhere hup hlong target hlink hlast links ih =>
    have hname : name ≠ Path.up := by simpa using hup
    have hshort := Bool.eq_false_iff.mpr hlong
    rw [walk_link hhere hname hshort hlink, if_neg hlast, if_neg (Nat.succ_ne_zero links),
      walk_link ((h here .here).trans hhere) hname hshort ((h _ (.next hname)).trans hlink),
      if_neg hlast, if_neg (Nat.succ_ne_zero links)]
    exact ih fun q hq => h q (.follow hname hlink hq)
  | case10 links here name rest hhere hup hlong hlink ih =>
    have hname : name ≠ Path.up := by simpa using hup
    have hshort := Bool.eq_false_iff.mpr hlong
    rw [walk_down hhere hname hshort hlink,
      walk_down ((h here .here).trans hhere) hname hshort (by rwa [h _ (.next hname)])]
    exact ih fun q hq => h q (.down hname (fun _ target _ => hlink target) hq)

theorem follow_congr (h : ∀ q, d.Meets links here names q → d'.entry? q = d.entry? q) :
    d'.follow links here names = d.follow links here names := by
  induction links, here, names using follow.induct d with
  | case1 links here => rw [follow_nil, follow_nil]
  | case2 links here name rest hup ih =>
    obtain rfl := beq_iff_eq.mp hup
    rw [follow_up hup, follow_up hup]
    exact ih fun q hq => h q (.up hq)
  | case3 here name rest hup links target hlink ih =>
    have hname : name ≠ Path.up := by simpa using hup
    rw [follow_link hup hlink, follow_link hup ((h _ (.next hname)).trans hlink)]
    exact ih fun q hq => h q (.follow hname hlink hq)
  | case4 here name rest hup links hlink ih =>
    have hname : name ≠ Path.up := by simpa using hup
    rw [follow_down hup hlink, follow_down hup (by rwa [h _ (.next hname)])]
    exact ih fun q hq => h q (.down hname hlink hq)

theorem Leads.walk_append (h : d.Leads true links here names place) :
    ∃ left, ∀ through rest, rest ≠ [] →
      d.walk through links here (names ++ rest) = d.walk through left place rest := by
  induction h with
  | done => exact ⟨_, fun _ _ _ => rfl⟩
  | up hhere _ ih =>
    obtain ⟨left, hleft⟩ := ih
    refine ⟨left, fun through rest hrest => ?_⟩
    rw [List.cons_append, walk_up hhere, hleft through rest hrest]
  | atLink _ _ _ _ hthrough => cases hthrough
  | @follow _ _ _ names _ _ hhere hname hshort hlink _ _ ih =>
    obtain ⟨left, hleft⟩ := ih
    refine ⟨left, fun through rest hrest => ?_⟩
    have hmore : (names ++ rest).isEmpty = false :=
      List.isEmpty_eq_false_iff.mpr (List.append_ne_nil_of_right_ne_nil _ hrest)
    rw [List.cons_append, walk_link hhere hname hshort hlink, hmore, Bool.false_and,
      if_neg Bool.false_ne_true, if_neg (Nat.succ_ne_zero _), ← List.append_assoc]
    exact hleft through rest hrest
  | down hhere hname hshort hlink _ ih =>
    obtain ⟨left, hleft⟩ := ih
    refine ⟨left, fun through rest hrest => ?_⟩
    rw [List.cons_append, walk_down hhere hname hshort hlink, hleft through rest hrest]

theorem Leads.meets_append (h : d.Leads true links here names place) :
    ∃ left, ∀ rest q, d.Meets links here (names ++ rest) q →
      d.Meets links here names q ∨ d.Meets left place rest q := by
  induction h with
  | done => exact ⟨_, fun _ _ h => .inr h⟩
  | up _ _ ih =>
    obtain ⟨left, hleft⟩ := ih
    refine ⟨left, fun rest q h => ?_⟩
    cases h with
    | here => exact .inl .here
    | up h => exact (hleft rest q h).imp_left .up
    | next hname | follow hname | down hname => exact absurd rfl hname
  | atLink _ _ _ _ hthrough => cases hthrough
  | follow _ hname _ hlink _ _ ih =>
    obtain ⟨left, hleft⟩ := ih
    refine ⟨left, fun rest q h => ?_⟩
    cases h with
    | here => exact .inl .here
    | up => exact absurd rfl hname
    | next => exact .inl (.next hname)
    | follow _ hlink' h =>
      rw [hlink] at hlink'
      cases hlink'
      refine (hleft rest q ?_).imp_left (.follow hname hlink)
      rw [List.append_assoc]
      exact h
    | down _ hfree => exact absurd hlink (hfree _ _ rfl)
  | down _ hname _ hlink _ ih =>
    obtain ⟨left, hleft⟩ := ih
    refine ⟨left, fun rest q h => ?_⟩
    cases h with
    | here => exact .inl .here
    | up => exact absurd rfl hname
    | next => exact .inl (.next hname)
    | follow _ hlink' => exact absurd hlink' (hlink _)
    | down _ _ h =>
      exact (hleft rest q h).imp_left (.down hname fun _ target _ => hlink target)

theorem Leads.isSome_of_meets (h : d.Leads true links here names place)
    (hplace : (d.entry? place).isSome) (hq : d.Meets links here names q) :
    (d.entry? q).isSome := by
  induction h with
  | done =>
    cases hq
    exact hplace
  | up hhere _ ih =>
    cases hq with
    | here => rw [hhere, Option.isSome_some]
    | up h => exact ih hplace h
    | next hname | follow hname | down hname => exact absurd rfl hname
  | atLink _ _ _ _ hthrough => cases hthrough
  | follow hhere hname _ hlink _ _ ih =>
    cases hq with
    | here => rw [hhere, Option.isSome_some]
    | up => exact absurd rfl hname
    | next => rw [hlink, Option.isSome_some]
    | follow _ hlink' h =>
      rw [hlink] at hlink'
      cases hlink'
      exact ih hplace h
    | down _ hfree => exact absurd hlink (hfree _ _ rfl)
  | down hhere hname _ hlink _ ih =>
    cases hq with
    | here => rw [hhere, Option.isSome_some]
    | up => exact absurd rfl hname
    | next => exact ih hplace .here
    | follow _ hlink' => exact absurd hlink' (hlink _)
    | down _ _ h => exact ih hplace h

/-- Where nothing stands, names lead to the same place whether a last link is followed or not. -/
theorem Leads.to_end (h : d.Leads false links here names place)
    (hlink : ∀ target, d.entry? place ≠ some (.link target)) :
    d.Leads true links here names place := by
  induction h with
  | done => exact .done
  | up hhere _ ih => exact .up hhere (ih hlink)
  | atLink _ _ _ hentry => exact absurd hentry (hlink _)
  | follow hhere hname hshort hentry hmore _ ih =>
    exact .follow hhere hname hshort hentry (Bool.and_false _) (ih hlink)
  | down hhere hname hshort hfree _ ih => exact .down hhere hname hshort hfree (ih hlink)

theorem Meets.plain (h : d.Meets links here names q) (hnames : ∀ name ∈ names, name ≠ Path.up)
    (hfree : ∀ init, init <+: names → ∀ target, d.entry? (here ++ init) ≠ some (.link target)) :
    ∃ init, init <+: names ∧ q = here ++ init := by
  induction h with
  | here => exact ⟨[], List.nil_prefix, (List.append_nil _).symm⟩
  | up => exact absurd rfl (hnames _ List.mem_cons_self)
  | @next _ _ name rest => exact ⟨[name], ⟨rest, rfl⟩, rfl⟩
  | @follow _ _ name rest _ _ _ hlink => exact absurd hlink (hfree [name] ⟨rest, rfl⟩ _)
  | @down _ here name rest _ _ _ _ ih =>
    obtain ⟨init, hinit, rfl⟩ := ih (List.forall_mem_cons.mp hnames).2 fun init hinit => by
      rw [List.append_assoc]
      exact hfree _ (List.cons_prefix_cons.mpr ⟨rfl, hinit⟩)
    exact ⟨name :: init, List.cons_prefix_cons.mpr ⟨rfl, hinit⟩, List.append_assoc ..⟩

/-- Two disks hold the same at all places but some. -/
def AgreesBut (bad : Place → Prop) (d d' : Disk) : Prop := ∀ q, ¬ bad q → d'.entry? q = d.entry? q

def Apart (bad : Place → Prop) (d : Disk) (p : Path) : Prop :=
  ∀ q, d.Meets linkLimit [] p.names q → ¬ bad q

/-- A path meets none of some places, nor is any of them below where it leads. -/
structure TreeApart (bad : Place → Prop) (d : Disk) (p : Path) : Prop where
  path : d.Apart bad p
  below : ∀ place q, d.locate p = .ok place → place <+: q → ¬ bad q

section Agreeing

variable (hp : d.Apart bad p) (h : d.AgreesBut bad d')

include hp h

theorem Apart.reach (through : Bool) : d'.reach through p = d.reach through p := by
  rw [Disk.reach, Disk.reach, walk_congr through fun q hq => h q (hp q hq)]

theorem Apart.locate : d'.locate p = d.locate p := hp.reach h true

theorem Apart.resolve : d'.resolve p = d.resolve p := by
  rw [Disk.resolve, Disk.resolve, follow_congr fun q hq => h q (hp q hq)]

theorem Apart.entry? (hplace : d.locate p = .ok place) : d'.entry? place = d.entry? place := by
  obtain ⟨-, -, hleads⟩ := of_reach_ok hplace
  exact h place (hp place hleads.meets)

theorem Apart.look : d'.look p = d.look p := by
  rw [Disk.look, Disk.look, hp.locate h]
  cases hplace : d.locate p with
  | error obstacle => cases obstacle <;> rfl
  | ok place =>
    dsimp only
    rw [hp.entry? h hplace]

theorem Apart.read : d'.read p = d.read p := by
  rw [Disk.read, Disk.read, hp.locate h]
  cases hplace : d.locate p with
  | error obstacle => rfl
  | ok place =>
    dsimp only
    rw [hp.entry? h hplace]

theorem Apart.isFile : d'.isFile p = d.isFile p := by
  rw [Disk.isFile, Disk.isFile, find?, find?, hp.locate h]
  cases hplace : d.locate p with
  | error obstacle => rfl
  | ok place =>
    dsimp only
    rw [hp.entry? h hplace]

end Agreeing

theorem IsTree.mem_placesBelow (hd : d.IsTree) {entry : DiskEntry} :
    (names, entry) ∈ d.placesBelow place ↔
      names ≠ [] ∧ d.entry? (place ++ names) = some entry := by
  rw [placesBelow, List.mem_filterMap]
  constructor
  · rintro ⟨⟨q, found⟩, hmem, hq⟩
    split at hq
    · next hbelow =>
      obtain ⟨hextends, hne⟩ := Bool.and_eq_true_iff.mp hbelow
      obtain ⟨more, rfl⟩ := List.isPrefixOf_iff_prefix.mp hextends
      rw [List.drop_left, Option.some.injEq, Prod.mk.injEq] at hq
      obtain ⟨rfl, rfl⟩ := hq
      have hmore : more ≠ [] := by
        rintro rfl
        rw [List.append_nil] at hne
        exact absurd rfl (bne_iff_ne.mp hne)
      exact ⟨hmore, hd.entry_of_mem hmem (List.append_ne_nil_of_right_ne_nil _ hmore)⟩
    · cases hq
  · rintro ⟨hne, hentry⟩
    refine ⟨_, mem_of_entry hentry (List.append_ne_nil_of_right_ne_nil _ hne), ?_⟩
    have hextends := List.isPrefixOf_iff_prefix.mpr (List.prefix_append place names)
    have hother : (place ++ names != place) = true :=
      bne_iff_ne.mpr fun heq => hne (List.append_right_eq_self.mp heq)
    rw [if_pos (Bool.and_eq_true_iff.mpr ⟨hextends, hother⟩), List.drop_left]

theorem IsTree.nodup_placesBelow (hd : d.IsTree) (place : Place) :
    (d.placesBelow place).Nodup := by
  refine (List.Nodup.of_map _ hd.nodup).filterMap fun e e' b hb hb' => ?_
  split at hb
  · split at hb'
    · next hbelow hbelow' =>
      obtain ⟨hextends, -⟩ := Bool.and_eq_true_iff.mp hbelow
      obtain ⟨hextends', -⟩ := Bool.and_eq_true_iff.mp hbelow'
      obtain ⟨more, hmore⟩ := List.isPrefixOf_iff_prefix.mp hextends
      obtain ⟨more', hmore'⟩ := List.isPrefixOf_iff_prefix.mp hextends'
      cases hb
      have heq := Option.some.inj hb'
      rw [← hmore, ← hmore', List.drop_left, List.drop_left, Prod.mk.injEq] at heq
      exact Prod.ext (by rw [← hmore, ← hmore', heq.1]) heq.2.symm
    · cases hb'
  · cases hb

theorem perm_placesBelow (hd : d.IsTree) (hd' : d'.IsTree)
    (h : ∀ q, place <+: q → d'.entry? q = d.entry? q) :
    (d'.placesBelow place).Perm (d.placesBelow place) := by
  rw [List.perm_ext_iff_of_nodup (hd'.nodup_placesBelow place) (hd.nodup_placesBelow place)]
  rintro ⟨names, entry⟩
  rw [hd'.mem_placesBelow, hd.mem_placesBelow, h _ (List.prefix_append _ _)]

theorem IsTree.mem_namesIn (hd : d.IsTree) {name : String} :
    name ∈ d.namesIn place ↔ (d.entry? (place ++ [name])).isSome := by
  rw [namesIn, List.mem_filterMap, Option.isSome_iff_exists]
  constructor
  · rintro ⟨⟨q, entry⟩, hmem, hq⟩
    split at hq
    · next hparent =>
      rw [← beq_iff_eq.mp hparent, List.dropLast_append_getLast? _ hq]
      exact ⟨entry, hd.entry_of_mem hmem fun hnil => by rw [hnil] at hq; cases hq⟩
    · cases hq
  · rintro ⟨entry, hentry⟩
    have hne : place ++ [name] ≠ [] := List.append_ne_nil_of_right_ne_nil _ (List.cons_ne_nil _ _)
    refine ⟨_, mem_of_entry hentry hne, ?_⟩
    rw [List.dropLast_concat, if_pos (beq_self_eq_true _), List.getLast?_concat]

theorem IsTree.nodup_namesIn (hd : d.IsTree) (place : Place) : (d.namesIn place).Nodup := by
  have hplaces : d.namesIn place = (d.entries.map (·.1)).filterMap fun q =>
      if q.dropLast == place then q.getLast? else none := by
    rw [namesIn, List.filterMap_map]
    rfl
  rw [hplaces]
  refine hd.nodup.filterMap fun q q' name hname hname' => ?_
  split at hname
  · split at hname'
    · next hparent hparent' =>
      rw [← List.dropLast_append_getLast? _ hname, ← List.dropLast_append_getLast? _ hname',
        beq_iff_eq.mp hparent, beq_iff_eq.mp hparent']
    · cases hname'
  · cases hname

theorem perm_namesIn (hd : d.IsTree) (hd' : d'.IsTree)
    (h : ∀ q, place <+: q → d'.entry? q = d.entry? q) :
    (d'.namesIn place).Perm (d.namesIn place) := by
  rw [List.perm_ext_iff_of_nodup (hd'.nodup_namesIn place) (hd.nodup_namesIn place)]
  intro name
  rw [hd'.mem_namesIn, hd.mem_namesIn, h _ (List.prefix_append _ _)]

theorem IsTree.entry_above (hd : d.IsTree) {entry : DiskEntry} {init : Place}
    (hentry : d.entry? place = some entry) (hinit : init <+: place) (hne : init ≠ place) :
    d.entry? init = some .directory := by
  induction place using List.reverseRecOn generalizing entry with
  | nil => exact absurd (List.prefix_nil.mp hinit) hne
  | append_singleton place name ih =>
    have hparent := hd.parent_of_entry hentry
    rw [List.dropLast_concat] at hparent
    obtain heq | habove := List.prefix_concat_iff.mp hinit
    · exact absurd heq hne
    · by_cases hplace : init = place
      · rw [hplace, hparent]
      · exact ih hparent habove hplace

/-- Below a place where nothing stands there is nothing. -/
theorem IsTree.entry_below (hd : d.IsTree) (hnone : d.entry? place = none) (hq : place <+: q) :
    d.entry? q = none := by
  rw [← Option.not_isSome_iff_eq_none]
  intro hsome
  obtain ⟨entry, hentry⟩ := Option.isSome_iff_exists.mp hsome
  by_cases heq : place = q
  · rw [← heq, hnone] at hentry
    cases hentry
  · rw [hd.entry_above hentry hq heq] at hnone
    cases hnone

theorem TreeApart.below_file (hp : d.TreeApart bad p) (hd : d.IsTree)
    (hplace : d.locate p = .ok place) {bytes : List UInt8}
    (hfile : d.entry? (place ++ names) = some (.file bytes)) : d.Apart bad (p.below names) := by
  intro q hq
  obtain ⟨-, -, hleads⟩ := of_reach_ok hplace
  obtain ⟨left, hleft⟩ := hleads.meets_append
  obtain hq | hq := hleft names q hq
  · exact hp.path q hq
  · have hup : ∀ name ∈ names, name ≠ Path.up := fun name hname =>
      (hd.isEntryName hfile name (List.mem_append_right _ hname)).2
    obtain ⟨init, -, rfl⟩ := hq.plain hup fun init hinit target htarget => by
      by_cases heq : init = names
      · rw [heq, hfile] at htarget
        cases htarget
      · have hdirectory := hd.entry_above hfile ((List.prefix_append_right_inj place).mpr hinit)
          fun heq' => heq (List.append_cancel_left heq')
        rw [hdirectory] at htarget
        cases htarget
    exact hp.below place _ hplace (List.prefix_append _ _)

theorem TreeApart.perm_scan (hp : d.TreeApart bad p) (h : d.AgreesBut bad d') (hd : d.IsTree)
    (hd' : d'.IsTree) : (d'.scan p).Perm (d.scan p) := by
  rw [scan, scan, hp.path.locate h]
  cases hplace : d.locate p with
  | error obstacle => exact .refl _
  | ok place =>
    dsimp only
    rw [hp.path.entry? h hplace]
    split
    · exact perm_placesBelow hd hd' fun q hq => h q (hp.below place q hplace hq)
    · exact .refl _

theorem TreeApart.list_sorted (hp : d.TreeApart bad p) (h : d.AgreesBut bad d') (hd : d.IsTree)
    (hd' : d'.IsTree) : (d'.list p).map (·.mergeSort Text.le) =
      (d.list p).map (·.mergeSort Text.le) := by
  rw [list, list, hp.path.locate h]
  cases hplace : d.locate p with
  | error obstacle => rfl
  | ok place =>
    dsimp only
    rw [hp.path.entry? h hplace]
    split
    · exact congrArg Except.ok (Text.sort_eq_of_perm
        (perm_namesIn hd hd' fun q hq => h q (hp.below place q hplace hq)))
    · rfl
    · rfl

theorem IsTree.mem_scan (hd : d.IsTree) {entry : DiskEntry} :
    (names, entry) ∈ d.scan p ↔ ∃ place, d.locate p = .ok place ∧
      d.entry? place = some .directory ∧ names ≠ [] ∧ d.entry? (place ++ names) = some entry := by
  rw [scan]
  cases hplace : d.locate p with
  | error obstacle => simp
  | ok place =>
    dsimp only
    split
    · next hdirectory => simp [hd.mem_placesBelow, beq_iff_eq.mp hdirectory]
    · next hdirectory => simp [mt beq_iff_eq.mpr hdirectory]

end Refsite.Disk
