import Refsite.Disk.Basic
namespace Refsite.Disk

variable {d : Disk} {here : Place}

theorem follow_nil (links : Nat) (here : Place) : d.follow links here [] = here := by
  rw [follow.eq_def]

theorem follow_link {links : Nat} {name target : String} {rest : List String}
    (hup : ¬(name == Path.up) = true) (hlink : d.entry? (here ++ [name]) = some (.link target)) :
    d.follow (links + 1) here (name :: rest) =
      d.follow links (linkStart here target) (Path.namesOf target ++ rest) := by
  rw [follow.eq_def]
  dsimp only
  rw [if_neg hup, hlink]

theorem follow_down {links : Nat} {name : String} {rest : List String}
    (hup : ¬(name == Path.up) = true)
    (hlink : ∀ more target, links = more + 1 → d.entry? (here ++ [name]) ≠ some (.link target)) :
    d.follow links here (name :: rest) = d.follow links (here ++ [name]) rest := by
  rw [follow.eq_def]
  dsimp only
  rw [if_neg hup]
  split
  · next more target hentry => exact absurd hentry (hlink more target rfl)
  · rfl

theorem follow_up {links : Nat} {name : String} {rest : List String}
    (hup : (name == Path.up) = true) :
    d.follow links here (name :: rest) = d.follow links here.dropLast rest := by
  rw [follow.eq_def]
  dsimp only
  rw [if_pos hup]

theorem resolve_top (d : Disk) : d.resolve .top = .top :=
  congrArg (Path.mk false) (follow_nil _ _)

/-- Names that lead from a place past directories only. -/
def leadsPlainly (d : Disk) : (here : Place) → List String → Bool
  | _, [] => true
  | here, name :: rest =>
    d.entry? here == some .directory && name != Path.up && !isLongName name &&
      (match d.entry? (here ++ [name]) with
        | some (.link _) => false
        | _ => true) &&
      leadsPlainly d (here ++ [name]) rest

theorem walk_append {d : Disk} {through : Bool} {links : Nat} {here : Place}
    {names : List String} (h : d.leadsPlainly here names = true) (rest : List String) :
    d.walk through links here (names ++ rest) = d.walk through links (here ++ names) rest := by
  induction names generalizing here with
  | nil => rw [List.nil_append, List.append_nil]
  | cons name names ih =>
    simp only [leadsPlainly, Bool.and_eq_true, beq_iff_eq, bne_iff_ne, Bool.not_eq_true'] at h
    obtain ⟨⟨⟨⟨hdir, hup⟩, hshort⟩, hlink⟩, hnames⟩ := h
    have hnext : d.walk through links (here ++ [name]) (names ++ rest) =
        d.walk through links (here ++ name :: names) rest := by
      rw [ih hnames, List.append_assoc, List.singleton_append]
    rw [List.cons_append, walk, hdir]
    dsimp only
    rw [if_neg (by simpa using hup), hshort, if_neg Bool.false_ne_true]
    cases hentry : d.entry? (here ++ [name]) with
    | none => exact hnext
    | some entry =>
      cases entry with
      | file bytes => exact hnext
      | directory => exact hnext
      | link target =>
        rw [hentry] at hlink
        cases hlink

theorem walk_of_leadsPlainly {d : Disk} {through : Bool} {links : Nat} {here : Place}
    {names : List String} (h : d.leadsPlainly here names = true) :
    d.walk through links here names = .ok (here ++ names) := by
  have hwalk : d.walk through links here (names ++ []) = d.walk through links (here ++ names) [] :=
    walk_append h []
  rwa [List.append_nil, walk] at hwalk

/-- A path of a length that a system takes, without null characters, to a place that its names lead
to plainly. -/
def isPlainPath (d : Disk) (p : Path) : Bool :=
  !hasNull p && (Text.Utf8.encode p.text.toList).length ≤ pathLimit && d.leadsPlainly [] p.names

theorem locate_of_isPlainPath {d : Disk} {p : Path} (h : d.isPlainPath p = true) :
    d.locate p = .ok p.names := by
  simp only [isPlainPath, Bool.and_eq_true, Bool.not_eq_true', decide_eq_true_eq] at h
  obtain ⟨⟨hnull, hlength⟩, hplain⟩ := h
  rw [locate, reach, hnull, if_neg Bool.false_ne_true, if_neg (Nat.not_lt.mpr hlength)]
  exact walk_of_leadsPlainly hplain

end Refsite.Disk
