import Refsite.Proofs.Link.Registry
namespace Refsite.Registry

open Link Text

def IsFree (claimed : Bindings) (stem : String) : Prop := lowerText stem ∉ claimed.keys

instance (claimed : Bindings) (stem : String) : Decidable (IsFree claimed stem) :=
  inferInstanceAs (Decidable (lowerText stem ∉ claimed.keys))

def numbered (stem : String) : Nat → String
  | 0 => stem
  | k + 1 => stem ++ "_" ++ toString (k + 1)

inductive Search (claimed : Bindings) (stem : String) : Nat → List String → String → Prop
  | found {k : Nat} (free : IsFree claimed (numbered stem k)) :
    Search claimed stem k [numbered stem k] (numbered stem k)
  | next {k : Nat} {tried : List String} {found : String}
    (taken : ¬ IsFree claimed (numbered stem k)) (rest : Search claimed stem (k + 1) tried found) :
    Search claimed stem k (numbered stem k :: tried) found

inductive FirstFree (claimed : Bindings) (stem : String) : String → Prop
  | itself (free : IsFree claimed stem) : FirstFree claimed stem stem
  | counted {k : Nat} (positive : 1 ≤ k) (taken : ¬ IsFree claimed stem)
    (least : ∀ j, 1 ≤ j → j < k → ¬ IsFree claimed (stem ++ "_" ++ toString j))
    (free : IsFree claimed (stem ++ "_" ++ toString k)) :
    FirstFree claimed stem (stem ++ "_" ++ toString k)

section Search

variable {claimed : Bindings} {stem : String}

theorem Search.unique {k : Nat} {tried tried' : List String} {found found' : String}
    (h : Search claimed stem k tried found) (h' : Search claimed stem k tried' found') :
    tried' = tried ∧ found' = found := by
  induction h generalizing tried' with
  | found free =>
    cases h' with
    | found _ => exact ⟨rfl, rfl⟩
    | next taken _ => exact absurd free taken
  | next taken _ ih =>
    cases h' with
    | found free => exact absurd free taken
    | next _ rest =>
      obtain ⟨rfl, rfl⟩ := ih rest
      exact ⟨rfl, rfl⟩

theorem search_of_least {k n : Nat}
    (least : ∀ j, k ≤ j → j < k + n → ¬ IsFree claimed (numbered stem j))
    (free : IsFree claimed (numbered stem (k + n))) :
    Search claimed stem k ((List.range' k (n + 1)).map (numbered stem))
      (numbered stem (k + n)) := by
  -- Induction on the number of claimed candidates that are still ahead.
  induction n generalizing k with
  | zero => exact .found free
  | succ n ih =>
    have hnext : k + (n + 1) = k + 1 + n := by omega
    rw [hnext] at free least ⊢
    rw [List.range'_succ, List.map_cons]
    apply Search.next (least k (Nat.le_refl k) (by omega))
    exact ih (fun j hj => least j (by omega)) free

theorem firstFree_of_least {n : Nat} (least : ∀ j < n, ¬ IsFree claimed (numbered stem j))
    (free : IsFree claimed (numbered stem n)) : FirstFree claimed stem (numbered stem n) := by
  cases n with
  | zero => exact .itself free
  | succ n =>
    refine .counted (Nat.succ_pos n) (least 0 (Nat.succ_pos n)) ?_ free
    intro j hj hlt
    obtain ⟨j, rfl⟩ := Nat.exists_eq_add_of_le' hj
    exact least (j + 1) hlt

end Search

theorem ofList_candidate (stem : List Char) (k : Nat) :
    String.ofList (Stem.candidate stem k) = numbered (String.ofList stem) k := by
  cases k with
  | zero => rfl
  | succ k =>
    apply String.toList_injective
    simp [Stem.candidate, numbered]

theorem isFree_iff {claimed : Bindings} {stem : String} :
    IsFree claimed stem ↔ claimed.lookup (lowerText stem) = none :=
  Bindings.lookup_eq_none_iff_notMem.symm

theorem freeStem_least (claimed : Bindings) (text : String) :
    ∃ n ≤ claimed.length, freeStem claimed text = numbered (onChars Stem.ofText text) n ∧
      IsFree claimed (numbered (onChars Stem.ofText text) n) ∧
      ∀ j < n, ¬ IsFree claimed (numbered (onChars Stem.ofText text) j) := by
  obtain ⟨n, hn, hstem, hfree, htaken⟩ := freeStem_spec claimed text
  rw [ofList_candidate] at hstem
  refine ⟨n, hn, hstem, ?_, ?_⟩
  · rw [isFree_iff]
    rwa [hstem] at hfree
  · intro j hj
    have hsome := htaken j hj
    rw [ofList_candidate] at hsome
    rw [isFree_iff]
    exact Option.isSome_iff_ne_none.mp hsome

/-- The search for a stem has one run, which tries at most one candidate more than there are claimed
stems. That its stem is claimed is all that an allocation changes. -/
theorem allocate_firstFree (r : Registry) (text : String) (h : r.frozen = false) :
    ∃ tried found,
      (∀ tried' found', Search r.claimed (onChars Stem.ofText text) 0 tried' found' ↔
        tried' = tried ∧ found' = found) ∧
      tried.length ≤ r.claimed.length + 1 ∧
      FirstFree r.claimed (onChars Stem.ofText text) found ∧
      r.allocate text = .ok (found ++ ".html",
        { r with claimed := r.claimed ++ [(lowerText found, text)] }) := by
  obtain ⟨n, hn, hstem, hfree, htaken⟩ := freeStem_least r.claimed text
  have hrun := search_of_least (k := 0) (n := n) (by simpa using htaken) (by simpa using hfree)
  rw [Nat.zero_add] at hrun
  refine ⟨_, _, fun tried' found' => ⟨hrun.unique, ?_⟩, ?_, firstFree_of_least htaken hfree, ?_⟩
  · rintro ⟨rfl, rfl⟩
    exact hrun
  · rw [List.length_map, List.length_range']
    exact Nat.succ_le_succ hn
  · have hopen : ¬ r.frozen = true := by rw [h]; exact Bool.false_ne_true
    rw [allocate_eq, if_neg hopen, fileFor, claim, hstem]
    rfl

def crowded : Registry :=
  { initial with claimed := initial.claimed ++ [("foo", "Foo"), ("foo_1", "foo")] }

/-- A third spelling is told apart by the second counter. -/
theorem crowded_firstFree :
    crowded.frozen = false ∧
      Search crowded.claimed "FOO" 0 ["FOO", "FOO_1", "FOO_2"] "FOO_2" ∧
      crowded.allocate "FOO" = .ok ("FOO_2.html",
        { crowded with claimed := crowded.claimed ++ [("foo_2", "FOO")] }) := by
  obtain ⟨tried, found, hrun, -, -, hanswer⟩ := allocate_firstFree crowded "FOO" rfl
  have hsearch : Search crowded.claimed "FOO" 0 ["FOO", "FOO_1", "FOO_2"] "FOO_2" :=
    .next (k := 0) (by decide) (.next (k := 1) (by decide) (.found (k := 2) (by decide)))
  obtain ⟨rfl, rfl⟩ := (hrun _ _).mp hsearch
  exact ⟨rfl, hsearch, hanswer⟩

/-- The stem of every file that is handed out is safe, and it begins with a point or a hyphen
exactly if the text begins with two marks that become such: only one of them is dropped. -/
theorem allocate_stem (r : Registry) (text : String) :
    r.frozen = true ∧ r.allocate text = .error (.frozen text) ∨
      ∃ stem r', r.allocate text = .ok (stem ++ ".html", r') ∧ stem ≠ "" ∧
        (∀ c ∈ stem.toList, c ∉ "\\/?*:|'\"<>~#".toList) ∧
        ((∃ mark ∈ ['.', '-'], stem.toList.head? = some mark) ↔
          Stem.StartsTwice ['.', '-', '~'] text.toList) := by
  rw [allocate_eq]
  by_cases hfrozen : r.frozen = true
  · rw [if_pos hfrozen]
    exact .inl ⟨hfrozen, rfl⟩
  · rw [if_neg hfrozen]
    obtain ⟨k, -, hstem, -⟩ := freeStem_spec r.claimed text
    have hhead : (freeStem r.claimed text).toList.head? = (Stem.ofText text.toList).head? := by
      rw [hstem, String.toList_ofList, Stem.head_candidate]
    refine .inr ⟨freeStem r.claimed text, r.claim text, rfl, ?_, ?_, ?_⟩
    · intro hempty
      rw [hempty] at hhead
      exact Stem.ofText_ne_nil _ (List.head?_eq_none_iff.mp hhead.symm)
    · intro c hc hunsafe
      have hall : ∀ c ∈ "\\/?*:|'\"<>~#".toList, Stem.isSafe c = false :=
        forall_mem_of_all (by decide)
      have hnot := hall c hunsafe
      rw [isSafe_of_mem_freeStem hc] at hnot
      cases hnot
    · rw [hhead]
      exact Stem.head_ofText_iff text.toList

/-- The file of a text with two points in front is a hidden one. -/
theorem allocate_two_points :
    ∃ r', initial.allocate "..a" = .ok (".a" ++ ".html", r') ∧ ".a".toList.head? = some '.' := by
  refine ⟨initial.claim "..a", ?_, rfl⟩
  decide

end Refsite.Registry
