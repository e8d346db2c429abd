namespace Refsite.Nav

/-- The names that are new, in the order in which they first occur. -/
def fresh (seen names : List String) : List String :=
  (names.filter fun l => !seen.contains l).eraseDups

def namesOf (cs : List (String × List String)) : List String := cs.flatMap (·.2)

/-- The entries that categories get one after another. -/
def entriesOf : (seen : List String) → List (String × List String) → List (String × String)
  | _, [] => []
  | seen, (category, names) :: cs =>
    (fresh seen names).map (category, ·) ++ entriesOf (seen ++ names) cs

section Fresh

variable {seen seen' names : List String} {l : String}

theorem fresh_cons_of_mem (h : l ∈ seen) : fresh seen (l :: names) = fresh seen names := by
  simp [fresh, h]

theorem fresh_cons_of_notMem (h : l ∉ seen) :
    fresh seen (l :: names) = l :: fresh (l :: seen) names := by
  have hfilter : (names.filter fun k => !seen.contains k).filter (fun k => !k == l) =
      names.filter fun k => !(l :: seen).contains k := by
    rw [List.filter_filter]
    congr 1
    funext k
    rw [List.contains_cons, Bool.not_or]
  have hnew : (!seen.contains l) = true := by simpa using h
  rw [fresh, List.filter_cons, if_pos hnew, List.eraseDups_cons, hfilter, fresh]

theorem fresh_congr (h : ∀ k, k ∈ seen ↔ k ∈ seen') : fresh seen names = fresh seen' names := by
  have hcontains : ∀ k, seen.contains k = seen'.contains k := fun k => by
    rw [Bool.eq_iff_iff, List.contains_iff_mem, List.contains_iff_mem]
    exact h k
  simp only [fresh, hcontains]

theorem filter_fresh (seen names : List String) (l : String) :
    (fresh seen names).filter (· == l) = if l ∈ names ∧ l ∉ seen then [l] else [] := by
  induction names generalizing seen with
  | nil => simp [fresh]
  | cons k names ih =>
    by_cases hk : k ∈ seen
    · rw [fresh_cons_of_mem hk, ih]
      grind
    · rw [fresh_cons_of_notMem hk, List.filter_cons, ih]
      grind

end Fresh

/-- All entries under one heading pass a test of their heading, or none does. -/
theorem filter_under (p : String → Bool) (heading : String) (names : List String) :
    (names.map (heading, ·)).filter (fun e => p e.1) =
      if p heading then names.map (heading, ·) else [] := by
  induction names with
  | nil => simp
  | cons name names ih =>
    rw [List.map_cons, List.filter_cons, ih]
    cases p heading <;> rfl

theorem map_snd_under (heading : String) (names : List String) :
    (names.map (heading, ·)).map Prod.snd = names := by
  rw [List.map_map]
  exact List.map_id' names

section Categories

variable {seen seen' : List String} {cs : List (String × List String)} {l : String}

theorem entriesOf_congr (h : ∀ k, k ∈ seen ↔ k ∈ seen') :
    entriesOf seen cs = entriesOf seen' cs := by
  induction cs generalizing seen seen' with
  | nil => rfl
  | cons c cs ih =>
    rw [entriesOf, entriesOf, fresh_congr h]
    congr 1
    apply ih
    intro k
    rw [List.mem_append, List.mem_append, h k]

theorem entriesOf_append (seen : List String) (cs ds : List (String × List String)) :
    entriesOf seen (cs ++ ds) = entriesOf seen cs ++ entriesOf (seen ++ namesOf cs) ds := by
  induction cs generalizing seen with
  | nil => simp [entriesOf, namesOf]
  | cons c cs ih =>
    rw [List.cons_append, entriesOf, entriesOf, ih, namesOf, namesOf, List.flatMap_cons]
    simp only [List.append_assoc]

theorem filter_entriesOf_of_mem (h : l ∈ seen) : (entriesOf seen cs).filter (·.2 == l) = [] := by
  induction cs generalizing seen with
  | nil => rfl
  | cons c cs ih =>
    rw [entriesOf, List.filter_append, ih (List.mem_append_left _ h), List.append_nil,
      List.filter_map]
    change ((fresh seen c.2).filter (· == l)).map _ = _
    rw [filter_fresh, if_neg fun hmem => hmem.2 h, List.map_nil]

theorem filter_entriesOf (h : l ∉ seen) :
    (entriesOf seen cs).filter (·.2 == l) =
      ((cs.find? (·.2.contains l)).map fun c => (c.1, l)).toList := by
  induction cs generalizing seen with
  | nil => rfl
  | cons c cs ih =>
    rw [entriesOf, List.filter_append, List.filter_map]
    change ((fresh seen c.2).filter (· == l)).map _ ++ _ = _
    rw [filter_fresh]
    by_cases hl : l ∈ c.2
    · rw [if_pos ⟨hl, h⟩, filter_entriesOf_of_mem (List.mem_append_right seen hl),
        List.find?_cons_of_pos (by simpa using hl)]
      rfl
    · rw [if_neg fun hmem => hl hmem.1, List.find?_cons_of_neg (by simpa using hl)]
      apply ih
      rw [List.mem_append, not_or]
      exact ⟨h, hl⟩

theorem heading_of_mem_entriesOf {e : String × String} (h : e ∈ entriesOf seen cs) :
    e.1 ∈ cs.map Prod.fst := by
  induction cs generalizing seen with
  | nil => cases h
  | cons c cs ih =>
    rw [entriesOf] at h
    obtain h | h := List.mem_append.mp h
    · obtain ⟨k, -, rfl⟩ := List.mem_map.mp h
      exact List.mem_cons_self
    · exact List.mem_cons_of_mem _ (ih h)

theorem filter_heading_of_notMem {category : String} (h : category ∉ cs.map Prod.fst) :
    (entriesOf seen cs).filter (·.1 == category) = [] := by
  apply List.filter_eq_nil_iff.mpr
  intro e he heq
  exact h (beq_iff_eq.mp heq ▸ heading_of_mem_entriesOf he)

theorem filter_heading {before after : List (String × List String)} {category : String}
    {names : List String} (h : ((before ++ (category, names) :: after).map Prod.fst).Nodup) :
    ((entriesOf seen (before ++ (category, names) :: after)).filter (·.1 == category)).map (·.2) =
      fresh (seen ++ namesOf before) names := by
  rw [List.map_append, List.map_cons, List.nodup_append, List.nodup_cons] at h
  obtain ⟨-, ⟨hafter, -⟩, hbefore⟩ := h
  have hnotMem : category ∉ before.map Prod.fst := fun hmem =>
    hbefore category hmem category List.mem_cons_self rfl
  rw [entriesOf_append, entriesOf, List.filter_append, List.filter_append,
    filter_heading_of_notMem hnotMem, filter_heading_of_notMem hafter,
    filter_under (· == category), beq_self_eq_true, if_pos rfl, List.nil_append, List.append_nil,
    map_snd_under]

end Categories

end Refsite.Nav
