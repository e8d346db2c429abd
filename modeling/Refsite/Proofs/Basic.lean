namespace Refsite

variable {α β γ ε ε' : Type}

theorem lookup_filter_key [BEq α] [LawfulBEq α] (key other : α) (entries : List (α × β)) :
    (entries.filter fun e => e.1 != key).lookup other =
      if other == key then none else entries.lookup other := by
  induction entries with
  | nil => exact (ite_self none).symm
  | cons e entries ih =>
    by_cases hkey : e.1 = key
    · rw [List.filter_cons_of_neg (by simpa using hkey), ih, List.lookup_cons, hkey]
      cases other == key <;> rfl
    · rw [List.filter_cons_of_pos (by simpa using hkey), List.lookup_cons, List.lookup_cons, ih]
      by_cases hother : other = key
      · rw [hother, beq_false_of_ne (Ne.symm hkey)]
      · rw [beq_false_of_ne hother, if_neg Bool.false_ne_true, if_neg Bool.false_ne_true]

theorem of_bind_ok {x : Except ε α} {f : α → Except ε β} {b : β} (h : (x >>= f) = .ok b) :
    ∃ a, x = .ok a ∧ f a = .ok b := by
  cases x with
  | error e => cases h
  | ok a => exact ⟨a, rfl, h⟩

theorem bind_map (x : Except ε α) (f : α → β) (g : β → Except ε γ) :
    (x.map f >>= g) = x >>= fun a => g (f a) := by
  cases x <;> rfl

theorem exists_of_map_ok {x : Except ε α} {f : α → β} {b : β} (h : x.map f = .ok b) :
    ∃ a, x = .ok a ∧ f a = b := by
  cases x with
  | error e => cases h
  | ok a => exact ⟨a, rfl, Except.ok.inj h⟩

theorem exists_of_isOk {x : Except ε α} (h : x.isOk = true) : ∃ a, x = .ok a := by
  cases x with
  | error e => cases h
  | ok a => exact ⟨a, rfl⟩

theorem of_mapError_ok {f : ε → ε'} {x : Except ε α} {a : α} (h : x.mapError f = .ok a) :
    x = .ok a := by
  cases x with
  | error e => cases h
  | ok b =>
    cases h
    rfl

theorem mapM_eq_map {f : α → Except ε β} {g : α → β} {as : List α}
    (h : ∀ a ∈ as, f a = .ok (g a)) : as.mapM f = .ok (as.map g) := by
  induction as with
  | nil => rfl
  | cons a as ih =>
    obtain ⟨ha, has⟩ := List.forall_mem_cons.mp h
    rw [List.mapM_cons, ha, ih has]
    rfl

/-- The first failure of a step is that of any step which goes on from it. -/
theorem mapM_error {f : α → Except ε γ} {g : α → Except ε β} {k : α → β → γ}
    (hf : ∀ a, f a = (g a).map (k a)) {as : List α} {e : ε} (h : as.mapM g = .error e) :
    as.mapM f = .error e := by
  induction as with
  | nil => cases h
  | cons a as ih =>
    rw [List.mapM_cons] at h ⊢
    rw [hf]
    cases ha : g a with
    | error e' =>
      rw [ha] at h
      cases h
      rfl
    | ok b =>
      rw [ha] at h
      cases has : as.mapM g with
      | error e' =>
        rw [has] at h
        cases h
        rw [ih has]
        rfl
      | ok bs =>
        rw [has] at h
        cases h

theorem map_eq_of_mapM_ok {f : α → Except ε α} {g : α → γ} (hf : ∀ a b, f a = .ok b → g b = g a)
    {as bs : List α} (h : as.mapM f = .ok bs) : bs.map g = as.map g := by
  induction as generalizing bs with
  | nil =>
    cases h
    rfl
  | cons a as ih =>
    rw [List.mapM_cons] at h
    obtain ⟨b, hb, h⟩ := of_bind_ok h
    obtain ⟨rest, hrest, h⟩ := of_bind_ok h
    cases h
    rw [List.map_cons, List.map_cons, hf a b hb, ih hrest]

/-- A step comes to good results on all items exactly if it does on each. -/
theorem exists_mapM_ok_iff {f : α → Except ε β} {P : β → Prop} {as : List α} :
    (∃ bs, as.mapM f = .ok bs ∧ ∀ b ∈ bs, P b) ↔ ∀ a ∈ as, ∃ b, f a = .ok b ∧ P b := by
  induction as with
  | nil => exact iff_of_true ⟨[], rfl, nofun⟩ nofun
  | cons a as ih =>
    rw [List.forall_mem_cons, ← ih]
    constructor
    · rintro ⟨bs, hbs, hP⟩
      rw [List.mapM_cons] at hbs
      obtain ⟨b, hb, hbs⟩ := of_bind_ok hbs
      obtain ⟨rest, hrest, hbs⟩ := of_bind_ok hbs
      cases hbs
      obtain ⟨hPb, hPrest⟩ := List.forall_mem_cons.mp hP
      exact ⟨⟨b, hb, hPb⟩, rest, hrest, hPrest⟩
    · rintro ⟨⟨b, hb, hPb⟩, rest, hrest, hPrest⟩
      refine ⟨b :: rest, ?_, List.forall_mem_cons.mpr ⟨hPb, hPrest⟩⟩
      rw [List.mapM_cons, hb, hrest]
      rfl

end Refsite
