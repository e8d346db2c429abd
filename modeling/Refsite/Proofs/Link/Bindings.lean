import Mathlib.Data.List.Nodup
import Refsite.Link.Registry
namespace Refsite.Bindings

abbrev keys (b : Bindings) : List String := b.map (·.1)

theorem mem_of_lookup {b : Bindings} {key value : String} (h : b.lookup key = some value) :
    (key, value) ∈ b := by
  obtain ⟨front, back, hb, _⟩ := List.lookup_eq_some_iff.mp h
  rw [hb]
  exact List.mem_append_right front List.mem_cons_self

theorem lookup_eq_none_iff_notMem {b : Bindings} {key : String} :
    b.lookup key = none ↔ key ∉ b.keys := by
  rw [List.lookup_eq_none_iff, List.mem_map]
  constructor
  · rintro h ⟨p, hp, rfl⟩
    exact absurd (beq_self_eq_true p.1) (bne_iff_ne.mp (h p hp) ∘ beq_iff_eq.mp)
  · intro h p hp
    exact bne_iff_ne.mpr fun he => h ⟨p, hp, he.symm⟩

theorem lookup_eq_some_of_mem {b : Bindings} (hb : b.keys.Nodup) {key value : String}
    (h : (key, value) ∈ b) : b.lookup key = some value := by
  induction b with
  | nil => cases h
  | cons p b ih =>
    obtain ⟨k, v⟩ := p
    rw [keys, List.map_cons, List.nodup_cons] at hb
    rw [List.lookup_cons]
    cases h with
    | head => rw [beq_self_eq_true]
    | tail _ h =>
      have hne : (key == k) = false := by
        rw [beq_eq_false_iff_ne]
        rintro rfl
        exact hb.1 (List.mem_map.mpr ⟨(key, value), h, rfl⟩)
      rw [hne]
      exact ih hb.2 h

theorem bind_of_lookup_eq_none {b : Bindings} {key : String} (value : String)
    (h : b.lookup key = none) : b.bind key value = b ++ [(key, value)] := by
  induction b with
  | nil => rfl
  | cons p b ih =>
    obtain ⟨k, v⟩ := p
    rw [lookup_eq_none_iff_notMem, keys, List.map_cons, List.mem_cons, not_or] at h
    rw [bind, if_neg fun he => h.1 (beq_iff_eq.mp he).symm,
      ih (lookup_eq_none_iff_notMem.mpr h.2), List.cons_append]

theorem keys_bind_of_mem {b : Bindings} {key : String} (value : String) (h : key ∈ b.keys) :
    (b.bind key value).keys = b.keys := by
  induction b with
  | nil => cases h
  | cons p b ih =>
    obtain ⟨k, v⟩ := p
    rw [bind]
    split
    · rfl
    · next hne =>
      cases h with
      | head => exact absurd (beq_self_eq_true _) hne
      | tail _ h => exact congrArg (k :: ·) (ih h)

theorem lookup_bind_self (b : Bindings) (key value : String) :
    (b.bind key value).lookup key = some value := by
  induction b with
  | nil => rw [bind, List.lookup_cons_self]
  | cons p b ih =>
    obtain ⟨k, v⟩ := p
    rw [bind]
    split
    · next he => rw [beq_iff_eq.mp he, List.lookup_cons_self]
    · next hne =>
      have hkey : (key == k) = false := by
        rw [beq_eq_false_iff_ne]
        exact fun he => hne (beq_iff_eq.mpr he.symm)
      rw [List.lookup_cons, hkey]
      exact ih

theorem lookup_bind_of_ne (b : Bindings) {key other : String} (value : String)
    (h : other ≠ key) : (b.bind key value).lookup other = b.lookup other := by
  have hother : (other == key) = false := beq_eq_false_iff_ne.mpr h
  induction b with
  | nil => rw [bind, List.lookup_cons, hother]
  | cons p b ih =>
    obtain ⟨k, v⟩ := p
    rw [bind]
    split
    · next he =>
      have hk := beq_iff_eq.mp he
      subst hk
      rw [List.lookup_cons, List.lookup_cons, hother]
    · rw [List.lookup_cons, List.lookup_cons, ih]

theorem nodup_keys_bind {b : Bindings} (hb : b.keys.Nodup) (key value : String) :
    (b.bind key value).keys.Nodup := by
  by_cases h : key ∈ b.keys
  · rw [keys_bind_of_mem value h]
    exact hb
  · rw [bind_of_lookup_eq_none value (lookup_eq_none_iff_notMem.mpr h), keys, List.map_append,
      List.map_cons, List.map_nil]
    refine List.nodup_append.mpr ⟨hb, List.nodup_singleton key, ?_⟩
    rintro k hk j hj rfl
    rw [List.mem_singleton.mp hj] at hk
    exact h hk

theorem bindNew_of_isSome {b : Bindings} {key : String} (value : String)
    (h : (b.lookup key).isSome = true) : b.bindNew key value = b := by
  rw [bindNew, if_pos h]

theorem bindNew_of_eq_none {b : Bindings} {key : String} (value : String)
    (h : b.lookup key = none) : b.bindNew key value = b.bind key value := by
  rw [bindNew, h, bind_of_lookup_eq_none value h]
  rfl

theorem nodup_keys_bindNew {b : Bindings} (hb : b.keys.Nodup) (key value : String) :
    (b.bindNew key value).keys.Nodup := by
  cases h : b.lookup key with
  | none =>
    rw [bindNew_of_eq_none value h]
    exact nodup_keys_bind hb key value
  | some v =>
    rw [bindNew_of_isSome value (by rw [h]; rfl)]
    exact hb

theorem lookup_bindNew_of_some {b : Bindings} {other found : String} (key value : String)
    (h : b.lookup other = some found) : (b.bindNew key value).lookup other = some found := by
  cases hk : b.lookup key with
  | none =>
    have hne : other ≠ key := by
      rintro rfl
      rw [h] at hk
      cases hk
    rw [bindNew_of_eq_none value hk, lookup_bind_of_ne b value hne, h]
  | some v => rw [bindNew_of_isSome value (by rw [hk]; rfl), h]

end Refsite.Bindings
