import Refsite.Json.Parser
import Refsite.Proofs.Json.Sorted
namespace Refsite.Json

/-- An entry comes from the entries before, or it is the new one. -/
theorem Entries.mem_put {entries : Entries} {name : String} {value : Json} {e : String × Json}
    (h : e ∈ entries.put name value) : e ∈ entries ∨ e = (name, value) := by
  induction entries with
  | nil => exact .inr (List.mem_singleton.mp h)
  | cons f entries ih =>
    obtain ⟨other, old⟩ := f
    rw [put] at h
    split at h
    · next heq =>
      obtain rfl := eq_of_beq heq
      obtain rfl | h := List.mem_cons.mp h
      · exact .inr rfl
      · exact .inl (List.mem_cons_of_mem _ h)
    · obtain rfl | h := List.mem_cons.mp h
      · exact .inl List.mem_cons_self
      · exact (ih h).imp_left (List.mem_cons_of_mem _)

theorem Entries.nodup_put {entries : Entries} (h : (entries.map Prod.fst).Nodup) (name : String)
    (value : Json) : ((entries.put name value).map Prod.fst).Nodup := by
  induction entries with
  | nil => simp [put]
  | cons f entries ih =>
    obtain ⟨other, old⟩ := f
    simp only [List.map_cons, List.nodup_cons] at h
    rw [put]
    split
    · simpa using h
    · next hne =>
      simp only [List.map_cons, List.nodup_cons]
      refine ⟨fun hmem => ?_, ih h.2⟩
      obtain ⟨e, he, rfl⟩ := List.mem_map.mp hmem
      obtain he | rfl := mem_put he
      · exact h.1 (List.mem_map_of_mem he)
      · simp at hne

namespace Parser

theorem tidy_of_integer {wide : WideIntegers} {negative : Bool} {n : Nat} {x : Json}
    (h : integer wide negative n = some x) : x.Tidy := by
  simp only [integer] at h
  generalize (if negative then -(n : Int) else n) = value at h
  split at h
  · cases h
    exact .int value
  · obtain ⟨d, hd, rfl⟩ := Option.map_eq_some_iff.mp h
    exact .float (Binary64.normal_of_ofDecimal? hd)

theorem tidy_of_unsigned {wide : WideIntegers} {negative : Bool} {text rest : List Char} {x : Json}
    (h : unsigned wide negative text = some (x, rest)) : x.Tidy := by
  simp only [unsigned] at h
  split at h
  · cases h
  · simp only [Option.bind_eq_bind, Option.bind_eq_some_iff, Prod.exists] at h
    obtain ⟨part, rest1, -, power, rest2, -, h⟩ := h
    split at h
    · obtain ⟨y, hy, h⟩ := Option.bind_eq_some_iff.mp h
      cases h
      exact tidy_of_integer hy
    · obtain ⟨d, hd, h⟩ := Option.bind_eq_some_iff.mp h
      cases h
      exact .float (Binary64.normal_of_ofDecimal? hd)

theorem tidy_of_keyword {text rest : List Char} {x : Json} (h : keyword text = some (x, rest)) :
    x.Tidy := by
  unfold keyword at h
  split at h <;> cases h
  · exact .null
  · exact .bool true
  · exact .bool false

/-- Whatever is read with some fuel is tidy. -/
structure ReadsTidy (wide : WideIntegers) (fuel : Nat) : Prop where
  value : ∀ {depth text x rest}, value wide fuel depth text = some (x, rest) → x.Tidy
  items : ∀ {depth text xs rest}, items wide fuel depth text = some (xs, rest) → ∀ x ∈ xs, x.Tidy
  entries : ∀ {depth done text es rest}, entries wide fuel depth done text = some (es, rest) →
    (done.map Prod.fst).Nodup → (∀ e ∈ done, e.2.Tidy) →
      (es.map Prod.fst).Nodup ∧ ∀ e ∈ es, e.2.Tidy

section Step

variable {wide : WideIntegers} {fuel depth : Nat} {text rest : List Char}

theorem ReadsTidy.value_succ (h : ReadsTidy wide fuel) {x : Json}
    (hread : Parser.value wide (fuel + 1) depth text = some (x, rest)) : x.Tidy := by
  rw [Parser.value] at hread
  split at hread
  · obtain ⟨⟨s, rest'⟩, -, hread⟩ := Option.map_eq_some_iff.mp hread
    cases hread
    exact .string s
  · split at hread
    · cases hread
    · cases hread
      exact .array nofun
    · obtain ⟨⟨xs, rest'⟩, hxs, hread⟩ := Option.map_eq_some_iff.mp hread
      cases hread
      exact .array (h.items hxs)
  · split at hread
    · cases hread
    · cases hread
      exact .object List.nodup_nil nofun
    · obtain ⟨⟨es, rest'⟩, hes, hread⟩ := Option.map_eq_some_iff.mp hread
      cases hread
      obtain ⟨hnames, hvalues⟩ := h.entries hes List.nodup_nil nofun
      exact .object hnames hvalues
  · exact tidy_of_unsigned hread
  · split at hread
    · exact tidy_of_unsigned hread
    · exact tidy_of_keyword hread
  · cases hread

theorem ReadsTidy.items_succ (h : ReadsTidy wide fuel) {xs : List Json}
    (hread : Parser.items wide (fuel + 1) depth text = some (xs, rest)) : ∀ x ∈ xs, x.Tidy := by
  rw [Parser.items] at hread
  obtain ⟨⟨x, rest'⟩, hx, hread⟩ := Option.bind_eq_some_iff.mp hread
  have htidy := h.value hx
  dsimp only at hread
  split at hread
  · obtain ⟨⟨ys, rest''⟩, hys, hread⟩ := Option.bind_eq_some_iff.mp hread
    cases hread
    exact List.forall_mem_cons.mpr ⟨htidy, h.items hys⟩
  · cases hread
    exact List.forall_mem_singleton.mpr htidy
  · cases hread

theorem ReadsTidy.entries_succ (h : ReadsTidy wide fuel) {done es : Entries}
    (hread : Parser.entries wide (fuel + 1) depth done text = some (es, rest))
    (hnames : (done.map Prod.fst).Nodup) (hdone : ∀ e ∈ done, e.2.Tidy) :
    (es.map Prod.fst).Nodup ∧ ∀ e ∈ es, e.2.Tidy := by
  rw [Parser.entries] at hread
  split at hread
  · obtain ⟨⟨name, rest'⟩, -, hread⟩ := Option.bind_eq_some_iff.mp hread
    dsimp only at hread
    split at hread
    · obtain ⟨⟨x, rest''⟩, hx, hread⟩ := Option.bind_eq_some_iff.mp hread
      have hnames' := Entries.nodup_put hnames name x
      have hdone' : ∀ e ∈ done.put name x, e.2.Tidy := by
        intro e he
        obtain he | rfl := Entries.mem_put he
        · exact hdone e he
        · exact h.value hx
      dsimp only at hread
      split at hread
      · exact h.entries hread hnames' hdone'
      · cases hread
        exact ⟨hnames', hdone'⟩
      · cases hread
    · cases hread
  · cases hread

end Step

theorem readsTidy (wide : WideIntegers) (fuel : Nat) : ReadsTidy wide fuel := by
  induction fuel with
  | zero => exact ⟨nofun, nofun, nofun⟩
  | succ fuel ih => exact ⟨ih.value_succ, ih.items_succ, ih.entries_succ⟩

end Parser

theorem tidy_of_parse? {wide : WideIntegers} {text : List Char} {x : Json}
    (h : parse? wide text = some x) : x.Tidy := by
  obtain ⟨⟨y, rest⟩, hy, h⟩ := Option.bind_eq_some_iff.mp h
  dsimp only at h
  split at h
  · cases h
    exact (Parser.readsTidy wide _).value hy
  · cases h

end Refsite.Json
