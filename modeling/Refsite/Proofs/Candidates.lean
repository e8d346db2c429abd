import Mathlib.Data.List.Nodup
import Mathlib.Data.List.Perm.Subperm
namespace Refsite

variable {α : Type}

theorem exists_notMem_of_injective {f : Nat → α} (h : Function.Injective f) (taken : List α) :
    ∃ k ≤ taken.length, f k ∉ taken := by
  by_contra hnone
  have hsub : (List.range (taken.length + 1)).map f ⊆ taken := by
    intro a ha
    obtain ⟨k, hk, rfl⟩ := List.mem_map.mp ha
    by_contra hfree
    exact hnone ⟨k, Nat.lt_succ_iff.mp (List.mem_range.mp hk), hfree⟩
  have hlength := (List.subperm_of_subset (List.nodup_range.map h) hsub).length_le
  rw [List.length_map, List.length_range] at hlength
  omega

theorem exists_find_range {f : Nat → α} {p : α → Bool} {bound : Nat}
    (h : ∃ k ≤ bound, p (f k) = true) :
    ∃ k ≤ bound, ((List.range (bound + 1)).map f).find? p = some (f k) ∧ p (f k) = true ∧
      ∀ j < k, p (f j) = false := by
  obtain ⟨n, hn, hsuits⟩ := h
  rw [List.find?_map]
  cases hfind : (List.range (bound + 1)).find? (p ∘ f) with
  | none =>
    have hnot := List.find?_eq_none.mp hfind n (List.mem_range.mpr (Nat.lt_succ_of_le hn))
    exact absurd hsuits hnot
  | some k =>
    obtain ⟨hk, hmem, hleast⟩ := List.find?_range_eq_some.mp hfind
    refine ⟨k, Nat.lt_succ_iff.mp (List.mem_range.mp hmem), rfl, hk, ?_⟩
    exact fun j hj => (Bool.not_eq_true' _).mp (hleast j hj)

end Refsite
