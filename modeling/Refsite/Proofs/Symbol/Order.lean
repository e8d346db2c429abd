import Mathlib.Data.List.Perm.Basic
import Mathlib.Data.Prod.Lex
import Refsite.Doclet
import Refsite.Proofs.Basic
import Refsite.Proofs.Link.Owner
import Refsite.Proofs.Text.Basic
import Refsite.Symbol.Visibility
namespace Refsite

namespace Symbol

def key (s : Symbol) : String ×ₗ String ×ₗ String :=
  toLex (s.longname, toLex (s.version.getD "", s.since.getD ""))

theorem le_iff {a b : Symbol} : le a b = true ↔ a.key ≤ b.key := by
  rw [key, key, Prod.Lex.toLex_le_toLex, Prod.Lex.toLex_le_toLex]
  unfold le
  by_cases hname : a.longname = b.longname
  · by_cases hversion : a.version.getD "" = b.version.getD ""
    · simp [hname, hversion, Text.le_iff]
    · simp [hname, hversion, Text.le_iff, le_iff_lt_or_eq]
  · simp [hname, Text.le_iff, le_iff_lt_or_eq]

theorem trans_le (a b c : Symbol) (hab : le a b = true) (hbc : le b c = true) : le a c = true :=
  le_iff.mpr ((le_iff.mp hab).trans (le_iff.mp hbc))

theorem total_le (a b : Symbol) : (le a b || le b a) = true := by
  rw [Bool.or_eq_true, le_iff, le_iff]
  exact le_total a.key b.key

theorem pairwise_sort (symbols : List Symbol) :
    (sort symbols).Pairwise fun a b => a.key ≤ b.key :=
  (List.pairwise_mergeSort trans_le total_le symbols).imp le_iff.mp

theorem sort_eq_of_perm {as bs : List Symbol} (h : as.Perm bs) (hkeys : (as.map key).Nodup) :
    sort as = sort bs := by
  have hperm : (sort as).Perm (sort bs) :=
    (List.mergeSort_perm as le).trans (h.trans (List.mergeSort_perm bs le).symm)
  refine hperm.eq_of_pairwise ?_ (pairwise_sort as) (pairwise_sort bs)
  intro a b ha hb hab hba
  have hb' : b ∈ as := h.mem_iff.mpr (List.mem_mergeSort.mp hb)
  exact List.inj_on_of_nodup_map hkeys (List.mem_mergeSort.mp ha) hb' (le_antisymm hab hba)

/-- What is published of some symbols does not depend on their order, where the published ones have
different keys. -/
theorem prune_eq_of_perm {v : Visibility} {as bs : List Symbol} (h : as.Perm bs)
    (hkeys : ((prune v as).map key).Nodup) : prune v as = prune v bs := by
  have hpublished : ((as.filter (isPublished v)).map key).Nodup :=
    ((List.mergeSort_perm _ _).map key).nodup_iff.mp hkeys
  exact sort_eq_of_perm (h.filter _) hpublished

end Symbol

namespace Doclet

def shown? (d : Doclet) : Option Symbol := d.symbol?.toOption.join

theorem symbolsFrom_ok_iff {position : Nat} {raw : List Doclet} {symbols : List Symbol} :
    (symbolsFrom position raw).2 = .ok symbols ↔
      (∀ d ∈ raw, ∃ s, d.symbol? = .ok s) ∧ symbols = raw.filterMap shown? := by
  induction raw generalizing position symbols with
  | nil => simp [symbolsFrom, eq_comm]
  | cons d raw ih =>
    rw [symbolsFrom, List.forall_mem_cons]
    cases hd : d.symbol? with
    | error e => simp
    | ok s =>
      cases s with
      | none =>
        have hshown : d.shown? = none := by
          rw [shown?, hd]
          rfl
        rw [List.filterMap_cons_none hshown]
        exact ih.trans (and_congr_left fun _ => by simp)
      | some s =>
        have hshown : d.shown? = some s := by
          rw [shown?, hd]
          rfl
        rw [List.filterMap_cons_some hshown]
        dsimp only
        constructor
        · intro h
          obtain ⟨rest, hrest, rfl⟩ := exists_of_map_ok h
          obtain ⟨hall, rfl⟩ := ih.mp hrest
          exact ⟨⟨⟨_, rfl⟩, hall⟩, rfl⟩
        · rintro ⟨⟨-, hall⟩, rfl⟩
          rw [ih.mpr ⟨hall, rfl⟩]
          rfl

theorem symbols_perm {raw raw' : List Doclet} {symbols : List Symbol} (h : raw.Perm raw')
    (hraw : (Doclet.symbols raw).2 = .ok symbols) :
    ∃ symbols', (Doclet.symbols raw').2 = .ok symbols' ∧ symbols.Perm symbols' := by
  obtain ⟨hall, rfl⟩ := symbolsFrom_ok_iff.mp hraw
  refine ⟨raw'.filterMap shown?, symbolsFrom_ok_iff.mpr ⟨?_, rfl⟩, h.filterMap shown?⟩
  intro d hd
  exact hall d (h.mem_iff.mpr hd)

end Doclet

namespace Visibility

/-- A policy that lists some of the levels of another one, and shows no private symbols unless the
other one does. Its list is not empty: that would stand for the defaults, which show more than some
lists do. -/
structure Narrower (v w : Visibility) : Prop where
  private_imp : v.showPrivate = true → w.showPrivate = true
  listed : v.access ≠ []
  subset : v.access ⊆ w.access

theorem Narrower.allows {v w : Visibility} (h : v.Narrower w) {level : Option String}
    (hallowed : v.allows level = true) : w.allows level = true := by
  have hmem : ∀ name, v.access.contains name = true → w.access.contains name = true :=
    fun name hname => List.contains_iff_mem.mpr (h.subset (List.contains_iff_mem.mp hname))
  have hlisted : v.access.isEmpty = false := List.isEmpty_eq_false_iff.mpr h.listed
  unfold Visibility.allows at hallowed ⊢
  split
  · rfl
  · next hall =>
    rw [if_neg (mt (hmem "all") hall)] at hallowed
    cases level with
    | none =>
      rw [hlisted, Bool.false_or] at hallowed
      exact Bool.or_eq_true_iff.mpr (.inr (hmem _ hallowed))
    | some level =>
      dsimp only at hallowed ⊢
      rw [hlisted, Bool.false_or] at hallowed
      split
      · next hlevel =>
        rw [if_pos hlevel] at hallowed
        exact Bool.or_eq_true_iff.mpr (.inr (hmem _ hallowed))
      · next hlevel =>
        rw [if_neg hlevel] at hallowed
        split
        · next hprivate =>
          rw [if_pos hprivate] at hallowed
          obtain hshow | hname := Bool.or_eq_true_iff.mp hallowed
          · exact Bool.or_eq_true_iff.mpr (.inl (h.private_imp hshow))
          · exact Bool.or_eq_true_iff.mpr (.inr (hmem _ hname))
        · rfl

-- The defaults show symbols without a level, a list that does not name them hides them.
example : standard.allows none = true ∧ allows ⟨false, ["public"]⟩ none = false := by decide

end Visibility

namespace Symbol

theorem isPublished_of_narrower {v w : Visibility} (h : v.Narrower w) {s : Symbol}
    (hs : isPublished v s = true) : isPublished w s = true := by
  rw [isPublished, Bool.and_eq_true] at hs ⊢
  exact ⟨hs.1, h.allows hs.2⟩

section Order

variable {as bs : List Symbol}

theorem mem_iff_of_filter_key
    (h : ∀ k, as.filter (fun s => s.key = k) = bs.filter fun s => s.key = k) (s : Symbol) :
    s ∈ as ↔ s ∈ bs := by
  have hs : s ∈ as.filter (fun t => t.key = s.key) ↔ s ∈ bs.filter fun t => t.key = s.key := by
    rw [h]
  simpa using hs

theorem eq_of_filter_key (has : as.Pairwise fun a b => a.key ≤ b.key)
    (hbs : bs.Pairwise fun a b => a.key ≤ b.key)
    (h : ∀ k, as.filter (fun s => s.key = k) = bs.filter fun s => s.key = k) : as = bs := by
  induction as generalizing bs with
  | nil =>
    cases bs with
    | nil => rfl
    | cons b bs =>
      exact absurd ((mem_iff_of_filter_key h b).mpr List.mem_cons_self) List.not_mem_nil
  | cons a as ih =>
    cases bs with
    | nil => exact absurd ((mem_iff_of_filter_key h a).mp List.mem_cons_self) List.not_mem_nil
    | cons b bs =>
      obtain ⟨hfirst, hrest⟩ := List.pairwise_cons.mp has
      obtain ⟨hfirst', hrest'⟩ := List.pairwise_cons.mp hbs
      -- Each head stands in the other list, and so neither key is above the other.
      have hle : a.key ≤ b.key := by
        obtain heq | hb := List.mem_cons.mp ((mem_iff_of_filter_key h b).mpr List.mem_cons_self)
        · rw [heq]
        · exact hfirst b hb
      have hle' : b.key ≤ a.key := by
        obtain heq | ha := List.mem_cons.mp ((mem_iff_of_filter_key h a).mp List.mem_cons_self)
        · rw [heq]
        · exact hfirst' a ha
      have hkey : b.key = a.key := le_antisymm hle' hle
      have hhead := h a.key
      simp only [List.filter_cons, hkey, decide_true, if_true] at hhead
      obtain ⟨heq, -⟩ := List.cons.inj hhead
      rw [heq, ih hrest hrest' ?_]
      intro k
      have hk := h k
      rw [List.filter_cons, List.filter_cons, ← heq] at hk
      split at hk
      · exact (List.cons.inj hk).2
      · exact hk

end Order

theorem filter_key_sort (k : String ×ₗ String ×ₗ String) (symbols : List Symbol) :
    (sort symbols).filter (fun s => s.key = k) = symbols.filter fun s => s.key = k := by
  have hequal : (symbols.filter fun s => s.key = k).Pairwise fun a b => le a b = true := by
    refine List.pairwise_of_forall_mem_list fun a ha b hb => le_iff.mpr ?_
    rw [of_decide_eq_true (List.mem_filter.mp ha).2, of_decide_eq_true (List.mem_filter.mp hb).2]
  have hsub : (symbols.filter fun s => s.key = k).Sublist (sort symbols) :=
    List.sublist_mergeSort trans_le total_le hequal List.filter_sublist
  have hkept := hsub.filter fun s => s.key = k
  rw [List.filter_filter] at hkept
  simp only [Bool.and_self] at hkept
  exact (hkept.eq_of_length ((List.mergeSort_perm symbols le).filter _).length_eq.symm).symm

theorem filter_sort (p : Symbol → Bool) (symbols : List Symbol) :
    (sort symbols).filter p = sort (symbols.filter p) := by
  refine eq_of_filter_key ((pairwise_sort symbols).filter p) (pairwise_sort _) fun k => ?_
  rw [List.filter_comm, filter_key_sort, filter_key_sort, List.filter_comm]

theorem prune_eq_filter_sort (v : Visibility) (symbols : List Symbol) :
    prune v symbols = (sort symbols).filter (isPublished v) :=
  (filter_sort (isPublished v) symbols).symm

theorem sort_sort (symbols : List Symbol) : sort (sort symbols) = sort symbols :=
  eq_of_filter_key (pairwise_sort _) (pairwise_sort _) fun k => filter_key_sort k _

/-- What is published is what the policy selects, in the order of the keys, and as it stood where
keys are equal. Publishing it once more changes nothing, and a narrower policy publishes some of
the same symbols in the same order. -/
theorem prune_selects (v : Visibility) (symbols : List Symbol) :
    (prune v symbols).Perm (symbols.filter (isPublished v)) ∧
      ((prune v symbols).Pairwise fun a b => a.key ≤ b.key) ∧
      (∀ k, (prune v symbols).filter (fun s => s.key = k) =
        (symbols.filter (isPublished v)).filter fun s => s.key = k) ∧
      prune v (prune v symbols) = prune v symbols ∧
      ∀ w, v.Narrower w → (prune v symbols).Sublist (prune w symbols) := by
  refine ⟨List.mergeSort_perm _ _, pairwise_sort _, fun k => filter_key_sort k _, ?_, ?_⟩
  · rw [prune_eq_filter_sort v (prune v symbols), prune, sort_sort, filter_sort,
      List.filter_filter]
    simp only [Bool.and_self]
  · intro w h
    rw [prune_eq_filter_sort, prune_eq_filter_sort]
    exact List.monotone_filter_right _ fun s hs => isPublished_of_narrower h hs

/-- Two functions with one key, a public one and one without a level. -/
def namesakes : List Symbol :=
  [{ Symbol.bare (.function ⟨[], [], []⟩) "f" "f" none with access := some "public" },
    Symbol.bare (.function ⟨[], [], []⟩) "f" "f" none]

theorem prune_publicOnly :
    (⟨false, ["public"]⟩ : Visibility).Narrower ⟨true, ["undefined", "public"]⟩ ∧
      (prune ⟨false, ["public"]⟩ namesakes).Sublist
        (prune ⟨true, ["undefined", "public"]⟩ namesakes) := by
  have hnarrower : (⟨false, ["public"]⟩ : Visibility).Narrower ⟨true, ["undefined", "public"]⟩ :=
    ⟨nofun, by decide, by decide⟩
  exact ⟨hnarrower, (prune_selects _ _).2.2.2.2 _ hnarrower⟩

end Symbol

end Refsite
