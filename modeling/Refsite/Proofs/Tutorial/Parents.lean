import Mathlib.Logic.Relation
import Refsite.Proofs.Link.Bindings
import Refsite.Tutorial.Plan
namespace Refsite.Tutorial

open Relation

def Parents.Below (ps : Parents) (child parent : String) : Prop := ps.lookup child = some parent

/-- What holds of the parents of some tutorials at any point. -/
structure Parents.Sound (names : List String) (ps : Parents) : Prop where
  keys_nodup : (Bindings.keys ps).Nodup
  named : ∀ child parent, ps.Below child parent → child ∈ names ∧ parent ∈ names
  acyclic : ∀ name, ¬ TransGen ps.Below name name

namespace Parents

theorem Below.unique {ps : Parents} : Relator.RightUnique ps.Below := by
  intro child a b ha hb
  exact Option.some.inj (ha.symm.trans hb)

theorem Sound.below_of_mem {names : List String} {ps : Parents} (h : ps.Sound names)
    {child parent : String} (hmem : (child, parent) ∈ ps) : ps.Below child parent :=
  Bindings.lookup_eq_some_of_mem h.keys_nodup hmem

theorem sound_nil (names : List String) : Sound names [] where
  keys_nodup := List.nodup_nil
  named := by
    intro child parent h
    cases h
  acyclic := by
    intro name h
    obtain ⟨parent, hp, -⟩ := TransGen.head'_iff.mp h
    cases hp

theorem above_total {ps : Parents} {x a b : String} (ha : ReflTransGen ps.Below x a)
    (hb : ReflTransGen ps.Below x b) : ReflTransGen ps.Below a b ∨ ReflTransGen ps.Below b a :=
  ReflTransGen.total_of_right_unique Below.unique ha hb

theorem Sound.sibling_unique {names : List String} {ps : Parents} (h : ps.Sound names)
    {x a b parent : String} (ha : ReflTransGen ps.Below x a) (hb : ReflTransGen ps.Below x b)
    (hpa : ps.Below a parent) (hpb : ps.Below b parent) : a = b := by
  have key : ∀ {a b : String}, ps.Below a parent → ps.Below b parent →
      ReflTransGen ps.Below a b → a = b := by
    intro a b hpa hpb hab
    cases ReflTransGen.cases_head hab with
    | inl heq => exact heq
    | inr hstep =>
      obtain ⟨c, hac, hcb⟩ := hstep
      rw [Below.unique hac hpa] at hcb
      exact absurd (TransGen.tail' hcb hpb) (h.acyclic parent)
  cases above_total ha hb with
  | inl hab => exact key hpa hpb hab
  | inr hba => exact (key hpb hpa hba).symm

theorem root_unique {ps : Parents} {x a b : String} (ha : ReflTransGen ps.Below x a)
    (hb : ReflTransGen ps.Below x b) (hra : ps.lookup a = none) (hrb : ps.lookup b = none) :
    a = b := by
  have key : ∀ {a b : String}, ps.lookup a = none → ReflTransGen ps.Below a b → a = b := by
    intro a b hra hab
    cases ReflTransGen.cases_head hab with
    | inl heq => exact heq
    | inr hstep =>
      obtain ⟨c, hac, -⟩ := hstep
      cases hra.symm.trans hac
  cases above_total ha hb with
  | inl hab => exact key hra hab
  | inr hba => exact (key hrb hba).symm

theorem above_of_isAncestorFrom {ps : Parents} {candidate name : String} {fuel : Nat}
    (h : isAncestorFrom ps candidate fuel name = true) : ReflTransGen ps.Below name candidate := by
  induction fuel generalizing name with
  | zero =>
    rw [beq_iff_eq.mp h]
  | succ fuel ih =>
    rw [isAncestorFrom, Bool.or_eq_true] at h
    cases h with
    | inl heq => rw [beq_iff_eq.mp heq]
    | inr hup =>
      cases hp : ps.lookup name with
      | none =>
        rw [hp] at hup
        cases hup
      | some parent =>
        rw [hp] at hup
        exact ReflTransGen.head hp (ih hup)

/-- Names that were passed on the way up to a name. -/
structure Passed (ps : Parents) (passed : List String) (name : String) : Prop where
  nodup : passed.Nodup
  keys : passed ⊆ Bindings.keys ps
  below : ∀ x ∈ passed, TransGen ps.Below x name

theorem passed_nil (ps : Parents) (name : String) : Passed ps [] name :=
  ⟨List.nodup_nil, List.nil_subset _, by simp⟩

theorem Passed.length_le {ps : Parents} {passed : List String} {name : String}
    (h : Passed ps passed name) : passed.length ≤ ps.length := by
  have hlen := h.nodup.length_le_of_subset h.keys
  rw [List.length_map] at hlen
  exact hlen

theorem Passed.step {names : List String} {ps : Parents} (hps : ps.Sound names)
    {passed : List String} {name parent : String} (h : Passed ps passed name)
    (hp : ps.Below name parent) : Passed ps (name :: passed) parent where
  nodup := List.nodup_cons.mpr ⟨fun hmem => hps.acyclic name (h.below name hmem), h.nodup⟩
  keys := List.cons_subset.mpr ⟨List.mem_map.mpr ⟨_, Bindings.mem_of_lookup hp, rfl⟩, h.keys⟩
  below := by
    intro x hx
    cases List.mem_cons.mp hx with
    | inl heq =>
      rw [heq]
      exact TransGen.single hp
    | inr hmem => exact (h.below x hmem).tail hp

/-- The names that are passed on the way up are all different, so the way ends before there are more
of them than entries. -/
theorem Sound.isAncestorFrom_of_above {names : List String} {ps : Parents} (h : ps.Sound names)
    {candidate name : String} {fuel : Nat} {passed : List String} (hpassed : Passed ps passed name)
    (hfuel : ps.length ≤ passed.length + fuel) (habove : ReflTransGen ps.Below name candidate) :
    isAncestorFrom ps candidate fuel name = true := by
  induction fuel generalizing name passed with
  | zero =>
    cases ReflTransGen.cases_head habove with
    | inl heq => exact beq_iff_eq.mpr heq
    | inr hstep =>
      obtain ⟨parent, hp, -⟩ := hstep
      have hlen := (hpassed.step h hp).length_le
      rw [List.length_cons] at hlen
      omega
  | succ fuel ih =>
    rw [isAncestorFrom, Bool.or_eq_true]
    cases ReflTransGen.cases_head habove with
    | inl heq => exact .inl (beq_iff_eq.mpr heq)
    | inr hstep =>
      obtain ⟨parent, hp, hup⟩ := hstep
      right
      rw [hp]
      refine ih (hpassed.step h hp) ?_ hup
      rw [List.length_cons]
      omega

theorem Sound.isAncestor_iff {names : List String} {ps : Parents} (h : ps.Sound names)
    {candidate name : String} :
    isAncestor ps candidate name = true ↔ ReflTransGen ps.Below name candidate := by
  constructor
  · exact above_of_isAncestorFrom
  · intro habove
    exact h.isAncestorFrom_of_above (passed_nil ps name) (Nat.le_of_eq (Nat.zero_add _).symm)
      habove

theorem Sound.exists_root_from {names : List String} {ps : Parents} (h : ps.Sound names)
    {name : String} {left : Nat} {passed : List String} (hpassed : Passed ps passed name)
    (hleft : ps.length ≤ passed.length + left) :
    ∃ root, ReflTransGen ps.Below name root ∧ ps.lookup root = none := by
  induction left generalizing name passed with
  | zero =>
    cases hp : ps.lookup name with
    | none => exact ⟨name, ReflTransGen.refl, hp⟩
    | some parent =>
      have hlen := (hpassed.step h hp).length_le
      rw [List.length_cons] at hlen
      omega
  | succ left ih =>
    cases hp : ps.lookup name with
    | none => exact ⟨name, ReflTransGen.refl, hp⟩
    | some parent =>
      have hlen : ps.length ≤ (name :: passed).length + left := by
        rw [List.length_cons]
        omega
      obtain ⟨root, hup, hroot⟩ := ih (hpassed.step h hp) hlen
      exact ⟨root, hup.head hp, hroot⟩

theorem Sound.exists_root {names : List String} {ps : Parents} (h : ps.Sound names)
    (name : String) : ∃ root, ReflTransGen ps.Below name root ∧ ps.lookup root = none :=
  h.exists_root_from (passed_nil ps name) (Nat.le_of_eq (Nat.zero_add _).symm)

/-- A new entry leads up from the child only, so every way that uses it reaches the child first. -/
theorem below_append {ps : Parents} {child name : String} (hnew : ps.lookup child = none)
    {x y : String} : Below (ps ++ [(child, name)]) x y ↔ ps.Below x y ∨ x = child ∧ y = name := by
  rw [Below, Below, List.lookup_append]
  cases hx : ps.lookup x with
  | some parent =>
    rw [Option.some_or]
    constructor
    · exact .inl
    · rintro (h | ⟨rfl, -⟩)
      · exact h
      · cases hnew.symm.trans hx
  | none =>
    rw [Option.none_or, List.lookup_cons]
    by_cases heq : x = child
    · rw [heq, beq_self_eq_true]
      constructor
      · exact fun h => .inr ⟨rfl, (Option.some.inj h).symm⟩
      · rintro (h | ⟨-, rfl⟩)
        · cases h
        · rfl
    · rw [beq_eq_false_iff_ne.mpr heq]
      constructor
      · intro h
        cases h
      · rintro (h | ⟨h, -⟩)
        · cases h
        · exact absurd h heq

theorem above_append {ps : Parents} {child name : String} (hnew : ps.lookup child = none)
    {x y : String} (h : TransGen (Below (ps ++ [(child, name)])) x y) :
    TransGen ps.Below x y ∨
      ReflTransGen ps.Below x child ∧ ReflTransGen ps.Below name y := by
  induction h with
  | single hstep =>
    cases (below_append hnew).mp hstep with
    | inl hold => exact .inl (TransGen.single hold)
    | inr hedge =>
      obtain ⟨rfl, rfl⟩ := hedge
      exact .inr ⟨ReflTransGen.refl, ReflTransGen.refl⟩
  | tail _ hstep ih =>
    cases (below_append hnew).mp hstep with
    | inl hold =>
      cases ih with
      | inl hx => exact .inl (hx.tail hold)
      | inr hx => exact .inr ⟨hx.1, hx.2.tail hold⟩
    | inr hedge =>
      obtain ⟨rfl, rfl⟩ := hedge
      cases ih with
      | inl hx => exact .inr ⟨hx.to_reflTransGen, ReflTransGen.refl⟩
      | inr hx => exact .inr ⟨hx.1, ReflTransGen.refl⟩

theorem Sound.append {names : List String} {ps : Parents} (h : ps.Sound names)
    {child name : String} (hchild : child ∈ names) (hname : name ∈ names)
    (hnew : ps.lookup child = none) (hfree : ¬ ReflTransGen ps.Below name child) :
    Sound names (ps ++ [(child, name)]) where
  keys_nodup := by
    rw [Bindings.keys, List.map_append]
    refine List.nodup_append.mpr ⟨h.keys_nodup, List.nodup_singleton _, ?_⟩
    rintro k hk j hj rfl
    rw [List.mem_singleton.mp hj] at hk
    exact Bindings.lookup_eq_none_iff_notMem.mp hnew hk
  named := by
    intro x y hxy
    cases (below_append hnew).mp hxy with
    | inl hold => exact h.named x y hold
    | inr hedge =>
      obtain ⟨rfl, rfl⟩ := hedge
      exact ⟨hchild, hname⟩
  acyclic := by
    intro x hx
    cases above_append hnew hx with
    | inl hold => exact h.acyclic x hold
    | inr hboth => exact hfree (hboth.2.trans hboth.1)

end Parents

open Parents

/-- What becomes of a declared child. It is taken exactly if it is another tutorial without a parent
and not above the one that declares it. -/
theorem adopt_cases {names : List String} {ps : Parents} (h : ps.Sound names)
    (name child : String) :
    (adopt names name ps child).1 = ps ++ [(child, name)] ∧ child ∈ names ∧
        ps.lookup child = none ∧ ¬ ReflTransGen ps.Below name child ∨
      (adopt names name ps child).1 = ps ∧
        (child ∉ names ∨ (∃ parent, ps.Below child parent) ∨
          ReflTransGen ps.Below name child) := by
  rw [adopt]
  split
  · next hignored =>
    refine .inr ⟨rfl, ?_⟩
    rw [Bool.or_eq_true, Bool.or_eq_true, Bool.not_eq_true', beq_iff_eq] at hignored
    obtain (hnot | hparent) | rfl := hignored
    · exact .inl fun hmem => Bool.false_ne_true (hnot.symm.trans (List.contains_iff_mem.mpr hmem))
    · exact .inr (.inl (Option.isSome_iff_exists.mp hparent))
    · exact .inr (.inr ReflTransGen.refl)
  · next hknown =>
    rw [Bool.or_eq_true, Bool.or_eq_true, not_or, not_or] at hknown
    obtain ⟨⟨hmem, hfree⟩, -⟩ := hknown
    split
    · next habove => exact .inr ⟨rfl, .inr (.inr (h.isAncestor_iff.mp habove))⟩
    · next habove =>
      refine .inl ⟨rfl, ?_, ?_, fun hup => habove (h.isAncestor_iff.mpr hup)⟩
      · rw [Bool.not_eq_true', Bool.not_eq_false] at hmem
        exact List.contains_iff_mem.mp hmem
      · exact Option.not_isSome_iff_eq_none.mp hfree

theorem sound_adopt {names : List String} {ps : Parents} (h : ps.Sound names) {name : String}
    (hname : name ∈ names) (child : String) : Sound names (adopt names name ps child).1 := by
  cases adopt_cases h name child with
  | inl htaken =>
    rw [htaken.1]
    exact h.append htaken.2.1 hname htaken.2.2.1 htaken.2.2.2
  | inr hleft =>
    rw [hleft.1]
    exact h

theorem sound_adoptAll {names : List String} {ps : Parents} (h : ps.Sound names) {name : String}
    (hname : name ∈ names) (children : List String) :
    Sound names (adoptAll names name ps children).1 := by
  induction children generalizing ps with
  | nil => exact h
  | cons child children ih => exact ih (sound_adopt h hname child)

theorem sound_nest {configs : Configs} {names : List String} {ps ps' : Parents}
    (h : ps.Sound names) {rest : List String} (hrest : rest ⊆ names)
    (hnest : (nest configs names ps rest).2 = .ok ps') : ps'.Sound names := by
  induction rest generalizing ps with
  | nil =>
    cases hnest
    exact h
  | cons name rest ih =>
    obtain ⟨hname, hrest⟩ := List.cons_subset.mp hrest
    rw [nest] at hnest
    split at hnest
    · cases hnest
    · next children _ => exact ih (sound_adoptAll h hname children) hrest hnest

end Refsite.Tutorial
