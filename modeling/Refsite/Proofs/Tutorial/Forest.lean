import Refsite.Proofs.Tutorial.Parents
namespace Refsite.Tutorial

open Relation

mutual

/-- A tutorial and all below it, each before its children. -/
def preorder : Tutorial → List Tutorial
  | t@{ children := children, .. } => t :: preorderAll children

/-- The tutorials of a forest, each before its children. -/
def preorderAll : List Tutorial → List Tutorial
  | [] => []
  | t :: ts => preorder t ++ preorderAll ts

end

theorem preorder_eq (t : Tutorial) : preorder t = t :: preorderAll t.children := by
  cases t
  rfl

theorem preorderAll_eq (ts : List Tutorial) : preorderAll ts = ts.flatMap preorder := by
  induction ts with
  | nil => rfl
  | cons t ts ih => rw [preorderAll, ih, List.flatMap_cons]

theorem count_eq (t : Tutorial) : count t = countAll t.children + 1 := by
  cases t
  rfl

theorem countAll_append (ts us : List Tutorial) :
    countAll (ts ++ us) = countAll ts + countAll us := by
  induction ts with
  | nil => simp [countAll]
  | cons t ts ih => simp [countAll, ih, Nat.add_assoc]

theorem visit_eq (turns : Nat) (stack : List Tutorial) (h : countAll stack ≤ turns) :
    visit turns stack = preorderAll stack := by
  induction turns generalizing stack with
  | zero =>
    cases stack with
    | nil => rfl
    | cons t stack =>
      rw [countAll, count_eq] at h
      omega
  | succ turns ih =>
    cases stack with
    | nil => rfl
    | cons t stack =>
      have hrest : countAll (t.children ++ stack) ≤ turns := by
        rw [countAll, count_eq] at h
        rw [countAll_append]
        omega
      rw [visit, ih _ hrest, preorderAll, preorder_eq]
      simp [preorderAll_eq]

theorem walkAll_eq (ts : List Tutorial) : walkAll ts = preorderAll ts :=
  visit_eq _ ts (Nat.le_refl _)

def names (t : Tutorial) : List String := (preorder t).map (·.name)

def namesOfAll (ts : List Tutorial) : List String := (walkAll ts).map (·.name)

theorem names_eq (t : Tutorial) : t.names = t.name :: namesOfAll t.children := by
  rw [names, preorder_eq, List.map_cons, namesOfAll, walkAll_eq]

theorem namesOfAll_eq (ts : List Tutorial) : namesOfAll ts = ts.flatMap names := by
  rw [namesOfAll, walkAll_eq, preorderAll_eq, List.map_flatMap]
  rfl

/-- A tree of tutorials in which nothing stands twice, and everything lies below the root. -/
structure GrownBelow (ps : Parents) (t : Tutorial) : Prop where
  nodup : t.names.Nodup
  below : ∀ x ∈ t.names, ReflTransGen ps.Below x t.name

theorem nodup_namesOfAll {ps : Parents} {ts : List Tutorial} (hroots : (ts.map (·.name)).Nodup)
    (htrees : ∀ t ∈ ts, GrownBelow ps t)
    (hapart : ∀ a ∈ ts, ∀ b ∈ ts, ∀ x, ReflTransGen ps.Below x a.name →
      ReflTransGen ps.Below x b.name → a.name = b.name) : (namesOfAll ts).Nodup := by
  rw [namesOfAll_eq, List.nodup_flatMap]
  refine ⟨fun t ht => (htrees t ht).nodup, ?_⟩
  refine List.Pairwise.imp_of_mem ?_ (List.pairwise_map.mp hroots)
  intro a b ha hb hne x hxa hxb
  exact hne (hapart a ha b hb x ((htrees a ha).below x hxa) ((htrees b hb).below x hxb))

/-- The tutorials directly below a name, in the order in which they were taken. -/
def offspring (tutorials : List Tutorial) (ps : Parents) (name : String) : List Tutorial :=
  ((ps.filter fun edge => edge.2 == name).map (·.1)).filterMap fun child =>
    tutorials.find? (·.name == child)

theorem name_grow (configs : Configs) (tutorials : List Tutorial) (ps : Parents) (depth : Nat)
    (t : Tutorial) : (grow configs tutorials ps depth t).name = t.name := by
  cases depth <;> rfl

theorem children_grow (configs : Configs) (tutorials : List Tutorial) (ps : Parents) (depth : Nat)
    (t : Tutorial) : (grow configs tutorials ps (depth + 1) t).children =
      (offspring tutorials ps t.name).map (grow configs tutorials ps depth) := rfl

theorem name_of_find {tutorials : List Tutorial} {child : String} {t : Tutorial}
    (h : tutorials.find? (·.name == child) = some t) : t ∈ tutorials ∧ t.name = child := by
  have hname := List.find?_some h
  exact ⟨List.mem_of_find?_eq_some h, beq_iff_eq.mp hname⟩

theorem map_name_filterMap_find_sublist (tutorials : List Tutorial) (children : List String) :
    ((children.filterMap fun child => tutorials.find? (·.name == child)).map (·.name)).Sublist
      children := by
  induction children with
  | nil => exact List.Sublist.slnil
  | cons child children ih =>
    cases hfind : tutorials.find? (·.name == child) with
    | none =>
      rw [List.filterMap_cons, hfind]
      exact ih.cons child
    | some t =>
      rw [List.filterMap_cons, hfind]
      dsimp only
      rw [List.map_cons, (name_of_find hfind).2]
      exact ih.cons_cons child

theorem nodup_offspring {known : List String} {ps : Parents} (h : ps.Sound known)
    (tutorials : List Tutorial) (name : String) :
    ((offspring tutorials ps name).map (·.name)).Nodup :=
  (map_name_filterMap_find_sublist tutorials _).nodup
    ((List.filter_sublist.map Prod.fst).nodup h.keys_nodup)

theorem below_of_mem_offspring {known : List String} {ps : Parents} (h : ps.Sound known)
    {tutorials : List Tutorial} {name : String} {t : Tutorial}
    (ht : t ∈ offspring tutorials ps name) : t ∈ tutorials ∧ ps.Below t.name name := by
  obtain ⟨child, hchild, hfind⟩ := List.mem_filterMap.mp ht
  obtain ⟨edge, hedge, rfl⟩ := List.mem_map.mp hchild
  obtain ⟨hmem, hparent⟩ := List.mem_filter.mp hedge
  obtain ⟨ht, hname⟩ := name_of_find hfind
  refine ⟨ht, ?_⟩
  rw [hname, ← beq_iff_eq.mp hparent]
  exact h.below_of_mem hmem

section Growing

variable {known : List String} {configs : Configs} {tutorials : List Tutorial} {ps : Parents}

theorem grownBelow_grow (h : ps.Sound known) (hleaf : ∀ t ∈ tutorials, t.children = [])
    (depth : Nat) {t : Tutorial} (ht : t ∈ tutorials) :
    GrownBelow ps (grow configs tutorials ps depth t) := by
  induction depth generalizing t with
  | zero =>
    have hnames : (grow configs tutorials ps 0 t).names = [t.name] := by
      rw [grow, names_eq, hleaf t ht]
      rfl
    refine ⟨hnames ▸ List.nodup_singleton _, ?_⟩
    intro x hx
    rw [hnames, List.mem_singleton] at hx
    rw [hx, grow]
  | succ depth ih =>
    have hchild : ∀ c ∈ (offspring tutorials ps t.name).map (grow configs tutorials ps depth),
        GrownBelow ps c ∧ ps.Below c.name t.name := by
      intro c hc
      obtain ⟨u, hu, rfl⟩ := List.mem_map.mp hc
      obtain ⟨hmem, hbelow⟩ := below_of_mem_offspring h hu
      rw [name_grow]
      exact ⟨ih hmem, hbelow⟩
    have hroots : (((offspring tutorials ps t.name).map
        (grow configs tutorials ps depth)).map (·.name)).Nodup := by
      have hname : (·.name) ∘ grow configs tutorials ps depth = Tutorial.name :=
        funext (name_grow configs tutorials ps depth)
      rw [List.map_map, hname]
      exact nodup_offspring h tutorials t.name
    have hbelow : ∀ x ∈ namesOfAll ((offspring tutorials ps t.name).map
        (grow configs tutorials ps depth)), TransGen ps.Below x t.name := by
      intro x hx
      rw [namesOfAll_eq] at hx
      obtain ⟨c, hc, hxc⟩ := List.mem_flatMap.mp hx
      exact TransGen.tail' ((hchild c hc).1.below x hxc) (hchild c hc).2
    constructor
    · rw [names_eq, children_grow, name_grow, List.nodup_cons]
      refine ⟨fun hmem => h.acyclic t.name (hbelow t.name hmem), ?_⟩
      apply nodup_namesOfAll hroots (fun c hc => (hchild c hc).1)
      intro a ha b hb x hxa hxb
      exact h.sibling_unique hxa hxb (hchild a ha).2 (hchild b hb).2
    · rw [names_eq, children_grow, name_grow]
      intro x hx
      cases List.mem_cons.mp hx with
      | inl heq => rw [heq]
      | inr hmem => exact (hbelow x hmem).to_reflTransGen

theorem nodup_forest (h : ps.Sound known) (hleaf : ∀ t ∈ tutorials, t.children = [])
    (hnames : (tutorials.map (·.name)).Nodup) :
    (namesOfAll (forest configs tutorials ps)).Nodup := by
  have hroot : ∀ r ∈ forest configs tutorials ps, GrownBelow ps r ∧ ps.lookup r.name = none := by
    intro r hr
    obtain ⟨t, ht, rfl⟩ := List.mem_map.mp hr
    obtain ⟨hmem, hnone⟩ := List.mem_filter.mp ht
    rw [name_grow]
    exact ⟨grownBelow_grow h hleaf _ hmem, Option.isNone_iff_eq_none.mp hnone⟩
  have hroots : ((forest configs tutorials ps).map (·.name)).Nodup := by
    have hname : (·.name) ∘ grow configs tutorials ps (tutorials.length + 1) = Tutorial.name :=
      funext (name_grow configs tutorials ps _)
    rw [forest, List.map_map, hname]
    exact (List.filter_sublist.map Tutorial.name).nodup hnames
  apply nodup_namesOfAll hroots (fun r hr => (hroot r hr).1)
  intro a ha b hb x hxa hxb
  exact Parents.root_unique hxa hxb (hroot a ha).2 (hroot b hb).2

end Growing

end Refsite.Tutorial
