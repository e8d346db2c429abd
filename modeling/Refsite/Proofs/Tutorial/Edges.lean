import Refsite.Proofs.Tutorial.Forest
namespace Refsite.Tutorial

open Relation

/-- A tutorial of a forest has a child of a name. -/
def Edge (ts : List Tutorial) (parent child : String) : Prop :=
  ∃ t ∈ walkAll ts, t.name = parent ∧ child ∈ t.children.map (·.name)

/-- One tutorial of a forest stands below another, at any depth. -/
def Descends (ts : List Tutorial) : String → String → Prop :=
  TransGen fun child parent => Edge ts parent child

mutual

theorem sublist_preorder {n t : Tutorial} (h : n ∈ preorder t) :
    (preorder n).Sublist (preorder t) := by
  cases t with
  | mk name title content format children =>
    rw [preorder_eq] at h
    cases List.mem_cons.mp h with
    | inl heq => rw [heq]
    | inr hmem =>
      rw [preorder_eq ⟨name, title, content, format, children⟩]
      exact (sublist_preorderAll hmem).cons _

theorem sublist_preorderAll {n : Tutorial} {ts : List Tutorial} (h : n ∈ preorderAll ts) :
    (preorder n).Sublist (preorderAll ts) := by
  cases ts with
  | nil => cases h
  | cons t ts =>
    rw [preorderAll] at h ⊢
    cases List.mem_append.mp h with
    | inl hfirst => exact (sublist_preorder hfirst).trans (List.sublist_append_left _ _)
    | inr hrest => exact (sublist_preorderAll hrest).trans (List.sublist_append_right _ _)

end

theorem mem_names_of_mem {t : Tutorial} {ts : List Tutorial} (h : t ∈ ts) :
    t.name ∈ namesOfAll ts := by
  rw [namesOfAll_eq, List.mem_flatMap]
  refine ⟨t, h, ?_⟩
  rw [names_eq]
  exact List.mem_cons_self

theorem Edge.sublist {ts : List Tutorial} {parent child : String} (h : Edge ts parent child) :
    [parent, child].Sublist (namesOfAll ts) := by
  obtain ⟨t, ht, rfl, hchild⟩ := h
  obtain ⟨c, hc, rfl⟩ := List.mem_map.mp hchild
  rw [walkAll_eq] at ht
  have hsub := (sublist_preorderAll ht).map Tutorial.name
  rw [← walkAll_eq] at hsub
  refine List.Sublist.trans ?_ hsub
  change [t.name, c.name].Sublist t.names
  rw [names_eq]
  exact (List.singleton_sublist.mpr (mem_names_of_mem hc)).cons_cons _

theorem idxOf_lt_of_sublist {l : List String} {a b : String} (hl : l.Nodup)
    (h : [a, b].Sublist l) : l.idxOf a < l.idxOf b := by
  obtain ⟨front, rest, rfl, hfront, hb⟩ := List.cons_sublist_iff.mp h
  have hmem : b ∈ rest := List.singleton_sublist.mp hb
  have hnot : b ∉ front := fun hb => (List.disjoint_of_nodup_append hl) hb hmem
  rw [List.idxOf_append_of_mem hfront, List.idxOf_append_of_notMem hnot]
  have hlt := List.idxOf_lt_length_of_mem hfront
  omega

theorem Descends.idxOf_lt {ts : List Tutorial} (hts : (namesOfAll ts).Nodup) {x y : String}
    (h : Descends ts x y) : (namesOfAll ts).idxOf y < (namesOfAll ts).idxOf x := by
  induction h with
  | single hedge => exact idxOf_lt_of_sublist hts hedge.sublist
  | tail _ hedge ih => exact Nat.lt_trans (idxOf_lt_of_sublist hts hedge.sublist) ih

mutual

theorem root_or_child_of_mem {t n : Tutorial} (h : n ∈ preorder t) :
    n = t ∨ ∃ p ∈ preorder t, n ∈ p.children := by
  cases t with
  | mk name title content format children =>
    rw [preorder_eq] at h ⊢
    cases List.mem_cons.mp h with
    | inl heq => exact .inl heq
    | inr hmem =>
      right
      cases roots_or_child_of_mem hmem with
      | inl hroot => exact ⟨_, List.mem_cons_self, hroot⟩
      | inr hbelow =>
        obtain ⟨p, hp, hn⟩ := hbelow
        exact ⟨p, List.mem_cons_of_mem _ hp, hn⟩

theorem roots_or_child_of_mem {ts : List Tutorial} {n : Tutorial} (h : n ∈ preorderAll ts) :
    n ∈ ts ∨ ∃ p ∈ preorderAll ts, n ∈ p.children := by
  cases ts with
  | nil => cases h
  | cons t ts =>
    rw [preorderAll] at h ⊢
    cases List.mem_append.mp h with
    | inl hfirst =>
      cases root_or_child_of_mem hfirst with
      | inl heq => exact .inl (heq ▸ List.mem_cons_self)
      | inr hbelow =>
        obtain ⟨p, hp, hn⟩ := hbelow
        exact .inr ⟨p, List.mem_append_left _ hp, hn⟩
    | inr hrest =>
      cases roots_or_child_of_mem hrest with
      | inl hroot => exact .inl (List.mem_cons_of_mem _ hroot)
      | inr hbelow =>
        obtain ⟨p, hp, hn⟩ := hbelow
        exact .inr ⟨p, List.mem_append_right _ hp, hn⟩

end

theorem root_or_edge {ts : List Tutorial} {name : String} (h : name ∈ namesOfAll ts) :
    name ∈ ts.map (·.name) ∨ ∃ parent, Edge ts parent name := by
  obtain ⟨n, hn, rfl⟩ := List.mem_map.mp h
  rw [walkAll_eq] at hn
  cases roots_or_child_of_mem hn with
  | inl hroot => exact .inl (List.mem_map_of_mem hroot)
  | inr hbelow =>
    obtain ⟨p, hp, hchild⟩ := hbelow
    rw [← walkAll_eq] at hp
    exact .inr ⟨p.name, p, hp, rfl, List.mem_map_of_mem hchild⟩

/-- The names above a name and the depth that is left below it are enough for all names. -/
def Roomy (ps : Parents) (names : List String) (depth : Nat) (name : String) : Prop :=
  ∃ above : List String, above.Nodup ∧ above ⊆ names ∧ (∀ x ∈ above, TransGen ps.Below name x) ∧
    names.length ≤ above.length + depth

section Growing

variable {configs : Configs} {tutorials : List Tutorial} {ps : Parents} {names : List String}
  {depth : Nat} {name child : String}

theorem roomy_of_length_le (h : names.length ≤ depth) (name : String) :
    Roomy ps names depth name :=
  ⟨[], List.nodup_nil, List.nil_subset _, by simp, by simpa using h⟩

theorem Roomy.pos (hps : ps.Sound names) (h : Roomy ps names depth name) (hname : name ∈ names) :
    ∃ depth', depth = depth' + 1 := by
  obtain ⟨above, hnodup, hsub, habove, hlen⟩ := h
  have hcons : (name :: above).Nodup :=
    List.nodup_cons.mpr ⟨fun hmem => hps.acyclic name (habove name hmem), hnodup⟩
  have hle := hcons.length_le_of_subset (List.cons_subset.mpr ⟨hname, hsub⟩)
  rw [List.length_cons] at hle
  exact ⟨depth - 1, by omega⟩

theorem Roomy.step (hps : ps.Sound names) (h : Roomy ps names (depth + 1) name)
    (hname : name ∈ names) (hchild : ps.Below child name) : Roomy ps names depth child := by
  obtain ⟨above, hnodup, hsub, habove, hlen⟩ := h
  refine ⟨name :: above, ?_, List.cons_subset.mpr ⟨hname, hsub⟩, ?_, ?_⟩
  · exact List.nodup_cons.mpr ⟨fun hmem => hps.acyclic name (habove name hmem), hnodup⟩
  · intro x hx
    cases List.mem_cons.mp hx with
    | inl heq => exact heq ▸ TransGen.single hchild
    | inr hmem => exact TransGen.head hchild (habove x hmem)
  · rw [List.length_cons]
    omega

theorem exists_offspring (h : ps.Sound (tutorials.map (·.name))) (hchild : ps.Below child name) :
    ∃ u ∈ offspring tutorials ps name, u.name = child := by
  obtain ⟨t, ht, heq⟩ := List.mem_map.mp (h.named child name hchild).1
  have hsome : (tutorials.find? (·.name == child)).isSome := by
    rw [List.find?_isSome]
    exact ⟨t, ht, beq_iff_eq.mpr heq⟩
  obtain ⟨u, hfind⟩ := Option.isSome_iff_exists.mp hsome
  refine ⟨u, List.mem_filterMap.mpr ⟨child, ?_, hfind⟩, (name_of_find hfind).2⟩
  refine List.mem_map.mpr ⟨(child, name), ?_, rfl⟩
  exact List.mem_filter.mpr ⟨Bindings.mem_of_lookup hchild, beq_self_eq_true _⟩

theorem mem_preorder_grow (h : ps.Sound (tutorials.map (·.name))) {t n : Tutorial}
    (ht : t ∈ tutorials) (hroom : Roomy ps (tutorials.map (·.name)) depth t.name)
    (hn : n ∈ preorder (grow configs tutorials ps depth t)) :
    ∃ left, ∃ u ∈ tutorials, n = grow configs tutorials ps (left + 1) u := by
  induction depth generalizing t with
  | zero =>
    obtain ⟨depth, heq⟩ := hroom.pos h (List.mem_map_of_mem ht)
    cases heq
  | succ depth ih =>
    rw [preorder_eq, children_grow, preorderAll_eq] at hn
    cases List.mem_cons.mp hn with
    | inl heq => exact ⟨depth, t, ht, heq⟩
    | inr hbelow =>
      obtain ⟨c, hc, hnc⟩ := List.mem_flatMap.mp hbelow
      obtain ⟨u, hu, rfl⟩ := List.mem_map.mp hc
      obtain ⟨hmem, hbelow⟩ := below_of_mem_offspring h hu
      exact ih hmem (hroom.step h (List.mem_map_of_mem ht) hbelow) hnc

theorem mem_names_grow (h : ps.Sound (tutorials.map (·.name))) {t : Tutorial}
    (ht : t ∈ tutorials) (hroom : Roomy ps (tutorials.map (·.name)) depth t.name)
    (hname : ReflTransGen ps.Below name t.name) :
    name ∈ (grow configs tutorials ps depth t).names := by
  induction depth generalizing t with
  | zero =>
    obtain ⟨depth, heq⟩ := hroom.pos h (List.mem_map_of_mem ht)
    cases heq
  | succ depth ih =>
    rw [names_eq, name_grow, children_grow, namesOfAll_eq, List.mem_cons, List.mem_flatMap]
    cases ReflTransGen.cases_tail hname with
    | inl heq => exact .inl heq.symm
    | inr hstep =>
      obtain ⟨child, hup, hchild⟩ := hstep
      obtain ⟨u, hu, rfl⟩ := exists_offspring h hchild
      have hmem := (below_of_mem_offspring h hu).1
      right
      refine ⟨_, List.mem_map_of_mem hu, ?_⟩
      exact ih hmem (hroom.step h (List.mem_map_of_mem ht) hchild) hup

theorem mem_forest (h : ps.Sound (tutorials.map (·.name))) {n : Tutorial}
    (hn : n ∈ walkAll (forest configs tutorials ps)) :
    ∃ left, ∃ u ∈ tutorials, n = grow configs tutorials ps (left + 1) u := by
  rw [walkAll_eq, preorderAll_eq] at hn
  obtain ⟨r, hr, hnr⟩ := List.mem_flatMap.mp hn
  obtain ⟨t, ht, rfl⟩ := List.mem_map.mp hr
  exact mem_preorder_grow h (List.mem_of_mem_filter ht) (roomy_of_length_le (by simp) _) hnr

theorem mem_namesOfAll_forest (configs : Configs) (h : ps.Sound (tutorials.map (·.name)))
    (hname : name ∈ tutorials.map (·.name)) :
    name ∈ namesOfAll (forest configs tutorials ps) := by
  obtain ⟨root, hup, hroot⟩ := h.exists_root name
  have hmem : root ∈ tutorials.map (·.name) := by
    cases ReflTransGen.cases_tail hup with
    | inl heq => exact heq ▸ hname
    | inr hstep =>
      obtain ⟨child, -, hchild⟩ := hstep
      exact (h.named child root hchild).2
  obtain ⟨t, ht, rfl⟩ := List.mem_map.mp hmem
  rw [namesOfAll_eq, List.mem_flatMap]
  refine ⟨grow configs tutorials ps (tutorials.length + 1) t, ?_, ?_⟩
  · exact List.mem_map_of_mem (List.mem_filter.mpr ⟨ht, Option.isNone_iff_eq_none.mpr hroot⟩)
  · exact mem_names_grow h ht (roomy_of_length_le (by simp) _) hup

theorem edge_forest_iff (h : ps.Sound (tutorials.map (·.name))) {parent : String} :
    Edge (forest configs tutorials ps) parent child ↔ ps.Below child parent := by
  have hbelow : ∀ p, Edge (forest configs tutorials ps) p child → ps.Below child p := by
    rintro p ⟨n, hn, rfl, hchild⟩
    obtain ⟨left, u, hu, rfl⟩ := mem_forest h hn
    rw [children_grow, List.map_map] at hchild
    obtain ⟨c, hc, rfl⟩ := List.mem_map.mp hchild
    rw [Function.comp_apply, name_grow, name_grow]
    exact (below_of_mem_offspring h hc).2
  constructor
  · exact hbelow parent
  · intro hparent
    cases root_or_edge (mem_namesOfAll_forest configs h (h.named child parent hparent).1) with
    | inl hroot =>
      obtain ⟨r, hr, rfl⟩ := List.mem_map.mp hroot
      obtain ⟨t, ht, rfl⟩ := List.mem_map.mp hr
      have hnone := Option.isNone_iff_eq_none.mp (List.mem_filter.mp ht).2
      rw [name_grow] at hparent
      cases hnone.symm.trans hparent
    | inr hedge =>
      obtain ⟨p, hp⟩ := hedge
      rwa [Parents.Below.unique hparent (hbelow p hp)]

end Growing

/-- A forest holds each of some tutorials once, with the titles that configurations state. Walking
through it goes down before it goes on. -/
structure ForestOver (configs : Configs) (loaded ts : List Tutorial) : Prop where
  names_perm : (namesOfAll ts).Perm (loaded.map (·.name))
  names_nodup : (namesOfAll ts).Nodup
  tutorial : ∀ n ∈ walkAll ts, ∃ u ∈ loaded, n.name = u.name ∧ n.content = u.content ∧
    n.format = u.format ∧ n.title = (titleIn? (configs.of u.name)).getD u.title
  preorder : walkAll ts = preorderAll ts
  parent_first : ∀ x y, Descends ts x y → (namesOfAll ts).idxOf y < (namesOfAll ts).idxOf x
  parent_unique : ∀ p q child, Edge ts p child → Edge ts q child → p = q
  acyclic : ∀ name, ¬ Descends ts name name

theorem forestOver_forest {configs : Configs} {tutorials : List Tutorial} {ps : Parents}
    (h : ps.Sound (tutorials.map (·.name))) (hleaf : ∀ t ∈ tutorials, t.children = [])
    (hnames : (tutorials.map (·.name)).Nodup) :
    ForestOver configs tutorials (forest configs tutorials ps) := by
  have hnodup : (namesOfAll (forest configs tutorials ps)).Nodup := nodup_forest h hleaf hnames
  have hfirst : ∀ x y, Descends (forest configs tutorials ps) x y →
      (namesOfAll (forest configs tutorials ps)).idxOf y <
        (namesOfAll (forest configs tutorials ps)).idxOf x :=
    fun x y => Descends.idxOf_lt hnodup
  constructor
  · refine (List.perm_ext_iff_of_nodup hnodup hnames).mpr fun name =>
      ⟨?_, mem_namesOfAll_forest configs h⟩
    intro hname
    obtain ⟨n, hn, rfl⟩ := List.mem_map.mp hname
    obtain ⟨left, u, hu, rfl⟩ := mem_forest h hn
    rw [name_grow]
    exact List.mem_map_of_mem hu
  · exact hnodup
  · intro n hn
    obtain ⟨left, u, hu, rfl⟩ := mem_forest h hn
    exact ⟨u, hu, rfl, rfl, rfl, rfl⟩
  · exact walkAll_eq _
  · exact hfirst
  · intro p q child hp hq
    exact Parents.Below.unique ((edge_forest_iff h).mp hp) ((edge_forest_iff h).mp hq)
  · intro name hname
    exact absurd (hfirst name name hname) (Nat.lt_irrefl _)

end Refsite.Tutorial
