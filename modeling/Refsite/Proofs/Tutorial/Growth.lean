import Mathlib.Logic.Relation
import Refsite.Proofs.Tutorial.Edges
namespace Refsite.Tutorial

open Relation

/-- The names of the children that a tutorial has taken, in order. -/
def Parents.childrenOf (ps : Parents) (name : String) : List String :=
  (ps.filter fun edge => edge.2 == name).map (·.1)

def shownTitle (configs : Configs) (t : Tutorial) : String :=
  (titleIn? (configs.of t.name)).getD t.title

/-- The pairs of the children that a tutorial takes and the tutorial itself. -/
def edgesTo (name : String) (children : List String) : Parents :=
  children.map fun child => (child, name)

section Taking

variable {configs : Configs} {known : List String}

theorem adopt_append (known : List String) (name : String) (ps : Parents) (child : String) :
    ∃ taken, (adopt known name ps child).1 = ps ++ edgesTo name taken := by
  rw [adopt]
  split
  · exact ⟨[], (List.append_nil ps).symm⟩
  · split
    · exact ⟨[], (List.append_nil ps).symm⟩
    · exact ⟨[child], rfl⟩

theorem adoptAll_append (known : List String) (name : String) (ps : Parents)
    (children : List String) :
    ∃ taken, (adoptAll known name ps children).1 = ps ++ edgesTo name taken := by
  induction children generalizing ps with
  | nil => exact ⟨[], (List.append_nil ps).symm⟩
  | cons child children ih =>
    obtain ⟨first, hfirst⟩ := adopt_append known name ps child
    obtain ⟨rest, hrest⟩ := ih (adopt known name ps child).1
    refine ⟨first ++ rest, ?_⟩
    rw [edgesTo, List.map_append, ← List.append_assoc]
    change (adoptAll known name (adopt known name ps child).1 children).1 = _
    rw [hrest, hfirst]
    rfl

theorem nest_append {ps ps' : Parents} {rest : List String} (hrest : rest.Nodup)
    (h : (nest configs known ps rest).2 = .ok ps') :
    ∃ taken : String → List String,
      ps' = ps ++ rest.flatMap fun name => edgesTo name (taken name) := by
  induction rest generalizing ps with
  | nil =>
    cases h
    exact ⟨fun _ => [], (List.append_nil _).symm⟩
  | cons name rest ih =>
    obtain ⟨hname, hrest⟩ := List.nodup_cons.mp hrest
    rw [nest] at h
    split at h
    · cases h
    · next children _ =>
      obtain ⟨first, hfirst⟩ := adoptAll_append known name _ children
      obtain ⟨taken, htaken⟩ := ih hrest h
      refine ⟨Function.update taken name first, ?_⟩
      have hothers : (rest.flatMap fun other => edgesTo other (taken other)) =
          rest.flatMap fun other => edgesTo other (Function.update taken name first other) := by
        refine List.flatMap_congr fun other hother => ?_
        rw [Function.update_of_ne (ne_of_mem_of_not_mem hother hname)]
      rw [htaken, hfirst, hothers, List.flatMap_cons, Function.update_self, List.append_assoc]

theorem childrenOf_edgesTo (name : String) (children : List String) (other : String) :
    (edgesTo name children).childrenOf other = if name = other then children else [] := by
  have hconst : (fun edge : String × String => edge.2 == other) ∘ (fun child => (child, name)) =
      fun _ => name == other := rfl
  rw [Parents.childrenOf, edgesTo, List.filter_map, hconst]
  by_cases h : name = other
  · rw [if_pos h, List.filter_eq_self.mpr fun child _ => beq_iff_eq.mpr h, List.map_map]
    exact List.map_id' children
  · rw [if_neg h, List.filter_eq_nil_iff.mpr fun child _ heq => h (beq_iff_eq.mp heq)]
    rfl

theorem childrenOf_append (ps qs : Parents) (name : String) :
    Parents.childrenOf (ps ++ qs) name = ps.childrenOf name ++ qs.childrenOf name := by
  rw [Parents.childrenOf, List.filter_append, List.map_append]
  rfl

theorem childrenOf_flatMap_of_notMem {names : List String} {name : String} (h : name ∉ names)
    (taken : String → List String) :
    Parents.childrenOf (names.flatMap fun other => edgesTo other (taken other)) name = [] := by
  induction names with
  | nil => rfl
  | cons other names ih =>
    obtain ⟨hother, hnames⟩ := List.ne_and_not_mem_of_not_mem_cons h
    rw [List.flatMap_cons, childrenOf_append, childrenOf_edgesTo, if_neg hother.symm,
      ih hnames]
    rfl

theorem childrenOf_flatMap {names : List String} (hnames : names.Nodup) {name : String}
    (h : name ∈ names) (taken : String → List String) :
    Parents.childrenOf (names.flatMap fun other => edgesTo other (taken other)) name =
      taken name := by
  induction names with
  | nil => cases h
  | cons other names ih =>
    obtain ⟨hother, hnames⟩ := List.nodup_cons.mp hnames
    rw [List.flatMap_cons, childrenOf_append, childrenOf_edgesTo]
    cases List.mem_cons.mp h with
    | inl heq =>
      rw [if_pos heq.symm, childrenOf_flatMap_of_notMem (heq ▸ hother), List.append_nil, heq]
    | inr hmem =>
      rw [if_neg (ne_of_mem_of_not_mem hmem hother).symm, ih hnames hmem, List.nil_append]

theorem parents_eq_of_nest {ps : Parents} (hknown : known.Nodup)
    (h : (nest configs known [] known).2 = .ok ps) :
    ps = known.flatMap fun name => edgesTo name (ps.childrenOf name) := by
  obtain ⟨taken, rfl⟩ := nest_append hknown h
  rw [List.nil_append]
  refine List.flatMap_congr fun name hname => ?_
  rw [childrenOf_flatMap hknown hname]

end Taking

section Reading

variable {configs configs' : Configs} {tutorials : List Tutorial} {ps ps' : Parents}

theorem map_name_offspring (h : ps.Sound (tutorials.map (·.name))) (name : String) :
    (offspring tutorials ps name).map (·.name) = ps.childrenOf name := by
  have hfound : ∀ children : List String, children ⊆ tutorials.map (·.name) →
      (children.filterMap fun child => tutorials.find? (·.name == child)).map (·.name) =
        children := by
    intro children hchildren
    induction children with
    | nil => rfl
    | cons child children ih =>
      obtain ⟨hchild, hchildren⟩ := List.cons_subset.mp hchildren
      obtain ⟨t, ht, heq⟩ := List.mem_map.mp hchild
      cases hfind : tutorials.find? (·.name == child) with
      | none => exact absurd (beq_iff_eq.mpr heq) (List.find?_eq_none.mp hfind t ht)
      | some u =>
        rw [List.filterMap_cons, hfind]
        dsimp only
        rw [List.map_cons, (name_of_find hfind).2, ih hchildren]
  refine hfound _ fun child hchild => ?_
  obtain ⟨edge, hedge, rfl⟩ := List.mem_map.mp hchild
  exact (h.named edge.1 edge.2 (h.below_of_mem (List.mem_of_mem_filter hedge))).1

theorem childrenOf_of_mem_forest (h : ps.Sound (tutorials.map (·.name))) {n : Tutorial}
    (hn : n ∈ walkAll (forest configs tutorials ps)) :
    n.children.map (·.name) = ps.childrenOf n.name := by
  obtain ⟨left, u, -, rfl⟩ := mem_forest h hn
  have hname : (·.name) ∘ grow configs tutorials ps left = Tutorial.name :=
    funext (name_grow configs tutorials ps left)
  rw [children_grow, List.map_map, hname, name_grow, map_name_offspring h]

theorem title_of_mem_forest (h : ps.Sound (tutorials.map (·.name)))
    (hnames : (tutorials.map (·.name)).Nodup) {n t : Tutorial}
    (hn : n ∈ walkAll (forest configs tutorials ps)) (ht : t ∈ tutorials)
    (hname : n.name = t.name) : n.title = shownTitle configs t := by
  obtain ⟨left, u, hu, rfl⟩ := mem_forest h hn
  rw [name_grow] at hname
  rw [← List.inj_on_of_nodup_map hnames hu ht hname]
  rfl

theorem grow_congr (htitles : ∀ t ∈ tutorials, shownTitle configs t = shownTitle configs' t)
    (depth : Nat) {t : Tutorial} (ht : t ∈ tutorials) :
    grow configs tutorials ps depth t = grow configs' tutorials ps depth t := by
  induction depth generalizing t with
  | zero => rfl
  | succ depth ih =>
    have hchildren : (offspring tutorials ps t.name).map (grow configs tutorials ps depth) =
        (offspring tutorials ps t.name).map (grow configs' tutorials ps depth) := by
      refine List.map_congr_left fun child hchild => ih ?_
      obtain ⟨_, -, hfind⟩ := List.mem_filterMap.mp hchild
      exact (name_of_find hfind).1
    have htitle := htitles t ht
    rw [shownTitle, shownTitle] at htitle
    rw [grow, grow]
    congr 1

/-- Two runs over the same tutorials make the same forest exactly if they give every tutorial the
same title, and the same parents. -/
theorem forest_eq_iff (hnames : (tutorials.map (·.name)).Nodup)
    (h : (nest configs (tutorials.map (·.name)) [] (tutorials.map (·.name))).2 = .ok ps)
    (h' : (nest configs' (tutorials.map (·.name)) [] (tutorials.map (·.name))).2 = .ok ps') :
    forest configs tutorials ps = forest configs' tutorials ps' ↔
      (∀ t ∈ tutorials, shownTitle configs t = shownTitle configs' t) ∧ ps = ps' := by
  have hps := sound_nest (Parents.sound_nil _) (List.Subset.refl _) h
  have hps' := sound_nest (Parents.sound_nil _) (List.Subset.refl _) h'
  constructor
  · intro heq
    have hin : ∀ name ∈ tutorials.map (·.name),
        ∃ n ∈ walkAll (forest configs tutorials ps), n.name = name := fun name hname =>
      List.mem_map.mp (mem_namesOfAll_forest configs hps hname)
    refine ⟨fun t ht => ?_, ?_⟩
    · obtain ⟨n, hn, hname⟩ := hin t.name (List.mem_map_of_mem ht)
      rw [← title_of_mem_forest hps hnames hn ht hname,
        title_of_mem_forest hps' hnames (heq ▸ hn) ht hname]
    · rw [parents_eq_of_nest hnames h, parents_eq_of_nest hnames h']
      refine List.flatMap_congr fun name hname => ?_
      obtain ⟨n, hn, rfl⟩ := hin name hname
      rw [← childrenOf_of_mem_forest hps hn, childrenOf_of_mem_forest hps' (heq ▸ hn)]
  · rintro ⟨htitles, rfl⟩
    refine List.map_congr_left fun t ht => ?_
    exact grow_congr htitles _ (List.mem_of_mem_filter ht)

end Reading

end Refsite.Tutorial
