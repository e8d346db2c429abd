import Mathlib.Algebra.Order.Group.Multiset
import Mathlib.Data.List.Nodup
import Mathlib.Tactic.Abel
import Refsite.Tree.Graft
namespace Refsite.Tree

def shownKinds : List Kind :=
  [.nameSpace, .mixin, .classType, .function, .event, .member, .constant]

def holderKinds : List Kind := [.nameSpace, .mixin, .classType]

/-- The parents whose children hang together with the root: the root itself, and the longname of
what holds others and hangs below such a parent. -/
inductive Reached (symbols : List Symbol) : Option String → Prop
  | root : Reached symbols none
  | held {s : Symbol} (mem : s ∈ symbols) (holder : s.kind ∈ holderKinds)
    (parent : Reached symbols s.memberof) : Reached symbols (some s.longname)

mutual

def Node.entries : Node → List Entry
  | .mk entry children => entry :: Node.entriesOfAll children

def Node.entriesOfAll : List Node → List Entry
  | [] => []
  | n :: nodes => n.entries ++ Node.entriesOfAll nodes

end

theorem Node.entriesOfAll_append (ns ms : List Node) :
    Node.entriesOfAll (ns ++ ms) = Node.entriesOfAll ns ++ Node.entriesOfAll ms := by
  induction ns with
  | nil => rfl
  | cons n ns ih => simp only [List.cons_append, Node.entriesOfAll, ih, List.append_assoc]

theorem isSome_ofSymbol (s : Symbol) :
    (Entry.ofSymbol? s).isSome = decide (s.kind ∈ shownKinds) := by
  unfold Entry.ofSymbol? Symbol.kind
  cases s.detail <;> rfl

theorem isContainer_of_ofSymbol {s : Symbol} {entry : Entry} (h : Entry.ofSymbol? s = some entry) :
    entry.isContainer = decide (s.kind ∈ holderKinds) := by
  unfold Entry.ofSymbol? at h
  unfold Symbol.kind
  cases hd : s.detail <;> rw [hd] at h <;> cases h <;> rfl

theorem ofSymbol_of_holder {s : Symbol} (h : s.kind ∈ holderKinds) :
    ∃ entry, Entry.ofSymbol? s = some entry := by
  have hshown : s.kind ∈ shownKinds := by
    simp only [holderKinds, shownKinds, List.mem_cons] at h ⊢
    tauto
  have hsome := isSome_ofSymbol s
  rw [decide_eq_true hshown] at hsome
  exact Option.isSome_iff_exists.mp hsome

def entriesBelow (symbols : List Symbol) (parent : Option String) : List Entry :=
  (childrenOf symbols parent).filterMap Entry.ofSymbol?

/-- The children of a parent that hold others are spoken for. -/
def Closed (symbols : List Symbol) (expanded : List String) (parent : Option String) : Prop :=
  ∀ s ∈ childrenOf symbols parent, s.kind ∈ holderKinds → s.longname ∈ expanded

/-- What growing comes to: nodes for some entries, and below them the children of some parents and
of the longnames that were taken on the way. -/
structure Grown (symbols : List Symbol) (tops : List Entry) (parents : List (Option String))
    (expanded fresh : List String) (result : List Node × List String) : Prop where
  expanded_eq : result.2 = fresh ++ expanded
  nodup : expanded.Nodup → result.2.Nodup
  entries : (Node.entriesOfAll result.1).Perm
    (tops ++ (parents ++ fresh.map some).flatMap (entriesBelow symbols))
  closed : ∀ parent ∈ parents ++ fresh.map some, Closed symbols result.2 parent
  /-- A longname is taken where the children of its parent are shown. -/
  origin : ∀ name ∈ fresh, ∃ s ∈ symbols, s.kind ∈ holderKinds ∧ s.longname = name ∧
    s.memberof ∈ parents ++ fresh.map some
  reached : (∀ parent ∈ parents, Reached symbols parent) →
    ∀ name ∈ fresh, Reached symbols (some name)

section Growing

variable {symbols : List Symbol} {tops others : List Entry} {parents above : List (Option String)}
  {expanded fresh fresh' : List String}

theorem Grown.nil (expanded : List String) : Grown symbols [] [] expanded [] ([], expanded) where
  expanded_eq := rfl
  nodup := id
  entries := List.Perm.refl _
  closed := by simp
  origin := by simp
  reached := by simp

theorem Grown.leaf (entry : Entry) (expanded : List String) :
    Grown symbols [entry] [] expanded [] ([.mk entry []], expanded) where
  expanded_eq := rfl
  nodup := id
  entries := List.Perm.refl _
  closed := by simp
  origin := by simp
  reached := by simp

theorem Grown.hang {result : List Node × List String}
    (h : Grown symbols [] parents expanded fresh result) (entry : Entry) :
    Grown symbols [entry] parents expanded fresh ([.mk entry result.1], result.2) where
  expanded_eq := h.expanded_eq
  nodup := h.nodup
  entries := by simpa [Node.entriesOfAll, Node.entries] using h.entries
  closed := h.closed
  origin := h.origin
  reached := h.reached

theorem Grown.append {nodes nodes' : List Node} {after after' : List String}
    (h : Grown symbols tops parents expanded fresh (nodes, after))
    (h' : Grown symbols others above after fresh' (nodes', after')) :
    Grown symbols (others ++ tops) (above ++ parents) expanded (fresh' ++ fresh)
      (nodes' ++ nodes, after') where
  expanded_eq := by
    rw [h'.expanded_eq, List.append_assoc]
    exact congrArg _ h.expanded_eq
  nodup := fun hnodup => h'.nodup (h.nodup hnodup)
  entries := by
    rw [Node.entriesOfAll_append]
    refine (h'.entries.append h.entries).trans ?_
    rw [← Multiset.coe_eq_coe]
    simp only [List.map_append, List.flatMap_append, ← Multiset.coe_add]
    abel
  closed := by
    intro parent hparent
    have hsub := List.subset_append_right fresh' after
    rw [← h'.expanded_eq] at hsub
    simp only [List.map_append, List.mem_append] at hparent
    have hboth : parent ∈ above ++ fresh'.map some ∨ parent ∈ parents ++ fresh.map some := by
      simp only [List.mem_append]
      tauto
    cases hboth with
    | inl hnew => exact h'.closed parent hnew
    | inr hold => exact fun s hs hholder => hsub (h.closed parent hold s hs hholder)
  origin := by
    intro name hname
    simp only [List.map_append, List.mem_append] at hname ⊢
    cases hname with
    | inl hnew =>
      obtain ⟨s, hs, hholder, heq, hparent⟩ := h'.origin name hnew
      rw [List.mem_append] at hparent
      exact ⟨s, hs, hholder, heq, by tauto⟩
    | inr hold =>
      obtain ⟨s, hs, hholder, heq, hparent⟩ := h.origin name hold
      rw [List.mem_append] at hparent
      exact ⟨s, hs, hholder, heq, by tauto⟩
  reached := by
    intro hall name hname
    have habove := fun parent hp => hall parent (List.mem_append_left parents hp)
    have hparents := fun parent hp => hall parent (List.mem_append_right above hp)
    cases List.mem_append.mp hname with
    | inl hnew => exact h'.reached habove name hnew
    | inr hold => exact h.reached hparents name hold

end Growing

def tasks (sown : List Seed) : List String := sown.filterMap (·.2)

/-- What some symbols sow: their entries, and a task for the longname of what holds others where it
is first met. -/
structure Sown (symbols : List Symbol) (expanded : List String) (sown : List Seed) : Prop where
  tops : sown.map (·.1) = symbols.filterMap Entry.ofSymbol?
  nodup : expanded.Nodup → ((tasks sown).reverse ++ expanded).Nodup
  closed : ∀ s ∈ symbols, s.kind ∈ holderKinds → s.longname ∈ (tasks sown).reverse ++ expanded
  origin : ∀ name ∈ tasks sown, name ∉ expanded ∧
    ∃ s ∈ symbols, s.kind ∈ holderKinds ∧ s.longname = name

section Sowing

variable {symbols : List Symbol} {expanded : List String} {sown : List Seed} {s : Symbol}
  {entry : Entry}

theorem Sown.nil (expanded : List String) : Sown [] expanded [] where
  tops := rfl
  nodup := id
  closed := by simp
  origin := by simp [tasks]

theorem Sown.skip (h : Sown symbols expanded sown) (hentry : Entry.ofSymbol? s = none) :
    Sown (s :: symbols) expanded sown where
  tops := by rw [h.tops, List.filterMap_cons_none hentry]
  nodup := h.nodup
  closed := by
    refine List.forall_mem_cons.mpr ⟨fun hholder => ?_, h.closed⟩
    obtain ⟨entry, hsome⟩ := ofSymbol_of_holder hholder
    rw [hentry] at hsome
    cases hsome
  origin := fun name hname => (h.origin name hname).imp_right fun ⟨t, ht, hspec⟩ =>
    ⟨t, List.mem_cons_of_mem _ ht, hspec⟩

theorem Sown.bare (h : Sown symbols expanded sown) (hentry : Entry.ofSymbol? s = some entry)
    (hmet : s.kind ∈ holderKinds → s.longname ∈ expanded) :
    Sown (s :: symbols) expanded ((entry, none) :: sown) where
  tops := by rw [List.map_cons, h.tops, List.filterMap_cons_some hentry]
  nodup := h.nodup
  closed := List.forall_mem_cons.mpr
    ⟨fun hholder => List.mem_append_right _ (hmet hholder), h.closed⟩
  origin := fun name hname => (h.origin name hname).imp_right fun ⟨t, ht, hspec⟩ =>
    ⟨t, List.mem_cons_of_mem _ ht, hspec⟩

theorem Sown.task (h : Sown symbols (s.longname :: expanded) sown)
    (hentry : Entry.ofSymbol? s = some entry) (hholder : s.kind ∈ holderKinds)
    (hnew : s.longname ∉ expanded) :
    Sown (s :: symbols) expanded ((entry, some s.longname) :: sown) where
  tops := by rw [List.map_cons, h.tops, List.filterMap_cons_some hentry]
  nodup := fun hnodup => by simpa [tasks] using h.nodup (List.nodup_cons.mpr ⟨hnew, hnodup⟩)
  closed := by
    refine List.forall_mem_cons.mpr ⟨fun _ => by simp [tasks], fun t ht hkind => ?_⟩
    simpa [tasks] using h.closed t ht hkind
  origin := by
    refine List.forall_mem_cons.mpr ⟨⟨hnew, s, List.mem_cons_self, hholder, rfl⟩, ?_⟩
    intro name hname
    obtain ⟨hfree, t, ht, hspec⟩ := h.origin name hname
    exact ⟨fun hmem => hfree (List.mem_cons_of_mem _ hmem), t, List.mem_cons_of_mem _ ht, hspec⟩

theorem Sown.below {parent : Option String} {name : String}
    (h : Sown (childrenOf symbols parent) expanded sown) (hname : name ∈ tasks sown) :
    ∃ s ∈ symbols, s.kind ∈ holderKinds ∧ s.longname = name ∧ s.memberof = parent := by
  obtain ⟨-, s, hs, hholder, heq⟩ := h.origin name hname
  obtain ⟨hmem, hmemberof⟩ := List.mem_filter.mp hs
  exact ⟨s, hmem, hholder, heq, beq_iff_eq.mp hmemberof⟩

end Sowing

/-- Seeds are the entries of the symbols, and a longname becomes a task when it is first met. -/
theorem seeds_spec (symbols : List Symbol) (expanded : List String) :
    ∃ sown, seeds expanded symbols = (sown, (tasks sown).reverse ++ expanded) ∧
      Sown symbols expanded sown := by
  induction symbols generalizing expanded with
  | nil => exact ⟨[], rfl, .nil expanded⟩
  | cons s symbols ih =>
    rw [seeds]
    cases hentry : Entry.ofSymbol? s with
    | none =>
      obtain ⟨sown, hseeds, hsown⟩ := ih expanded
      exact ⟨sown, hseeds, hsown.skip hentry⟩
    | some entry =>
      have hkind := isContainer_of_ofSymbol hentry
      dsimp only
      split
      · next hnew =>
        rw [Bool.and_eq_true, hkind, decide_eq_true_eq, Bool.not_eq_true',
          List.contains_eq_mem, decide_eq_false_iff_not] at hnew
        obtain ⟨sown, hseeds, hsown⟩ := ih (s.longname :: expanded)
        rw [hseeds]
        refine ⟨(entry, some s.longname) :: sown, ?_, hsown.task hentry hnew.1 hnew.2⟩
        simp [tasks]
      · next hold =>
        obtain ⟨sown, hseeds, hsown⟩ := ih expanded
        rw [hseeds]
        refine ⟨(entry, none) :: sown, rfl, hsown.bare hentry fun hholder => ?_⟩
        by_contra hnot
        apply hold
        rw [hkind, decide_eq_true hholder, List.contains_eq_mem, decide_eq_false hnot]
        rfl

/-- Growing all seeds grows the children of their tasks, if every single task can be grown whatever
was spoken for meanwhile. -/
theorem growAll_spec {symbols : List Symbol} {grow : List String → String → List Node × List String}
    {expanded : List String} {sown : List Seed}
    (hgrow : ∀ known name, expanded ⊆ known → name ∈ tasks sown →
      ∃ fresh, Grown symbols [] [some name] known fresh (grow known name)) :
    ∃ fresh, Grown symbols (sown.map (·.1)) ((tasks sown).map some) expanded fresh
      (growAll grow expanded sown) := by
  induction sown with
  | nil => exact ⟨[], Grown.nil expanded⟩
  | cons seed sown ih =>
    obtain ⟨entry, task⟩ := seed
    have hrest : ∀ known name, expanded ⊆ known → name ∈ tasks sown →
        ∃ fresh, Grown symbols [] [some name] known fresh (grow known name) := by
      intro known name hknown hname
      refine hgrow known name hknown ?_
      cases task with
      | none => exact hname
      | some other => exact List.mem_cons_of_mem _ hname
    obtain ⟨fresh, hgrown⟩ := ih hrest
    rw [growAll]
    cases task with
    | none => exact ⟨_, hgrown.append (Grown.leaf entry _)⟩
    | some name =>
      have hknown : expanded ⊆ (growAll grow expanded sown).2 := by
        rw [hgrown.expanded_eq]
        exact List.subset_append_right _ _
      obtain ⟨fresh', hbelow⟩ := hgrow _ name hknown List.mem_cons_self
      exact ⟨_, hgrown.append (hbelow.hang entry)⟩

def free (symbols : List Symbol) (expanded : List String) : Nat :=
  (symbols.filter fun s => decide (s.longname ∉ expanded)).length

theorem free_lt {symbols : List Symbol} {expanded known : List String} (hsub : expanded ⊆ known)
    {s : Symbol} (hs : s ∈ symbols) (hfree : s.longname ∉ expanded) (htaken : s.longname ∈ known) :
    free symbols known < free symbols expanded := by
  have hfilter : symbols.filter (fun t => decide (t.longname ∉ known)) =
      (symbols.filter fun t => decide (t.longname ∉ expanded)).filter
        fun t => decide (t.longname ∉ known) := by
    rw [List.filter_filter]
    apply List.filter_congr
    intro t _
    by_cases h : t.longname ∈ known
    · simp [h]
    · simp [h, mt (@hsub t.longname) h]
  rw [free, free, hfilter]
  refine List.length_filter_lt_length_iff_exists.mpr ⟨s, ?_, by simp [htaken]⟩
  exact List.mem_filter.mpr ⟨hs, decide_eq_true hfree⟩

theorem free_lt_of_task {symbols : List Symbol} {parent : Option String}
    {expanded known : List String} {sown : List Seed} {name : String}
    (hname : name ∈ tasks sown)
    (hknown : (tasks sown).reverse ++ expanded ⊆ known)
    (htask : name ∉ expanded ∧
      ∃ s ∈ childrenOf symbols parent, s.kind ∈ holderKinds ∧ s.longname = name) :
    free symbols known < free symbols expanded := by
  obtain ⟨hfree, s, hs, -, rfl⟩ := htask
  refine free_lt (fun x hx => hknown (List.mem_append_right _ hx)) (List.mem_of_mem_filter hs) hfree
    (hknown (List.mem_append_left _ (List.mem_reverse.mpr hname)))

theorem Grown.of_sown {symbols : List Symbol} {parent : Option String}
    {expanded fresh : List String} {sown : List Seed} {result : List Node × List String}
    (h : Grown symbols (sown.map (·.1)) ((tasks sown).map some) ((tasks sown).reverse ++ expanded)
      fresh result)
    (hsown : Sown (childrenOf symbols parent) expanded sown) :
    Grown symbols [] [parent] expanded (fresh ++ (tasks sown).reverse) result where
  expanded_eq := by rw [h.expanded_eq, List.append_assoc]
  nodup := fun hnodup => h.nodup (hsown.nodup hnodup)
  entries := by
    refine h.entries.trans ?_
    have hrev := ((tasks sown).reverse_perm.map some).flatMap_right (entriesBelow symbols)
    rw [hsown.tops, List.nil_append, List.map_append, List.flatMap_append, List.flatMap_append,
      List.flatMap_append, List.flatMap_singleton, entriesBelow]
    exact (List.perm_append_comm.trans (hrev.symm.append_left _)).append_left _
  closed := by
    intro other hother
    have hsub := List.subset_append_right fresh ((tasks sown).reverse ++ expanded)
    rw [← h.expanded_eq] at hsub
    simp only [List.map_append, List.map_reverse, List.mem_append, List.mem_singleton,
      List.mem_reverse] at hother
    obtain rfl | hfresh | htask := hother
    · exact fun s hs hholder => hsub (hsown.closed s hs hholder)
    · exact h.closed other (List.mem_append_right _ hfresh)
    · exact h.closed other (List.mem_append_left _ htask)
  origin := by
    intro name hname
    simp only [List.map_append, List.map_reverse, List.mem_append, List.mem_singleton,
      List.mem_reverse] at hname ⊢
    cases hname with
    | inl hfresh =>
      obtain ⟨s, hs, hholder, heq, hparent⟩ := h.origin name hfresh
      rw [List.mem_append] at hparent
      exact ⟨s, hs, hholder, heq, by tauto⟩
    | inr htask =>
      obtain ⟨s, hs, hholder, heq, hmemberof⟩ := hsown.below htask
      exact ⟨s, hs, hholder, heq, .inl hmemberof⟩
  reached := by
    intro hparent name hname
    have htask : ∀ name ∈ tasks sown, Reached symbols (some name) := by
      intro name hname
      obtain ⟨s, hs, hholder, rfl, hmemberof⟩ := hsown.below hname
      exact .held hs hholder (hmemberof ▸ hparent parent List.mem_cons_self)
    cases List.mem_append.mp hname with
    | inl hfresh =>
      refine h.reached ?_ name hfresh
      intro other hother
      obtain ⟨task, hmem, rfl⟩ := List.mem_map.mp hother
      exact htask task hmem
    | inr hmem => exact htask name (List.mem_reverse.mp hmem)

theorem expand_spec {symbols : List Symbol} {fuel : Nat} {expanded : List String}
    {parent : Option String} (hfuel : free symbols expanded < fuel) :
    ∃ fresh, Grown symbols [] [parent] expanded fresh (expand symbols fuel expanded parent) := by
  induction fuel generalizing expanded parent with
  | zero => exact absurd hfuel (Nat.not_lt_zero _)
  | succ fuel ih =>
    obtain ⟨sown, hseeds, hsown⟩ := seeds_spec (childrenOf symbols parent) expanded
    have hgrow : ∀ known name, (tasks sown).reverse ++ expanded ⊆ known → name ∈ tasks sown →
        ∃ fresh, Grown symbols [] [some name] known fresh
          (expand symbols fuel known (some name)) := by
      intro known name hknown hname
      have hlt := free_lt_of_task hname hknown (hsown.origin name hname)
      exact ih (by omega)
    obtain ⟨fresh, hgrown⟩ := growAll_spec hgrow
    rw [expand, hseeds]
    exact ⟨_, hgrown.of_sown hsown⟩

theorem growAll_congr {symbols : List Symbol}
    {grow grow' : List String → String → List Node × List String} {expanded : List String}
    {sown : List Seed}
    (hgrow : ∀ known name, expanded ⊆ known → name ∈ tasks sown →
      ∃ fresh, Grown symbols [] [some name] known fresh (grow known name))
    (heq : ∀ known name, expanded ⊆ known → name ∈ tasks sown →
      grow' known name = grow known name) :
    growAll grow' expanded sown = growAll grow expanded sown := by
  induction sown with
  | nil => rfl
  | cons seed sown ih =>
    obtain ⟨entry, task⟩ := seed
    have hsub : tasks sown ⊆ tasks ((entry, task) :: sown) := by
      cases task with
      | none => exact List.Subset.refl _
      | some name => exact List.subset_cons_self _ _
    have hrest := fun known name hknown hname => hgrow known name hknown (hsub hname)
    rw [growAll, growAll, ih hrest fun known name hknown hname => heq known name hknown (hsub hname)]
    cases task with
    | none => rfl
    | some name =>
      obtain ⟨fresh, hgrown⟩ := growAll_spec hrest
      have hknown : expanded ⊆ (growAll grow expanded sown).2 := by
        rw [hgrown.expanded_eq]
        exact List.subset_append_right _ _
      dsimp only
      rw [heq _ name hknown List.mem_cons_self]

theorem expand_congr {symbols : List Symbol} {fuel fuel' : Nat} {expanded : List String}
    {parent : Option String} (hfuel : free symbols expanded < fuel)
    (hfuel' : free symbols expanded < fuel') :
    expand symbols fuel' expanded parent = expand symbols fuel expanded parent := by
  induction fuel generalizing fuel' expanded parent with
  | zero => exact absurd hfuel (Nat.not_lt_zero _)
  | succ fuel ih =>
    obtain ⟨fuel', rfl⟩ : ∃ n, fuel' = n + 1 := ⟨fuel' - 1, by omega⟩
    obtain ⟨sown, hseeds, hsown⟩ := seeds_spec (childrenOf symbols parent) expanded
    rw [expand, expand, hseeds]
    have hgrow : ∀ known name, (tasks sown).reverse ++ expanded ⊆ known → name ∈ tasks sown →
        ∃ fresh, Grown symbols [] [some name] known fresh
          (expand symbols fuel known (some name)) := by
      intro known name hknown hname
      have hlt := free_lt_of_task hname hknown (hsown.origin name hname)
      exact expand_spec (by omega)
    apply growAll_congr hgrow
    intro known name hknown hname
    have hlt := free_lt_of_task hname hknown (hsown.origin name hname)
    exact ih (by omega) (by omega)

theorem flatMap_filter_perm {α β : Type} [BEq β] [LawfulBEq β] (key : α → β) (as : List α)
    {ks : List β} (hks : ks.Nodup) :
    (ks.flatMap fun k => as.filter (key · == k)).Perm (as.filter fun a => decide (key a ∈ ks)) := by
  induction ks with
  | nil => simp
  | cons k ks ih =>
    obtain ⟨hk, hks⟩ := List.nodup_cons.mp hks
    rw [List.flatMap_cons]
    refine ((ih hks).append_left _).trans ?_
    have hsplit := List.filter_append_perm (key · == k) (as.filter fun a => decide (key a ∈ k :: ks))
    rw [List.filter_filter, List.filter_filter] at hsplit
    refine List.Perm.trans (List.Perm.of_eq ?_) hsplit
    congr 1
    · apply List.filter_congr
      intro a _
      by_cases h : key a = k <;> simp [h]
    · apply List.filter_congr
      intro a _
      by_cases h : key a = k
      · simp [h, hk]
      · simp [h]

theorem map_some_filterMap {α β : Type} (f : α → Option β) (as : List α) :
    (as.filterMap f).map some = (as.filter fun a => (f a).isSome).map f := by
  induction as with
  | nil => rfl
  | cons a as ih => cases h : f a <;> simp [h, ih]

theorem Grown.mem_iff_reached {symbols : List Symbol} {fresh : List String}
    {result : List Node × List String} (h : Grown symbols [] [none] [] fresh result)
    (parent : Option String) : parent ∈ none :: fresh.map some ↔ Reached symbols parent := by
  constructor
  · intro hmem
    cases List.mem_cons.mp hmem with
    | inl heq => exact heq ▸ Reached.root
    | inr hfresh =>
      obtain ⟨name, hname, rfl⟩ := List.mem_map.mp hfresh
      refine h.reached ?_ name hname
      simpa using Reached.root
  · intro hreached
    induction hreached with
    | root => exact List.mem_cons_self
    | @held s hs hholder _ ih =>
      have hchild : s ∈ childrenOf symbols s.memberof :=
        List.mem_filter.mpr ⟨hs, beq_self_eq_true _⟩
      have htaken := h.closed _ ih s hchild hholder
      rw [h.expanded_eq, List.append_nil] at htaken
      exact List.mem_cons_of_mem _ (List.mem_map_of_mem htaken)

theorem Grown.nodup_parents {symbols : List Symbol} {fresh : List String}
    {result : List Node × List String} (h : Grown symbols [] [none] [] fresh result) :
    (none :: fresh.map some).Nodup := by
  have hfresh := h.nodup List.nodup_nil
  rw [h.expanded_eq, List.append_nil] at hfresh
  exact List.nodup_cons.mpr ⟨by simp, hfresh.map fun _ _ => Option.some.inj⟩

open Classical in
/-- The tree holds one node for each symbol of a shown kind whose parent is the root or hangs
together with it, and no other. Growing comes to an end: no fuel beyond the number of symbols adds
to the tree. -/
theorem entries_graft (symbols : List Symbol) :
    ((Node.entriesOfAll (graft symbols)).map some).Perm
        ((symbols.filter fun s =>
          decide (s.kind ∈ shownKinds ∧ Reached symbols s.memberof)).map Entry.ofSymbol?) ∧
      ∀ more, (expand symbols (symbols.length + 1 + more) [] none).1 = graft symbols := by
  have hfree : free symbols [] < symbols.length + 1 := by simp [free]
  constructor
  · obtain ⟨fresh, hgrown⟩ := @expand_spec symbols _ [] none hfree
    have hbelow : (none :: fresh.map some).flatMap (entriesBelow symbols) =
        ((none :: fresh.map some).flatMap fun parent =>
          symbols.filter (·.memberof == parent)).filterMap Entry.ofSymbol? := by
      rw [List.filterMap_flatMap]
      rfl
    have hentries := hgrown.entries
    rw [List.nil_append, List.singleton_append, hbelow] at hentries
    have hperm := hentries.trans
      ((flatMap_filter_perm Symbol.memberof symbols hgrown.nodup_parents).filterMap Entry.ofSymbol?)
    refine (hperm.map some).trans (List.Perm.of_eq ?_)
    rw [map_some_filterMap, List.filter_filter]
    congr 1
    apply List.filter_congr
    intro s _
    rw [isSome_ofSymbol, Bool.decide_and, decide_eq_decide.mpr (hgrown.mem_iff_reached s.memberof)]
  · intro more
    rw [graft, expand_congr hfree (by omega)]

end Refsite.Tree
