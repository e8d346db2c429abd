import Mathlib.Data.Finset.Card
import Mathlib.Data.List.Forall2
import Refsite.Proofs.Basic
import Refsite.Symbol.Ancestry
namespace Refsite.Symbol

variable {index : Index} {parent : Option String} {name other : String} {s a b : Symbol} {k : Nat}
  {r : Registry} {cssClass : Option String} {links : List String}

def climb (index : Index) (parent : Option String) : Nat → Option String
  | 0 => parent
  | k + 1 => (climb index parent k).bind fun name => (index.lookup name).bind (·.memberof)

/-- The way goes on past a name: the index has a symbol for it, and it is new. -/
structure Passes (index : Index) (parent : Option String) (k : Nat) (name : String) (a : Symbol) :
    Prop where
  here : climb index parent k = some name
  ne_empty : name ≠ ""
  known : index.lookup name = some a
  isNew : ∀ j < k, climb index parent j ≠ some name

theorem Passes.unique (h : Passes index parent k name a) (h' : Passes index parent k other b) :
    a = b := by
  have hname : name = other := Option.some.inj (h.here.symm.trans h'.here)
  exact Option.some.inj ((hname ▸ h.known).symm.trans h'.known)

theorem Index.lookup_without (index : Index) (name other : String) :
    (index.without name).lookup other = if other = name then none else index.lookup other := by
  have hfilter := lookup_filter_key name other index
  rwa [if_congr beq_iff_eq rfl rfl] at hfilter

theorem climb_succ (h : index.lookup name = some s) (k : Nat) :
    climb index (some name) (k + 1) = climb index s.memberof k := by
  induction k with
  | zero =>
    change (index.lookup name).bind (·.memberof) = s.memberof
    rw [h, Option.bind_some]
  | succ k ih => rw [climb, ih, climb]

theorem climb_without (h : ∀ j < k, climb (index.without name) parent j ≠ some name) :
    ∀ j ≤ k, climb (index.without name) parent j = climb index parent j := by
  intro j
  induction j with
  | zero => exact fun _ => rfl
  | succ j ih =>
    intro hj
    have hbefore := ih (Nat.le_of_succ_le hj)
    have hne := h j hj
    rw [climb, climb, hbefore]
    rw [hbefore] at hne
    cases hname : climb index parent j with
    | none => rfl
    | some other =>
      have hother : other ≠ name := fun heq => hne (by rw [hname, heq])
      rw [Option.bind_some, Option.bind_some, Index.lookup_without, if_neg hother]

/-- The way from a symbol's parent, without the symbol's own name, is the way from that name on. -/
theorem passes_without_iff (hname : index.lookup name = some s)
    (hbefore : ∀ j < k, ∃ other b, Passes (index.without name) s.memberof j other b) :
    Passes (index.without name) s.memberof k other a ↔
      Passes index (some name) (k + 1) other a := by
  have hother : ∀ {other b}, (index.without name).lookup other = some b ↔
      other ≠ name ∧ index.lookup other = some b := by
    intro other b
    rw [Index.lookup_without]
    split
    · next heq => simp [heq]
    · next hne => simp [hne]
  have hsame : ∀ j ≤ k, climb (index.without name) s.memberof j =
      climb index (some name) (j + 1) := by
    intro j hj
    rw [climb_succ hname]
    refine climb_without (fun i hi => ?_) j hj
    obtain ⟨other, b, hpasses⟩ := hbefore i hi
    rw [hpasses.here]
    exact fun heq => (hother.mp hpasses.known).1 (Option.some.inj heq)
  constructor
  · rintro ⟨hhere, hne, hknown, hnew⟩
    obtain ⟨hdistinct, hknown⟩ := hother.mp hknown
    refine ⟨(hsame k le_rfl) ▸ hhere, hne, hknown, fun j hj => ?_⟩
    cases j with
    | zero => exact fun heq => hdistinct (Option.some.inj heq).symm
    | succ j =>
      have hj := Nat.lt_of_succ_lt_succ hj
      exact hsame j hj.le ▸ hnew j hj
  · rintro ⟨hhere, hne, hknown, hnew⟩
    have hdistinct : other ≠ name := fun heq => hnew 0 k.succ_pos (congrArg some heq.symm)
    refine ⟨(hsame k le_rfl).trans hhere, hne, hother.mpr ⟨hdistinct, hknown⟩, fun j hj => ?_⟩
    rw [hsame j hj.le]
    exact hnew (j + 1) (Nat.succ_lt_succ hj)

theorem chain_of_none (h : index.lookup name = none) : chain index (some name) = [] := by
  rw [chain]
  split
  · rfl
  · split
    · rfl
    · next hs => cases h.symm.trans hs

theorem chain_of_some (hname : ¬name.isEmpty) (h : index.lookup name = some s) :
    chain index (some name) = s :: chain (index.without name) s.memberof := by
  rw [chain, if_neg hname]
  split
  · next hnone => cases h.symm.trans hnone
  · next hs =>
    cases h.symm.trans hs
    rfl

theorem chain_passes (index : Index) (parent : Option String) :
    (∀ k a, (chain index parent)[k]? = some a → ∃ name, Passes index parent k name a) ∧
      ∀ name a, ¬ Passes index parent (chain index parent).length name a := by
  induction index, parent using chain.induct with
  | case1 index =>
    rw [chain]
    exact ⟨nofun, fun name a h => Option.some_ne_none _ h.here.symm⟩
  | case2 index name hempty =>
    rw [chain, if_pos hempty]
    refine ⟨nofun, fun other a h => h.ne_empty ?_⟩
    rw [← Option.some.inj h.here, String.isEmpty_iff.mp hempty]
  | case3 index name hname hnone =>
    rw [chain_of_none hnone]
    refine ⟨nofun, fun other a h => Option.some_ne_none a ?_⟩
    rw [← h.known, ← Option.some.inj h.here, hnone]
  | case4 index name hname s hs _ ih =>
    obtain ⟨hpassed, hstop⟩ := ih
    have hbefore : ∀ k ≤ (chain (index.without name) s.memberof).length, ∀ j < k,
        ∃ other b, Passes (index.without name) s.memberof j other b := by
      intro k hk j hj
      obtain ⟨other, hother⟩ := hpassed j _ (List.getElem?_eq_getElem (hj.trans_le hk))
      exact ⟨other, _, hother⟩
    rw [chain_of_some hname hs]
    refine ⟨fun k a hk => ?_, fun other a h => ?_⟩
    · cases k with
      | zero =>
        cases hk
        exact ⟨name, rfl, mt String.isEmpty_iff.mpr hname, hs, fun j hj => absurd hj j.not_lt_zero⟩
      | succ k =>
        rw [List.getElem?_cons_succ] at hk
        obtain ⟨hlt, -⟩ := List.getElem?_eq_some_iff.mp hk
        obtain ⟨other, hother⟩ := hpassed k a hk
        exact ⟨other, (passes_without_iff hs (hbefore k hlt.le)).mp hother⟩
    · exact hstop other a ((passes_without_iff hs (hbefore _ le_rfl)).mpr h)

def Index.names (index : Index) : Finset String := (index.map (·.1)).toFinset

theorem Index.mem_names_of_lookup (h : index.lookup name = some s) : name ∈ index.names := by
  obtain ⟨before, after, heq, -⟩ := List.lookup_eq_some_iff.mp h
  rw [names, List.mem_toFinset, heq]
  exact List.mem_map_of_mem (List.mem_append_right before List.mem_cons_self)

theorem card_names_of_passes {n : Nat} (h : ∀ k < n, ∃ name a, Passes index parent k name a) :
    n ≤ index.names.card := by
  rw [← Finset.card_range n]
  refine Finset.card_le_card_of_injOn (fun k => (climb index parent k).getD "") ?_ ?_
  · intro k hk
    obtain ⟨name, a, hpasses⟩ := h k (Finset.mem_range.mp hk)
    dsimp only
    rw [hpasses.here, Option.getD_some]
    exact Index.mem_names_of_lookup hpasses.known
  · intro i hi j hj heq
    obtain ⟨name, a, hname⟩ := h i (Finset.mem_range.mp hi)
    obtain ⟨other, b, hother⟩ := h j (Finset.mem_range.mp hj)
    dsimp only at heq
    rw [hname.here, hother.here, Option.getD_some, Option.getD_some] at heq
    obtain hlt | hsame | hgt := lt_trichotomy i j
    · exact absurd (heq ▸ hname.here) (hother.isNew i hlt)
    · exact hsame
    · exact absurd (heq ▸ hother.here) (hname.isNew j hgt)

/-- The breadcrumbs of a symbol, outermost first: a link for every name that is passed on the way
up, under the ancestor's name behind the mark of its scope. The mark of the symbol's own scope
follows the nearest, and the way does not go on behind the last name. -/
structure Crumbs (index : Index) (r : Registry) (cssClass : Option String) (s : Symbol)
    (links : List String) : Prop where
  link : ∀ k < links.length, ∃ name a, Passes index s.memberof k name a ∧
    links.reverse[k]? = some (r.linkTo a.longname (some (scopeMark a.scope ++ a.name)) cssClass none
      ++ if k = 0 then scopeMark s.scope else "")
  stops : ∀ name a, ¬ Passes index s.memberof links.length name a

theorem Crumbs.length_le (h : Crumbs index r cssClass s links) :
    links.length ≤ index.names.card := by
  have hpassed : ∀ k < links.length, ∃ name a, Passes index s.memberof k name a := by
    intro k hk
    obtain ⟨name, a, hpasses, -⟩ := h.link k hk
    exact ⟨name, a, hpasses⟩
  exact card_names_of_passes hpassed

theorem Crumbs.unique {links' : List String} (h : Crumbs index r cssClass s links)
    (h' : Crumbs index r cssClass s links') : links = links' := by
  have hle : ∀ {links links'}, Crumbs index r cssClass s links →
      Crumbs index r cssClass s links' → links'.length ≤ links.length := by
    intro links links' h h'
    by_contra hlt
    obtain ⟨name, a, hpasses, -⟩ := h'.link _ (Nat.lt_of_not_le hlt)
    exact h.stops name a hpasses
  have hlength : links.length = links'.length := (hle h' h).antisymm (hle h h')
  refine List.reverse_injective (List.ext_getElem? fun k => ?_)
  by_cases hk : k < links.length
  · obtain ⟨_, a, hpasses, hlink⟩ := h.link k hk
    obtain ⟨_, b, hpasses', hlink'⟩ := h'.link k (hlength ▸ hk)
    rw [hlink, hlink', hpasses.unique hpasses']
  · have hover : links.length ≤ k := Nat.le_of_not_lt hk
    rw [List.getElem?_eq_none (by rwa [List.length_reverse]),
      List.getElem?_eq_none (by rwa [List.length_reverse, ← hlength])]

theorem reverse_ancestorLinks (index : Index) (r : Registry) (cssClass : Option String)
    (s : Symbol) : (ancestorLinks index r cssClass s).reverse =
      (chain index s.memberof).mapIdx fun k a =>
        ancestorLink r cssClass a ++ if k = 0 then scopeMark s.scope else "" := by
  rw [ancestorLinks]
  cases chain index s.memberof with
  | nil => rfl
  | cons nearest others =>
    rw [List.map_cons, List.mapIdx_cons]
    dsimp only
    rw [List.reverse_reverse, if_pos rfl]
    refine congrArg _ (List.ext_getElem? fun k => ?_)
    rw [List.getElem?_map, List.getElem?_mapIdx]
    simp

theorem crumbs_ancestorLinks (index : Index) (r : Registry) (cssClass : Option String)
    (s : Symbol) : Crumbs index r cssClass s (ancestorLinks index r cssClass s) := by
  obtain ⟨hpassed, hstop⟩ := chain_passes index s.memberof
  have hreverse := reverse_ancestorLinks index r cssClass s
  have hlength : (ancestorLinks index r cssClass s).length = (chain index s.memberof).length := by
    rw [← List.length_reverse, hreverse, List.length_mapIdx]
  refine ⟨fun k hk => ?_, hlength ▸ hstop⟩
  rw [hlength] at hk
  have hancestor := List.getElem?_eq_getElem hk
  obtain ⟨name, hpasses⟩ := hpassed k _ hancestor
  refine ⟨name, _, hpasses, ?_⟩
  rw [hreverse, List.getElem?_mapIdx, hancestor]
  rfl

theorem lookup_firstIndex (symbols : List Symbol) (name : String) :
    (firstIndex symbols).lookup name = symbols.find? fun s => s.longname == name := by
  induction symbols with
  | nil => rfl
  | cons s symbols ih =>
    rw [firstIndex] at ih
    rw [firstIndex, List.map_cons, List.lookup_cons, List.find?_cons, ih, BEq.comm]

/-- The breadcrumbs are all links on the way up and nothing else, no more than the index has names.
Every symbol of a site gets those over the index in which the first symbol of a longname counts. -/
theorem ancestorLinks_iff (r : Registry) :
    (∀ index cssClass s links,
      (links = ancestorLinks index r cssClass s ↔ Crumbs index r cssClass s links) ∧
        (ancestorLinks index r cssClass s).length ≤ index.names.card) ∧
    ∀ symbols,
      (∀ name, (firstIndex symbols).lookup name = symbols.find? fun s => s.longname == name) ∧
      List.Forall₂ (fun s t => ∃ links, Crumbs (firstIndex symbols) r none s links ∧
        t = { s with ancestors := links }) symbols (addAncestors r symbols) := by
  refine ⟨fun index cssClass s links => ⟨⟨?_, fun h => ?_⟩, ?_⟩,
    fun symbols => ⟨lookup_firstIndex symbols, ?_⟩⟩
  · rintro rfl
    exact crumbs_ancestorLinks index r cssClass s
  · exact h.unique (crumbs_ancestorLinks index r cssClass s)
  · exact (crumbs_ancestorLinks index r cssClass s).length_le
  · refine List.forall₂_map_right_iff.mpr (List.forall₂_same.mpr fun s _ => ?_)
    exact ⟨_, crumbs_ancestorLinks (firstIndex symbols) r none s, rfl⟩

end Refsite.Symbol
