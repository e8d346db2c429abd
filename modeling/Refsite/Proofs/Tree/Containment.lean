import Mathlib.Data.List.Forall2
import Refsite.Proofs.Link.Owner
import Refsite.Proofs.Schema.Passes
import Refsite.Proofs.Tree.Graft
import Refsite.Tree.Record
namespace Refsite.Tree

def Bucket.ofKind? : Kind → Option Bucket
  | .nameSpace => some .namespaces
  | .mixin => some .mixins
  | .function => some .functions
  | .member | .constant => some .properties
  | .event => some .events
  | .classType => some .classes
  | .moduleUnit | .interface | .external | .typedef => none

def belonging (symbols : List Symbol) (parent : Option String) (b : Bucket) : List Symbol :=
  symbols.filter fun s => s.memberof == parent && Bucket.ofKind? s.kind == some b

def Bucket.nodes (b : Bucket) (children : List Node) : List Node :=
  children.filter (·.entry.bucket == b)

/-- A node shows a symbol: it says what the symbol says, and below a symbol that holds others every
list shows the symbols that belong there. -/
inductive Shows (symbols : List Symbol) : Symbol → Node → Prop
  | leaf {s : Symbol} {entry : Entry} (content : Entry.ofSymbol? s = some entry)
    (other : s.kind ∉ holderKinds) : Shows symbols s (.mk entry [])
  | holder {s : Symbol} {entry : Entry} {children : List Node}
    (content : Entry.ofSymbol? s = some entry) (holds : s.kind ∈ holderKinds)
    (below : ∀ b : Bucket,
      List.Forall₂ (Shows symbols) (belonging symbols (some s.longname) b) (b.nodes children)) :
    Shows symbols s (.mk entry children)

/-- Every list of a parent shows the symbols that belong there, in their order. -/
def ShowsBelow (symbols : List Symbol) (parent : Option String) (children : List Node) : Prop :=
  ∀ b : Bucket, List.Forall₂ (Shows symbols) (belonging symbols parent b) (b.nodes children)

inductive Node.Within (n : Node) : List Node → Prop
  | top {nodes : List Node} (mem : n ∈ nodes) : Node.Within n nodes
  | inside {nodes : List Node} {m : Node} (mem : m ∈ nodes) (deeper : Node.Within n m.children) :
    Node.Within n nodes

theorem bucket_of_ofSymbol {s : Symbol} {entry : Entry} (h : Entry.ofSymbol? s = some entry) :
    Bucket.ofKind? s.kind = some entry.bucket := by
  unfold Entry.ofSymbol? at h
  unfold Symbol.kind
  cases hd : s.detail <;> rw [hd] at h <;> cases h <;> rfl

theorem isSome_ofKind (kind : Kind) :
    (Bucket.ofKind? kind).isSome = decide (kind ∈ shownKinds) := by
  cases kind <;> decide

section Showing

variable {symbols : List Symbol} {s : Symbol} {n : Node}

theorem Shows.content (h : Shows symbols s n) : Entry.ofSymbol? s = some n.entry := by
  cases h with
  | leaf content other => exact content
  | holder content holds below => exact content

theorem Shows.children (h : Shows symbols s n) (hholder : s.kind ∈ holderKinds) :
    ShowsBelow symbols (some s.longname) n.children := by
  cases h with
  | leaf content other => exact absurd hholder other
  | holder content holds below => exact below

def shownBelow (symbols : List Symbol) (parent : Option String) : List Symbol :=
  (childrenOf symbols parent).filter fun s => decide (s.kind ∈ shownKinds)

theorem belonging_eq (symbols : List Symbol) (parent : Option String) (b : Bucket) :
    belonging symbols parent b =
      (shownBelow symbols parent).filter fun s => Bucket.ofKind? s.kind == some b := by
  rw [belonging, shownBelow, childrenOf, List.filter_filter, List.filter_filter]
  apply List.filter_congr
  intro s _
  rw [← isSome_ofKind]
  cases Bucket.ofKind? s.kind <;> simp [Bool.and_comm]

theorem showsBelow_of_forall₂ {parent : Option String} {children : List Node}
    (h : List.Forall₂ (Shows symbols) (shownBelow symbols parent) children) :
    ShowsBelow symbols parent children := by
  intro b
  rw [belonging_eq, Bucket.nodes]
  refine List.rel_filter ?_ h
  intro s n hshows
  dsimp only
  rw [bucket_of_ofSymbol hshows.content, beq_iff_eq, beq_iff_eq, Option.some_inj]

theorem Shows.of_children {entry : Entry} {children : List Node}
    (content : Entry.ofSymbol? s = some entry) (holds : s.kind ∈ holderKinds)
    (h : List.Forall₂ (Shows symbols) (shownBelow symbols (some s.longname)) children) :
    Shows symbols s (.mk entry children) :=
  .holder content holds (showsBelow_of_forall₂ h)

end Showing

/-- A seed sows a symbol: it has the symbol's entry, and the task to expand what holds others. -/
def Sows (s : Symbol) (seed : Seed) : Prop :=
  Entry.ofSymbol? s = some seed.1 ∧
    seed.2 = if s.kind ∈ holderKinds then some s.longname else none

theorem sows_seeds {symbols : List Symbol} {expanded : List String}
    (hnames : (symbols.map Symbol.longname).Nodup)
    (hnew : ∀ s ∈ symbols, s.kind ∈ holderKinds → s.longname ∉ expanded) :
    List.Forall₂ Sows (symbols.filter fun s => decide (s.kind ∈ shownKinds))
      (seeds expanded symbols).1 := by
  induction symbols generalizing expanded with
  | nil => exact List.Forall₂.nil
  | cons s symbols ih =>
    obtain ⟨hs, hnames⟩ := List.nodup_cons.mp hnames
    have hrest := fun t ht => hnew t (List.mem_cons_of_mem s ht)
    have hshown := isSome_ofSymbol s
    rw [seeds]
    cases hentry : Entry.ofSymbol? s with
    | none =>
      rw [hentry] at hshown
      rw [List.filter_cons_of_neg (by rw [← hshown]; exact Bool.false_ne_true)]
      exact ih hnames hrest
    | some entry =>
      rw [hentry] at hshown
      rw [List.filter_cons_of_pos (by rw [← hshown]; rfl)]
      have hkind := isContainer_of_ofSymbol hentry
      by_cases hholder : s.kind ∈ holderKinds
      · have hfree := hnew s List.mem_cons_self hholder
        rw [decide_eq_true hholder] at hkind
        have htest : (entry.isContainer && !expanded.contains s.longname) = true := by
          rw [hkind, List.contains_eq_mem, decide_eq_false hfree]
          rfl
        dsimp only
        rw [if_pos htest]
        refine List.Forall₂.cons ⟨hentry, (if_pos hholder).symm⟩ (ih hnames ?_)
        intro t ht hkind hmem
        cases List.mem_cons.mp hmem with
        | inl heq => exact hs (heq ▸ List.mem_map_of_mem ht)
        | inr hmem => exact hrest t ht hkind hmem
      · rw [decide_eq_false hholder] at hkind
        have htest : ¬ (entry.isContainer && !expanded.contains s.longname) = true := by
          rw [hkind]
          exact Bool.false_ne_true
        dsimp only
        rw [if_neg htest]
        exact List.Forall₂.cons ⟨hentry, (if_neg hholder).symm⟩ (ih hnames hrest)

/-- The parents whose children are looked at once some longnames are spoken for. -/
def parentsOf (expanded : List String) : List (Option String) := none :: expanded.map some

theorem parentsOf_subset {expanded expanded' : List String} (h : expanded ⊆ expanded') :
    parentsOf expanded ⊆ parentsOf expanded' :=
  List.cons_subset_cons none (List.map_subset some h)

theorem mem_parentsOf {expanded : List String} {name : String} :
    some name ∈ parentsOf expanded ↔ name ∈ expanded := by
  simp [parentsOf]

/-- A parent is spoken for and its children were not looked at yet. -/
structure Ready (symbols : List Symbol) (expanded : List String) (parent : Option String) :
    Prop where
  nodup : expanded.Nodup
  /-- What is spoken for was met among the children of a parent. -/
  met : ∀ name ∈ expanded, ∃ s ∈ symbols, s.longname = name ∧ s.memberof ∈ parentsOf expanded
  spoken : parent ∈ parentsOf expanded
  unmet : ∀ s ∈ childrenOf symbols parent, s.kind ∈ holderKinds → s.longname ∉ expanded

section Distinct

variable {symbols : List Symbol} (hnames : (symbols.map Symbol.longname).Nodup)
include hnames

theorem eq_of_longname {s t : Symbol} (hs : s ∈ symbols) (ht : t ∈ symbols)
    (h : s.longname = t.longname) : s = t :=
  List.inj_on_of_nodup_map hnames hs ht h

theorem Ready.sow {expanded : List String} {parent : Option String} {sown : List Seed}
    (h : Ready symbols expanded parent) (hsown : Sown (childrenOf symbols parent) expanded sown)
    {name : String} (hname : name ∈ tasks sown) :
    Ready symbols ((tasks sown).reverse ++ expanded) (some name) where
  nodup := hsown.nodup h.nodup
  met := by
    have hmono := parentsOf_subset (List.subset_append_right (tasks sown).reverse expanded)
    intro other hother
    cases List.mem_append.mp hother with
    | inl htask =>
      obtain ⟨s, hs, -, heq, hmemberof⟩ := hsown.below (List.mem_reverse.mp htask)
      exact ⟨s, hs, heq, hmemberof ▸ hmono h.spoken⟩
    | inr hold =>
      obtain ⟨s, hs, heq, hmemberof⟩ := h.met other hold
      exact ⟨s, hs, heq, hmono hmemberof⟩
  spoken := mem_parentsOf.mpr (List.mem_append_left _ (List.mem_reverse.mpr hname))
  unmet := by
    intro s hs _ hmem
    obtain ⟨hs, hparent⟩ := List.mem_filter.mp hs
    have hfree := (hsown.origin name hname).1
    -- a symbol that is spoken for stands below a known parent, and `name` is none yet
    have hmemberof : s.memberof ∈ parentsOf expanded := by
      cases List.mem_append.mp hmem with
      | inl htask =>
        obtain ⟨t, ht, -, heq, hmemberof⟩ := hsown.below (List.mem_reverse.mp htask)
        rw [← eq_of_longname hnames ht hs heq, hmemberof]
        exact h.spoken
      | inr hold =>
        obtain ⟨t, ht, heq, hmemberof⟩ := h.met _ hold
        exact eq_of_longname hnames ht hs heq ▸ hmemberof
    rw [beq_iff_eq.mp hparent, mem_parentsOf] at hmemberof
    exact hfree hmemberof

theorem Ready.grow {expanded fresh : List String} {name : String} {tops : List Entry}
    {parents : List (Option String)} {result : List Node × List String}
    (h : Ready symbols expanded (some name))
    (hgrown : Grown symbols tops parents expanded fresh result)
    (hparents : parents ⊆ parentsOf expanded) (hother : some name ∉ parents) :
    Ready symbols result.2 (some name) where
  nodup := hgrown.nodup h.nodup
  met := by
    have hmono := parentsOf_subset (List.subset_append_right fresh expanded)
    rw [hgrown.expanded_eq]
    intro other hother
    cases List.mem_append.mp hother with
    | inl hnew =>
      obtain ⟨s, hs, -, heq, hmemberof⟩ := hgrown.origin other hnew
      refine ⟨s, hs, heq, ?_⟩
      cases List.mem_append.mp hmemberof with
      | inl hparent => exact hmono (hparents hparent)
      | inr hfresh =>
        obtain ⟨p, hp, hsome⟩ := List.mem_map.mp hfresh
        exact hsome ▸ mem_parentsOf.mpr (List.mem_append_left _ hp)
    | inr hold =>
      obtain ⟨s, hs, heq, hmemberof⟩ := h.met other hold
      exact ⟨s, hs, heq, hmono hmemberof⟩
  spoken := by
    rw [hgrown.expanded_eq]
    exact parentsOf_subset (List.subset_append_right fresh expanded) h.spoken
  unmet := by
    intro s hs hholder hmem
    have hnodup := hgrown.nodup h.nodup
    rw [hgrown.expanded_eq] at hmem hnodup
    cases List.mem_append.mp hmem with
    | inr hold => exact h.unmet s hs hholder hold
    | inl hnew =>
      obtain ⟨hs, hparent⟩ := List.mem_filter.mp hs
      obtain ⟨t, ht, -, heq, hmemberof⟩ := hgrown.origin _ hnew
      rw [eq_of_longname hnames ht hs heq, beq_iff_eq.mp hparent] at hmemberof
      cases List.mem_append.mp hmemberof with
      | inl hin => exact hother hin
      | inr hfresh =>
        obtain ⟨p, hp, hsome⟩ := List.mem_map.mp hfresh
        cases hsome
        exact (List.nodup_append.mp hnodup).2.2 _ hp _ (mem_parentsOf.mp h.spoken) rfl

theorem shows_growAll {grow : List String → String → List Node × List String}
    {expanded : List String} {sownSymbols : List Symbol} {sown : List Seed}
    (hsown : List.Forall₂ Sows sownSymbols sown) (htasks : (tasks sown).Nodup)
    (hready : ∀ name ∈ tasks sown, Ready symbols expanded (some name))
    (hgrow : ∀ known name, expanded ⊆ known → name ∈ tasks sown →
      ∃ fresh, Grown symbols [] [some name] known fresh (grow known name))
    (hshow : ∀ known name, expanded ⊆ known → name ∈ tasks sown → Ready symbols known (some name) →
      List.Forall₂ (Shows symbols) (shownBelow symbols (some name)) (grow known name).1) :
    List.Forall₂ (Shows symbols) sownSymbols (growAll grow expanded sown).1 := by
  induction hsown with
  | nil => exact List.Forall₂.nil
  | @cons s seed others sown hseed _ ih =>
    obtain ⟨entry, task⟩ := seed
    obtain ⟨hentry, htask⟩ := hseed
    dsimp only at hentry htask
    rw [growAll]
    by_cases hholder : s.kind ∈ holderKinds
    · rw [if_pos hholder] at htask
      subst htask
      have hcons : tasks ((entry, some s.longname) :: sown) = s.longname :: tasks sown := rfl
      rw [hcons] at htasks hready hgrow hshow
      obtain ⟨hnot, hnodup⟩ := List.nodup_cons.mp htasks
      have hrest := fun known name hk hn => hgrow known name hk (List.mem_cons_of_mem _ hn)
      obtain ⟨fresh, hgrown⟩ := growAll_spec hrest
      have hsub : expanded ⊆ (growAll grow expanded sown).2 := by
        rw [hgrown.expanded_eq]
        exact List.subset_append_right _ _
      have hparents : (tasks sown).map some ⊆ parentsOf expanded := by
        intro parent hparent
        obtain ⟨name, hname, rfl⟩ := List.mem_map.mp hparent
        exact (hready name (List.mem_cons_of_mem _ hname)).spoken
      have hself := (hready s.longname List.mem_cons_self).grow hnames hgrown hparents
        fun hmem => hnot (by simpa using hmem)
      refine List.Forall₂.cons (Shows.of_children hentry hholder ?_) (ih hnodup ?_ hrest ?_)
      · exact hshow _ _ hsub List.mem_cons_self hself
      · exact fun name hname => hready name (List.mem_cons_of_mem _ hname)
      · exact fun known name hk hn => hshow known name hk (List.mem_cons_of_mem _ hn)
    · rw [if_neg hholder] at htask
      subst htask
      exact List.Forall₂.cons (.leaf hentry hholder) (ih htasks hready hgrow hshow)

theorem shows_expand {fuel : Nat} {expanded : List String} {parent : Option String}
    (hfuel : free symbols expanded < fuel) (hready : Ready symbols expanded parent) :
    List.Forall₂ (Shows symbols) (shownBelow symbols parent)
      (expand symbols fuel expanded parent).1 := by
  induction fuel generalizing expanded parent with
  | zero => exact absurd hfuel (Nat.not_lt_zero _)
  | succ fuel ih =>
    have hchildren : ((childrenOf symbols parent).map Symbol.longname).Nodup :=
      hnames.sublist (List.filter_sublist.map _)
    have hsows := sows_seeds hchildren hready.unmet
    obtain ⟨sown, hseeds, hsown⟩ := seeds_spec (childrenOf symbols parent) expanded
    rw [hseeds] at hsows
    rw [expand, hseeds]
    refine shows_growAll hnames hsows ?_ ?_ ?_ ?_
    · exact List.nodup_reverse.mp (List.nodup_append.mp (hsown.nodup hready.nodup)).1
    · exact fun name hname => hready.sow hnames hsown hname
    · intro known name hknown hname
      have hlt := free_lt_of_task hname hknown (hsown.origin name hname)
      exact expand_spec (by omega)
    · intro known name hknown hname hself
      have hlt := free_lt_of_task hname hknown (hsown.origin name hname)
      exact ih (by omega) hself

end Distinct

theorem ready_root (symbols : List Symbol) : Ready symbols [] none where
  nodup := List.nodup_nil
  met := by simp
  spoken := List.mem_cons_self
  unmet := by simp

theorem records_eq (nodes : List Node) :
    Node.records nodes = nodes.map fun n => (n.entry.bucket, n.record) := by
  induction nodes with
  | nil => rfl
  | cons n nodes ih => rw [Node.records, ih, List.map_cons]

theorem bucketFields_records (nodes : List Node) :
    bucketFields (Node.records nodes) =
      Bucket.all.map fun b => (b.word, .array ((b.nodes nodes).map Node.record)) := by
  rw [bucketFields, records_eq]
  apply List.map_congr_left
  intro b _
  rw [List.filter_map, List.map_map]
  rfl

theorem sizeOf_lt_of_mem_nodes {b : Bucket} {entry : Entry} {children : List Node} {n : Node}
    (h : n ∈ b.nodes children) : sizeOf n < sizeOf (Node.mk entry children) := by
  have hlt := List.sizeOf_lt_of_mem (List.mem_of_mem_filter h)
  rw [Node.mk.sizeOf_spec]
  omega

theorem map_record_eq {symbols shown : List Symbol} {nodes nodes' : List Node}
    (h : List.Forall₂ (Shows symbols) shown nodes) (h' : List.Forall₂ (Shows symbols) shown nodes')
    (heq : ∀ n ∈ nodes, ∀ s n', Shows symbols s n → Shows symbols s n' → n.record = n'.record) :
    nodes.map Node.record = nodes'.map Node.record := by
  induction h generalizing nodes' with
  | nil =>
    cases h'
    rfl
  | @cons s n shown nodes hn _ ih =>
    cases h' with
    | @cons _ n' _ nodes' hn' h' =>
      rw [List.map_cons, List.map_cons, heq n List.mem_cons_self s n' hn hn',
        ih h' fun m hm => heq m (List.mem_cons_of_mem _ hm)]

theorem Shows.record_eq {symbols : List Symbol} :
    ∀ {n : Node} (s : Symbol) (n' : Node), Shows symbols s n → Shows symbols s n' →
      n.record = n'.record
  | .mk entry children, s, .mk entry' children', h, h' => by
    have hentry : entry = entry' := Option.some.inj (h.content.symm.trans h'.content)
    subst hentry
    rw [Node.record, Node.record]
    by_cases hholder : s.kind ∈ holderKinds
    · have hlists :
          bucketFields (Node.records children) = bucketFields (Node.records children') := by
        rw [bucketFields_records, bucketFields_records]
        apply List.map_congr_left
        intro b _
        have hbelow := h.children hholder b
        have hbelow' := h'.children hholder b
        dsimp only [Node.children] at hbelow hbelow'
        rw [map_record_eq hbelow hbelow' fun n hn => Shows.record_eq]
      rw [hlists]
    · have hentry := isContainer_of_ofSymbol h.content
      rw [decide_eq_false hholder] at hentry
      dsimp only [Node.entry] at hentry
      rw [hentry]
      rfl
termination_by n => sizeOf n
decreasing_by exact sizeOf_lt_of_mem_nodes hn

theorem ShowsBelow.record_eq {symbols : List Symbol} {parent : Option String}
    {nodes nodes' : List Node} (h : ShowsBelow symbols parent nodes)
    (h' : ShowsBelow symbols parent nodes') : record nodes = record nodes' := by
  rw [record, record, bucketFields_records, bucketFields_records]
  congr 1
  apply List.map_congr_left
  intro b _
  rw [map_record_eq (h b) (h' b) fun _ _ => Shows.record_eq]

theorem ShowsBelow.of_within {symbols : List Symbol} {n : Node} {nodes : List Node}
    {parent : Option String} (h : ShowsBelow symbols parent nodes) (hwithin : n.Within nodes) :
    ∃ s ∈ symbols, (Bucket.ofKind? s.kind).isSome ∧ Shows symbols s n := by
  have hshown : ∀ {nodes : List Node} {parent : Option String} {m : Node},
      ShowsBelow symbols parent nodes → m ∈ nodes →
        ∃ s ∈ symbols, (Bucket.ofKind? s.kind).isSome ∧ Shows symbols s m := by
    intro nodes parent m h hm
    have hmem : m ∈ m.entry.bucket.nodes nodes := List.mem_filter.mpr ⟨hm, beq_self_eq_true _⟩
    obtain ⟨s, hs, hshows⟩ := Schema.exists_of_forall₂ (h m.entry.bucket) hmem
    refine ⟨s, List.mem_of_mem_filter hs, ?_, hshows⟩
    rw [bucket_of_ofSymbol hshows.content]
    rfl
  induction hwithin generalizing parent with
  | top mem => exact hshown h mem
  | @inside nodes m mem deeper ih =>
    obtain ⟨s, -, -, hshows⟩ := hshown h mem
    cases hshows with
    | leaf content other => cases deeper <;> contradiction
    | holder content holds below => exact ih below

/-- With longnames of their own the symbols are grafted as their parents say: the lists of the root
show the symbols without a parent, and those of every holder in the tree the symbols that name it,
each in the order of the symbols. No other tree that does so has another record, and nothing stands
in the tree but nodes of symbols that have a list. -/
theorem graft_showsBelow (symbols : List Symbol)
    (hnames : (symbols.map Symbol.longname).Nodup) :
    ShowsBelow symbols none (graft symbols) ∧
      (∀ nodes, ShowsBelow symbols none nodes → record nodes = record (graft symbols)) ∧
      ∀ n : Node, n.Within (graft symbols) → ∃ s ∈ symbols,
        s.kind ∉ [Kind.moduleUnit, .interface, .external, .typedef] ∧ Shows symbols s n := by
  have hfree : free symbols [] < symbols.length + 1 := by simp [free]
  have hshows : ShowsBelow symbols none (graft symbols) :=
    showsBelow_of_forall₂ (shows_expand hnames hfree (ready_root symbols))
  refine ⟨hshows, fun nodes h => h.record_eq hshows, ?_⟩
  intro n hn
  obtain ⟨s, hs, hlist, hnode⟩ := hshows.of_within hn
  refine ⟨s, hs, ?_, hnode⟩
  revert hlist
  cases s.kind <;> decide

/-- A method stands before its class and the class before its namespace; two mixins that are each
other's parents and a module are left out. -/
theorem nested_showsBelow :
    let symbols := [
      Symbol.bare (.function ⟨[], [], []⟩) "f" "N.C#f" (some "N.C"),
      Symbol.bare (.classType ⟨[], [], []⟩ none []) "C" "N.C" (some "N"),
      Symbol.bare (.nameSpace ⟨[], [], []⟩) "N" "N" none,
      Symbol.bare .mixin "A" "A" (some "B"),
      Symbol.bare .mixin "B" "B" (some "A"),
      Symbol.bare (.moduleUnit []) "M" "module:M" none]
    (symbols.map Symbol.longname).Nodup ∧ ShowsBelow symbols none (graft symbols) ∧
      ∃ space holder method, graft symbols = [.mk space [.mk holder [.mk method []]]] := by
  intro symbols
  have hnames : (symbols.map Symbol.longname).Nodup := by decide
  exact ⟨hnames, (graft_showsBelow symbols hnames).1, _, _, _, rfl⟩

end Refsite.Tree
