import Refsite.Proofs.Link.Anchor
import Refsite.Proofs.Site.Shares
import Refsite.Site.Nav
namespace Refsite.Nav

def titles : List (String × String) :=
  [("home", "Home"), ("modules", "Modules"), ("externals", "Externals"), ("classes", "Classes"),
   ("events", "Events"), ("namespaces", "Namespaces"), ("mixins", "Mixins"),
   ("tutorials", "Tutorials"), ("interfaces", "Interfaces"), ("global", "Global")]

/-- The categories with the longnames in them, in the order in which they take their entries. -/
def categories (m : Members) : List (String × List String) :=
  [("modules", m.modules.map Symbol.longname), ("externals", m.externals.map Symbol.longname),
   ("classes", m.classes.map Symbol.longname), ("events", m.events.map Symbol.longname),
   ("namespaces", m.namespaces.map Symbol.longname), ("mixins", m.mixins.map Symbol.longname),
   ("interfaces", m.interfaces.map Symbol.longname)]

/-- The entries of the sidebar, each with its heading. -/
def entries (nodes : List NavNode) : List (String × String) :=
  nodes.flatMap fun n => n.items.map fun item => (n.id, item.id)

def below (nodes : List NavNode) (heading : String) : List String :=
  ((entries nodes).filter (·.1 == heading)).map (·.2)

/-- Whether a symbol at a place among the globals is listed: it is no type, and its longname is none
of the names and none of the longnames in front of it. -/
def isListed (names : List String) (globals : List Symbol) (place : Nat) (s : Symbol) : Bool :=
  s.kind != .typedef && !(names ++ (globals.take place).map Symbol.longname).contains s.longname

/-- The longnames of the globals that are listed. -/
def listedGlobals (m : Members) : List String :=
  (m.globals.zipIdx.filter fun (s, place) =>
    isListed (namesOf (categories m)) m.globals place s).map (·.1.longname)

/-- A heading as it is read. -/
def shown (n : NavNode) : String × List Char := (n.id, Html.shownText n.anchor.toList)

/-- Nodes that give an outline of the members of a site. -/
structure Outlines (m : Members) (nodes : List NavNode) : Prop where
  headings : (nodes.map shown).Sublist (titles.map fun (id, title) => (id, title.toList))
  present : ∀ id, id ≠ "home" → id ≠ "global" →
    (id ∈ nodes.map NavNode.id ↔ below nodes id ≠ [])
  present_global : "global" ∈ nodes.map NavNode.id ↔ m.globals ≠ []
  leaves : ∀ n ∈ nodes, ∀ item ∈ n.items, item.items = []
  /-- A longname has one entry, in the first category that has it. -/
  once : ∀ l ∈ namesOf (categories m), ∃ c, (categories m).find? (·.2.contains l) = some c ∧
    (entries nodes).filter (fun e => e.2 == l && e.1 != "tutorials") = [(c.1, l)]
  below_category : ∀ before category names after,
    categories m = before ++ (category, names) :: after →
      below nodes category = fresh (namesOf before) names
  below_tutorials : below nodes "tutorials" = (m.tutorials.map (·.name)).eraseDups
  below_global : below nodes "global" = listedGlobals m

theorem entries_append (nodes more : List NavNode) :
    entries (nodes ++ more) = entries nodes ++ entries more :=
  List.flatMap_append

theorem entries_heading (id title : String) (items : List NavNode) :
    entries (heading id title items) = (items.map NavNode.id).map (id, ·) := by
  cases items with
  | nil => rfl
  | cons item items => simp [heading, entries, NavNode.items, NavNode.id]

theorem shown_heading (id title : String) (items : List NavNode) :
    ((heading id title items).map shown).Sublist [(id, title.toList)] := by
  rw [heading]
  split
  · exact List.nil_sublist _
  · rw [List.map_singleton, shown, NavNode.anchor, toList_escape,
      (Html.presents_escapeChars title.toList).shownText_eq]
    exact List.Sublist.refl _

theorem items_of_mem_heading {id title : String} {items : List NavNode} {n : NavNode}
    (h : n ∈ heading id title items) : n.items = items := by
  rw [heading] at h
  split at h
  · cases h
  · rw [List.mem_singleton.mp h]
    rfl

theorem items_ne_nil_of_mem_heading {id title : String} {items : List NavNode} {n : NavNode}
    (h : n ∈ heading id title items) : n.items ≠ [] := by
  rw [heading] at h
  split at h
  · cases h
  · next hitems =>
    rw [List.mem_singleton.mp h]
    exact fun hnil => hitems (List.isEmpty_iff.mpr hnil)

def longnamesIn (cs : List (String × String × List Symbol)) : List (String × List String) :=
  cs.map fun (category, _, symbols) => (category, symbols.map Symbol.longname)

section Members

variable {r : Registry} {useLongname : Bool} {link : String → String → String} {seen : List String}
  {symbols : List Symbol} {cs : List (String × String × List Symbol)}

theorem ids_ofSymbols :
    (ofSymbols useLongname link seen symbols).1.map NavNode.id =
      fresh seen (symbols.map Symbol.longname) := by
  induction symbols generalizing seen with
  | nil => rfl
  | cons s symbols ih =>
    rw [ofSymbols, List.map_cons]
    split
    · next h => rw [ih, fresh_cons_of_mem (List.contains_iff_mem.mp h)]
    · next h =>
      rw [fresh_cons_of_notMem fun hmem => h (List.contains_iff_mem.mpr hmem), ← ih]
      rfl

theorem mem_seen_ofSymbols (k : String) :
    k ∈ (ofSymbols useLongname link seen symbols).2 ↔
      k ∈ seen ∨ k ∈ symbols.map Symbol.longname := by
  induction symbols generalizing seen with
  | nil => simp [ofSymbols]
  | cons s symbols ih =>
    rw [ofSymbols, List.map_cons, List.mem_cons]
    split
    · next h =>
      have hmem := List.contains_iff_mem.mp h
      rw [ih]
      grind
    · dsimp only
      rw [ih, List.mem_cons]
      grind

theorem entries_ofCategories :
    entries (ofCategories r useLongname seen cs).1 = entriesOf seen (longnamesIn cs) := by
  induction cs generalizing seen with
  | nil => rfl
  | cons c cs ih =>
    obtain ⟨category, title, symbols⟩ := c
    rw [ofCategories]
    dsimp only
    rw [entries_append, entries_heading, ids_ofSymbols, ih]
    refine congrArg (_ ++ ·) (entriesOf_congr fun k => ?_)
    rw [mem_seen_ofSymbols, List.mem_append]

theorem mem_seen_ofCategories (k : String) :
    k ∈ (ofCategories r useLongname seen cs).2 ↔ k ∈ seen ∨ k ∈ namesOf (longnamesIn cs) := by
  induction cs generalizing seen with
  | nil => simp [ofCategories, namesOf, longnamesIn]
  | cons c cs ih =>
    obtain ⟨category, title, symbols⟩ := c
    rw [ofCategories]
    dsimp only
    rw [ih, mem_seen_ofSymbols, or_assoc]
    simp [namesOf, longnamesIn]

theorem shown_ofCategories :
    ((ofCategories r useLongname seen cs).1.map shown).Sublist
      (cs.map fun (category, title, _) => (category, title.toList)) := by
  induction cs generalizing seen with
  | nil => exact List.nil_sublist _
  | cons c cs ih =>
    rw [ofCategories]
    dsimp only
    rw [List.map_append, List.map_cons]
    exact (shown_heading _ _ _).append ih

theorem items_ne_nil_of_mem_ofCategories {n : NavNode}
    (h : n ∈ (ofCategories r useLongname seen cs).1) : n.items ≠ [] := by
  induction cs generalizing seen with
  | nil => cases h
  | cons c cs ih =>
    rw [ofCategories] at h
    dsimp only at h
    obtain h | h := List.mem_append.mp h
    · exact items_ne_nil_of_mem_heading h
    · exact ih h

theorem leaf_of_mem_ofSymbols {item : NavNode}
    (h : item ∈ (ofSymbols useLongname link seen symbols).1) : item.items = [] := by
  induction symbols generalizing seen with
  | nil => cases h
  | cons s symbols ih =>
    rw [ofSymbols] at h
    split at h
    · exact ih h
    · obtain h | h := List.mem_cons.mp h
      · rw [h]
        rfl
      · exact ih h

theorem leaf_of_mem_ofCategories {n : NavNode} (h : n ∈ (ofCategories r useLongname seen cs).1) :
    ∀ item ∈ n.items, item.items = [] := by
  induction cs generalizing seen with
  | nil => cases h
  | cons c cs ih =>
    rw [ofCategories] at h
    obtain h | h := List.mem_append.mp h
    · rw [items_of_mem_heading h]
      exact fun _ => leaf_of_mem_ofSymbols
    · exact ih h

theorem leaf_of_mem_ofTutorials {tutorials : List Tutorial} {item : NavNode}
    (h : item ∈ ofTutorials r seen tutorials) : item.items = [] := by
  induction tutorials generalizing seen with
  | nil => cases h
  | cons t tutorials ih =>
    rw [ofTutorials] at h
    split at h
    · exact ih h
    · obtain h | h := List.mem_cons.mp h
      · rw [h]
        rfl
      · exact ih h

theorem leaf_of_mem_ofGlobals {item : NavNode} (h : item ∈ ofGlobals r seen symbols) :
    item.items = [] := by
  induction symbols generalizing seen with
  | nil => cases h
  | cons s symbols ih =>
    rw [ofGlobals] at h
    split at h
    · obtain h | h := List.mem_cons.mp h
      · rw [h]
        rfl
      · exact ih h
    · exact ih h

theorem ids_ofTutorials {tutorials : List Tutorial} :
    (ofTutorials r seen tutorials).map NavNode.id = fresh seen (tutorials.map (·.name)) := by
  induction tutorials generalizing seen with
  | nil => rfl
  | cons t tutorials ih =>
    rw [ofTutorials, List.map_cons]
    split
    · next h => rw [ih, fresh_cons_of_mem (List.contains_iff_mem.mp h)]
    · next h =>
      rw [fresh_cons_of_notMem fun hmem => h (List.contains_iff_mem.mpr hmem), List.map_cons, ih]
      rfl

theorem ids_ofGlobals {names : List String} {before : List Symbol}
    (h : ∀ k, k ∈ seen ↔ k ∈ names ++ before.map Symbol.longname) :
    (ofGlobals r seen symbols).map NavNode.id =
      ((symbols.zipIdx before.length).filter fun (s, place) =>
        isListed names (before ++ symbols) place s).map (·.1.longname) := by
  induction symbols generalizing seen before with
  | nil => rfl
  | cons s symbols ih =>
    have hlisted : (s.kind != .typedef && !seen.contains s.longname) =
        isListed names (before ++ s :: symbols) before.length s := by
      have hcontains : seen.contains s.longname =
          (names ++ before.map Symbol.longname).contains s.longname := by
        rw [Bool.eq_iff_iff, List.contains_iff_mem, List.contains_iff_mem]
        exact h s.longname
      rw [isListed, List.take_left, hcontains]
    have hrest := @ih (s.longname :: seen) (before ++ [s]) fun k => by
      rw [List.mem_cons, h k]
      simp only [List.map_append, List.mem_append, List.map_singleton, List.mem_singleton]
      grind
    rw [List.length_append, List.length_singleton, List.append_assoc,
      List.singleton_append] at hrest
    rw [List.zipIdx_cons, List.filter_cons, ofGlobals, hlisted]
    dsimp only
    split
    · rw [List.map_cons, List.map_cons, hrest]
      rfl
    · exact hrest

end Members

theorem entries_globalHeading {r : Registry} {m : Members} {seen : List String}
    (h : ∀ k, k ∈ seen ↔ k ∈ namesOf (categories m)) :
    entries (globalHeading r seen m.globals) = (listedGlobals m).map ("global", ·) := by
  have hids := @ids_ofGlobals r seen m.globals (namesOf (categories m)) [] (by simpa using h)
  rw [List.length_nil, List.nil_append] at hids
  rw [globalHeading]
  split
  · next hnil => rw [listedGlobals, List.isEmpty_iff.mp hnil]; rfl
  · rw [listedGlobals, ← hids]
    simp [entries, NavNode.items, NavNode.id, Registry.globalName]

theorem shown_globalHeading (r : Registry) (seen : List String) (globals : List Symbol) :
    ((globalHeading r seen globals).map shown).Sublist [("global", "Global".toList)] := by
  rw [globalHeading]
  split
  · exact List.nil_sublist _
  · dsimp only
    have hanchor : Html.shownText (if (ofGlobals r seen globals).isEmpty then
        r.linkTo Registry.globalName (some "Global") none none else "Global").toList =
        "Global".toList := by
      split
      · exact (Registry.presents_linkTo ..).shownText_eq
      · decide
    rw [List.map_singleton, shown, NavNode.anchor, hanchor]
    exact List.Sublist.refl _

theorem mem_ids_globalHeading (r : Registry) (seen : List String) (globals : List Symbol) :
    "global" ∈ (globalHeading r seen globals).map NavNode.id ↔ globals ≠ [] := by
  rw [globalHeading]
  cases globals with
  | nil => simp
  | cons s globals => simp [NavNode.id, Registry.globalName]

theorem notMem_of_mem_listedGlobals {m : Members} {l : String} (h : l ∈ listedGlobals m) :
    l ∉ namesOf (categories m) := by
  intro hmem
  obtain ⟨⟨s, place⟩, hs, rfl⟩ := List.mem_map.mp h
  have hlisted := (List.mem_filter.mp hs).2
  dsimp only [isListed] at hlisted
  rw [List.contains_iff_mem.mpr (List.mem_append_left _ hmem), Bool.not_true, Bool.and_false]
    at hlisted
  cases hlisted

theorem below_ne_nil_iff {nodes : List NavNode} {id : String} :
    below nodes id ≠ [] ↔ ∃ n ∈ nodes, n.id = id ∧ n.items ≠ [] := by
  rw [below, ne_eq, List.map_eq_nil_iff]
  constructor
  · intro h
    obtain ⟨e, he⟩ := List.exists_mem_of_ne_nil _ h
    obtain ⟨he, hid⟩ := List.mem_filter.mp he
    obtain ⟨n, hn, hitem⟩ := List.mem_flatMap.mp he
    obtain ⟨item, hmem, rfl⟩ := List.mem_map.mp hitem
    exact ⟨n, hn, beq_iff_eq.mp hid, List.ne_nil_of_mem hmem⟩
  · rintro ⟨n, hn, rfl, hitems⟩
    obtain ⟨item, hitem⟩ := List.exists_mem_of_ne_nil _ hitems
    have hentry : (n.id, item.id) ∈ entries nodes :=
      List.mem_flatMap.mpr ⟨n, hn, List.mem_map_of_mem hitem⟩
    exact List.ne_nil_of_mem (List.mem_filter.mpr ⟨hentry, beq_self_eq_true n.id⟩)

section Build

variable (m : Members) (r : Registry) (useLongname : Bool)

theorem categories_eq : categories m = longnamesIn (upper m) ++
    longnamesIn [("interfaces", "Interfaces", m.interfaces)] :=
  rfl

theorem entries_build :
    entries (build m r useLongname) = entriesOf [] (longnamesIn (upper m)) ++
      ((m.tutorials.map (·.name)).eraseDups).map ("tutorials", ·) ++
      entriesOf (namesOf (longnamesIn (upper m)))
        (longnamesIn [("interfaces", "Interfaces", m.interfaces)]) ++
      (listedGlobals m).map ("global", ·) := by
  have htutorials : fresh [] (m.tutorials.map (·.name)) = (m.tutorials.map (·.name)).eraseDups :=
    congrArg List.eraseDups (List.filter_eq_self.mpr fun _ _ => rfl)
  have hseen : ∀ k, k ∈ (ofCategories r useLongname [] (upper m)).2 ↔
      k ∈ namesOf (longnamesIn (upper m)) := fun k => by
    rw [mem_seen_ofCategories]
    simp
  rw [build]
  dsimp only
  rw [entries_append, entries_append, entries_append, entries_heading, ids_ofTutorials, htutorials,
    entries_ofCategories, entriesOf_congr hseen, entries_globalHeading]
  · congr 3
    exact entries_ofCategories
  · intro k
    rw [mem_seen_ofCategories, hseen, categories_eq, namesOf, namesOf, namesOf,
      List.flatMap_append, List.mem_append]

theorem headings_categories : (categories m).map Prod.fst =
    ["modules", "externals", "classes", "events", "namespaces", "mixins", "interfaces"] :=
  rfl

theorem tutorials_notMem : "tutorials" ∉ (longnamesIn (upper m)).map Prod.fst ∧
    "tutorials" ∉ (longnamesIn [("interfaces", "Interfaces", m.interfaces)]).map Prod.fst := by
  change "tutorials" ∉ ["modules", "externals", "classes", "events", "namespaces", "mixins"] ∧
    "tutorials" ∉ ["interfaces"]
  decide

/-- Apart from the tutorials, the categories are listed one after another, and the globals at the
end. -/
theorem entries_build_apart :
    (entries (build m r useLongname)).filter (·.1 != "tutorials") =
      entriesOf [] (categories m) ++ (listedGlobals m).map ("global", ·) := by
  have hsymbols : ∀ seen cs, "tutorials" ∉ cs.map Prod.fst →
      (entriesOf seen cs).filter (·.1 != "tutorials") = entriesOf seen cs := by
    intro seen cs hcs
    apply List.filter_eq_self.mpr
    intro e he
    apply bne_iff_ne.mpr
    intro heq
    exact hcs (heq ▸ heading_of_mem_entriesOf he)
  obtain ⟨hupper, hinterfaces⟩ := tutorials_notMem m
  rw [entries_build, List.filter_append, List.filter_append, List.filter_append,
    hsymbols _ _ hupper, hsymbols _ _ hinterfaces, filter_under (· != "tutorials"),
    filter_under (· != "tutorials"), categories_eq, entriesOf_append]
  simp

theorem below_build {heading : String} (h : heading ≠ "tutorials") :
    below (build m r useLongname) heading =
      ((entriesOf [] (categories m) ++ (listedGlobals m).map ("global", ·)).filter
        (·.1 == heading)).map (·.2) := by
  rw [← entries_build_apart m r useLongname, List.filter_filter, below]
  congr 2
  funext e
  grind

theorem mem_build {n : NavNode} : n ∈ build m r useLongname ↔ n = home ∨
    n ∈ (ofCategories r useLongname [] (upper m)).1 ∨
    n ∈ heading "tutorials" "Tutorials" (ofTutorials r [] m.tutorials) ∨
    n ∈ (ofCategories r useLongname (ofCategories r useLongname [] (upper m)).2
      [("interfaces", "Interfaces", m.interfaces)]).1 ∨
    n ∈ globalHeading r (ofCategories r useLongname (ofCategories r useLongname [] (upper m)).2
      [("interfaces", "Interfaces", m.interfaces)]).2 m.globals := by
  rw [build]
  dsimp only
  simp only [List.mem_append, List.mem_cons, or_assoc]

theorem items_of_mem_build {n : NavNode} (h : n ∈ build m r useLongname) :
    n.id = "home" ∨ n.id = "global" ∨ n.items ≠ [] := by
  obtain rfl | h | h | h | h := (mem_build m r useLongname).mp h
  · exact .inl rfl
  · exact .inr (.inr (items_ne_nil_of_mem_ofCategories h))
  · exact .inr (.inr (items_ne_nil_of_mem_heading h))
  · exact .inr (.inr (items_ne_nil_of_mem_ofCategories h))
  · rw [globalHeading] at h
    split at h
    · cases h
    · rw [List.mem_singleton.mp h]
      exact .inr (.inl rfl)

theorem leaves_build {n : NavNode} (h : n ∈ build m r useLongname) :
    ∀ item ∈ n.items, item.items = [] := by
  obtain rfl | h | h | h | h := (mem_build m r useLongname).mp h
  · exact nofun
  · exact leaf_of_mem_ofCategories h
  · rw [items_of_mem_heading h]
    exact fun _ => leaf_of_mem_ofTutorials
  · exact leaf_of_mem_ofCategories h
  · rw [globalHeading] at h
    split at h
    · cases h
    · rw [List.mem_singleton.mp h]
      exact fun _ => leaf_of_mem_ofGlobals

theorem shown_build :
    ((build m r useLongname).map shown).Sublist
      (titles.map fun (id, title) => (id, title.toList)) := by
  have hhome : shown home = ("home", "Home".toList) := by decide +kernel
  rw [build]
  dsimp only
  rw [List.map_append, List.map_append, List.map_append, List.map_cons, hhome]
  exact ((((shown_ofCategories).cons_cons _).append (shown_heading _ _ _)).append
    shown_ofCategories).append (shown_globalHeading _ _ _)

theorem global_mem_ids_build :
    "global" ∈ (build m r useLongname).map NavNode.id ↔ m.globals ≠ [] := by
  have hids : ∀ (nodes : List NavNode) (titles : List (String × List Char)),
      (nodes.map shown).Sublist titles → "global" ∉ titles.map Prod.fst →
        "global" ∉ nodes.map NavNode.id := by
    intro nodes titles hsub hnotMem hmem
    apply hnotMem
    obtain ⟨n, hn, hid⟩ := List.mem_map.mp hmem
    exact List.mem_map.mpr ⟨shown n, hsub.subset (List.mem_map_of_mem hn), hid⟩
  have habove := hids _ _ (@shown_ofCategories r useLongname [] (upper m)) <| by
    change "global" ∉ ["modules", "externals", "classes", "events", "namespaces", "mixins"]
    decide
  have htutorials := hids _ _
    (shown_heading "tutorials" "Tutorials" (ofTutorials r [] m.tutorials)) (by decide)
  have hinterfaces := fun seen => hids _ _
    (@shown_ofCategories r useLongname seen [("interfaces", "Interfaces", m.interfaces)]) <| by
      change "global" ∉ ["interfaces"]
      decide
  have hhome : "global" ≠ home.id := by decide
  rw [build]
  dsimp only
  rw [List.map_append, List.map_append, List.map_append, List.map_cons]
  simp only [List.mem_append, List.mem_cons, hhome, habove, htutorials, hinterfaces, false_or]
  exact mem_ids_globalHeading ..

theorem below_tutorials_build :
    below (build m r useLongname) "tutorials" = (m.tutorials.map (·.name)).eraseDups := by
  obtain ⟨hupper, hinterfaces⟩ := tutorials_notMem m
  rw [below, entries_build, List.filter_append, List.filter_append, List.filter_append,
    filter_heading_of_notMem hupper, filter_heading_of_notMem hinterfaces,
    filter_under (· == "tutorials"), filter_under (· == "tutorials"), if_pos (beq_self_eq_true _),
    if_neg (by decide), List.nil_append, List.append_nil, List.append_nil]
  exact map_snd_under "tutorials" _

/-- A heading other than the first and the last stands exactly over entries. -/
theorem mem_ids_build {id : String} (hhome : id ≠ "home") (hglobal : id ≠ "global") :
    id ∈ (build m r useLongname).map NavNode.id ↔ below (build m r useLongname) id ≠ [] := by
  rw [below_ne_nil_iff, List.mem_map]
  constructor
  · rintro ⟨n, hn, rfl⟩
    obtain h | h | h := items_of_mem_build m r useLongname hn
    · exact absurd h hhome
    · exact absurd h hglobal
    · exact ⟨n, hn, rfl, h⟩
  · rintro ⟨n, hn, hid, -⟩
    exact ⟨n, hn, hid⟩

theorem filter_entries_build {l : String} (hl : l ∈ namesOf (categories m)) :
    ∃ c, (categories m).find? (·.2.contains l) = some c ∧
      (entries (build m r useLongname)).filter (fun e => e.2 == l && e.1 != "tutorials") =
        [(c.1, l)] := by
  obtain ⟨c, hc, hlc⟩ := List.mem_flatMap.mp hl
  obtain ⟨d, hd⟩ : ∃ d, (categories m).find? (·.2.contains l) = some d := by
    apply Option.isSome_iff_exists.mp
    exact List.find?_isSome.mpr ⟨c, hc, List.contains_iff_mem.mpr hlc⟩
  have hglobals : ((listedGlobals m).map ("global", ·)).filter (·.2 == l) = [] := by
    apply List.filter_eq_nil_iff.mpr
    intro e he heq
    obtain ⟨k, hk, rfl⟩ := List.mem_map.mp he
    rw [← beq_iff_eq.mp heq] at hl
    exact notMem_of_mem_listedGlobals hk hl
  refine ⟨d, hd, ?_⟩
  rw [← List.filter_filter, entries_build_apart, List.filter_append,
    filter_entriesOf List.not_mem_nil, hd, hglobals]
  rfl

theorem below_category_build {before after : List (String × List String)} {category : String}
    {names : List String} (h : categories m = before ++ (category, names) :: after) :
    below (build m r useLongname) category = fresh (namesOf before) names := by
  have hmem : category ∈ (categories m).map Prod.fst := by
    rw [h]
    simp
  have hnodup : ((categories m).map Prod.fst).Nodup := by
    rw [headings_categories]
    decide
  have hapart : ∀ c ∈ (categories m).map Prod.fst, c ≠ "tutorials" ∧ c ≠ "global" := by
    rw [headings_categories]
    decide
  obtain ⟨htutorials, hglobal⟩ := hapart category hmem
  rw [below_build m r useLongname htutorials, List.filter_append, List.map_append,
    filter_under (· == category), beq_false_of_ne hglobal.symm]
  rw [h] at hnodup ⊢
  rw [filter_heading hnodup]
  simp

theorem below_global_build : below (build m r useLongname) "global" = listedGlobals m := by
  have hglobal : "global" ∉ (categories m).map Prod.fst := by
    rw [headings_categories]
    decide
  rw [below_build m r useLongname (by decide), List.filter_append,
    filter_heading_of_notMem hglobal, filter_under (· == "global")]
  exact map_snd_under "global" _

end Build

/-- The headings stand in their order, each but the first and the last exactly over entries. Each
longname of a category is listed once, under the first category that has it. The globals are listed
at the end, where nothing before them has their longname and they are no types, and tutorials once
each, whatever symbols have their names. -/
theorem outlines_build (m : Members) (r : Registry) (useLongname : Bool) :
    Outlines m (build m r useLongname) where
  headings := shown_build m r useLongname
  present := fun _ hhome hglobal => mem_ids_build m r useLongname hhome hglobal
  present_global := global_mem_ids_build m r useLongname
  leaves := fun _ hn => leaves_build m r useLongname hn
  once := fun _ hl => filter_entries_build m r useLongname hl
  below_category := fun _ _ _ _ h => below_category_build m r useLongname h
  below_tutorials := below_tutorials_build m r useLongname
  below_global := below_global_build m r useLongname

end Refsite.Nav
