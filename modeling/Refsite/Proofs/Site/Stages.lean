import Refsite.Proofs.Symbol.Decor
namespace Refsite

section Commuting

variable {α ι : Type} {step : α → ι → α}

theorem foldl_step (hcomm : ∀ a i j, step (step a i) j = step (step a j) i) (is : List ι) (a : α)
    (i : ι) : is.foldl step (step a i) = step (is.foldl step a) i := by
  induction is generalizing a with
  | nil => rfl
  | cons j is ih => rw [List.foldl_cons, List.foldl_cons, hcomm, ih]

theorem foldl_foldl (hcomm : ∀ a i j, step (step a i) j = step (step a j) i) (is js : List ι)
    (a : α) : is.foldl step (js.foldl step a) = js.foldl step (is.foldl step a) := by
  induction js generalizing a with
  | nil => rfl
  | cons j js ih => rw [List.foldl_cons, List.foldl_cons, ih, foldl_step hcomm]

theorem step_foldl (hcomm : ∀ a i j, step (step a i) j = step (step a j) i)
    (hidem : ∀ a i, step (step a i) i = step a i) {is : List ι} {i : ι} (h : i ∈ is) (a : α) :
    step (is.foldl step a) i = is.foldl step a := by
  induction is generalizing a with
  | nil => cases h
  | cons j is ih =>
    rw [List.foldl_cons]
    obtain rfl | h := List.mem_cons.mp h
    · rw [foldl_step hcomm, hidem]
    · exact ih h (step a j)

theorem foldl_of_subset (hcomm : ∀ a i j, step (step a i) j = step (step a j) i)
    (hidem : ∀ a i, step (step a i) i = step a i) {is js : List ι} (h : js ⊆ is) (a : α) :
    js.foldl step (is.foldl step a) = is.foldl step a := by
  induction js with
  | nil => rfl
  | cons j js ih =>
    obtain ⟨hj, hjs⟩ := List.cons_subset.mp h
    rw [List.foldl_cons, step_foldl hcomm hidem hj, ih hjs]

theorem foldl_eq_of_subset (hcomm : ∀ a i j, step (step a i) j = step (step a j) i)
    (hidem : ∀ a i, step (step a i) i = step a i) {is js : List ι} (h : is ⊆ js) (h' : js ⊆ is)
    (a : α) : is.foldl step a = js.foldl step a :=
  calc is.foldl step a = js.foldl step (is.foldl step a) := (foldl_of_subset hcomm hidem h' a).symm
    _ = is.foldl step (js.foldl step a) := foldl_foldl hcomm js is a
    _ = js.foldl step a := foldl_of_subset hcomm hidem h a

end Commuting

namespace Site

open Refsite.Symbol

def stage (r : Registry) (symbols : List Symbol) : Decoration → Except SiteError (List Symbol)
  | .places => (symbols.mapM (linkPlaces r)).mapError .link
  | .ids => (symbols.mapM (assignId r)).mapError .link
  | .signatures => (symbols.mapM (sign r)).mapError .misfit
  | .ancestors => .ok (addAncestors r symbols)

def behind (r : Registry) (symbols : List Symbol) (d : Decoration) : List Symbol :=
  symbols.map fun s => d.set (decor r symbols s) s

/-- Runs stages one after the other on a registry with its symbols. -/
def stages (order : List Decoration) (state : Registry × List Symbol) :
    Except SiteError (Registry × List Symbol) :=
  order.foldlM (fun (r, symbols) d => return (r, ← stage r symbols d)) state

/-- The order in which a site is decorated. -/
def stageOrder : List Decoration := [.places, .ids, .signatures, .ancestors]

theorem stages_nil (state : Registry × List Symbol) : stages [] state = .ok state := rfl

theorem stages_cons (d : Decoration) (order : List Decoration) (r : Registry)
    (symbols : List Symbol) :
    stages (d :: order) (r, symbols) =
      stage r symbols d >>= fun symbols => stages order (r, symbols) := by
  rw [stages, List.foldlM_cons]
  dsimp only
  cases stage r symbols d <;> rfl

theorem stages_stageOrder (r : Registry) (symbols : List Symbol) :
    stages stageOrder (r, symbols) = (decorate r symbols).map (r, ·) := by
  simp only [stageOrder, stages_cons, stages_nil, stage, decorate]
  cases (symbols.mapM (linkPlaces r)).mapError SiteError.link with
  | error e => rfl
  | ok linked =>
    dsimp only [bind, Except.bind]
    cases (linked.mapM (assignId r)).mapError SiteError.link with
    | error e => rfl
    | ok named =>
      dsimp only
      cases (named.mapM (sign r)).mapError SiteError.misfit <;> rfl

variable {r : Registry} {symbols : List Symbol}

theorem stage_eq (hbound : ∀ s ∈ symbols, (r.resolve? s.longname).isSome) {d : Decoration}
    (hmarked : d = .signatures → ∀ s ∈ symbols, ∃ marks, s.marking r = .ok marks) :
    stage r symbols d = .ok (behind r symbols d) := by
  cases d with
  | places =>
    have hmap : symbols.mapM (linkPlaces r) = .ok (behind r symbols .places) :=
      mapM_eq_map fun s hs => linkPlaces_of_isSome (hbound s hs)
    rw [stage, hmap]
    rfl
  | ids =>
    have hmap : symbols.mapM (assignId r) = .ok (behind r symbols .ids) :=
      mapM_eq_map fun s hs => assignId_of_isSome (hbound s hs)
    rw [stage, hmap]
    rfl
  | signatures =>
    have hmap : symbols.mapM (sign r) = .ok (behind r symbols .signatures) := by
      refine mapM_eq_map fun s hs => ?_
      obtain ⟨marks, hmarks⟩ := hmarked rfl s hs
      rw [sign_eq, decor, hmarks]
      rfl
    rw [stage, hmap]
    rfl
  | ancestors => rfl

theorem stage_signatures_error {e : Misfit} (h : symbols.mapM (marking r) = .error e) :
    stage r symbols .signatures = .error (.misfit e) := by
  have hsign : symbols.mapM (sign r) = .error e := mapM_error sign_eq h
  rw [stage, hsign]
  rfl

section Kept

variable (d : Decoration)

theorem undecorated_behind :
    (behind r symbols d).map undecorated = symbols.map undecorated := by
  rw [behind, List.map_map]
  exact List.map_congr_left fun s _ => d.undecorated_set _ s

theorem bound_behind (hbound : ∀ s ∈ symbols, (r.resolve? s.longname).isSome) :
    ∀ t ∈ behind r symbols d, (r.resolve? t.longname).isSome := by
  rw [behind, List.forall_mem_map]
  intro s hs
  rw [Decoration.longname_set]
  exact hbound s hs

theorem mapM_marking_behind :
    (behind r symbols d).mapM (marking r) = symbols.mapM (marking r) := by
  have hread : ∀ ss : List Symbol, ss.mapM (marking r) = (ss.map undecorated).mapM (marking r) := by
    intro ss
    rw [List.mapM_map]
    exact congrArg (ss.mapM ·) (funext fun s => (marking_undecorated r s).symm)
  rw [hread, undecorated_behind, ← hread]

theorem decor_behind (s : Symbol) :
    decor r (behind r symbols d) (d.set (decor r symbols s) s) = decor r symbols s := by
  rw [← decor_undecorated, undecorated_behind, Decoration.undecorated_set, decor_undecorated]

end Kept

theorem stages_error {order : List Decoration} {e : Misfit}
    (hbound : ∀ s ∈ symbols, (r.resolve? s.longname).isSome)
    (h : symbols.mapM (marking r) = .error e) (hmem : .signatures ∈ order) :
    stages order (r, symbols) = .error (.misfit e) := by
  induction order generalizing symbols with
  | nil => cases hmem
  | cons d order ih =>
    rw [stages_cons]
    by_cases hd : d = .signatures
    · rw [hd, stage_signatures_error h]
      rfl
    · have hstage := stage_eq hbound fun hsignatures => absurd hsignatures hd
      rw [hstage]
      refine ih (bound_behind d hbound) ((mapM_marking_behind d).trans h) ?_
      exact (List.mem_cons.mp hmem).resolve_left (Ne.symm hd)

theorem stages_ok {marks : List (Option String × String)}
    (hbound : ∀ s ∈ symbols, (r.resolve? s.longname).isSome)
    (h : symbols.mapM (marking r) = .ok marks) (order : List Decoration) :
    stages order (r, symbols) =
      .ok (r, symbols.map fun s => order.foldl (Decoration.set (decor r symbols s)) s) := by
  induction order generalizing symbols with
  | nil =>
    rw [stages_nil]
    exact congrArg (fun ss => Except.ok (r, ss)) (List.map_id symbols).symm
  | cons d order ih =>
    have hmarked : ∀ s ∈ symbols, ∃ marks, s.marking r = .ok marks := fun s hs =>
      (exists_mapM_ok_iff (P := fun _ => True).mp ⟨marks, h, fun _ _ => trivial⟩ s hs).imp
        fun _ => And.left
    rw [stages_cons, stage_eq hbound fun _ => hmarked]
    have hrest := ih (bound_behind d hbound) ((mapM_marking_behind d).trans h)
    have hsame : ((behind r symbols d).map fun t =>
        order.foldl (Decoration.set (decor r (behind r symbols d) t)) t) =
        symbols.map fun s => (d :: order).foldl (Decoration.set (decor r symbols s)) s := by
      conv_lhs => rw [behind, List.map_map]
      refine List.map_congr_left fun s _ => ?_
      exact congrArg (fun v => order.foldl (Decoration.set v) (d.set (decor r symbols s) s))
        (decor_behind d s)
    rw [hsame] at hrest
    exact hrest

/-- Where all longnames are bound, the stages come to what a site is decorated with, in any order
and however often each of them runs, and they change no other field and not the registry. -/
theorem stages_eq_decorate (hbound : ∀ s ∈ symbols, (r.resolve? s.longname).isSome)
    {order : List Decoration} (hall : ∀ d, d ∈ order) :
    stages order (r, symbols) = (decorate r symbols).map (r, ·) ∧
      ∀ decorated, decorate r symbols = .ok decorated →
        decorated.map undecorated = symbols.map undecorated := by
  refine ⟨?_, fun _ => undecorated_decorate⟩
  rw [← stages_stageOrder]
  -- A signature that cannot be made fails every order alike, as no stage changes what it is made of.
  cases hmarked : symbols.mapM (marking r) with
  | error e => rw [stages_error hbound hmarked (hall _), stages_error hbound hmarked (by decide)]
  | ok marks =>
    rw [stages_ok hbound hmarked, stages_ok hbound hmarked]
    have hsub : stageOrder ⊆ order := fun d _ => hall d
    have hsub' : order ⊆ stageOrder := fun d _ => by cases d <;> decide
    have heq : ∀ s, order.foldl (Decoration.set (decor r symbols s)) s =
        stageOrder.foldl (Decoration.set (decor r symbols s)) s := fun s =>
      foldl_eq_of_subset (Decoration.set_comm _) (Decoration.set_set _) hsub' hsub s
    simp only [heq]

/-- A class with a member; both mention places on the page of the class. -/
def notes : List Symbol :=
  [{ Symbol.bare (.classType ⟨[], [], []⟩ none []) "Foo" "Foo" none with see := ["#count", "Bar"] },
   { Symbol.bare (.member ⟨some ⟨["Foo"], []⟩, true, none, none⟩) "count" "Foo#count" (some "Foo")
      with scope := some "instance", see := ["#a<b"] }]

def noteRegistry : Registry where
  claimed := [("index", "index"), ("global", "global"), ("foo", "Foo")]
  urls := [("global", "global.html"), ("Foo", "Foo.html"), ("Foo#count", "Foo.html#count")]
  pages := [("global", "global.html"), ("Foo", "Foo.html")]
  tutorials := []
  frozen := true

def noteOrder : List Decoration :=
  [.ancestors, .places, .signatures, .places, .ids, .ancestors, .signatures]

/-- Each place has become a link once. -/
theorem stages_of_notes :
    (∀ s ∈ notes, (noteRegistry.resolve? s.longname).isSome) ∧ (∀ d, d ∈ noteOrder) ∧
      ∃ decorated, decorate noteRegistry notes = .ok decorated ∧
        stages noteOrder (noteRegistry, notes) = .ok (noteRegistry, decorated) ∧
        decorated.map undecorated = notes.map undecorated ∧
        decorated.map (fun s => (s.see, s.id)) =
          [(["<a href=\"Foo.html#count\">#count</a>", "Bar"], some "Foo"),
            (["<a href=\"Foo.html#a&lt;b\">#a&lt;b</a>"], some "count")] := by
  have hbound : ∀ s ∈ notes, (noteRegistry.resolve? s.longname).isSome := by decide
  have hall : ∀ d, d ∈ noteOrder := fun d => by cases d <;> decide
  obtain ⟨hstages, hkept⟩ := stages_eq_decorate hbound hall
  obtain ⟨decorated, hdecorated⟩ := exists_of_isOk (x := decorate noteRegistry notes)
    (by decide +kernel)
  have hseen : (decorate noteRegistry notes).toOption.map (·.map fun s => (s.see, s.id)) =
      some [(["<a href=\"Foo.html#count\">#count</a>", "Bar"], some "Foo"),
        (["<a href=\"Foo.html#a&lt;b\">#a&lt;b</a>"], some "count")] := by
    decide +kernel
  rw [hdecorated] at hstages hseen
  exact ⟨hbound, hall, decorated, hdecorated, hstages, hkept decorated hdecorated,
    Option.some.inj hseen⟩

end Site

end Refsite
