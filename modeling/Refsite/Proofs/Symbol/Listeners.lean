import Mathlib.Data.List.Induction
import Mathlib.Data.List.Nodup
import Refsite.Symbol.Listeners
namespace Refsite.Symbol

theorem addNew_of_mem {items : List String} {item : String} (h : item ∈ items) :
    addNew items item = items := if_pos (List.contains_iff_mem.mpr h)

theorem addNew_of_notMem {items : List String} {item : String} (h : item ∉ items) :
    addNew items item = items ++ [item] := if_neg (mt List.contains_iff_mem.mp h)

theorem mem_addNew {items : List String} {item : String} : item ∈ addNew items item := by
  by_cases h : item ∈ items
  · rwa [addNew_of_mem h]
  · rw [addNew_of_notMem h]
    exact List.mem_append_right _ (List.mem_singleton_self item)

/-- What a list of names adds to some items: the names that are not among them, each once. -/
def newNames (items names : List String) : List String :=
  (names.filter fun name => name ∉ items).eraseDups

theorem foldl_addNew (items names : List String) :
    names.foldl addNew items = items ++ newNames items names := by
  induction names using List.reverseRecOn with
  | nil => exact (List.append_nil items).symm
  | append_singleton names name ih =>
    rw [List.foldl_append, ih, List.foldl_cons, List.foldl_nil, newNames, newNames,
      List.filter_append, List.eraseDups_append]
    by_cases hold : name ∈ items
    · rw [addNew_of_mem (List.mem_append_left _ hold)]
      simp [hold]
    · by_cases hagain : name ∈ names
      · have hmem : name ∈ (names.filter fun name => name ∉ items).eraseDups := by
          simp [hold, hagain]
        rw [addNew_of_mem (List.mem_append_right _ hmem)]
        simp [hold, hagain, List.removeAll]
      · have hnew : name ∉ items ++ (names.filter fun name => name ∉ items).eraseDups := by
          simp [hold, hagain]
        rw [addNew_of_notMem hnew, List.append_assoc]
        simp [hold, hagain, List.removeAll, List.eraseDups_cons]

theorem nodup_addNew {items : List String} (h : items.Nodup) (item : String) :
    (addNew items item).Nodup := by
  by_cases hmem : item ∈ items
  · rwa [addNew_of_mem hmem]
  · rw [addNew_of_notMem hmem]
    exact List.nodup_append_comm.mp (List.nodup_cons.mpr ⟨hmem, h⟩)

theorem nodup_foldl_addNew {items : List String} (h : items.Nodup) (names : List String) :
    (names.foldl addNew items).Nodup := by
  induction names generalizing items with
  | nil => exact h
  | cons name names ih => exact ih (nodup_addNew h name)

theorem foldl_addNew_of_subset {items names : List String} (h : names ⊆ items) :
    names.foldl addNew items = items := by
  induction names with
  | nil => rfl
  | cons name names ih =>
    rw [List.foldl_cons, addNew_of_mem (h List.mem_cons_self)]
    exact ih fun other hother => h (List.mem_cons_of_mem _ hother)

theorem subset_foldl_addNew (items names : List String) : names ⊆ names.foldl addNew items := by
  intro name hname
  rw [foldl_addNew, List.mem_append]
  by_cases h : name ∈ items
  · exact .inl h
  · exact .inr (by simp [newNames, h, hname])

theorem foldl_addNew_foldl_addNew (items names : List String) :
    names.foldl addNew (names.foldl addNew items) = names.foldl addNew items :=
  foldl_addNew_of_subset (subset_foldl_addNew items names)

theorem foldl_addNew_map (items events : List String) (name : String) :
    (events.map fun _ => name).foldl addNew items =
      if events.isEmpty then items else addNew items name := by
  cases events with
  | nil => rfl
  | cons event events =>
    have hsub : (events.map fun _ => name) ⊆ addNew items name := by
      intro other hother
      obtain ⟨_, -, rfl⟩ := List.mem_map.mp hother
      exact mem_addNew
    exact foldl_addNew_of_subset hsub

theorem exists_event_of_isEvent {s : Symbol} (h : s.isEvent = true) :
    ∃ call listeners, s.detail = .event call listeners := by
  rw [isEvent, kind] at h
  cases hd : s.detail with
  | event call listeners => exact ⟨call, listeners, rfl⟩
  | _ =>
    rw [hd] at h
    exact absurd h (by simp [Detail.kind])

theorem addListeners_of_event {s : Symbol} {call : Callable} {listeners : List String}
    (h : s.detail = .event call listeners) (names : List String) :
    s.addListeners names = { s with detail := .event call (names.foldl addNew listeners) } := by
  rw [addListeners, h]

theorem addListeners_keeps (s : Symbol) (names : List String) :
    (s.addListeners names).isEvent = s.isEvent ∧ (s.addListeners names).longname = s.longname ∧
      (s.addListeners names).listens = s.listens := by
  cases hd : s.detail with
  | event call listeners =>
    rw [addListeners_of_event hd, isEvent, isEvent, kind, kind, hd]
    exact ⟨rfl, rfl, rfl⟩
  | _ => rw [addListeners, hd]; exact ⟨rfl, rfl, rfl⟩

theorem addListeners_congr (s : Symbol) {names names' : List String}
    (h : ∀ items, names.foldl addNew items = names'.foldl addNew items) :
    s.addListeners names = s.addListeners names' := by
  cases hd : s.detail with
  | event call listeners => rw [addListeners_of_event hd, addListeners_of_event hd, h]
  | _ => rw [addListeners, addListeners, hd]

theorem addListeners_append (s : Symbol) (names more : List String) :
    s.addListeners (names ++ more) = (s.addListeners names).addListeners more := by
  cases hd : s.detail with
  | event call listeners =>
    rw [addListeners_of_event hd, addListeners_of_event hd, addListeners_of_event rfl,
      List.foldl_append]
  | _ => simp only [addListeners, hd]

theorem addListeners_again (s : Symbol) (names : List String) :
    (s.addListeners names).addListeners names = s.addListeners names := by
  rw [← addListeners_append]
  refine addListeners_congr s fun items => ?_
  rw [List.foldl_append, foldl_addNew_foldl_addNew]

theorem addListeners_nil (s : Symbol) : s.addListeners [] = s := by
  cases hd : s.detail with
  | event call listeners =>
    cases s
    cases hd
    rfl
  | _ => rw [addListeners, hd]

section Hearing

variable {names names' : String → List String} {seen : List String} {symbols : List Symbol}

/-- Gives the first event of each longname some listeners; `seen` holds the longnames of the events
before. -/
def hearFrom (names : String → List String) : (seen : List String) → List Symbol → List Symbol
  | _, [] => []
  | seen, s :: symbols =>
    if s.isEvent && !seen.contains s.longname then
      s.addListeners (names s.longname) :: hearFrom names (s.longname :: seen) symbols
    else s :: hearFrom names seen symbols

theorem linkListenersFrom_eq (all : List Symbol) (seen : List String) (symbols : List Symbol) :
    linkListenersFrom all seen symbols = hearFrom (listenersOf · all) seen symbols := by
  induction symbols generalizing seen with
  | nil => rfl
  | cons s symbols ih => rw [linkListenersFrom, hearFrom, ih, ih]

/-- Only the names of events that are still to come matter, and of these what they add. -/
theorem hearFrom_congr
    (h : ∀ e ∉ seen, ∀ items, (names e).foldl addNew items = (names' e).foldl addNew items) :
    hearFrom names seen symbols = hearFrom names' seen symbols := by
  induction symbols generalizing seen with
  | nil => rfl
  | cons s symbols ih =>
    rw [hearFrom, hearFrom, ih h, ih fun e he => h e fun hmem => he (List.mem_cons_of_mem _ hmem)]
    split
    · next hfirst =>
      rw [Bool.and_eq_true, Bool.not_eq_true', List.contains_eq_mem, decide_eq_false_iff_not]
        at hfirst
      rw [addListeners_congr s (h s.longname hfirst.2)]
    · rfl

theorem hearFrom_nil (seen : List String) (symbols : List Symbol) :
    hearFrom (fun _ => []) seen symbols = symbols := by
  induction symbols generalizing seen with
  | nil => rfl
  | cons s symbols ih => rw [hearFrom, ih, ih, addListeners_nil, ite_self]

theorem hearFrom_again (names : String → List String) (seen : List String)
    (symbols : List Symbol) :
    hearFrom names seen (hearFrom names seen symbols) = hearFrom names seen symbols := by
  induction symbols generalizing seen with
  | nil => rfl
  | cons s symbols ih =>
    rw [hearFrom]
    split
    · next hfirst =>
      obtain ⟨hevent, hlongname, -⟩ := addListeners_keeps s (names s.longname)
      rw [hearFrom, hevent, hlongname, if_pos hfirst, addListeners_again, ih]
    · next hother => rw [hearFrom, if_neg hother, ih]

theorem listenersOf_cons (event : String) (s : Symbol) (symbols : List Symbol) :
    listenersOf event (s :: symbols) =
      (if s.listens.contains event then [s.longname] else []) ++ listenersOf event symbols := by
  rw [listenersOf, listenersOf, List.filter_cons]
  split <;> rfl

theorem listenersOf_hearFrom (event : String) (names : String → List String) (seen : List String)
    (symbols : List Symbol) :
    listenersOf event (hearFrom names seen symbols) = listenersOf event symbols := by
  induction symbols generalizing seen with
  | nil => rfl
  | cons s symbols ih =>
    rw [hearFrom]
    split
    · obtain ⟨-, hlongname, hlistens⟩ := addListeners_keeps s (names s.longname)
      rw [listenersOf_cons, listenersOf_cons, ih, hlongname, hlistens]
    · rw [listenersOf_cons, listenersOf_cons, ih]

theorem hearFrom_append (names : String → List String) (seen : List String)
    (before : List Symbol) :
    ∃ seen', (∀ e, e ∈ seen' ↔ e ∈ seen ∨ ∃ s ∈ before, s.isEvent = true ∧ s.longname = e) ∧
      ∃ heard, heard.length = before.length ∧ ∀ rest,
        hearFrom names seen (before ++ rest) = heard ++ hearFrom names seen' rest := by
  induction before generalizing seen with
  | nil => exact ⟨seen, by simp, [], rfl, fun rest => rfl⟩
  | cons s before ih =>
    by_cases hfirst : (s.isEvent && !seen.contains s.longname) = true
    · obtain ⟨seen', hseen', heard, hlength, hrest⟩ := ih (s.longname :: seen)
      refine ⟨seen', fun e => ?_, s.addListeners (names s.longname) :: heard, by simp [hlength],
        fun rest => ?_⟩
      · rw [hseen']
        have hevent : s.isEvent = true := (Bool.and_eq_true_iff.mp hfirst).1
        simp only [List.mem_cons, exists_eq_or_imp, hevent, true_and]
        rw [eq_comm (a := e), or_comm (a := s.longname = e), or_assoc]
      · rw [List.cons_append, hearFrom, if_pos hfirst, hrest, List.cons_append]
    · obtain ⟨seen', hseen', heard, hlength, hrest⟩ := ih seen
      refine ⟨seen', fun e => ?_, s :: heard, by simp [hlength], fun rest => ?_⟩
      · rw [hseen']
        have hold : s.isEvent = true ∧ s.longname = e → e ∈ seen := by
          rintro ⟨hevent, rfl⟩
          by_contra hnot
          exact hfirst (by simp [hevent, hnot])
        simp only [List.mem_cons, exists_eq_or_imp]
        tauto
      · rw [List.cons_append, hearFrom, if_neg hfirst, hrest, List.cons_append]

end Hearing

def announce (listener event : String) : List Symbol → List Symbol
  | [] => []
  | s :: symbols =>
    if s.isEvent && s.longname == event then s.addListeners [listener] :: symbols
    else s :: announce listener event symbols

def announceAll (symbols : List Symbol) : List Symbol :=
  symbols.foldl
    (fun told s => s.listens.foldl (fun told event => announce s.longname event told) told) symbols

theorem announce_hearFrom {names : String → List String} {seen : List String} {event : String}
    (h : event ∉ seen) (listener : String) (symbols : List Symbol) :
    announce listener event (hearFrom names seen symbols) =
      hearFrom (fun e => names e ++ if e = event then [listener] else []) seen symbols := by
  induction symbols generalizing seen with
  | nil => rfl
  | cons s symbols ih =>
    rw [hearFrom, hearFrom]
    split
    · next hfirst =>
      obtain ⟨hevent, hlongname, -⟩ := addListeners_keeps s (names s.longname)
      rw [announce, hevent, hlongname, (Bool.and_eq_true_iff.mp hfirst).1, Bool.true_and]
      split
      · next heq =>
        rw [beq_iff_eq] at heq
        rw [if_pos heq, addListeners_append]
        -- Further down the event has been seen, so that its names do not matter there.
        refine congrArg _ (hearFrom_congr fun e he items => ?_)
        rw [if_neg fun hsame => he (by rw [hsame, heq]; exact List.mem_cons_self),
          List.append_nil]
      · next hne =>
        rw [beq_iff_eq] at hne
        rw [if_neg hne, List.append_nil, ih]
        rw [List.mem_cons, not_or]
        exact ⟨fun heq => hne heq.symm, h⟩
    · next hother =>
      have hnot : ¬ (s.isEvent && s.longname == event) = true := by
        rw [Bool.and_eq_true, beq_iff_eq]
        rintro ⟨hevent, rfl⟩
        exact hother (by simp [hevent, h])
      rw [announce, if_neg hnot, ih h]

theorem foldl_announce_hearFrom (names : String → List String) (listener : String)
    (events : List String) (symbols : List Symbol) :
    events.foldl (fun told event => announce listener event told) (hearFrom names [] symbols) =
      hearFrom (fun e => names e ++ (events.filter (· = e)).map fun _ => listener) [] symbols := by
  induction events generalizing names with
  | nil => simp
  | cons event events ih =>
    rw [List.foldl_cons, announce_hearFrom List.not_mem_nil, ih]
    refine congrArg (hearFrom · [] symbols) (funext fun e => ?_)
    rw [List.append_assoc, List.filter_cons]
    by_cases h : e = event
    · rw [if_pos h, if_pos (decide_eq_true h.symm)]
      rfl
    · rw [if_neg h, if_neg (by simpa using Ne.symm h)]
      rfl

theorem foldl_announce (speakers : List Symbol) (names : String → List String)
    (symbols : List Symbol) :
    speakers.foldl
        (fun told s => s.listens.foldl (fun told event => announce s.longname event told) told)
        (hearFrom names [] symbols) =
      hearFrom (fun e => names e ++ listenersOf e speakers) [] symbols := by
  induction speakers generalizing names with
  | nil => simp [listenersOf]
  | cons s speakers ih =>
    rw [List.foldl_cons, foldl_announce_hearFrom, ih]
    refine hearFrom_congr fun e _ items => ?_
    rw [listenersOf_cons, List.append_assoc, List.foldl_append, List.foldl_append,
      List.foldl_append, List.foldl_append, foldl_addNew_map]
    congr 1
    by_cases h : e ∈ s.listens
    · have hsome : (s.listens.filter (· = e)).isEmpty = false := by
        rw [List.isEmpty_eq_false_iff, ne_eq, List.filter_eq_nil_iff]
        exact fun hnone => hnone e h (decide_eq_true rfl)
      rw [hsome, if_pos (List.contains_iff_mem.mpr h)]
      rfl
    · have hnone : (s.listens.filter (· = e)).isEmpty = true := by
        rw [List.isEmpty_iff, List.filter_eq_nil_iff]
        rintro other hother heq
        exact h (of_decide_eq_true heq ▸ hother)
      rw [hnone, if_neg (mt List.contains_iff_mem.mp h)]
      rfl

/-- To gather the listeners of each event comes to the same as to take every declaration in turn. -/
theorem linkListeners_eq_announceAll (symbols : List Symbol) :
    linkListeners symbols = announceAll symbols := by
  have h := foldl_announce symbols (fun _ => []) symbols
  rw [hearFrom_nil] at h
  rw [linkListeners, linkListenersFrom_eq, announceAll, h]
  rfl

/-- An event behind symbols none of which is an event of its longname. -/
def IsFirstEvent (before : List Symbol) (s : Symbol) : Prop :=
  s.isEvent = true ∧ ∀ t ∈ before, t.isEvent = true → t.longname ≠ s.longname

/-- What becomes of a symbol that stands behind others. The first event of a longname keeps its
listeners and has those behind them that are new to it; anything else stays as it is. -/
structure Heard (all before : List Symbol) (s t : Symbol) : Prop where
  first : IsFirstEvent before s → ∃ call listeners, s.detail = .event call listeners ∧
    t = { s with
      detail := .event call (listeners ++ newNames listeners (listenersOf s.longname all)) } ∧
    (listeners.Nodup → (listeners ++ newNames listeners (listenersOf s.longname all)).Nodup)
  other : ¬ IsFirstEvent before s → t = s

theorem heard_linkListeners {symbols before after : List Symbol} {s : Symbol}
    (h : symbols = before ++ s :: after) :
    ∃ before' t after', linkListeners symbols = before' ++ t :: after' ∧
      before'.length = before.length ∧ Heard symbols before s t := by
  obtain ⟨seen, hseen, heard, hlength, hrest⟩ :=
    hearFrom_append (listenersOf · symbols) [] before
  have hfirst : IsFirstEvent before s ↔ (s.isEvent && !seen.contains s.longname) = true := by
    rw [IsFirstEvent, Bool.and_eq_true, Bool.not_eq_true', List.contains_eq_mem,
      decide_eq_false_iff_not, hseen]
    simp
  have hlinked : linkListeners symbols =
      heard ++ hearFrom (listenersOf · symbols) seen (s :: after) := by
    have hall := hrest (s :: after)
    rw [← h] at hall
    rw [linkListeners, linkListenersFrom_eq, hall]
  rw [hlinked, hearFrom]
  split
  · next hevent =>
    obtain ⟨call, listeners, hdetail⟩ := exists_event_of_isEvent (hfirst.mpr hevent).1
    refine ⟨heard, _, _, rfl, hlength, fun _ => ⟨call, listeners, hdetail, ?_, ?_⟩,
      fun hnot => absurd (hfirst.mpr hevent) hnot⟩
    · rw [addListeners_of_event hdetail, foldl_addNew]
    · rw [← foldl_addNew]
      exact fun hnodup => nodup_foldl_addNew hnodup _
  · next hother =>
    exact ⟨heard, _, _, rfl, hlength, fun hevent => absurd (hfirst.mp hevent) hother, fun _ => rfl⟩

theorem length_linkListeners (symbols : List Symbol) :
    (linkListeners symbols).length = symbols.length := by
  obtain ⟨_, -, heard, hlength, hrest⟩ := hearFrom_append (listenersOf · symbols) [] symbols
  have h := hrest []
  rw [List.append_nil, hearFrom, List.append_nil] at h
  rw [linkListeners, linkListenersFrom_eq, h, hlength]

theorem linkListeners_linkListeners (symbols : List Symbol) :
    linkListeners (linkListeners symbols) = linkListeners symbols := by
  have hsame : (listenersOf · (linkListeners symbols)) = (listenersOf · symbols) := by
    funext event
    rw [linkListeners, linkListenersFrom_eq, listenersOf_hearFrom]
  rw [linkListeners, linkListenersFrom_eq, hsame, linkListeners, linkListenersFrom_eq,
    hearFrom_again]

/-- Of the events of one longname the first one has its own listeners and behind them the new ones,
in the order of the symbols and each once; nothing else changes. This is what becomes of the symbols
when every declaration is told in turn, and once is enough. -/
theorem linkListeners_hears (symbols : List Symbol) :
    (linkListeners symbols).length = symbols.length ∧
      (∀ before s after, symbols = before ++ s :: after →
        ∃ before' t after', linkListeners symbols = before' ++ t :: after' ∧
          before'.length = before.length ∧ Heard symbols before s t) ∧
      linkListeners symbols = announceAll symbols ∧
      linkListeners (linkListeners symbols) = linkListeners symbols :=
  ⟨length_linkListeners symbols, fun _ _ _ => heard_linkListeners,
    linkListeners_eq_announceAll symbols, linkListeners_linkListeners symbols⟩

end Refsite.Symbol
