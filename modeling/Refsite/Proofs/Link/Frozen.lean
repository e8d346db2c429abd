import Refsite.Link.Inline
import Refsite.Proofs.Link.History
namespace Refsite.Registry

/-- The questions that may be put to a registry besides its calls. -/
inductive Query where
  | resolve (longname : String)
  | require (longname : String)
  | longnames
  | tutorialUrl (name : String)
  | tutorialLink (name : String) (label : Option String)
  | linkTo (longname : String) (label cssClass fragment : Option String)
  | resolveTags (markup : String)

inductive Query.Reply where
  | found (text : Option String)
  | names (longnames : List String)

def Query.answer (r : Registry) : Query → Except LinkError Query.Reply
  | resolve longname => .ok (.found (r.resolve? longname))
  | require longname => (r.require longname).map fun url => .found (some url)
  | longnames => .ok (.names r.longnames)
  | tutorialUrl name => .ok (.found (r.tutorialUrl? name))
  | tutorialLink name label => .ok (.found (some (r.tutorialLink name label)))
  | linkTo longname label cssClass fragment =>
    .ok (.found (some (r.linkTo longname label cssClass fragment)))
  | resolveTags markup => .ok (.found (some (r.resolveTags markup)))

def withFrozen (r : Registry) (frozen : Bool) : Registry := { r with frozen := frozen }

def thaw (r : Registry) : Registry := r.withFrozen false

theorem withFrozen_of_eq {r : Registry} {b : Bool} (h : r.frozen = b) : r.withFrozen b = r := by
  cases r
  cases h
  rfl

theorem Query.answer_withFrozen (r : Registry) (b : Bool) (q : Query) :
    q.answer (r.withFrozen b) = q.answer r := by
  cases q <;> rfl

theorem Query.answer_ne_frozen (r : Registry) (q : Query) (text : String) :
    q.answer r ≠ .error (.frozen text) := by
  cases q with
  | require longname =>
    rw [answer, Registry.require]
    cases r.resolve? longname <;> nofun
  | _ => nofun

namespace Call

/-- The text that a frozen registry refuses a call for, if it does: the call needs a new file, or it
binds an address that its longname does not have. -/
def refusal? (r : Registry) : Call → Option String
  | register longname url => if r.urls.lookup longname = some url then none else some longname
  | c => c.wanted? r

def freezes : Call → Bool
  | freeze => true
  | allocate _ | reserve _ | assign _ | pageUrl _ | createLink _ | register ..
  | registerTutorial _ => false

def page? : Call → Option String
  | assign longname | pageUrl longname => some longname
  | createLink s => some s.owner
  | _ => none

def IsRefused (r : Registry) (c : Call) : Prop := ∃ text, c.answer r = .error (.frozen text)

theorem perform_of_page {r : Registry} {longname file : String} (b : Bool)
    (h : r.pages.lookup longname = some file) :
    (r.withFrozen b).assign longname = .ok (file, r.withFrozen b) :=
  assign_of_lookup h

theorem lookup_of_wanted_none {b : Option String} {text : String}
    (h : (if b.isSome then none else some text) = none) : ∃ found, b = some found := by
  cases b with
  | some found => exact ⟨found, rfl⟩
  | none => cases h

/-- A call that a frozen registry does not refuse is answered alike whether it is frozen or not, and
all that it may change is the mark of being frozen. -/
theorem perform_of_kept {r : Registry} {c : Call} (h : c.refusal? r = none) :
    ∃ a, ∀ b, c.perform (r.withFrozen b) = .ok (a, r.withFrozen (b || c.freezes)) := by
  cases c with
  | allocate text | reserve text => cases h
  | assign longname =>
    obtain ⟨file, hfile⟩ := lookup_of_wanted_none h
    refine ⟨some file, fun b => ?_⟩
    rw [perform, perform_of_page b hfile, freezes, Bool.or_false]
    rfl
  | pageUrl longname =>
    obtain ⟨file, hfile⟩ := lookup_of_wanted_none h
    refine ⟨some (encodeUrl file), fun b => ?_⟩
    rw [perform, pageUrl_eq, perform_of_page b hfile, freezes, Bool.or_false]
    rfl
  | createLink s =>
    obtain ⟨file, hfile⟩ := lookup_of_wanted_none h
    refine ⟨some (encodeUrl (s.addressIn file)), fun b => ?_⟩
    rw [perform, createLink_eq, perform_of_page b hfile, freezes, Bool.or_false]
    rfl
  | register longname url =>
    have hurl : r.urls.lookup longname = some url := by
      by_contra hne
      rw [refusal?, if_neg hne] at h
      cases h
    refine ⟨none, fun b => ?_⟩
    have hsame : (r.withFrozen b).register longname url = .ok (r.withFrozen b) :=
      if_pos (beq_iff_eq.mpr hurl)
    rw [perform, hsame, freezes, Bool.or_false]
    rfl
  | registerTutorial name =>
    obtain ⟨url, hurl⟩ := lookup_of_wanted_none h
    refine ⟨some url, fun b => ?_⟩
    have hknown : (r.withFrozen b).registerTutorial name = .ok (url, r.withFrozen b) :=
      registerTutorial_of_lookup hurl
    rw [perform, hknown, freezes, Bool.or_false]
    rfl
  | freeze =>
    refine ⟨none, fun b => ?_⟩
    rw [freezes, Bool.or_true]
    rfl

theorem perform_of_refusal {r : Registry} {c : Call} {text : String} (hf : r.frozen = true)
    (h : c.refusal? r = some text) : c.perform r = .error (.frozen text) := by
  cases c with
  | allocate name | reserve name =>
    cases h
    rw [perform, allocate_eq, if_pos hf]
    rfl
  | assign longname =>
    obtain ⟨hnone, rfl⟩ := of_wanted_page h
    rw [perform, assign_of_new hnone, if_pos hf]
    rfl
  | pageUrl longname =>
    obtain ⟨hnone, rfl⟩ := of_wanted_page h
    rw [perform, pageUrl_eq, assign_of_new hnone, if_pos hf]
    rfl
  | createLink s =>
    obtain ⟨hnone, rfl⟩ := of_wanted_page h
    rw [perform, createLink_eq, assign_of_new hnone, if_pos hf]
    rfl
  | register longname url =>
    rw [refusal?] at h
    split at h
    · cases h
    · next hne =>
      cases h
      rw [perform, Registry.register, if_neg (mt beq_iff_eq.mp hne), if_pos hf]
      rfl
  | registerTutorial name =>
    obtain ⟨hnone, rfl⟩ := of_wanted_page h
    rw [perform, registerTutorial_of_new hnone, if_pos hf]
    rfl
  | freeze => cases h

/-- A frozen registry refuses a call exactly if there is something that it would have to change. -/
theorem isRefused_iff {r : Registry} (hf : r.frozen = true) (c : Call) :
    c.IsRefused r ↔ (c.refusal? r).isSome = true := by
  cases h : c.refusal? r with
  | none =>
    obtain ⟨a, hperform⟩ := perform_of_kept h
    have hanswer : c.answer r = .ok a := by
      rw [answer, ← withFrozen_of_eq hf, hperform]
      rfl
    refine iff_of_false ?_ Bool.false_ne_true
    rintro ⟨text, hrefused⟩
    rw [hanswer] at hrefused
    cases hrefused
  | some text =>
    refine iff_of_true ⟨text, ?_⟩ rfl
    rw [answer, perform_of_refusal hf h]
    rfl

theorem isRefused_page_iff {r : Registry} (hf : r.frozen = true) {c : Call} {longname : String}
    (hc : c.refusal? r = if (r.pages.lookup longname).isSome then none else some longname) :
    c.IsRefused r ↔ r.pages.lookup longname = none := by
  rw [isRefused_iff hf, hc]
  cases r.pages.lookup longname with
  | none => exact iff_of_true rfl rfl
  | some file => exact iff_of_false Bool.false_ne_true nofun

theorem after_of_frozen {r : Registry} (hf : r.frozen = true) (c : Call) : c.after r = r := by
  cases h : c.refusal? r with
  | none =>
    obtain ⟨a, hperform⟩ := perform_of_kept h
    have := hperform true
    rw [withFrozen_of_eq hf, Bool.true_or, withFrozen_of_eq hf] at this
    rw [after, this]
  | some text => rw [after, perform_of_refusal hf h]

end Call

theorem run_of_frozen {r : Registry} (hf : r.frozen = true) (calls : List Call) :
    run r calls = r := by
  induction calls with
  | nil => rfl
  | cons c calls ih => rw [run, List.foldl_cons, Call.after_of_frozen hf c, ← run, ih]

def openings : Registry → List Call → List String
  | _, [] => []
  | r, c :: calls => (if r.frozen then [] else c.page?.toList) ++ openings (c.after r) calls

theorem exists_assign {r : Registry} (hf : r.frozen = false) (longname : String) :
    ∃ file r', r.assign longname = .ok (file, r') ∧
      ∀ k, k ∈ r'.pages.keys ↔ k ∈ r.pages.keys ∨ k = longname := by
  cases hl : r.pages.lookup longname with
  | some file =>
    have hmem : longname ∈ r.pages.keys :=
      List.mem_map.mpr ⟨(longname, file), Bindings.mem_of_lookup hl, rfl⟩
    refine ⟨file, r, assign_of_lookup hl, fun k => ⟨.inl, ?_⟩⟩
    rintro (hk | rfl)
    · exact hk
    · exact hmem
  | none =>
    rw [assign_of_new hl, hf, if_neg Bool.false_ne_true]
    refine ⟨_, _, rfl, fun k => ?_⟩
    rw [openPage, Bindings.keys, List.map_append, List.mem_append]
    exact or_congr_right List.mem_singleton

theorem perform_of_page? {c : Call} {longname : String} (hc : c.page? = some longname)
    (r : Registry) : ∃ f : String → String,
      c.perform r = (r.assign longname).map fun (file, r) => (some (f file), r) := by
  cases c with
  | assign name =>
    cases hc
    exact ⟨id, rfl⟩
  | pageUrl name =>
    cases hc
    refine ⟨encodeUrl, ?_⟩
    rw [Call.perform, pageUrl_eq]
    cases r.assign longname <;> simp only [Except.map]
  | createLink s =>
    cases hc
    refine ⟨fun file => encodeUrl (s.addressIn file), ?_⟩
    rw [Call.perform, createLink_eq]
    cases r.assign s.owner <;> simp only [Except.map]
  | _ => cases hc

theorem pages_after {c : Call} (hc : c.page? = none) (r : Registry) :
    (c.after r).pages = r.pages := by
  cases c with
  | allocate text | reserve text =>
    rw [Call.after, Call.perform, allocate_eq]
    cases r.frozen <;> rfl
  | register longname url =>
    rw [Call.after, Call.perform, register]
    cases r.urls.lookup longname == some url <;> cases r.frozen <;> rfl
  | registerTutorial name =>
    rw [Call.after, Call.perform]
    cases hl : r.tutorials.lookup name with
    | some url =>
      rw [registerTutorial_of_lookup hl]
      rfl
    | none =>
      rw [registerTutorial_of_new hl]
      cases r.frozen <;> rfl
  | freeze => rfl
  | _ => cases hc

/-- A call opens the page that it asks for and no other, unless the registry is frozen. -/
theorem mem_keys_after (r : Registry) (c : Call) (k : String) :
    k ∈ (c.after r).pages.keys ↔
      k ∈ r.pages.keys ∨ k ∈ if r.frozen then [] else c.page?.toList := by
  cases hf : r.frozen with
  | true =>
    rw [Call.after_of_frozen hf]
    simp
  | false =>
    rw [if_neg Bool.false_ne_true]
    cases hc : c.page? with
    | none => simp [pages_after hc]
    | some longname =>
      obtain ⟨f, hp⟩ := perform_of_page? hc r
      obtain ⟨file, r', hassign, hkeys⟩ := exists_assign hf longname
      rw [Call.after, hp, hassign, Option.toList_some, List.mem_singleton]
      exact hkeys k

theorem mem_keys_run (r : Registry) (calls : List Call) (k : String) :
    k ∈ (run r calls).pages.keys ↔ k ∈ r.pages.keys ∨ k ∈ openings r calls := by
  induction calls generalizing r with
  | nil => simp [run, openings]
  | cons c calls ih =>
    rw [run, List.foldl_cons, ← run, ih, mem_keys_after, openings, List.mem_append, or_assoc]

structure ReadOnly (r : Registry) : Prop where
  /-- Whatever is called, all its tables stay as they are. -/
  run_eq : ∀ calls, run r calls = r
  allocate_refused : ∀ text, (Call.allocate text).answer r = .error (.frozen text)
  reserve_refused : ∀ name, (Call.reserve name).answer r = .error (.frozen name)
  assign_refused : ∀ longname,
    (Call.assign longname).IsRefused r ↔ r.pages.lookup longname = none
  pageUrl_refused : ∀ longname,
    (Call.pageUrl longname).IsRefused r ↔ r.pages.lookup longname = none
  createLink_refused : ∀ s : Symbol,
    (Call.createLink s).IsRefused r ↔ r.pages.lookup s.owner = none
  register_refused : ∀ longname url,
    (Call.register longname url).IsRefused r ↔ r.urls.lookup longname ≠ some url
  registerTutorial_refused : ∀ name,
    (Call.registerTutorial name).IsRefused r ↔ r.tutorials.lookup name = none
  freeze_answered : ¬ Call.freeze.IsRefused r
  query_answered : ∀ (q : Query) (text : String), q.answer r ≠ .error (.frozen text)
  only_refused : ∀ (c : Call) (e : LinkError), c.answer r = .error e → c.IsRefused r
  /-- What is answered was answered so before the registry was frozen. -/
  answer_thaw : ∀ c : Call, ¬ c.IsRefused r → c.answer r.thaw = c.answer r
  query_thaw : ∀ q : Query, q.answer r.thaw = q.answer r
  /-- Before it was frozen such a call changed nothing either, unless it froze the registry. -/
  after_thaw : ∀ c : Call, ¬ c.IsRefused r → c.after r.thaw = if c.freezes then r else r.thaw

theorem readOnly_of_frozen {r : Registry} (hf : r.frozen = true) : r.ReadOnly := by
  have hkept : ∀ c : Call, ¬ c.IsRefused r →
      ∃ a, ∀ b, c.perform (r.withFrozen b) = .ok (a, r.withFrozen (b || c.freezes)) := by
    intro c hc
    rw [Call.isRefused_iff hf, Option.not_isSome_iff_eq_none] at hc
    exact Call.perform_of_kept hc
  refine
    { run_eq := run_of_frozen hf
      allocate_refused := fun text => ?_
      reserve_refused := fun name => ?_
      assign_refused := fun longname => Call.isRefused_page_iff hf rfl
      pageUrl_refused := fun longname => Call.isRefused_page_iff hf rfl
      createLink_refused := fun s => Call.isRefused_page_iff hf rfl
      register_refused := fun longname url => ?_
      registerTutorial_refused := fun name => ?_
      freeze_answered := ?_
      query_answered := Query.answer_ne_frozen r
      only_refused := fun c e h => ?_
      answer_thaw := fun c hc => ?_
      query_thaw := Query.answer_withFrozen r false
      after_thaw := fun c hc => ?_ }
  · rw [Call.answer, Call.perform_of_refusal hf rfl]
    rfl
  · rw [Call.answer, Call.perform_of_refusal hf rfl]
    rfl
  · rw [Call.isRefused_iff hf, Call.refusal?]
    split
    · next h => exact iff_of_false Bool.false_ne_true (not_not_intro h)
    · next h => exact iff_of_true rfl h
  · rw [Call.isRefused_iff hf, Call.refusal?, Call.wanted?]
    · cases r.tutorials.lookup name with
      | none => exact iff_of_true rfl rfl
      | some url => exact iff_of_false Bool.false_ne_true (Option.some_ne_none url)
    · intro longname url h
      cases h
  · rw [Call.isRefused_iff hf]
    exact Bool.false_ne_true
  · by_contra hc
    obtain ⟨a, hperform⟩ := hkept c hc
    rw [Call.answer, ← withFrozen_of_eq hf, hperform] at h
    cases h
  · obtain ⟨a, hperform⟩ := hkept c hc
    have hfrozen := hperform true
    rw [withFrozen_of_eq hf] at hfrozen
    rw [Call.answer, Call.answer, thaw, hperform, hfrozen]
    rfl
  · obtain ⟨a, hperform⟩ := hkept c hc
    rw [Call.after, thaw, hperform, Bool.false_or]
    cases hfreezes : c.freezes with
    | true => rw [if_pos rfl, withFrozen_of_eq hf]
    | false => rfl

/-- Once it is frozen a registry is only read, whatever was called before and is called after: it
refuses exactly what it would have to change for. A page is missing exactly if it was never asked
for in time. -/
theorem frozen_readOnly (before after : List Call) :
    let r := (run initial before).freeze
    run r after = r ∧ r.ReadOnly ∧
      (∀ longname, r.pages.lookup longname = none ↔
        longname ≠ globalName ∧ longname ∉ openings initial before) ∧
      ∀ c : Call, ¬ c.IsRefused r →
        c.after (run initial before) = if c.freezes then r else run initial before := by
  intro r
  have hreadOnly : r.ReadOnly := readOnly_of_frozen rfl
  refine ⟨hreadOnly.run_eq after, hreadOnly, fun longname => ?_, fun c hc => ?_⟩
  · rw [Bindings.lookup_eq_none_iff_notMem]
    change longname ∉ (run initial before).pages.keys ↔ _
    rw [mem_keys_run, not_or]
    exact and_congr_left' (not_congr List.mem_singleton)
  · cases hf : (run initial before).frozen with
    | true =>
      have hsame : r = run initial before := withFrozen_of_eq hf
      rw [Call.after_of_frozen hf, hsame, ite_self]
    | false =>
      have hthaw : r.thaw = run initial before := withFrozen_of_eq hf
      rw [← hthaw]
      exact hreadOnly.after_thaw c hc

end Refsite.Registry
