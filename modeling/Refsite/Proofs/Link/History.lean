import Refsite.Proofs.Link.Registry
namespace Refsite.Registry

/-- The calls that may change a registry. -/
inductive Call where
  | allocate (text : String)
  | reserve (name : String)
  | assign (longname : String)
  | pageUrl (longname : String)
  | createLink (s : Symbol)
  | register (longname url : String)
  | registerTutorial (name : String)
  | freeze

/-- What a call comes to: the text that it answers, if it answers one, and the registry
afterwards. -/
def Call.perform (r : Registry) : Call → Except LinkError (Option String × Registry)
  | allocate text => (r.allocate text).map fun (file, r) => (some file, r)
  | reserve name => (r.allocate name).map fun (file, r) => (some file, r)
  | assign longname => (r.assign longname).map fun (file, r) => (some file, r)
  | pageUrl longname => (r.pageUrl longname).map fun (url, r) => (some url, r)
  | createLink s => (r.createLink s).map fun (url, r) => (some url, r)
  | register longname url => (r.register longname url).map fun r => (none, r)
  | registerTutorial name => (r.registerTutorial name).map fun (url, r) => (some url, r)
  | freeze => .ok (none, r.freeze)

def Call.answer (r : Registry) (c : Call) : Except LinkError (Option String) :=
  (c.perform r).map (·.1)

/-- The registry after a call. A call that is refused leaves it as it was. -/
def Call.after (r : Registry) (c : Call) : Registry :=
  match c.perform r with
  | .ok (_, r') => r'
  | .error _ => r

def Call.wanted? (r : Registry) : Call → Option String
  | allocate text => some text
  | reserve name => some name
  | assign longname | pageUrl longname =>
    if (r.pages.lookup longname).isSome then none else some longname
  | createLink s => if (r.pages.lookup s.owner).isSome then none else some s.owner
  | registerTutorial name =>
    if (r.tutorials.lookup name).isSome then none else some (tutorialText name)
  | register .. | freeze => none

def Call.allocated? (r : Registry) (c : Call) : Option String :=
  if r.frozen then none else (c.wanted? r).map r.fileFor

def Call.fileOf (text : String) : Call → String
  | pageUrl _ | createLink _ | registerTutorial _ => pageOfUrl text
  | _ => text

def run (r : Registry) (calls : List Call) : Registry := calls.foldl Call.after r

def history : Registry → List Call → List (Call × Except LinkError (Option String))
  | _, [] => []
  | r, c :: calls => (c, c.answer r) :: history (c.after r) calls

def allocations : Registry → List Call → List String
  | _, [] => []
  | r, c :: calls => (c.allocated? r).toList ++ allocations (c.after r) calls

def Reachable (r : Registry) : Prop := ∃ calls, r = run initial calls

theorem change_of_page {r : Registry} {c : Call} {longname : String} {f : String → String}
    (hp : c.perform r = (r.assign longname).map fun (file, r) => (some (f file), r))
    (hw : c.wanted? r = if (r.pages.lookup longname).isSome then none else some longname) :
    Change r (c.allocated? r) (c.after r) := by
  rw [Call.allocated?, Call.after, hp, hw]
  cases hl : r.pages.lookup longname with
  | some file =>
    rw [assign_of_lookup hl, Option.isSome_some, if_pos rfl, Option.map_none, ite_self]
    exact .idle
  | none =>
    rw [assign_of_new hl]
    cases hf : r.frozen with
    | true => exact .idle
    | false => exact .page hf hl

theorem change_of_allocate {r : Registry} {c : Call} {text : String}
    (hp : c.perform r = (r.allocate text).map fun (file, r) => (some file, r))
    (hw : c.wanted? r = some text) : Change r (c.allocated? r) (c.after r) := by
  rw [Call.allocated?, Call.after, hp, hw, allocate_eq]
  cases hf : r.frozen with
  | true => exact .idle
  | false => exact .claim hf text

theorem change_of_call (r : Registry) (c : Call) : Change r (c.allocated? r) (c.after r) := by
  cases c with
  | allocate text | reserve text => exact change_of_allocate rfl rfl
  | assign longname => exact change_of_page (f := id) rfl rfl
  | pageUrl longname =>
    refine change_of_page (f := encodeUrl) ?_ rfl
    rw [Call.perform, pageUrl_eq]
    cases r.assign longname <;> simp only [Except.map]
  | createLink s =>
    refine change_of_page (f := fun file => encodeUrl (s.addressIn file)) ?_ rfl
    rw [Call.perform, createLink_eq]
    cases r.assign s.owner <;> simp only [Except.map]
  | register longname url =>
    rw [Call.allocated?, Call.wanted?, Option.map_none, ite_self, Call.after, Call.perform]
    cases hr : r.register longname url with
    | error e => exact .idle
    | ok r' => exact (change_of_register hr).2
  | registerTutorial name =>
    rw [Call.allocated?, Call.after, Call.wanted?, Call.perform]
    cases hl : r.tutorials.lookup name with
    | some url =>
      rw [registerTutorial_of_lookup hl, Option.isSome_some, if_pos rfl, Option.map_none, ite_self]
      exact .idle
    | none =>
      rw [registerTutorial_of_new hl]
      cases hf : r.frozen with
      | true => exact .idle
      | false => exact .tutorial hf hl
  | freeze =>
    rw [Call.allocated?, Call.wanted?, Option.map_none, ite_self]
    exact .freeze

theorem of_allocated {r : Registry} {c : Call} {file : String} (h : c.allocated? r = some file) :
    r.frozen = false ∧ ∃ text, c.wanted? r = some text ∧ r.fileFor text = file := by
  rw [Call.allocated?] at h
  cases hf : r.frozen with
  | true =>
    rw [hf] at h
    cases h
  | false =>
    rw [hf, if_neg Bool.false_ne_true] at h
    exact ⟨rfl, Option.map_eq_some_iff.mp h⟩

theorem of_wanted_page {b : Option String} {longname text : String}
    (h : (if b.isSome then none else some longname) = some text) : b = none ∧ longname = text := by
  cases b with
  | some file => cases h
  | none =>
    cases h
    exact ⟨rfl, rfl⟩

theorem answer_of_allocated {r : Registry} {c : Call} {file : String}
    (h : c.allocated? r = some file) :
    ∃ text, c.answer r = .ok (some text) ∧ c.fileOf text = file := by
  obtain ⟨hf, text, hw, rfl⟩ := of_allocated h
  have hhash : '#' ∉ (r.fileFor text).toList :=
    hash_notMem_of_isSafe fun _ hc => isSafe_of_mem_fileFor hc
  cases c with
  | allocate name | reserve name =>
    cases hw
    refine ⟨_, ?_, rfl⟩
    rw [Call.answer, Call.perform, allocate_eq, hf]
    rfl
  | assign longname =>
    obtain ⟨hnone, rfl⟩ := of_wanted_page hw
    refine ⟨_, ?_, rfl⟩
    rw [Call.answer, Call.perform, assign_of_new hnone, hf]
    rfl
  | pageUrl longname =>
    obtain ⟨hnone, rfl⟩ := of_wanted_page hw
    refine ⟨_, ?_, pageOfUrl_encodeUrl hhash⟩
    rw [Call.answer, Call.perform, pageUrl_eq, assign_of_new hnone, hf]
    rfl
  | createLink s =>
    obtain ⟨hnone, rfl⟩ := of_wanted_page hw
    refine ⟨_, ?_, pageOfUrl_addressIn s hhash⟩
    rw [Call.answer, Call.perform, createLink_eq, assign_of_new hnone, hf]
    rfl
  | registerTutorial name =>
    obtain ⟨hnone, rfl⟩ := of_wanted_page hw
    refine ⟨_, ?_, pageOfUrl_encodeUrl hhash⟩
    rw [Call.answer, Call.perform, registerTutorial_of_new hnone, hf]
    rfl
  | register longname url => cases hw
  | freeze => cases hw

theorem later_run (r : Registry) (calls : List Call) : Later r (run r calls) := by
  induction calls generalizing r with
  | nil => exact Relation.ReflTransGen.refl
  | cons c calls ih => exact (change_of_call r c).later.trans (ih (c.after r))

theorem Reachable.sound {r : Registry} (h : r.Reachable) : r.Sound := by
  obtain ⟨calls, rfl⟩ := h
  exact (later_run initial calls).sound sound_initial

theorem run_append (r : Registry) (calls more : List Call) :
    run r (calls ++ more) = run (run r calls) more :=
  List.foldl_append

theorem Reachable.run {r : Registry} (h : r.Reachable) (calls : List Call) :
    (r.run calls).Reachable := by
  obtain ⟨before, rfl⟩ := h
  exact ⟨before ++ calls, (run_append initial before calls).symm⟩

theorem of_mem_history {holds : Registry → Prop} {c : Call}
    {a : Except LinkError (Option String)}
    (hkept : ∀ r r', Later r r' → holds r → holds r')
    (hmade : ∀ r, c.answer r = a → holds (c.after r))
    {r : Registry} {calls : List Call} (h : (c, a) ∈ history r calls) : holds (run r calls) := by
  induction calls generalizing r with
  | nil => cases h
  | cons d calls ih =>
    cases List.mem_cons.mp h with
    | inl h =>
      cases h
      exact hkept _ _ (later_run (c.after r) calls) (hmade r rfl)
    | inr h => exact ih h

theorem answer_of_mem_history {holds : Registry → Prop} {c : Call}
    {a b : Except LinkError (Option String)}
    (hkept : ∀ r r', Later r r' → holds r → holds r') (hgives : ∀ r, holds r → c.answer r = a)
    {r : Registry} (hr : holds r) {calls : List Call} (h : (c, b) ∈ history r calls) : b = a := by
  induction calls generalizing r with
  | nil => cases h
  | cons d calls ih =>
    cases List.mem_cons.mp h with
    | inl h =>
      cases h
      exact hgives r hr
    | inr h => exact ih (hkept _ _ (change_of_call r d).later hr) h

theorem keys_change {r r' : Registry} {file : Option String} (h : Change r file r') :
    r'.claimed.keys = r.claimed.keys ++ file.toList.map foldedStem := by
  cases h with
  | idle | url hf name url | freeze => exact (List.append_nil _).symm
  | claim hf text | page hf new | tutorial hf new => exact keys_claim r _

theorem keys_run (r : Registry) (calls : List Call) :
    (run r calls).claimed.keys = r.claimed.keys ++ (allocations r calls).map foldedStem := by
  induction calls generalizing r with
  | nil => exact (List.append_nil _).symm
  | cons c calls ih =>
    rw [run, List.foldl_cons, ← run, ih, keys_change (change_of_call r c), allocations,
      List.map_append, List.append_assoc]

theorem lookup_of_answer_assign {r : Registry} {longname file : String}
    (h : (Call.assign longname).answer r = .ok (some file)) :
    ((Call.assign longname).after r).pages.lookup longname = some file := by
  rw [Call.answer, Call.perform] at h
  rw [Call.after, Call.perform]
  cases ha : r.assign longname with
  | error e =>
    rw [ha] at h
    cases h
  | ok p =>
    rw [ha] at h
    cases h
    exact (change_of_assign ha).1

theorem answer_assign_of_lookup {r : Registry} {longname file : String}
    (h : r.pages.lookup longname = some file) :
    (Call.assign longname).answer r = .ok (some file) := by
  rw [Call.answer, Call.perform, assign_of_lookup h]
  rfl

theorem lookup_of_answer_registerTutorial {r : Registry} {name url : String}
    (h : (Call.registerTutorial name).answer r = .ok (some url)) :
    ((Call.registerTutorial name).after r).tutorials.lookup name = some url := by
  rw [Call.answer, Call.perform] at h
  rw [Call.after, Call.perform]
  cases ha : r.registerTutorial name with
  | error e =>
    rw [ha] at h
    cases h
  | ok p =>
    rw [ha] at h
    cases h
    exact (change_of_registerTutorial ha).1

theorem answer_registerTutorial_of_lookup {r : Registry} {name url : String}
    (h : r.tutorials.lookup name = some url) :
    (Call.registerTutorial name).answer r = .ok (some url) := by
  rw [Call.answer, Call.perform, registerTutorial_of_lookup h]
  rfl

theorem lookup_of_assigned {r : Registry} {calls : List Call} {longname file : String}
    (h : (.assign longname, .ok (some file)) ∈ history r calls) :
    (run r calls).pages.lookup longname = some file :=
  of_mem_history (fun _ _ hl => hl.pages_lookup) (fun _ => lookup_of_answer_assign) h

theorem lookup_of_registered {r : Registry} {calls : List Call} {name url : String}
    (h : (.registerTutorial name, .ok (some url)) ∈ history r calls) :
    (run r calls).tutorials.lookup name = some url :=
  of_mem_history (fun _ _ hl => hl.tutorials_lookup) (fun _ => lookup_of_answer_registerTutorial) h

/-- A call is answered alike from its first answer on, if this makes something true that every
change keeps and that settles the answer. -/
theorem pairwise_answers {holds : Registry → Prop} {c : Call}
    {a : Except LinkError (Option String)}
    (hkept : ∀ r r', Later r r' → holds r → holds r')
    (hmade : ∀ r, c.answer r = a → holds (c.after r))
    (hgives : ∀ r, holds r → c.answer r = a) (r : Registry) (calls : List Call) :
    (history r calls).Pairwise fun e e' => e = (c, a) → e'.1 = c → e'.2 = a := by
  induction calls generalizing r with
  | nil => exact List.Pairwise.nil
  | cons d calls ih =>
    refine List.Pairwise.cons ?_ (ih (d.after r))
    rintro ⟨c', b⟩ hmem he rfl
    cases he
    exact answer_of_mem_history hkept hgives (hmade r rfl) hmem

/-- How the registry keeps the names of a history apart. -/
structure KeptApart (calls : List Call) : Prop where
  /-- Every allocation hands its file to the caller. -/
  allocations_answered : ∀ {front back : List Call} {c : Call} {file : String},
    calls = front ++ c :: back → c.allocated? (run initial front) = some file →
    ∃ text, c.answer (run initial front) = .ok (some text) ∧ c.fileOf text = file
  /-- No two files that were handed out differ in case alone. -/
  allocations_nodup :
    ((indexUrl :: globalUrl :: allocations initial calls).map foldedStem).Nodup
  /-- No file is handed out without being claimed, and none is claimed besides. -/
  claimed_eq :
    (run initial calls).claimed.keys =
      (indexUrl :: globalUrl :: allocations initial calls).map foldedStem
  pages_ne : ∀ {longname other file file' : String},
    (.assign longname, .ok (some file)) ∈ history initial calls →
    (.assign other, .ok (some file')) ∈ history initial calls →
    longname ≠ other → file ≠ file'
  tutorials_ne : ∀ {name other url url' : String},
    (.registerTutorial name, .ok (some url)) ∈ history initial calls →
    (.registerTutorial other, .ok (some url')) ∈ history initial calls →
    name ≠ other → url ≠ url'
  /-- No tutorial has the file of a page, be it assigned or opened for a link. -/
  tutorial_ne_page : ∀ {name url : String},
    (.registerTutorial name, .ok (some url)) ∈ history initial calls →
    ∀ page ∈ (run initial calls).pages, pageOfUrl url ≠ page.2
  page_mem : ∀ {longname file : String},
    (.assign longname, .ok (some file)) ∈ history initial calls →
    (longname, file) ∈ (run initial calls).pages
  page_lasts : ∀ longname file : String,
    (history initial calls).Pairwise fun e e' =>
      e = (.assign longname, .ok (some file)) → e'.1 = .assign longname → e'.2 = .ok (some file)
  tutorial_lasts : ∀ name url : String,
    (history initial calls).Pairwise fun e e' =>
      e = (.registerTutorial name, .ok (some url)) → e'.1 = .registerTutorial name →
        e'.2 = .ok (some url)

/-- The names of every history are kept apart. -/
theorem history_keptApart (calls : List Call) : KeptApart calls := by
  have hsound : (run initial calls).Sound := Reachable.sound ⟨calls, rfl⟩
  have hkeys : (run initial calls).claimed.keys =
      (indexUrl :: globalUrl :: allocations initial calls).map foldedStem := by
    rw [keys_run, show initial.claimed.keys = [indexUrl, globalUrl].map foldedStem by decide,
      ← List.map_append]
    rfl
  refine
    { allocations_answered := fun _ h => answer_of_allocated h
      allocations_nodup := hkeys ▸ hsound.claimed_nodup
      claimed_eq := hkeys
      pages_ne := ?_
      tutorials_ne := ?_
      tutorial_ne_page := ?_
      page_mem := fun h => Bindings.mem_of_lookup (lookup_of_assigned h)
      page_lasts := ?_
      tutorial_lasts := ?_ }
  · rintro longname other file _ h h' hne rfl
    exact hne (hsound.page_inj (lookup_of_assigned h) (lookup_of_assigned h'))
  · rintro name other url _ h h' hne rfl
    exact hne (hsound.tutorial_inj (lookup_of_registered h) (lookup_of_registered h') rfl)
  · intro name url h page hpage heq
    exact hsound.page_ne_tutorial hpage (lookup_of_registered h) heq.symm
  · intro longname file
    exact pairwise_answers (fun _ _ hl => hl.pages_lookup) (fun _ => lookup_of_answer_assign)
      (fun _ => answer_assign_of_lookup) initial calls
  · intro name url
    exact pairwise_answers (fun _ _ hl => hl.tutorials_lookup)
      (fun _ => lookup_of_answer_registerTutorial) (fun _ => answer_registerTutorial_of_lookup)
      initial calls

example : allocations initial
    [.allocate "foo", .allocate "Foo", .assign "foo_1", .freeze, .assign "bar"] =
      ["foo.html", "Foo_1.html", "foo_1_1.html"] := by
  decide

end Refsite.Registry
