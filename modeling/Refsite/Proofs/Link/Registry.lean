import Mathlib.Logic.Relation
import Refsite.Proofs.Candidates
import Refsite.Proofs.Link.Bindings
import Refsite.Proofs.Link.Stem
import Refsite.Proofs.Text.Percent
namespace Refsite

open Link Text

theorem lowerText_ofList (text : List Char) :
    lowerText (String.ofList text) = String.ofList (lower text) := by
  rw [lowerText, onChars, String.toList_ofList]

theorem lowerText_inj {s t : List Char}
    (h : lowerText (String.ofList s) = lowerText (String.ofList t)) : lower s = lower t := by
  rw [lowerText_ofList, lowerText_ofList] at h
  exact String.ofList_injective h

namespace Registry

/-- The stem of a file without its extension, in lower case. -/
def foldedStem (file : String) : String :=
  lowerText (onChars (fun f => (dropBack? fileExtension.toList f).getD f) file)

theorem foldedStem_append (stem : String) :
    foldedStem (stem ++ fileExtension) = lowerText stem := by
  rw [foldedStem, onChars, String.toList_append, dropBack_append, Option.getD_some,
    String.ofList_toList]

theorem candidate_name_injective (stem : List Char) :
    Function.Injective fun k => lowerText (String.ofList (Stem.candidate stem k)) :=
  fun _ _ h => Stem.lower_candidate_injective stem (lowerText_inj h)

theorem exists_free_candidate (claimed : Bindings) (stem : List Char) :
    ∃ k ≤ claimed.length,
      claimed.lookup (lowerText (String.ofList (Stem.candidate stem k))) = none := by
  obtain ⟨k, hk, hfree⟩ := exists_notMem_of_injective (candidate_name_injective stem) claimed.keys
  rw [List.length_map] at hk
  exact ⟨k, hk, Bindings.lookup_eq_none_iff_notMem.mpr hfree⟩

theorem freeStem_spec (claimed : Bindings) (text : String) :
    ∃ k ≤ claimed.length,
      freeStem claimed text = String.ofList (Stem.candidate (Stem.ofText text.toList) k) ∧
      claimed.lookup (lowerText (freeStem claimed text)) = none ∧
      ∀ j < k, (claimed.lookup (lowerText (String.ofList
        (Stem.candidate (Stem.ofText text.toList) j)))).isSome = true := by
  obtain ⟨n, hn, hfree⟩ := exists_free_candidate claimed (Stem.ofText text.toList)
  obtain ⟨k, hk, hfind, hfound, hleast⟩ :=
    exists_find_range (f := fun k => String.ofList (Stem.candidate (Stem.ofText text.toList) k))
      (p := fun s => (claimed.lookup (lowerText s)).isNone)
      ⟨n, hn, Option.isNone_iff_eq_none.mpr hfree⟩
  have hstem : freeStem claimed text =
      String.ofList (Stem.candidate (Stem.ofText text.toList) k) := by
    unfold freeStem
    dsimp only
    rw [hfind, Option.getD_some]
  refine ⟨k, hk, hstem, ?_, fun j hj => Option.isNone_eq_false_iff.mp (hleast j hj)⟩
  rw [hstem]
  exact Option.isNone_iff_eq_none.mp hfound

theorem freeStem_notMem (claimed : Bindings) (text : String) :
    lowerText (freeStem claimed text) ∉ claimed.keys := by
  obtain ⟨_, _, _, hfree, _⟩ := freeStem_spec claimed text
  exact Bindings.lookup_eq_none_iff_notMem.mp hfree

theorem isSafe_of_mem_freeStem {c : Char} {claimed : Bindings} {text : String}
    (h : c ∈ (freeStem claimed text).toList) : Stem.isSafe c = true := by
  obtain ⟨k, _, hstem, _⟩ := freeStem_spec claimed text
  rw [hstem, String.toList_ofList] at h
  exact Stem.isSafe_of_mem_candidate h

end Registry

open Link Text

theorem toList_encodeUrl (text : String) :
    (encodeUrl text).toList = Percent.encode text.toList := by
  rw [encodeUrl, onChars, String.toList_ofList]

theorem pageOfUrl_encodeUrl {file : String} (h : '#' ∉ file.toList) :
    pageOfUrl (encodeUrl file) = file := by
  rw [pageOfUrl, onChars, toList_encodeUrl,
    upTo_eq_self (Percent.hash_notMem_encode h), Percent.decode_encode, String.ofList_toList]

/-- The number sign before a fragment is kept, and so the address has a fragment too. -/
theorem toList_encodeUrl_fragment (file fragment : String) :
    (encodeUrl (file ++ "#" ++ fragment)).toList =
      Percent.encode file.toList ++ '#' :: Percent.encode fragment.toList := by
  rw [toList_encodeUrl, String.toList_append, String.toList_append, Percent.encode_append,
    Percent.encode_append, List.append_assoc]
  exact congrArg _ (congrArg (· ++ _) Percent.encodeChar_hash)

/-- A fragment is cut off before the address is decoded, so it may hold anything. -/
theorem pageOfUrl_encodeUrl_fragment {file : String} (h : '#' ∉ file.toList) (fragment : String) :
    pageOfUrl (encodeUrl (file ++ "#" ++ fragment)) = file := by
  rw [pageOfUrl, onChars, toList_encodeUrl_fragment, upTo_append (Percent.hash_notMem_encode h),
    Percent.decode_encode, String.ofList_toList]

/-- The address of a symbol before it is encoded, given the file that shows it. -/
def Symbol.addressIn (s : Symbol) (file : String) : String :=
  let fragment := if s.hasFragment then s.fragment else ""
  if fragment.isEmpty then file else file ++ "#" ++ fragment

theorem pageOfUrl_addressIn (s : Symbol) {file : String} (h : '#' ∉ file.toList) :
    pageOfUrl (encodeUrl (s.addressIn file)) = file := by
  unfold Symbol.addressIn
  generalize (if s.hasFragment then s.fragment else "") = fragment
  by_cases hf : fragment.isEmpty = true
  · rw [if_pos hf]
    exact pageOfUrl_encodeUrl h
  · rw [if_neg hf]
    exact pageOfUrl_encodeUrl_fragment h fragment

namespace Registry

/-- The file that an allocation for a text hands out. -/
def fileFor (r : Registry) (text : String) : String := freeStem r.claimed text ++ fileExtension

def claim (r : Registry) (text : String) : Registry :=
  { r with claimed := r.claimed ++ [(lowerText (freeStem r.claimed text), text)] }

/-- The registry once a longname has a page of its own. -/
def openPage (r : Registry) (longname : String) : Registry :=
  { r.claim longname with
    pages := r.pages ++ [(longname, r.fileFor longname)]
    urls := r.urls.bindNew longname (encodeUrl (r.fileFor longname)) }

def tutorialText (name : String) : String := "tutorial-" ++ name

def openTutorial (r : Registry) (name : String) : Registry :=
  { r.claim (tutorialText name) with
    tutorials := r.tutorials ++ [(name, encodeUrl (r.fileFor (tutorialText name)))] }

def bindUrl (r : Registry) (longname url : String) : Registry :=
  { r with urls := r.urls.bind longname url }

theorem allocate_eq (r : Registry) (text : String) :
    r.allocate text =
      if r.frozen then .error (.frozen text) else .ok (r.fileFor text, r.claim text) := rfl

theorem assign_of_lookup {r : Registry} {longname file : String}
    (h : r.pages.lookup longname = some file) : r.assign longname = .ok (file, r) := by
  rw [assign, h]

theorem assign_of_new {r : Registry} {longname : String} (h : r.pages.lookup longname = none) :
    r.assign longname = if r.frozen then .error (.frozen longname)
      else .ok (r.fileFor longname, r.openPage longname) := by
  rw [assign, h]
  dsimp only
  rw [allocate_eq]
  split
  · rfl
  · rw [openPage, ← Bindings.bind_of_lookup_eq_none _ h]
    rfl

theorem registerTutorial_of_lookup {r : Registry} {name url : String}
    (h : r.tutorials.lookup name = some url) : r.registerTutorial name = .ok (url, r) := by
  rw [registerTutorial, h]

theorem registerTutorial_of_new {r : Registry} {name : String}
    (h : r.tutorials.lookup name = none) :
    r.registerTutorial name = if r.frozen then .error (.frozen (tutorialText name))
      else .ok (encodeUrl (r.fileFor (tutorialText name)), r.openTutorial name) := by
  rw [registerTutorial, h]
  dsimp only
  rw [allocate_eq]
  split
  · rfl
  · rw [openTutorial, ← Bindings.bind_of_lookup_eq_none _ h]
    rfl

theorem pageUrl_eq (r : Registry) (longname : String) :
    r.pageUrl longname = (r.assign longname).map fun (file, r) => (encodeUrl file, r) := by
  rw [pageUrl]
  cases r.assign longname <;> rfl

theorem createLink_eq (r : Registry) (s : Symbol) :
    r.createLink s = (r.assign s.owner).map fun (file, r) => (encodeUrl (s.addressIn file), r) := by
  rw [createLink]
  cases r.assign s.owner <;> rfl

/-- All that one operation can make of a registry, with the file that it hands out. -/
inductive Change (r : Registry) : Option String → Registry → Prop
  | idle : Change r none r
  | claim (h : r.frozen = false) (text : String) : Change r (some (r.fileFor text)) (r.claim text)
  | page (h : r.frozen = false) {longname : String} (new : r.pages.lookup longname = none) :
    Change r (some (r.fileFor longname)) (r.openPage longname)
  | tutorial (h : r.frozen = false) {name : String} (new : r.tutorials.lookup name = none) :
    Change r (some (r.fileFor (tutorialText name))) (r.openTutorial name)
  | url (h : r.frozen = false) (longname url : String) : Change r none (r.bindUrl longname url)
  | freeze : Change r none r.freeze

/-- What a registry has become after any number of changes. -/
def Later : Registry → Registry → Prop :=
  Relation.ReflTransGen fun r r' => ∃ file, Change r file r'

theorem Change.later {r r' : Registry} {file : Option String} (h : Change r file r') : Later r r' :=
  Relation.ReflTransGen.single ⟨file, h⟩

theorem change_of_assign {r r' : Registry} {longname file : String}
    (h : r.assign longname = .ok (file, r')) :
    r'.pages.lookup longname = some file ∧
      Change r (if (r.pages.lookup longname).isSome then none else some file) r' := by
  cases hp : r.pages.lookup longname with
  | some page =>
    rw [assign_of_lookup hp] at h
    cases h
    exact ⟨hp, .idle⟩
  | none =>
    rw [assign_of_new hp] at h
    cases hf : r.frozen with
    | true =>
      rw [hf] at h
      cases h
    | false =>
      rw [hf, if_neg Bool.false_ne_true] at h
      obtain ⟨rfl, rfl⟩ := Prod.mk.inj (Except.ok.inj h)
      refine ⟨?_, .page hf hp⟩
      rw [openPage, List.lookup_append, hp, Option.none_or, List.lookup_cons_self]

theorem change_of_registerTutorial {r r' : Registry} {name url : String}
    (h : r.registerTutorial name = .ok (url, r')) :
    r'.tutorials.lookup name = some url ∧
      Change r (if (r.tutorials.lookup name).isSome then none
        else some (r.fileFor (tutorialText name))) r' := by
  cases ht : r.tutorials.lookup name with
  | some found =>
    rw [registerTutorial_of_lookup ht] at h
    cases h
    exact ⟨ht, .idle⟩
  | none =>
    rw [registerTutorial_of_new ht] at h
    cases hf : r.frozen with
    | true =>
      rw [hf] at h
      cases h
    | false =>
      rw [hf, if_neg Bool.false_ne_true] at h
      obtain ⟨rfl, rfl⟩ := Prod.mk.inj (Except.ok.inj h)
      refine ⟨?_, .tutorial hf ht⟩
      rw [openTutorial, List.lookup_append, ht, Option.none_or, List.lookup_cons_self]

theorem change_of_register {r r' : Registry} {longname url : String}
    (h : r.register longname url = .ok r') :
    r'.urls.lookup longname = some url ∧ Change r none r' := by
  rw [register] at h
  split at h
  · next heq =>
    cases h
    exact ⟨beq_iff_eq.mp heq, .idle⟩
  · split at h
    · cases h
    · next hf =>
      cases h
      exact ⟨Bindings.lookup_bind_self _ _ _, .url (Bool.not_eq_true _ ▸ hf) longname url⟩

/-- The index, which no longname is bound to, and the files of all pages and tutorials. -/
def files (r : Registry) : List String :=
  indexUrl :: (r.pages.map (·.2) ++ r.tutorials.map fun t => pageOfUrl t.2)

/-- What holds at the start and after every change. -/
structure Sound (r : Registry) : Prop where
  claimed_nodup : r.claimed.keys.Nodup
  files_nodup : (r.files.map foldedStem).Nodup
  files_claimed : ∀ file ∈ r.files, foldedStem file ∈ r.claimed.keys
  files_safe : ∀ file ∈ r.files, ∀ c ∈ file.toList, Stem.isSafe c = true
  urls_nodup : r.urls.keys.Nodup

theorem foldedStem_fileFor (r : Registry) (text : String) :
    foldedStem (r.fileFor text) = lowerText (freeStem r.claimed text) :=
  foldedStem_append _

theorem isSafe_of_mem_fileFor {c : Char} {r : Registry} {text : String}
    (h : c ∈ (r.fileFor text).toList) : Stem.isSafe c = true := by
  rw [fileFor, String.toList_append] at h
  cases List.mem_append.mp h with
  | inl h => exact isSafe_of_mem_freeStem h
  | inr h =>
    have hall : fileExtension.toList.all Stem.isSafe = true := by decide
    exact List.all_eq_true.mp hall c h

theorem hash_notMem_of_isSafe {file : String} (h : ∀ c ∈ file.toList, Stem.isSafe c = true) :
    '#' ∉ file.toList :=
  fun hmem => absurd (h '#' hmem) (by decide)

theorem keys_claim (r : Registry) (text : String) :
    (r.claim text).claimed.keys = r.claimed.keys ++ [foldedStem (r.fileFor text)] := by
  rw [claim, foldedStem_fileFor, Bindings.keys, List.map_append]
  rfl

theorem nodup_keys_claim {r : Registry} (h : r.claimed.keys.Nodup) (text : String) :
    (r.claim text).claimed.keys.Nodup := by
  rw [keys_claim]
  refine List.nodup_append.mpr ⟨h, List.nodup_singleton _, ?_⟩
  rintro k hk j hj rfl
  rw [List.mem_singleton.mp hj, foldedStem_fileFor] at hk
  exact freeStem_notMem r.claimed text hk

/-- A registry stays sound when the one new file among its files is the one that it claims. -/
theorem Sound.extend {r r' : Registry} {text : String} (hr : r.Sound)
    (hclaimed : r'.claimed = (r.claim text).claimed)
    (hfiles : r'.files.Perm (r.fileFor text :: r.files)) (hurls : r'.urls.keys.Nodup) :
    r'.Sound where
  claimed_nodup := by
    rw [hclaimed]
    exact nodup_keys_claim hr.claimed_nodup text
  files_nodup := by
    rw [(hfiles.map foldedStem).nodup_iff, List.map_cons, List.nodup_cons]
    refine ⟨?_, hr.files_nodup⟩
    intro hmem
    obtain ⟨file, hfile, heq⟩ := List.mem_map.mp hmem
    have hold := hr.files_claimed file hfile
    rw [heq, foldedStem_fileFor] at hold
    exact freeStem_notMem r.claimed text hold
  files_claimed := by
    intro file hfile
    rw [hclaimed, keys_claim, List.mem_append, List.mem_singleton]
    cases List.mem_cons.mp (hfiles.mem_iff.mp hfile) with
    | inl h => exact .inr (congrArg foldedStem h)
    | inr h => exact .inl (hr.files_claimed file h)
  files_safe := by
    intro file hfile c hc
    cases List.mem_cons.mp (hfiles.mem_iff.mp hfile) with
    | inl h =>
      rw [h] at hc
      exact isSafe_of_mem_fileFor hc
    | inr h => exact hr.files_safe file h c hc
  urls_nodup := hurls

theorem files_openPage (r : Registry) (longname : String) :
    (r.openPage longname).files.Perm (r.fileFor longname :: r.files) := by
  rw [files, openPage, List.map_append, List.append_assoc]
  exact (List.perm_middle.cons indexUrl).trans (List.Perm.swap _ _ _)

theorem files_openTutorial (r : Registry) (name : String) :
    (r.openTutorial name).files.Perm (r.fileFor (tutorialText name) :: r.files) := by
  have hpage : pageOfUrl (encodeUrl (r.fileFor (tutorialText name))) =
      r.fileFor (tutorialText name) :=
    pageOfUrl_encodeUrl (hash_notMem_of_isSafe fun _ hc => isSafe_of_mem_fileFor hc)
  rw [files, openTutorial, List.map_append, ← List.append_assoc, List.map_cons, List.map_nil, hpage]
  exact ((List.perm_append_singleton _ _).cons indexUrl).trans (List.Perm.swap _ _ _)

theorem Change.sound {r r' : Registry} {file : Option String} (h : Change r file r')
    (hr : r.Sound) : r'.Sound := by
  cases h with
  | idle => exact hr
  | claim hf text =>
    refine ⟨nodup_keys_claim hr.claimed_nodup text, hr.files_nodup, ?_, hr.files_safe,
      hr.urls_nodup⟩
    intro file hfile
    rw [keys_claim]
    exact List.mem_append_left _ (hr.files_claimed file hfile)
  | page hf new =>
    exact hr.extend rfl (files_openPage r _) (Bindings.nodup_keys_bindNew hr.urls_nodup _ _)
  | tutorial hf new => exact hr.extend rfl (files_openTutorial r _) hr.urls_nodup
  | url hf longname url =>
    exact ⟨hr.claimed_nodup, hr.files_nodup, hr.files_claimed, hr.files_safe,
      Bindings.nodup_keys_bind hr.urls_nodup _ _⟩
  | freeze =>
    exact ⟨hr.claimed_nodup, hr.files_nodup, hr.files_claimed, hr.files_safe, hr.urls_nodup⟩

theorem Later.sound {r r' : Registry} (h : Later r r') (hr : r.Sound) : r'.Sound := by
  induction h with
  | refl => exact hr
  | tail _ hstep ih =>
    obtain ⟨file, hchange⟩ := hstep
    exact hchange.sound ih

theorem Change.pages_lookup {r r' : Registry} {file : Option String} {longname page : String}
    (h : Change r file r') (hp : r.pages.lookup longname = some page) :
    r'.pages.lookup longname = some page := by
  cases h with
  | page hf new => rw [openPage, List.lookup_append, hp, Option.some_or]
  | idle | claim hf text | tutorial hf new | url hf name url | freeze => exact hp

theorem Change.tutorials_lookup {r r' : Registry} {file : Option String} {name url : String}
    (h : Change r file r') (ht : r.tutorials.lookup name = some url) :
    r'.tutorials.lookup name = some url := by
  cases h with
  | tutorial hf new => rw [openTutorial, List.lookup_append, ht, Option.some_or]
  | idle | claim hf text | page hf new | url hf name url | freeze => exact ht

theorem Later.pages_lookup {r r' : Registry} {longname page : String} (h : Later r r')
    (hp : r.pages.lookup longname = some page) : r'.pages.lookup longname = some page := by
  induction h with
  | refl => exact hp
  | tail _ hstep ih =>
    obtain ⟨file, hchange⟩ := hstep
    exact hchange.pages_lookup ih

theorem Later.tutorials_lookup {r r' : Registry} {name url : String} (h : Later r r')
    (ht : r.tutorials.lookup name = some url) : r'.tutorials.lookup name = some url := by
  induction h with
  | refl => exact ht
  | tail _ hstep ih =>
    obtain ⟨file, hchange⟩ := hstep
    exact hchange.tutorials_lookup ih

theorem page_mem_files {r : Registry} {longname page : String}
    (h : r.pages.lookup longname = some page) : page ∈ r.files :=
  List.mem_cons_of_mem _ (List.mem_append_left _
    (List.mem_map_of_mem (f := Prod.snd) (Bindings.mem_of_lookup h)))

theorem Sound.hash_notMem {r : Registry} (hr : r.Sound) {file : String} (h : file ∈ r.files) :
    '#' ∉ file.toList :=
  hash_notMem_of_isSafe (hr.files_safe file h)

theorem Sound.nodup_files {r : Registry} (hr : r.Sound) : r.files.Nodup :=
  List.Nodup.of_map foldedStem hr.files_nodup

theorem Sound.page_inj {r : Registry} (hr : r.Sound) {longname other page : String}
    (h : r.pages.lookup longname = some page) (h' : r.pages.lookup other = some page) :
    longname = other := by
  have hpages := (List.nodup_append.mp (List.nodup_cons.mp hr.nodup_files).2).1
  have heq := List.inj_on_of_nodup_map hpages (Bindings.mem_of_lookup h)
    (Bindings.mem_of_lookup h') rfl
  exact congrArg Prod.fst heq

theorem Sound.tutorial_inj {r : Registry} (hr : r.Sound) {name other url url' : String}
    (h : r.tutorials.lookup name = some url) (h' : r.tutorials.lookup other = some url')
    (hpage : pageOfUrl url = pageOfUrl url') : name = other := by
  have htutorials := (List.nodup_append.mp (List.nodup_cons.mp hr.nodup_files).2).2.1
  have heq := List.inj_on_of_nodup_map htutorials (Bindings.mem_of_lookup h)
    (Bindings.mem_of_lookup h') hpage
  exact congrArg Prod.fst heq

theorem Sound.page_ne_tutorial {r : Registry} (hr : r.Sound) {page : String × String}
    {name url : String} (h : page ∈ r.pages) (h' : r.tutorials.lookup name = some url) :
    page.2 ≠ pageOfUrl url := by
  have hapart := (List.nodup_append.mp (List.nodup_cons.mp hr.nodup_files).2).2.2
  exact hapart page.2 (List.mem_map_of_mem h) _
    (List.mem_map.mpr ⟨_, Bindings.mem_of_lookup h', rfl⟩)

theorem Sound.page_ne_index {r : Registry} (hr : r.Sound) {longname page : String}
    (h : r.pages.lookup longname = some page) : page ≠ indexUrl := by
  rintro rfl
  exact (List.nodup_cons.mp hr.nodup_files).1 (List.mem_append_left _
    (List.mem_map.mpr ⟨_, Bindings.mem_of_lookup h, rfl⟩))

theorem Sound.tutorial_ne_index {r : Registry} (hr : r.Sound) {name url : String}
    (h : r.tutorials.lookup name = some url) : pageOfUrl url ≠ indexUrl := by
  intro heq
  exact (List.nodup_cons.mp hr.nodup_files).1 (List.mem_append_right _
    (List.mem_map.mpr ⟨_, Bindings.mem_of_lookup h, heq⟩))

theorem sound_initial : initial.Sound where
  claimed_nodup := by decide
  files_nodup := by decide
  files_claimed := by decide
  files_safe := by
    intro file hfile
    have hall : (initial.files.all fun file => file.toList.all Stem.isSafe) = true := by decide
    exact List.all_eq_true.mp (List.all_eq_true.mp hall file hfile)
  urls_nodup := by decide

end Registry

end Refsite
