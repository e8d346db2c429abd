import Refsite.Proofs.Link.History
namespace Refsite

open Text

theorem Kind.ofWord_word (k : Kind) : Kind.ofWord? k.word = some k := by
  cases k <;> decide

theorem Kind.word_of_ofWord {k : Kind} {word : String} (h : Kind.ofWord? word = some k) :
    k.word = word := by
  rw [ofWord?] at h
  have hword := List.find?_some h
  exact beq_iff_eq.mp hword

theorem Symbol.owner_of_hasPage {s : Symbol} (h : s.kind.hasPage = true) :
    s.owner = s.longname := by
  rw [owner, h, Bool.true_or, if_pos rfl]

namespace Registry

theorem createLink_spec {r r' : Registry} (hr : r.Sound) {s : Symbol} {url : String}
    (h : r.createLink s = .ok (url, r')) :
    r.assign s.owner = .ok (pageOfUrl url, r') ∧ Later r r' ∧
      r'.pages.lookup s.owner = some (pageOfUrl url) := by
  rw [createLink_eq] at h
  cases ha : r.assign s.owner with
  | error e =>
    rw [ha] at h
    cases h
  | ok p =>
    obtain ⟨file, r''⟩ := p
    rw [ha, Except.map] at h
    obtain ⟨rfl, rfl⟩ := Prod.mk.inj (Except.ok.inj h)
    obtain ⟨hpage, hchange⟩ := change_of_assign ha
    have hfile := (hchange.sound hr).hash_notMem (page_mem_files hpage)
    rw [pageOfUrl_addressIn s hfile]
    exact ⟨rfl, hchange.later, hpage⟩

/-- The page of a link is the page of the owner: when the link is made, and after any further calls,
for every symbol with that owner. -/
theorem page_of_link {r r' : Registry} (hr : r.Reachable) {s : Symbol} {url : String}
    (h : r.createLink s = .ok (url, r')) (calls : List Call) :
    r.assign s.owner = .ok (pageOfUrl url, r') ∧
      (r'.run calls).assign s.owner = .ok (pageOfUrl url, r'.run calls) ∧
      ∀ t : Symbol, t.owner = s.owner →
        ∃ url', (r'.run calls).createLink t = .ok (url', r'.run calls) ∧
          pageOfUrl url' = pageOfUrl url := by
  obtain ⟨hassign, hlater, hpage⟩ := createLink_spec hr.sound h
  have hsound : (r'.run calls).Sound := (later_run r' calls).sound (hlater.sound hr.sound)
  have hlast := (later_run r' calls).pages_lookup hpage
  refine ⟨hassign, assign_of_lookup hlast, ?_⟩
  intro t ht
  rw [createLink_eq, ht, assign_of_lookup hlast]
  exact ⟨_, rfl, pageOfUrl_addressIn t (hsound.hash_notMem (page_mem_files hlast))⟩

end Registry

def Symbol.bare (detail : Detail Symbol) (name longname : String) (memberof : Option String) :
    Symbol where
  name := name
  longname := longname
  memberof := memberof
  scope := none
  access := none
  description := some "described"
  origin := none
  examples := []
  see := []
  listens := []
  fires := []
  ignore := false
  undocumented := false
  virtual := false
  isAsync := false
  generator := false
  version := none
  since := none
  variation := none
  attribs := none
  signature := none
  id := none
  ancestors := []
  detail := detail
  extra := []

/-- A member whose parent's name holds a percent sign, a number sign, a space and a letter beyond
ASCII is linked before its parent. -/
theorem page_of_link_before_parent :
    let member := Symbol.bare (.function ⟨[], [], []⟩) "b#%" "ä %20#.b#%" (some "ä %20#")
    let later := [Registry.Call.createLink (Symbol.bare .mixin "ä %20#" "ä %20#" none), .freeze]
    ∃ url r', Registry.initial.Reachable ∧ Registry.initial.createLink member = .ok (url, r') ∧
      url = "%C3%A4%20%2520_.html#b#%25" ∧
      (r'.run later).assign member.owner = .ok (pageOfUrl url, r'.run later) ∧
      pageOfUrl url = "ä %20_.html" := by
  intro member later
  have hreach : Registry.initial.Reachable := ⟨[], rfl⟩
  have hlink : Registry.initial.createLink member = .ok (encodeUrl (member.addressIn "ä %20_.html"),
      Registry.initial.openPage "ä %20#") := by decide
  exact ⟨_, _, hreach, hlink, by decide, (Registry.page_of_link hreach hlink later).2.1, by decide⟩

end Refsite
