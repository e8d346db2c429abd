import Refsite.Proofs.Basic
import Refsite.Proofs.Text.Basic
import Refsite.Symbol.Anchors
namespace Refsite

namespace Registry

/-- The address that a longname is bound to, empty where it is not bound. -/
def addressOf (r : Registry) (longname : String) : String := (r.resolve? longname).getD ""

theorem require_of_isSome {r : Registry} {longname : String}
    (h : (r.resolve? longname).isSome) : r.require longname = .ok (r.addressOf longname) := by
  obtain ⟨url, hurl⟩ := Option.isSome_iff_exists.mp h
  rw [require, addressOf, hurl]
  rfl

end Registry

namespace Symbol

open Text

variable {r : Registry} {s : Symbol} {url : String}

def idAt (s : Symbol) (url : String) : String :=
  if url.toList.contains '#' then onChars (afterLast '#') url else s.name

def withId (r : Registry) (s : Symbol) : Symbol :=
  { s with id := some (s.idAt (r.addressOf s.longname)) }

theorem assignId_of_isSome (h : (r.resolve? s.longname).isSome) :
    assignId r s = .ok (s.withId r) := by
  rw [assignId, Registry.require_of_isSome h]
  rfl

theorem fragment_eq_idAt_iff {page fragment : List Char} (hpage : '#' ∉ page)
    (hurl : url.toList = page ++ '#' :: fragment) :
    url = onChars (upTo '#') url ++ "#" ++ s.idAt url ↔ '#' ∉ fragment := by
  have hcontains : url.toList.contains '#' = true := by
    rw [hurl, List.contains_iff_mem]
    exact List.mem_append_right _ List.mem_cons_self
  have hmark : "#".toList = ['#'] := by decide
  rw [idAt, if_pos hcontains, ← String.toList_inj]
  simp only [onChars, String.toList_append, String.toList_ofList, hurl, upTo_append hpage, hmark,
    List.append_assoc, List.singleton_append, List.append_cancel_left_eq, List.cons.injEq, true_and]
  constructor
  · intro heq
    rw [heq]
    exact notMem_afterLast '#' _
  · exact fun h => (afterLast_append h page).symm

end Symbol

end Refsite
