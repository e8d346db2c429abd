import Refsite.Link.Anchor
namespace Refsite.Symbol

abbrev Index := List (String × Symbol)

def firstIndex (symbols : List Symbol) : Index := symbols.map fun s => (s.longname, s)

def lastIndex (symbols : List Symbol) : Index := firstIndex symbols.reverse

def Index.without (index : Index) (longname : String) : Index :=
  index.filter fun (name, _) => name != longname

theorem Index.length_without_lt {index : Index} {longname : String} {s : Symbol}
    (h : index.lookup longname = some s) : (index.without longname).length < index.length := by
  refine List.length_filter_lt_length_iff_exists.2 ?_
  induction index with
  | nil => simp at h
  | cons e index ih =>
    obtain ⟨name, t⟩ := e
    rw [List.lookup_cons] at h
    split at h
    · next heq => exact ⟨_, List.mem_cons_self, by simp_all⟩
    · obtain ⟨x, hx, hn⟩ := ih h
      exact ⟨x, List.mem_cons_of_mem _ hx, hn⟩

/-- The ancestors from a parent upwards, nearest first. The walk ends at a name that is not in the
index or was passed before. -/
def chain (index : Index) (parent : Option String) : List Symbol :=
  match parent with
  | none => []
  | some name =>
    if name.isEmpty then []
    else match h : index.lookup name with
      | none => []
      | some s =>
        have := Index.length_without_lt h
        s :: chain (index.without name) s.memberof
termination_by index.length

def ancestorLink (r : Registry) (cssClass : Option String) (s : Symbol) : String :=
  r.linkTo s.longname (some (scopeMark s.scope ++ s.name)) cssClass none

/-- The breadcrumbs of a symbol; the nearest is followed by the mark of the symbol's own scope. -/
def ancestorLinks (index : Index) (r : Registry) (cssClass : Option String) (s : Symbol) :
    List String :=
  match (chain index s.memberof).map (ancestorLink r cssClass) with
  | [] => []
  | nearest :: others => ((nearest ++ scopeMark s.scope) :: others).reverse

def addAncestors (r : Registry) (symbols : List Symbol) : List Symbol :=
  symbols.map fun s => { s with ancestors := ancestorLinks (firstIndex symbols) r none s }

end Refsite.Symbol
