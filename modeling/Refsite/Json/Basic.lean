import Refsite.Decimal.Binary64
namespace Refsite

inductive Json where
  | null
  | bool (value : Bool)
  | int (value : Int)
  | float (value : Binary64)
  | string (value : String)
  | array (items : List Json)
  | object (entries : List (String × Json))
  deriving Repr, Inhabited

namespace Json

mutual

def same : Json → Json → Bool
  | .null, .null => true
  | .bool a, .bool b => a == b
  | .int a, .int b => a == b
  | .float a, .float b => a == b
  | .string a, .string b => a == b
  | .array xs, .array ys => sameItems xs ys
  | .object xs, .object ys => sameEntries xs ys
  | _, _ => false

def sameItems : List Json → List Json → Bool
  | [], [] => true
  | x :: xs, y :: ys => same x y && sameItems xs ys
  | _, _ => false

def sameEntries : List (String × Json) → List (String × Json) → Bool
  | [], [] => true
  | (a, x) :: xs, (b, y) :: ys => a == b && same x y && sameEntries xs ys
  | _, _ => false

end

mutual

theorem same_iff (x y : Json) : same x y = true ↔ x = y := by
  cases x <;> cases y <;> simp [same, sameItems_iff, sameEntries_iff]

theorem sameItems_iff (xs ys : List Json) : sameItems xs ys = true ↔ xs = ys := by
  cases xs <;> cases ys <;> simp [sameItems, same_iff, sameItems_iff]

theorem sameEntries_iff (xs ys : List (String × Json)) : sameEntries xs ys = true ↔ xs = ys := by
  cases xs <;> cases ys <;> simp [sameEntries, same_iff, sameEntries_iff, Prod.ext_iff]

end

instance : DecidableEq Json := fun x y => decidable_of_iff _ (same_iff x y)

abbrev Entries := List (String × Json)

def Entries.find? (entries : Entries) (name : String) : Option Json := entries.lookup name

/-- Gives a name a value: in place where the name is there already, else at the end. -/
def Entries.put : Entries → String → Json → Entries
  | [], name, value => [(name, value)]
  | (other, old) :: entries, name, value =>
    if other == name then (other, value) :: entries else (other, old) :: put entries name value

theorem Entries.mem_of_find? {entries : Entries} {name : String} {value : Json}
    (h : entries.find? name = some value) : (name, value) ∈ entries := by
  induction entries with
  | nil => simp [Entries.find?] at h
  | cons e entries ih =>
    obtain ⟨other, old⟩ := e
    simp only [Entries.find?, List.lookup_cons] at h ih
    split at h
    · next heq =>
      have := eq_of_beq heq
      simp_all
    · exact List.mem_cons_of_mem _ (ih h)

theorem sizeOf_lt_of_find? {entries : Entries} {name : String} {value : Json}
    (h : entries.find? name = some value) : sizeOf value < sizeOf (Json.object entries) := by
  have hm := List.sizeOf_lt_of_mem (Entries.mem_of_find? h)
  simp only [Prod.mk.sizeOf_spec, Json.object.sizeOf_spec] at *
  omega

theorem sizeOf_lt_of_mem {items : List Json} {value : Json} (h : value ∈ items) :
    sizeOf value < sizeOf (Json.array items) := by
  have := List.sizeOf_lt_of_mem h
  simp only [Json.array.sizeOf_spec]
  omega

/-- Whether an integer fits 64 bits, with a sign or without. -/
def isNarrowInt (n : Int) : Bool := -0x8000000000000000 ≤ n && n < 0x10000000000000000

/-- Null, false, zero and what is empty count as absent. -/
def isPresent : Json → Bool
  | null => false
  | bool b => b
  | int n => n != 0
  | float x => !x.isZero
  | string s => !s.isEmpty
  | array items => !items.isEmpty
  | object entries => !entries.isEmpty

def isNull : Json → Bool
  | null => true
  | _ => false

def ofStrings (texts : List String) : Json := array (texts.map string)

def ofOption {α : Type} (f : α → Json) : Option α → Json
  | none => null
  | some a => f a

mutual

def nesting : Json → Nat
  | .array items => nestingOfItems items + 1
  | .object entries => nestingOfEntries entries + 1
  | _ => 0

def nestingOfItems : List Json → Nat
  | [] => 0
  | x :: items => max (nesting x) (nestingOfItems items)

def nestingOfEntries : List (String × Json) → Nat
  | [] => 0
  | (_, x) :: entries => max (nesting x) (nestingOfEntries entries)

end

end Json

end Refsite
