import Refsite.Json.Printer
import Refsite.Proofs.Decimal.Rounding
namespace Refsite.Json

mutual

/-- The value with the entries of every object in the order of their names. -/
def sorted : Json → Json
  | .array items => .array (sortedItems items)
  | .object entries => .object (sortByName (sortedEntries entries))
  | x => x

def sortedItems : List Json → List Json
  | [] => []
  | x :: items => sorted x :: sortedItems items

def sortedEntries : Entries → Entries
  | [] => []
  | (name, x) :: entries => (name, sorted x) :: sortedEntries entries

end

/-- The values that a reader makes: no object has two entries of one name, and floats are normal. -/
inductive Tidy : Json → Prop
  | null : Tidy .null
  | bool (b : Bool) : Tidy (.bool b)
  | int (n : Int) : Tidy (.int n)
  | float {x : Binary64} (normal : x.Normal) : Tidy (.float x)
  | string (s : String) : Tidy (.string s)
  | array {items : List Json} (tidy : ∀ x ∈ items, Tidy x) : Tidy (.array items)
  | object {entries : Entries} (distinct : (entries.map Prod.fst).Nodup)
      (tidy : ∀ e ∈ entries, Tidy e.2) : Tidy (.object entries)

attribute [simp] Tidy.null Tidy.bool Tidy.int Tidy.string

@[simp]
theorem sortedItems_eq (items : List Json) : sortedItems items = items.map sorted := by
  induction items with
  | nil => rfl
  | cons x items ih => simp [sortedItems, ih]

@[simp]
theorem sortedEntries_eq (entries : Entries) :
    sortedEntries entries = entries.map fun e => (e.1, e.2.sorted) := by
  induction entries with
  | nil => rfl
  | cons e entries ih => simp [sortedEntries, ih]

theorem writeItems_eq (depth : Nat) (items : List Json) :
    writeItems depth items = items.map (writeAt depth) := by
  induction items with
  | nil => rfl
  | cons x items ih => simp [writeItems, ih]

theorem writeEntries_eq (depth : Nat) (entries : Entries) :
    writeEntries depth entries = entries.map fun e => (e.1, writeAt depth e.2) := by
  induction entries with
  | nil => rfl
  | cons e entries ih => simp [writeEntries, ih]

theorem sortByName_map {α β : Type} (f : α → β) (entries : List (String × α)) :
    sortByName (entries.map fun e => (e.1, f e.2)) =
      (sortByName entries).map fun e => (e.1, f e.2) := by
  unfold sortByName
  symm
  apply List.map_mergeSort
  intros
  rfl

theorem areNarrow_iff (items : List Json) : areNarrow items ↔ ∀ x ∈ items, x.isNarrow := by
  induction items with
  | nil => simp [areNarrow]
  | cons x items ih => simp [areNarrow, ih]

theorem entriesAreNarrow_iff (entries : Entries) :
    entriesAreNarrow entries ↔ ∀ e ∈ entries, e.2.isNarrow := by
  induction entries with
  | nil => simp [entriesAreNarrow]
  | cons e entries ih => simp [entriesAreNarrow, ih]

theorem nestingOfItems_le_iff (items : List Json) (n : Nat) :
    nestingOfItems items ≤ n ↔ ∀ x ∈ items, x.nesting ≤ n := by
  induction items with
  | nil => simp [nestingOfItems]
  | cons x items ih => simp [nestingOfItems, ih]

theorem nestingOfEntries_le_iff (entries : Entries) (n : Nat) :
    nestingOfEntries entries ≤ n ↔ ∀ e ∈ entries, e.2.nesting ≤ n := by
  induction entries with
  | nil => simp [nestingOfEntries]
  | cons e entries ih => simp [nestingOfEntries, ih]

theorem isPrintable_array_iff (items : List Json) :
    (array items).isPrintable ↔ ∀ x ∈ items, x.isNarrow ∧ x.nesting + 1 ≤ printingLimit := by
  have hlimit : ∀ n, n + 1 ≤ printingLimit ↔ n ≤ 253 := by
    intro n
    rw [printingLimit]
    omega
  simp only [hlimit, isPrintable, isNarrow, nesting, Bool.and_eq_true, decide_eq_true_eq,
    areNarrow_iff, nestingOfItems_le_iff]
  exact ⟨fun h x hx => ⟨h.1 x hx, h.2 x hx⟩,
    fun h => ⟨fun x hx => (h x hx).1, fun x hx => (h x hx).2⟩⟩

theorem exists_print_iff (x : Json) : (∃ text, x.print = .ok text) ↔ x.isPrintable := by
  rw [print]
  split
  · next h => exact ⟨fun _ => h, fun _ => ⟨_, rfl⟩⟩
  · next h => exact ⟨nofun, fun hprint => absurd hprint h⟩

/-- Items that can be printed can be printed in any order. -/
theorem exists_print_of_perm {items others : List Json} (h : items.Perm others) {text : String}
    (hprint : (array items).print = .ok text) : ∃ other, (array others).print = .ok other := by
  have hall := (isPrintable_array_iff items).mp ((exists_print_iff _).mp ⟨text, hprint⟩)
  apply (exists_print_iff _).mpr
  apply (isPrintable_array_iff others).mpr
  intro x hx
  exact hall x (h.mem_iff.mpr hx)

theorem Entries.put_of_not_mem {entries : Entries} {name : String} {value : Json}
    (h : name ∉ entries.map Prod.fst) : entries.put name value = entries ++ [(name, value)] := by
  induction entries with
  | nil => rfl
  | cons e entries ih =>
    simp only [List.map_cons, List.mem_cons, not_or] at h
    simp [Entries.put, Ne.symm h.1, ih h.2]

end Refsite.Json
