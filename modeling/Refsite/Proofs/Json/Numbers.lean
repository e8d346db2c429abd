import Mathlib.Data.List.TakeDrop
import Refsite.Json.Parser
import Refsite.Json.Printer
namespace Refsite.Json.Parser

/-- What may stand behind a written value: nothing, a comma or a line end. -/
def Stops (rest : List Char) : Prop := ∀ c ∈ rest.head?, c = ',' ∨ c = '\n'

theorem stops_nil : Stops [] := by simp [Stops]

theorem stops_comma (rest : List Char) : Stops (',' :: rest) := by simp [Stops]

theorem stops_line (rest : List Char) : Stops ('\n' :: rest) := by simp [Stops]

/-- The text does not go on with a digit. -/
def EndsDigits (rest : List Char) : Prop := ∀ c ∈ rest.head?, c.isDigit = false

theorem Stops.endsDigits {rest : List Char} (h : Stops rest) : EndsDigits rest := by
  intro c hc
  obtain rfl | rfl := h c hc <;> rfl

theorem digits_eq (text : List Char) :
    digits text = (text.takeWhile Char.isDigit, text.dropWhile Char.isDigit) :=
  List.span_eq_takeWhile_dropWhile Char.isDigit text

theorem digits_append {ds rest : List Char} (hdigits : ∀ c ∈ ds, c.isDigit)
    (hrest : EndsDigits rest) : digits (ds ++ rest) = (ds, rest) := by
  rw [digits_eq, List.takeWhile_append_of_pos hdigits, List.dropWhile_append_of_pos hdigits]
  cases rest with
  | nil => simp
  | cons c rest => simp [hrest c rfl]

/-- The digits after a point as they are written. -/
def pointed : Option (List Char) → List Char
  | none => []
  | some ds => '.' :: ds

/-- A signed power of ten as it is written. -/
def powered : Option (Bool × List Char) → List Char
  | none => []
  | some (negative, ds) => 'e' :: (if negative then '-' else '+') :: ds

def powerOf : Bool × List Char → Int
  | (true, ds) => -(number ds : Int)
  | (false, ds) => number ds

def AreDigits (ds : List Char) : Prop := ds ≠ [] ∧ ∀ c ∈ ds, c.isDigit

theorem endsDigits_powered (power : Option (Bool × List Char)) {rest : List Char}
    (hrest : Stops rest) : EndsDigits (powered power ++ rest) := by
  cases power with
  | none => simpa [powered] using hrest.endsDigits
  | some p =>
    intro c hc
    simp only [powered, List.cons_append, List.head?_cons, Option.mem_def, Option.some.injEq] at hc
    subst hc
    rfl

theorem endsDigits_pointed (part : Option (List Char)) (power : Option (Bool × List Char))
    {rest : List Char} (hrest : Stops rest) :
    EndsDigits (pointed part ++ (powered power ++ rest)) := by
  cases part with
  | none => simpa [pointed] using endsDigits_powered power hrest
  | some ds =>
    intro c hc
    simp only [pointed, List.cons_append, List.head?_cons, Option.mem_def, Option.some.injEq] at hc
    subst hc
    rfl

theorem exponent_powered {power : Option (Bool × List Char)} {rest : List Char}
    (hpower : ∀ p ∈ power, AreDigits p.2) (hrest : Stops rest) :
    exponent (powered power ++ rest) = some (power.map powerOf, rest) := by
  cases power with
  | none =>
    cases rest with
    | nil => rfl
    | cons c rest =>
      obtain rfl | rfl := hrest c rfl <;> rfl
  | some p =>
    obtain ⟨negative, ds⟩ := p
    obtain ⟨hne, hdigits⟩ : AreDigits ds := hpower _ rfl
    have hread := digits_append hdigits hrest.endsDigits
    cases ds with
    | nil => exact absurd rfl hne
    | cons d ds =>
      cases negative
      all_goals
        simp only [powered, List.cons_append, exponent, signedDigits, Bool.false_eq_true, if_true,
          if_false] at hread ⊢
        rw [hread]
        rfl

theorem fraction_pointed {part : Option (List Char)} {power : Option (Bool × List Char)}
    {rest : List Char} (hpart : ∀ ds ∈ part, AreDigits ds) (hrest : Stops rest) :
    fraction (pointed part ++ (powered power ++ rest)) = some (part, powered power ++ rest) := by
  cases part with
  | none =>
    simp only [pointed, List.nil_append]
    cases power with
    | none =>
      cases rest with
      | nil => rfl
      | cons c rest =>
        obtain rfl | rfl := hrest c rfl <;> rfl
    | some p => rfl
  | some ds =>
    obtain ⟨hne, hdigits⟩ := hpart _ rfl
    have hread := digits_append hdigits (endsDigits_powered power hrest)
    cases ds with
    | nil => exact absurd rfl hne
    | cons d ds => simp only [pointed, List.cons_append, fraction] at hread ⊢; rw [hread]

/-- How a number is read whose parts are written one behind the other. -/
theorem unsigned_parts (wide : WideIntegers) (negative : Bool) {whole : List Char}
    (part : Option (List Char)) (power : Option (Bool × List Char)) {rest : List Char}
    (hwhole : AreDigits whole) (hlead : whole.head? = some '0' → whole.length = 1)
    (hpart : ∀ ds ∈ part, AreDigits ds) (hpower : ∀ p ∈ power, AreDigits p.2)
    (hrest : Stops rest) :
    unsigned wide negative (whole ++ (pointed part ++ (powered power ++ rest))) =
      if part.isNone && power.isNone then
        (integer wide negative (number whole)).map (·, rest)
      else
        (Binary64.ofDecimal? negative (number (whole ++ part.getD []))
          ((power.map powerOf).getD 0 - (part.getD []).length)).map fun x => (.float x, rest) := by
  have hread := digits_append hwhole.2 (endsDigits_pointed part power hrest)
  have hempty : whole.isEmpty = false := by simpa using hwhole.1
  have hzero : (whole.head? == some '0' && decide (whole.length > 1)) = false := by
    by_cases h : whole.head? = some '0'
    · simp [h, hlead h]
    · simp [h]
  simp only [unsigned, hread, hempty, hzero, Bool.or_self, Bool.false_eq_true, if_false,
    fraction_pointed hpart hrest, exponent_powered hpower hrest, Option.bind_eq_bind,
    Option.bind_some, Option.isNone_map]
  split
  · cases integer wide negative (number whole) <;> rfl
  · cases Binary64.ofDecimal? negative (number (whole ++ part.getD []))
      ((power.map powerOf).getD 0 - (part.getD []).length) <;> rfl

theorem areDigits_toDigits (n : Nat) : AreDigits (Nat.toDigits 10 n) :=
  ⟨Nat.toDigits_ne_nil, fun _ h => Nat.isDigit_of_mem_toDigits (by decide) (by decide) h⟩

theorem number_toDigits (n : Nat) : number (Nat.toDigits 10 n) = n := by
  have h : Nat.ofDigitChars 10 (Nat.toDigits 10 n) 0 = n := Nat.ofDigitChars_ten_toDigits
  rwa [Nat.ofDigitChars_eq_foldl] at h

theorem head?_toDigits {n : Nat} (h : (Nat.toDigits 10 n).head? = some '0') : n = 0 := by
  induction n using Nat.strongRecOn with
  | ind n ih =>
    by_cases hn : n < 10
    · rw [Nat.toDigits_of_lt_base hn] at h
      have hall : ∀ n < 10, [Nat.digitChar n].head? = some '0' → n = 0 := by decide
      exact hall n hn h
    · have hne : Nat.toDigits 10 (n / 10) ≠ [] := Nat.toDigits_ne_nil
      rw [Nat.toDigits_of_base_le (by decide) (by omega), List.head?_append,
        List.head?_eq_some_head hne, Option.some_or, ← List.head?_eq_some_head hne] at h
      have := ih (n / 10) (by omega) h
      omega

theorem length_toDigits_of_head? {n : Nat} (h : (Nat.toDigits 10 n).head? = some '0') :
    (Nat.toDigits 10 n).length = 1 := by
  rw [head?_toDigits h]
  rfl

theorem writeInt_eq (n : Int) :
    writeInt n = (if n < 0 then ['-'] else []) ++ Nat.toDigits 10 n.natAbs := by
  have hdigits (m : Nat) : (Nat.repr m).toList = Nat.toDigits 10 m := by
    rw [Nat.repr, String.toList_ofList]
  cases n with
  | ofNat m => simp [writeInt, toString, Int.repr, hdigits m]
  | negSucc m =>
    simp only [writeInt, toString, Int.repr, String.toList_append, hdigits, Int.negSucc_lt_zero,
      if_true, Int.natAbs_negSucc]
    rfl

theorem integer_narrow {wide : WideIntegers} {negative : Bool} {m : Nat}
    (h : isNarrowInt (if negative then -m else m) = true) :
    integer wide negative m = some (.int (if negative then -m else m)) := by
  simp [integer, h]

theorem unsigned_toDigits (wide : WideIntegers) {negative : Bool} {m : Nat} {rest : List Char}
    (h : isNarrowInt (if negative then -m else m) = true) (hrest : Stops rest) :
    unsigned wide negative (Nat.toDigits 10 m ++ rest) =
      some (.int (if negative then -m else m), rest) := by
  have hread := unsigned_parts wide negative none none (areDigits_toDigits m)
    length_toDigits_of_head? nofun nofun hrest
  simpa [pointed, powered, number_toDigits, integer_narrow h] using hread

theorem value_digit {wide : WideIntegers} {fuel depth : Nat} {c : Char} {text : List Char}
    (h : c.isDigit) :
    value wide (fuel + 1) depth (c :: text) = unsigned wide false (c :: text) := by
  have hne {d : Char} (hd : d.isDigit = false) : c ≠ d := by
    rintro rfl
    simp [h] at hd
  have hskip : skipSpace (c :: text) = c :: text := by
    simp [skipSpace, isSpace, hne (d := ' '), hne (d := '\t'), hne (d := '\n'), hne (d := '\r')]
  rw [value, hskip]
  split
  case h_1 heq => exact absurd (List.cons.inj heq).1 (hne rfl)
  case h_2 heq => exact absurd (List.cons.inj heq).1 (hne rfl)
  case h_3 heq => exact absurd (List.cons.inj heq).1 (hne rfl)
  case h_4 heq => exact absurd (List.cons.inj heq).1 (hne rfl)
  case h_5 heq =>
    obtain ⟨rfl, rfl⟩ := List.cons.inj heq
    rw [if_pos h]
  case h_6 heq => simp at heq

theorem value_of_unsigned {wide : WideIntegers} {text : List Char} {r : Json × List Char}
    (h : unsigned wide false text = some r) {fuel depth : Nat} :
    value wide (fuel + 1) depth text = some r := by
  cases text with
  | nil => simp [unsigned, digits_eq] at h
  | cons c text =>
    by_cases hc : c.isDigit
    · rw [value_digit hc, h]
    · simp [unsigned, digits_eq, hc] at h

theorem value_minus (wide : WideIntegers) (fuel depth : Nat) (text : List Char) :
    value wide (fuel + 1) depth ('-' :: text) = unsigned wide true text := rfl

end Refsite.Json.Parser
