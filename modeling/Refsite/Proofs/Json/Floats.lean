import Mathlib.Tactic.SplitIfs
import Refsite.Proofs.Decimal.Shortest
import Refsite.Proofs.Json.Numbers
namespace Refsite.Json.Parser

open Binary64 (Decimal Layout zeros scientific ofDecimal?)

theorem number_append (front back : List Char) :
    number (front ++ back) = 10 ^ back.length * number front + number back := by
  have h : Nat.ofDigitChars 10 (front ++ back) 0 =
      10 ^ back.length * Nat.ofDigitChars 10 front 0 + Nat.ofDigitChars 10 back 0 := by
    rw [Nat.ofDigitChars_append, Nat.ofDigitChars_eq_ofDigitChars_zero]
  exact h

theorem number_zeros (n : Nat) : number (zeros n) = 0 := by
  have h : Nat.ofDigitChars 10 (List.replicate n '0') 0 = 0 := by
    rw [Nat.ofDigitChars_replicate_zero, Nat.mul_zero]
  exact h

theorem length_zeros (n : Nat) : (zeros n).length = n := List.length_replicate

theorem isDigit_of_mem_zeros {n : Nat} {c : Char} (h : c ∈ zeros n) : c.isDigit := by
  rw [List.eq_of_mem_replicate h]
  rfl

/-- A text is read as a decimal: in its digits and its scale only the value matters. -/
def ReadsAs (text : List Char) (value : ℚ) : Prop :=
  ∀ (wide : WideIntegers) (negative : Bool) (rest : List Char), Stops rest → ∃ n s,
    unsigned wide negative (text ++ rest) =
      (ofDecimal? negative n s).map (fun x => (.float x, rest)) ∧ (n : ℚ) * 10 ^ s = value

theorem readsAs_parts {whole : List Char} (part : Option (List Char))
    (power : Option (Bool × List Char)) {value : ℚ} (hwhole : AreDigits whole)
    (hlead : whole.head? = some '0' → whole.length = 1) (hpart : ∀ ds ∈ part, AreDigits ds)
    (hpower : ∀ p ∈ power, AreDigits p.2) (hfloat : (part.isNone && power.isNone) = false)
    (hvalue : (number (whole ++ part.getD []) : ℚ) *
      10 ^ ((power.map powerOf).getD 0 - (part.getD []).length) = value) :
    ReadsAs (whole ++ (pointed part ++ powered power)) value := by
  intro wide negative rest hrest
  refine ⟨_, _, ?_, hvalue⟩
  rw [List.append_assoc, List.append_assoc, unsigned_parts wide negative part power hwhole hlead
    hpart hpower hrest, hfloat, if_neg (by decide)]

theorem powerOf_toDigits (p : Int) : powerOf (decide (p < 0), Nat.toDigits 10 p.natAbs) = p := by
  by_cases h : p < 0
  · simp only [h, decide_true, powerOf, number_toDigits]
    omega
  · simp only [h, decide_false, powerOf, number_toDigits]
    omega

section Layout

variable {d : Decimal} {ds : List Char} (hds : Nat.toDigits 10 d.digits = ds)
  (hpos : 0 < d.digits)

include hds

theorem number_digits : number ds = d.digits := hds ▸ number_toDigits d.digits

theorem areDigits_digits : AreDigits ds := hds ▸ areDigits_toDigits d.digits

theorem readsAs_small {count : Nat} (hscale : d.scale = -(count + ds.length : Int)) :
    ReadsAs ('0' :: '.' :: zeros count ++ ds) d.value := by
  obtain ⟨hne, hdigits⟩ := areDigits_digits hds
  have htext : '0' :: '.' :: zeros count ++ ds =
      ['0'] ++ (pointed (some (zeros count ++ ds)) ++ powered none) := by
    simp [pointed, powered]
  rw [htext]
  apply readsAs_parts
  · exact ⟨by simp, by simp⟩
  · simp
  · rintro part ⟨rfl⟩
    refine ⟨by simp [hne], fun c hc => ?_⟩
    obtain hc | hc := List.mem_append.mp hc
    · exact isDigit_of_mem_zeros hc
    · exact hdigits c hc
  · intro part h
    cases h
  · rfl
  · have hnumber : number (['0'] ++ (some (zeros count ++ ds)).getD []) = d.digits := by
      rw [Option.getD_some, number_append, number_append, number_zeros, number_digits hds]
      simp [number]
    have hlength : ((none : Option (Bool × List Char)).map powerOf).getD 0 -
        ((some (zeros count ++ ds)).getD []).length = d.scale := by
      rw [hscale]
      simp [length_zeros]
    rw [hnumber, hlength]
    rfl

/-- One digit stands before the point, and the power of ten behind a mark. -/
theorem readsAs_powered {p : Int} (hp : p = ds.length + d.scale - 1) :
    ReadsAs (scientific ds ++ powered (some (decide (p < 0), Nat.toDigits 10 p.natAbs)))
      d.value := by
  obtain ⟨hne, hdigits⟩ := areDigits_digits hds
  have hnumber := number_digits hds
  have hpower : ∀ q ∈ some (decide (p < 0), Nat.toDigits 10 p.natAbs), AreDigits q.2 := by
    rintro q ⟨rfl⟩
    exact areDigits_toDigits _
  match ds with
  | [] => exact absurd rfl hne
  | [c] =>
    apply readsAs_parts none _ ⟨by simp, hdigits⟩ (by simp) nofun hpower rfl
    simp only [Option.getD_none, List.append_nil, hnumber, Option.map_some, powerOf_toDigits,
      Option.getD_some]
    rw [Decimal.value, hp]
    simp
  | c :: c' :: rest =>
    have hread : ReadsAs ([c] ++ (pointed (some (c' :: rest)) ++
        powered (some (decide (p < 0), Nat.toDigits 10 p.natAbs)))) d.value := by
      apply readsAs_parts
      · exact ⟨by simp, by simpa using hdigits c (by simp)⟩
      · simp
      · rintro part ⟨rfl⟩
        exact ⟨by simp, fun x hx => hdigits x (List.mem_cons_of_mem c hx)⟩
      · exact hpower
      · rfl
      · simp only [Option.getD_some, List.singleton_append, hnumber, Option.map_some,
          powerOf_toDigits]
        rw [Decimal.value, hp]
        congr 2
        simp
        omega
    simpa [pointed, scientific] using hread

include hpos

theorem head?_digits : ds.head? ≠ some '0' := by
  intro h
  rw [← hds] at h
  have := head?_toDigits h
  omega

/-- An integer: zeros stand behind the digits, and one behind the point. -/
theorem readsAs_whole {count : Nat} (hscale : d.scale = count) :
    ReadsAs (ds ++ zeros count ++ '.' :: ['0']) d.value := by
  obtain ⟨hne, hdigits⟩ := areDigits_digits hds
  have htext : ds ++ zeros count ++ '.' :: ['0'] =
      (ds ++ zeros count) ++ (pointed (some ['0']) ++ powered none) := by
    simp [pointed, powered]
  rw [htext]
  apply readsAs_parts
  · refine ⟨by simp [hne], fun c hc => ?_⟩
    obtain hc | hc := List.mem_append.mp hc
    · exact hdigits c hc
    · exact isDigit_of_mem_zeros hc
  · intro h
    rw [List.head?_append_of_ne_nil _ hne] at h
    exact absurd h (head?_digits hds hpos)
  · rintro part ⟨rfl⟩
    exact ⟨by simp, by simp⟩
  · intro part h
    cases h
  · rfl
  · have hnumber : number ((ds ++ zeros count) ++ (some ['0']).getD []) =
        10 * (10 ^ count * d.digits) := by
      rw [Option.getD_some, number_append, number_append, number_zeros, number_digits hds,
        length_zeros]
      simp [number]
    rw [hnumber, Decimal.value, hscale, zpow_natCast]
    simp only [Option.map_none, Option.getD_none, Option.getD_some, List.length_singleton]
    push_cast
    norm_num
    ring

theorem readsAs_mixed {place : Nat} (hplace : 0 < place) (hlt : place < ds.length)
    (hscale : d.scale = -(ds.length - place : Nat)) :
    ReadsAs (ds.take place ++ '.' :: ds.drop place) d.value := by
  obtain ⟨hne, hdigits⟩ := areDigits_digits hds
  have htext : ds.take place ++ '.' :: ds.drop place =
      ds.take place ++ (pointed (some (ds.drop place)) ++ powered none) := by
    simp [pointed, powered]
  rw [htext]
  apply readsAs_parts
  · exact ⟨by simp [hne, hplace.ne'], fun c hc => hdigits c (List.mem_of_mem_take hc)⟩
  · intro h
    rw [List.head?_take, if_neg hplace.ne'] at h
    exact absurd h (head?_digits hds hpos)
  · rintro part ⟨rfl⟩
    exact ⟨by simpa using hlt, fun c hc => hdigits c (List.mem_of_mem_drop hc)⟩
  · intro part h
    cases h
  · rfl
  · rw [Option.getD_some, List.take_append_drop, number_digits hds, Decimal.value, hscale]
    simp

end Layout

theorem readsAs_place {d : Decimal} (hpos : 0 < d.digits) :
    ReadsAs (floatLayout.place (Nat.toDigits 10 d.digits)
      ((Nat.toDigits 10 d.digits).length + d.scale)) d.value := by
  obtain ⟨ds, hds⟩ : ∃ ds, Nat.toDigits 10 d.digits = ds := ⟨_, rfl⟩
  obtain ⟨place, hplace⟩ : ∃ p, (ds.length : Int) + d.scale = p := ⟨_, rfl⟩
  rw [hds, hplace]
  unfold Layout.place
  split_ifs with hrange hle
  · exact readsAs_small hds (by omega)
  · simp only []
    by_cases hlong : ds.length ≤ place.toNat
    · rw [List.take_of_length_le hlong, List.drop_of_length_le hlong]
      exact readsAs_whole hds hpos (by omega)
    · have hzeros : place.toNat - ds.length = 0 := by omega
      have hrest : (ds.drop place.toNat).isEmpty = false := by
        simpa using Nat.not_le.mp hlong
      rw [hzeros, hrest, zeros, List.replicate_zero, List.append_nil]
      exact readsAs_mixed hds hpos (by omega) (by omega) (by omega)
  · have hwidth : floatLayout.exponentWidth - (Nat.toDigits 10 (place - 1).natAbs).length = 0 := by
      have := List.length_pos_iff.mpr (areDigits_toDigits (place - 1).natAbs).1
      simp only [floatLayout]
      omega
    have hread := readsAs_powered hds (show place - 1 = ds.length + d.scale - 1 by omega)
    simp only []
    rw [hwidth]
    simpa [powered, zeros] using hread

theorem unsigned_write {x : Binary64} (h : x.Normal) (wide : WideIntegers) {rest : List Char}
    (hrest : Stops rest) :
    ∃ body, x.write floatLayout = (if x.negative then ['-'] else []) ++ body ∧
      unsigned wide x.negative (body ++ rest) = some (.float x, rest) := by
  obtain ⟨negative, m, e⟩ := x
  by_cases hm : m = 0
  · subst hm
    obtain rfl : e = Binary64.leastExponent := by simpa using h.full
    refine ⟨['0', '.', '0'], ?_, ?_⟩
    · cases negative <;> rfl
    · have hzero : ReadsAs (['0'] ++ (pointed (some ['0']) ++ powered none)) 0 := by
        apply readsAs_parts <;> simp [AreDigits, number]
      obtain ⟨n, s, hread, hvalue⟩ := hzero wide negative rest hrest
      obtain rfl : n = 0 := by
        have hten : (10 : ℚ) ^ s ≠ 0 := by positivity
        simpa [hten] using hvalue
      exact hread
  · have hpos : 0 < m := Nat.pos_of_ne_zero hm
    have hdigits := Binary64.digits_shortest_pos hpos h.mantissa_lt e
    obtain ⟨n, s, hread, hvalue⟩ := readsAs_place hdigits wide negative rest hrest
    have hrounds := Binary64.roundsTo_shortest hpos h.mantissa_lt e
    rw [← hvalue] at hrounds
    refine ⟨_, ?_, hread.trans ?_⟩
    · have hzero : (m == 0) = false := by simpa using hm
      simp only [Binary64.write, Binary64.isZero, hzero]
      cases negative <;> rfl
    · rw [Binary64.ofDecimal?_of_roundsTo h hpos hrounds]
      rfl

theorem value_write {x : Binary64} (h : x.Normal) {wide : WideIntegers} {fuel depth : Nat}
    {rest : List Char} (hrest : Stops rest) :
    value wide (fuel + 1) depth (x.write floatLayout ++ rest) = some (.float x, rest) := by
  obtain ⟨body, hbody, hread⟩ := unsigned_write h wide hrest
  rw [hbody]
  cases hneg : x.negative with
  | true =>
    rw [if_pos rfl, List.append_assoc, List.singleton_append, value_minus, ← hneg, hread]
  | false =>
    rw [hneg] at hread
    rw [if_neg (by decide), List.nil_append, value_of_unsigned hread]

end Refsite.Json.Parser
