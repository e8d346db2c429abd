import Mathlib.Algebra.Order.Field.Power
import Mathlib.Data.Rat.Cast.Order
import Mathlib.Tactic.FieldSimp
import Mathlib.Tactic.Linarith
import Mathlib.Tactic.NormNum
import Mathlib.Tactic.Positivity
import Mathlib.Tactic.Qify
import Mathlib.Tactic.Ring
import Refsite.Decimal.Shortest
namespace Refsite.Binary64

/-- The numbers that a reader makes: the mantissa is full, or the exponent the least. -/
structure Normal (x : Binary64) : Prop where
  mantissa_lt : x.mantissa < 2 ^ 53
  least : leastExponent ≤ x.exponent
  greatest : x.exponent ≤ greatestExponent
  full : x.exponent = leastExponent ∨ 2 ^ 52 ≤ x.mantissa

/-- The value is rounded to the mantissa `m` at the exponent `e`. -/
structure RoundsTo (m : Nat) (e : Int) (q : ℚ) : Prop where
  low : (4 * m - gapBelow m e) * (2 : ℚ) ^ (e - 2) ≤ q
  high : q ≤ (4 * m + 2) * (2 : ℚ) ^ (e - 2)
  odd : m % 2 = 1 → (4 * m - gapBelow m e) * (2 : ℚ) ^ (e - 2) < q ∧
    q < (4 * m + 2) * (2 : ℚ) ^ (e - 2)

theorem twoTo_eq (n : Nat) : twoTo n = 2 ^ n := rfl

theorem tenTo_eq (n : Nat) : tenTo n = 10 ^ n := rfl

theorem gapBelow_edge {m : Nat} {e : Int} (hm : m = 2 ^ 52) (he : leastExponent < e) :
    gapBelow m e = 1 := by
  rw [gapBelow, if_pos]
  simpa [hm, twoTo_eq] using he

theorem gapBelow_inner {m : Nat} {e : Int} (h : ¬(m = 2 ^ 52 ∧ leastExponent < e)) :
    gapBelow m e = 2 := by
  rw [gapBelow, if_neg]
  simpa [twoTo_eq] using h

theorem pow_toNat_eq {b : ℚ} (hb : b ≠ 0) (e : Int) : b ^ e.toNat = b ^ e * b ^ (-e).toNat := by
  rw [← zpow_natCast, ← zpow_natCast, ← zpow_add₀ hb]
  congr 1
  omega

theorem divNearest_eq {num den m : Nat} (hden : 0 < den) (hlow : 2 * m * den ≤ 2 * num + den)
    (hhigh : 2 * num ≤ 2 * m * den + den)
    (hodd : m % 2 = 1 → 2 * m * den < 2 * num + den ∧ 2 * num < 2 * m * den + den) :
    divNearest num den = m := by
  have hdiv := Nat.div_add_mod num den
  have hmod := Nat.mod_lt num hden
  obtain ⟨q, hq⟩ : ∃ q, num / den = q := ⟨_, rfl⟩
  obtain ⟨r, hr⟩ : ∃ r, num % den = r := ⟨_, rfl⟩
  rw [hq, hr] at hdiv
  rw [hr] at hmod
  have hqm : q ≤ m := by
    by_contra h
    have : den * (m + 1) ≤ den * q := Nat.mul_le_mul_left den (by omega)
    linarith
  have hmq : m ≤ q + 1 := by
    by_contra h
    have : den * (q + 2) ≤ den * m := Nat.mul_le_mul_left den (by omega)
    linarith
  simp only [divNearest, hq, hr]
  obtain rfl | rfl : m = q ∨ m = q + 1 := by omega
  · have hdown : ¬(2 * r > den ∨ 2 * r = den ∧ m % 2 = 1) := by
      rintro (h | ⟨h, hm⟩)
      · linarith
      · linarith [(hodd hm).2]
    rw [if_neg (by simpa only [Bool.or_eq_true, decide_eq_true_eq, Bool.and_eq_true, beq_iff_eq]
      using hdown)]
  · have hup : 2 * r > den ∨ 2 * r = den ∧ q % 2 = 1 := by
      by_cases hm : (q + 1) % 2 = 1
      · left
        linarith [(hodd hm).1]
      · have : den ≤ 2 * r := by linarith
        omega
    rw [if_pos (by simpa only [Bool.or_eq_true, decide_eq_true_eq, Bool.and_eq_true, beq_iff_eq]
      using hup)]

theorem inUnits_eq {num den m : Nat} {e : Int} (hden : 0 < den)
    (hlow : (m - 1 / 2 : ℚ) * 2 ^ e ≤ (num : ℚ) / den)
    (hhigh : (num : ℚ) / den ≤ (m + 1 / 2 : ℚ) * 2 ^ e)
    (hodd : m % 2 = 1 → (m - 1 / 2 : ℚ) * 2 ^ e < (num : ℚ) / den ∧
      (num : ℚ) / den < (m + 1 / 2 : ℚ) * 2 ^ e) :
    inUnits num den e = m := by
  have hd : (0 : ℚ) < den := by exact_mod_cast hden
  have ha : (0 : ℚ) < 2 ^ (-e).toNat := by positivity
  have hpow : (2 : ℚ) ^ e.toNat = 2 ^ e * 2 ^ (-e).toNat := pow_toNat_eq (by norm_num) e
  rw [le_div_iff₀ hd] at hlow
  rw [div_le_iff₀ hd] at hhigh
  simp only [lt_div_iff₀ hd, div_lt_iff₀ hd] at hodd
  refine divNearest_eq (Nat.mul_pos hden (Nat.pow_pos (by decide))) ?_ ?_ fun hm => ⟨?_, ?_⟩
  all_goals
    qify [twoTo_eq]
    rw [hpow]
  · linarith [mul_le_mul_of_nonneg_right hlow ha.le]
  · linarith [mul_le_mul_of_nonneg_right hhigh ha.le]
  · linarith [mul_lt_mul_of_pos_right (hodd hm).1 ha]
  · linarith [mul_lt_mul_of_pos_right (hodd hm).2 ha]

theorem log2_quotient {num den : Nat} (hnum : 0 < num) (hden : 0 < den) :
    (2 : ℚ) ^ ((Nat.log2 num : Int) - Nat.log2 den - 1) < (num : ℚ) / den ∧
      (num : ℚ) / den < (2 : ℚ) ^ ((Nat.log2 num : Int) - Nat.log2 den + 1) := by
  have hn : (0 : ℚ) < num := by exact_mod_cast hnum
  have hd : (0 : ℚ) < den := by exact_mod_cast hden
  have hnlow : (2 : ℚ) ^ (Nat.log2 num : Int) ≤ num := by
    exact_mod_cast Nat.log2_self_le (by omega : num ≠ 0)
  have hnhigh : (num : ℚ) < 2 ^ ((Nat.log2 num : Int) + 1) := by
    exact_mod_cast Nat.lt_log2_self
  have hdlow : (2 : ℚ) ^ (Nat.log2 den : Int) ≤ den := by
    exact_mod_cast Nat.log2_self_le (by omega : den ≠ 0)
  have hdhigh : (den : ℚ) < 2 ^ ((Nat.log2 den : Int) + 1) := by
    exact_mod_cast Nat.lt_log2_self
  rw [lt_div_iff₀ hd, div_lt_iff₀ hd]
  constructor
  · calc (2 : ℚ) ^ ((Nat.log2 num : Int) - Nat.log2 den - 1) * den
        < 2 ^ ((Nat.log2 num : Int) - Nat.log2 den - 1) * 2 ^ ((Nat.log2 den : Int) + 1) := by
          gcongr
      _ = 2 ^ (Nat.log2 num : Int) := by
          rw [← zpow_add₀ (by norm_num)]
          congr 1
          omega
      _ ≤ num := hnlow
  · calc (num : ℚ) < 2 ^ ((Nat.log2 num : Int) + 1) := hnhigh
      _ = 2 ^ ((Nat.log2 num : Int) - Nat.log2 den + 1) * 2 ^ (Nat.log2 den : Int) := by
          rw [← zpow_add₀ (by norm_num)]
          congr 1
          omega
      _ ≤ 2 ^ ((Nat.log2 num : Int) - Nat.log2 den + 1) * den := by gcongr

theorem fullExponent_spec {num den : Nat} (hnum : 0 < num) (hden : 0 < den) :
    (2 : ℚ) ^ (fullExponent num den + 52) ≤ (num : ℚ) / den ∧
      (num : ℚ) / den < (2 : ℚ) ^ (fullExponent num den + 53) := by
  obtain ⟨hlow, hhigh⟩ := log2_quotient hnum hden
  obtain ⟨guess, hguess⟩ : ∃ g : Int, (Nat.log2 num : Int) - Nat.log2 den - 52 = g := ⟨_, rfl⟩
  rw [show (Nat.log2 num : Int) - Nat.log2 den - 1 = guess - 1 + 52 by omega] at hlow
  rw [show (Nat.log2 num : Int) - Nat.log2 den + 1 = guess + 53 by omega] at hhigh
  have hd : (0 : ℚ) < den := by exact_mod_cast hden
  have hfull : num * twoTo (-guess).toNat ≥ den * twoTo guess.toNat * twoTo 52 ↔
      (2 : ℚ) ^ (guess + 52) ≤ (num : ℚ) / den := by
    have ha : (0 : ℚ) < 2 ^ (-guess).toNat := by positivity
    have hpow : (2 : ℚ) ^ guess.toNat = 2 ^ guess * 2 ^ (-guess).toNat :=
      pow_toNat_eq (by norm_num) guess
    rw [le_div_iff₀ hd, ← mul_le_mul_iff_left₀ ha, zpow_add₀ (by norm_num), ge_iff_le]
    qify [twoTo_eq]
    rw [hpow, show (den : ℚ) * (2 ^ guess * 2 ^ (-guess).toNat) * 2 ^ 52 =
      2 ^ guess * 2 ^ (52 : Int) * den * 2 ^ (-guess).toNat by norm_num; ring]
  simp only [fullExponent, hguess]
  split
  · next h => exact ⟨hfull.mp h, hhigh⟩
  · next h =>
    have hless := lt_of_not_ge fun hge => h (hfull.mpr hge)
    exact ⟨hlow.le, by rwa [show guess - 1 + 53 = guess + 52 by omega]⟩

theorem ofMantissa?_of_lt {negative : Bool} {m : Nat} {e : Int} (hm : 0 < m) (hlt : m < 2 ^ 53)
    (he : e ≤ greatestExponent) : ofMantissa? negative m e = some ⟨negative, m, e⟩ := by
  have hne : (m == twoTo 53) = false := by simpa [twoTo_eq] using hlt.ne
  simp [ofMantissa?, hne, Int.not_lt.mpr he, hm.ne']

theorem ofMantissa?_full {negative : Bool} {e : Int} (he : e + 1 ≤ greatestExponent) :
    ofMantissa? negative (2 ^ 53) e = some ⟨negative, 2 ^ 52, e + 1⟩ := by
  rw [ofMantissa?, if_pos (by simp [twoTo_eq]), if_neg (Int.not_lt.mpr he), twoTo_eq]

section RoundsTo

variable {m : Nat} {e : Int} {q : ℚ}

theorem zpow_sub_two (e : Int) : (2 : ℚ) ^ (e - 2) = 2 ^ e / 4 := by
  rw [zpow_sub₀ (by norm_num)]
  norm_num

theorem RoundsTo.lt (h : RoundsTo m e q) (hm : m < 2 ^ 53) : q < 2 ^ (e + 53) := by
  have hle : (m : ℚ) ≤ 2 ^ 53 - 1 := by
    have : (m : ℚ) + 1 ≤ 2 ^ 53 := by exact_mod_cast hm
    linarith
  have hpos : (0 : ℚ) < 2 ^ e := by positivity
  have hhigh := h.high
  rw [zpow_sub_two] at hhigh
  rw [zpow_add₀ (by norm_num)]
  norm_num
  nlinarith

theorem gapBelow_of_odd (hm : m % 2 = 1) (e : Int) : gapBelow m e = 2 := by
  apply gapBelow_inner
  rintro ⟨rfl, -⟩
  exact absurd hm (by decide)

/-- Below the middle of two doubles, unless the lower one has a finer place. -/
theorem RoundsTo.half_le (h : RoundsTo m e q) (hfull : m = 2 ^ 52 → leastExponent < e →
    2 ^ (e + 52) ≤ q) : (m - 1 / 2 : ℚ) * 2 ^ e ≤ q := by
  have hpos : (0 : ℚ) < 2 ^ e := by positivity
  by_cases hedge : m = 2 ^ 52 ∧ leastExponent < e
  · obtain ⟨rfl, he⟩ := hedge
    have := hfull rfl he
    rw [zpow_add₀ (by norm_num)] at this
    norm_num at this ⊢
    linarith
  · have hlow := h.low
    rw [gapBelow_inner hedge, zpow_sub_two] at hlow
    push_cast at hlow
    linarith

/-- A mantissa above the least full one is full for every value that is rounded to it. -/
theorem RoundsTo.full_le (h : RoundsTo m e q) (hm : 2 ^ 52 < m) : 2 ^ (e + 52) ≤ q := by
  have hpos : (0 : ℚ) < 2 ^ e := by positivity
  have hlow := h.half_le fun heq => by omega
  have hge : (2 ^ 52 + 1 : ℚ) ≤ m := by exact_mod_cast hm
  calc (2 : ℚ) ^ (e + 52) = 2 ^ 52 * 2 ^ e := by
        rw [zpow_add₀ (by norm_num), mul_comm]
        norm_num
    _ ≤ (m - 1 / 2) * 2 ^ e := by
        gcongr
        linarith
    _ ≤ q := hlow

theorem RoundsTo.le (h : RoundsTo m e q) (hm : 0 < m) : (2 : ℚ) ^ (e - 1) ≤ q := by
  have hpos : (0 : ℚ) < 2 ^ e := by positivity
  have hone : (1 : ℚ) ≤ m := by exact_mod_cast hm
  have hgap : (gapBelow m e : ℚ) ≤ 2 := by
    rw [gapBelow]
    split <;> norm_num
  calc (2 : ℚ) ^ (e - 1) = 2 * (2 ^ e / 4) := by
        rw [zpow_sub₀ (by norm_num), zpow_one]
        ring
    _ ≤ (4 * m - gapBelow m e) * (2 ^ e / 4) := by
        gcongr
        linarith
    _ ≤ q := by
        rw [← zpow_sub_two]
        exact h.low

theorem RoundsTo.digits_pos {n : Nat} {s : Int} (h : RoundsTo m e (n * 10 ^ s)) (hm : 0 < m) :
    0 < n := by
  have hpos : (0 : ℚ) < 2 ^ (e - 1) := by positivity
  have hle := h.le hm
  by_contra hn
  rw [Nat.eq_zero_of_not_pos hn, Nat.cast_zero, zero_mul] at hle
  linarith

end RoundsTo

section Quotient

variable {num den m : Nat} {e : Int}

theorem fullExponent_le (hnum : 0 < num) (hden : 0 < den) (h : (num : ℚ) / den < 2 ^ (e + 53)) :
    fullExponent num den ≤ e := by
  have hlt := (fullExponent_spec hnum hden).1.trans_lt h
  rw [zpow_lt_zpow_iff_right₀ (by norm_num)] at hlt
  omega

theorem le_fullExponent (hnum : 0 < num) (hden : 0 < den) (h : 2 ^ (e + 52) ≤ (num : ℚ) / den) :
    e ≤ fullExponent num den := by
  have hlt := h.trans_lt (fullExponent_spec hnum hden).2
  rw [zpow_lt_zpow_iff_right₀ (by norm_num)] at hlt
  omega

/-- The places of the mantissa are the ones to which the quotient is rounded. -/
theorem RoundsTo.max_fullExponent (h : RoundsTo m e ((num : ℚ) / den)) (hnum : 0 < num)
    (hden : 0 < den) (hm : m < 2 ^ 53) (hleast : leastExponent ≤ e)
    (hnormal : e = leastExponent ∨ 2 ^ 52 ≤ m)
    (hfull : m = 2 ^ 52 → leastExponent < e → 2 ^ (e + 52) ≤ (num : ℚ) / den) :
    max leastExponent (fullExponent num den) = e := by
  have hle := fullExponent_le hnum hden (h.lt hm)
  by_cases he : leastExponent < e
  · have hge : 2 ^ (e + 52) ≤ (num : ℚ) / den := by
      obtain heq | hlt := Nat.eq_or_lt_of_le (hnormal.resolve_left he.ne')
      · exact hfull heq.symm he
      · exact h.full_le hlt
    have := le_fullExponent hnum hden hge
    omega
  · omega

theorem RoundsTo.inUnits_eq (h : RoundsTo m e ((num : ℚ) / den)) (hden : 0 < den)
    (hfull : m = 2 ^ 52 → leastExponent < e → 2 ^ (e + 52) ≤ (num : ℚ) / den) :
    inUnits num den e = m := by
  apply Binary64.inUnits_eq hden (h.half_le hfull)
  · have hhigh := h.high
    rw [zpow_sub_two] at hhigh
    linarith
  · intro hodd
    obtain ⟨hlow, hhigh⟩ := h.odd hodd
    rw [gapBelow_of_odd hodd, zpow_sub_two] at hlow
    rw [zpow_sub_two] at hhigh
    push_cast at hlow
    exact ⟨by linarith, by linarith⟩

/-- How close to a power of two a value lies that is rounded to it from below. -/
theorem RoundsTo.edge_le {q : ℚ} (h : RoundsTo (2 ^ 52) e q) (he : leastExponent < e) :
    (2 ^ 52 - 1 / 4 : ℚ) * 2 ^ e ≤ q := by
  have hlow := h.low
  rw [gapBelow_edge rfl he, zpow_sub_two] at hlow
  push_cast at hlow
  linarith

theorem RoundsTo.fullExponent_edge (h : RoundsTo (2 ^ 52) e ((num : ℚ) / den)) (hnum : 0 < num)
    (hden : 0 < den) (he : leastExponent < e) (hless : (num : ℚ) / den < 2 ^ (e + 52)) :
    fullExponent num den = e - 1 := by
  have hpos : (0 : ℚ) < 2 ^ e := by positivity
  apply le_antisymm
  · exact fullExponent_le hnum hden (by rwa [show e - 1 + 53 = e + 52 by omega])
  · apply le_fullExponent hnum hden
    calc (2 : ℚ) ^ (e - 1 + 52) = 2 ^ 51 * 2 ^ e := by
          rw [show e - 1 + 52 = 51 + e by omega, zpow_add₀ (by norm_num)]
          norm_num
      _ ≤ (2 ^ 52 - 1 / 4) * 2 ^ e := by
          gcongr
          norm_num
      _ ≤ (num : ℚ) / den := h.edge_le he

/-- In the finer places below a power of two, rounding reaches the power. -/
theorem RoundsTo.inUnits_edge (h : RoundsTo (2 ^ 52) e ((num : ℚ) / den)) (hden : 0 < den)
    (he : leastExponent < e) (hless : (num : ℚ) / den < 2 ^ (e + 52)) :
    inUnits num den (e - 1) = 2 ^ 53 := by
  have hpos : (0 : ℚ) < 2 ^ e := by positivity
  have hpred : (2 : ℚ) ^ (e - 1) = 2 ^ e / 2 := by
    rw [zpow_sub₀ (by norm_num), zpow_one]
  have hlow := h.edge_le he
  rw [zpow_add₀ (by norm_num)] at hless
  apply Binary64.inUnits_eq hden
  all_goals
    push_cast
    rw [hpred]
  · linarith
  · norm_num at hless ⊢
    linarith
  · exact fun hodd => absurd hodd (by decide)

end Quotient

theorem ofQuotient?_of_roundsTo {negative : Bool} {m : Nat} {e : Int}
    (hnormal : Normal ⟨negative, m, e⟩) (hm : 0 < m) {num den : Nat} (hnum : 0 < num)
    (hden : 0 < den) (h : RoundsTo m e ((num : ℚ) / den)) :
    ofQuotient? negative num den = some ⟨negative, m, e⟩ := by
  obtain ⟨hmantissa, hleast, hgreatest, hfull⟩ := hnormal
  simp only at hmantissa hleast hgreatest hfull
  rw [ofQuotient?]
  by_cases hedge : m = 2 ^ 52 ∧ leastExponent < e ∧ (num : ℚ) / den < 2 ^ (e + 52)
  · obtain ⟨rfl, he, hless⟩ := hedge
    rw [h.fullExponent_edge hnum hden he hless, max_eq_right (by omega),
      h.inUnits_edge hden he hless, ofMantissa?_full (by omega), Int.sub_add_cancel]
  · have hfullq : m = 2 ^ 52 → leastExponent < e → (2 : ℚ) ^ (e + 52) ≤ (num : ℚ) / den :=
      fun hm he => le_of_not_gt fun hlt => hedge ⟨hm, he, hlt⟩
    rw [h.max_fullExponent hnum hden hmantissa hleast hfull hfullq, h.inUnits_eq hden hfullq,
      ofMantissa?_of_lt hm hmantissa hgreatest]

theorem decimalLength_spec {n : Nat} (h : 0 < n) :
    (10 : ℚ) ^ ((decimalLength n : Int) - 1) ≤ n ∧ (n : ℚ) < 10 ^ (decimalLength n : Int) := by
  have hpos : 0 < decimalLength n := List.length_pos_iff.mpr Nat.toDigits_ne_nil
  have hhigh : n < 10 ^ decimalLength n :=
    (Nat.length_toDigits_le_iff (by decide) hpos).mp (Nat.le_refl _)
  have hlow : 10 ^ (decimalLength n - 1) ≤ n := by
    by_cases hone : decimalLength n = 1
    · rw [hone]
      exact h
    · by_contra hlt
      have := (Nat.length_toDigits_le_iff (b := 10) (n := n) (k := decimalLength n - 1) (by decide)
        (by omega)).mpr (by omega)
      rw [← decimalLength] at this
      omega
  constructor
  · rw [← Nat.cast_pred hpos, zpow_natCast]
    exact_mod_cast hlow
  · rw [zpow_natCast]
    exact_mod_cast hhigh

theorem decimal_eq_quotient (n : Nat) (s : Int) :
    ((n * tenTo s.toNat : Nat) : ℚ) / (tenTo (-s).toNat : Nat) = n * 10 ^ s := by
  have hpow : (10 : ℚ) ^ s.toNat = 10 ^ s * 10 ^ (-s).toNat := pow_toNat_eq (by norm_num) s
  have hpos : (0 : ℚ) < 10 ^ (-s).toNat := by positivity
  push_cast [tenTo_eq]
  rw [hpow, div_eq_iff hpos.ne']
  ring

theorem two_zpow_lt_ten_zpow : (2 : ℚ) ^ (1024 : Int) < 10 ^ (310 : Int) := by
  have h : 2 ^ 1024 < 10 ^ 310 := by decide +kernel
  exact_mod_cast h

theorem ten_zpow_le_two_zpow : (10 : ℚ) ^ (-324 : Int) ≤ 2 ^ (-1075 : Int) := by
  have h : 2 ^ 1075 ≤ 10 ^ 324 := by decide +kernel
  rw [zpow_neg, zpow_neg]
  exact inv_anti₀ (by positivity) (by exact_mod_cast h)

/-- A decimal that lies where a double is the nearest one is read as that double. -/
theorem ofDecimal?_of_roundsTo {negative : Bool} {m : Nat} {e : Int}
    (hnormal : Normal ⟨negative, m, e⟩) (hm : 0 < m) {n : Nat} {s : Int}
    (h : RoundsTo m e (n * 10 ^ s)) : ofDecimal? negative n s = some ⟨negative, m, e⟩ := by
  have hn : 0 < n := h.digits_pos hm
  obtain ⟨hlow, hhigh⟩ := decimalLength_spec hn
  have hs : (0 : ℚ) < 10 ^ s := by positivity
  have hten (a : Int) : (10 : ℚ) ^ (a + s) = 10 ^ a * 10 ^ s := zpow_add₀ (by norm_num) a s
  have hleast : -1074 ≤ e := hnormal.least
  have hgreatest : e ≤ 971 := hnormal.greatest
  have hsmall : ¬(decimalLength n : Int) + s > 310 := by
    have hlt : (10 : ℚ) ^ ((decimalLength n : Int) - 1 + s) < 10 ^ (310 : Int) :=
      calc (10 : ℚ) ^ ((decimalLength n : Int) - 1 + s)
          ≤ n * 10 ^ s := by
            rw [hten]
            gcongr
        _ < 2 ^ (e + 53) := h.lt hnormal.mantissa_lt
        _ ≤ 2 ^ (1024 : Int) := zpow_le_zpow_right₀ (by norm_num) (by omega)
        _ < 10 ^ (310 : Int) := two_zpow_lt_ten_zpow
    rw [zpow_lt_zpow_iff_right₀ (by norm_num)] at hlt
    omega
  have hlarge : ¬(decimalLength n : Int) + s < -324 := by
    have hlt : (10 : ℚ) ^ (-324 : Int) < 10 ^ ((decimalLength n : Int) + s) :=
      calc (10 : ℚ) ^ (-324 : Int) ≤ 2 ^ (-1075 : Int) := ten_zpow_le_two_zpow
        _ ≤ 2 ^ (e - 1) := zpow_le_zpow_right₀ (by norm_num) (by omega)
        _ ≤ n * 10 ^ s := h.le hm
        _ < 10 ^ ((decimalLength n : Int) + s) := by
          rw [hten]
          gcongr
    rw [zpow_lt_zpow_iff_right₀ (by norm_num)] at hlt
    omega
  rw [ofDecimal?, if_neg (by simpa using hn.ne'), if_neg hsmall, if_neg hlarge]
  rw [← decimal_eq_quotient] at h
  exact ofQuotient?_of_roundsTo hnormal hm (Nat.mul_pos hn (Nat.pow_pos (by decide)))
    (Nat.pow_pos (by decide)) h

theorem divNearest_le {num den k : Nat} (hden : 0 < den) (h : num ≤ k * den) :
    divNearest num den ≤ k := by
  have hdiv := Nat.div_add_mod num den
  have hle : num / den ≤ k := Nat.div_le_of_le_mul (by rwa [Nat.mul_comm])
  simp only [divNearest]
  split
  · next hup =>
    by_contra hlt
    obtain rfl : k = num / den := by omega
    have hcomm : num / den * den = den * (num / den) := Nat.mul_comm _ _
    have hzero : num % den = 0 := by omega
    simp only [hzero, Bool.or_eq_true, decide_eq_true_eq, Bool.and_eq_true, beq_iff_eq] at hup
    omega
  · exact hle

theorem le_divNearest {num den k : Nat} (hden : 0 < den) (h : k * den ≤ num) :
    k ≤ divNearest num den := by
  have hle : k ≤ num / den := (Nat.le_div_iff_mul_le hden).mpr h
  simp only [divNearest]
  split <;> omega

theorem inUnits_le {num den k : Nat} {e : Int} (hden : 0 < den)
    (h : (num : ℚ) / den ≤ k * 2 ^ e) : inUnits num den e ≤ k := by
  have hd : (0 : ℚ) < den := by exact_mod_cast hden
  have ha : (0 : ℚ) < 2 ^ (-e).toNat := by positivity
  rw [div_le_iff₀ hd] at h
  apply divNearest_le (Nat.mul_pos hden (Nat.pow_pos (by decide)))
  qify [twoTo_eq]
  rw [pow_toNat_eq (by norm_num) e]
  linarith [mul_le_mul_of_nonneg_right h ha.le]

theorem le_inUnits {num den k : Nat} {e : Int} (hden : 0 < den)
    (h : k * 2 ^ e ≤ (num : ℚ) / den) : k ≤ inUnits num den e := by
  have hd : (0 : ℚ) < den := by exact_mod_cast hden
  have ha : (0 : ℚ) < 2 ^ (-e).toNat := by positivity
  rw [le_div_iff₀ hd] at h
  apply le_divNearest (Nat.mul_pos hden (Nat.pow_pos (by decide)))
  qify [twoTo_eq]
  rw [pow_toNat_eq (by norm_num) e]
  linarith [mul_le_mul_of_nonneg_right h ha.le]

theorem normal_zero (negative : Bool) : (zero negative).Normal :=
  ⟨by simp [zero], by simp [zero, leastExponent], by simp [zero, greatestExponent], .inl rfl⟩

theorem normal_of_ofMantissa? {negative : Bool} {m : Nat} {e : Int} {x : Binary64}
    (hm : m ≤ 2 ^ 53) (hleast : leastExponent ≤ e) (hfull : e = leastExponent ∨ 2 ^ 52 ≤ m)
    (h : ofMantissa? negative m e = some x) : x.Normal := by
  rw [ofMantissa?] at h
  by_cases hfit : m = 2 ^ 53
  · rw [if_pos (by simp [hfit, twoTo_eq])] at h
    by_cases he : e + 1 > greatestExponent
    · simp [he] at h
    · rw [if_neg he, Option.some.injEq] at h
      subst h
      exact ⟨by simp [twoTo_eq], by simp only; omega, by simp only; omega,
        .inr (by simp [twoTo_eq])⟩
  · rw [if_neg (by simpa [twoTo_eq] using hfit)] at h
    by_cases he : e > greatestExponent
    · simp [he] at h
    · rw [if_neg he] at h
      by_cases hm0 : m = 0
      · rw [if_pos (by simp [hm0]), Option.some.injEq] at h
        exact h ▸ normal_zero negative
      · rw [if_neg (by simpa using hm0), Option.some.injEq] at h
        subst h
        exact ⟨by simp only; omega, hleast, by simp only; omega, hfull⟩

theorem normal_of_ofQuotient? {negative : Bool} {num den : Nat} {x : Binary64} (hnum : 0 < num)
    (hden : 0 < den) (h : ofQuotient? negative num den = some x) : x.Normal := by
  obtain ⟨hlow, hhigh⟩ := fullExponent_spec hnum hden
  obtain ⟨e, he⟩ : ∃ e, max leastExponent (fullExponent num den) = e := ⟨_, rfl⟩
  rw [ofQuotient?, he] at h
  refine normal_of_ofMantissa? (inUnits_le hden ?_) (by omega) ?_ h
  · have hle : (2 : ℚ) ^ (fullExponent num den + 53) ≤ 2 ^ (e + 53) :=
      zpow_le_zpow_right₀ (by norm_num) (by omega)
    rw [zpow_add₀ (by norm_num) e, mul_comm] at hle
    have := hhigh.le.trans hle
    exact_mod_cast this
  · by_cases hleast : e = leastExponent
    · exact .inl hleast
    · obtain rfl : fullExponent num den = e := by omega
      rw [zpow_add₀ (by norm_num), mul_comm] at hlow
      exact .inr (le_inUnits hden (by exact_mod_cast hlow))

theorem normal_of_ofDecimal? {negative : Bool} {n : Nat} {s : Int} {x : Binary64}
    (h : ofDecimal? negative n s = some x) : x.Normal := by
  simp only [ofDecimal?] at h
  split at h
  · cases h
    exact normal_zero negative
  · next hn =>
    simp only [beq_iff_eq] at hn
    split at h
    · cases h
    · split at h
      · cases h
        exact normal_zero negative
      · exact normal_of_ofQuotient? (Nat.mul_pos (by omega) (Nat.pow_pos (by decide)))
          (Nat.pow_pos (by decide)) h

end Refsite.Binary64
