import Refsite.Decimal.Shortest
import Refsite.Proofs.Decimal.Rounding
namespace Refsite.Binary64

def Decimal.value (d : Decimal) : ℚ := d.digits * 10 ^ d.scale

theorem binary_eq_quotient (m : Nat) (e : Int) :
    ((m * twoTo e.toNat : Nat) : ℚ) / (twoTo (-e).toNat : Nat) = m * 2 ^ e := by
  have hpow : (2 : ℚ) ^ e.toNat = 2 ^ e * 2 ^ (-e).toNat := pow_toNat_eq (by norm_num) e
  have hpos : (0 : ℚ) < 2 ^ (-e).toNat := by positivity
  push_cast [twoTo_eq]
  rw [hpow, div_eq_iff hpos.ne']
  ring

theorem point_spec {m : Nat} (hm : 0 < m) (e : Int) :
    (10 : ℚ) ^ (point m e - 1) ≤ m * 2 ^ e ∧ m * 2 ^ e < (10 : ℚ) ^ point m e := by
  rw [← binary_eq_quotient]
  obtain ⟨num, hnum⟩ : ∃ num, m * twoTo e.toNat = num := ⟨_, rfl⟩
  obtain ⟨den, hden⟩ : ∃ den, twoTo (-e).toNat = den := ⟨_, rfl⟩
  have hn : 0 < num := hnum ▸ Nat.mul_pos hm (Nat.pow_pos (by decide))
  have hd : 0 < den := hden ▸ Nat.pow_pos (by decide)
  have hdq : (0 : ℚ) < den := by exact_mod_cast hd
  obtain ⟨hnlow, hnhigh⟩ := decimalLength_spec hn
  obtain ⟨hdlow, hdhigh⟩ := decimalLength_spec hd
  obtain ⟨guess, hguess⟩ : ∃ g : Int, (decimalLength num : Int) - decimalLength den = g := ⟨_, rfl⟩
  have hlow : (10 : ℚ) ^ (guess - 1) ≤ (num : ℚ) / den := by
    rw [le_div_iff₀ hdq]
    calc (10 : ℚ) ^ (guess - 1) * den
        ≤ 10 ^ (guess - 1) * 10 ^ (decimalLength den : Int) := by gcongr
      _ = 10 ^ ((decimalLength num : Int) - 1) := by
        rw [← zpow_add₀ (by norm_num)]
        congr 1
        omega
      _ ≤ num := hnlow
  have hhigh : (num : ℚ) / den < 10 ^ (guess + 1) := by
    rw [div_lt_iff₀ hdq]
    calc (num : ℚ) < 10 ^ (decimalLength num : Int) := hnhigh
      _ = 10 ^ (guess + 1) * 10 ^ ((decimalLength den : Int) - 1) := by
        rw [← zpow_add₀ (by norm_num)]
        congr 1
        omega
      _ ≤ 10 ^ (guess + 1) * den := by gcongr
  have hreach : num * tenTo (-guess).toNat ≥ den * tenTo guess.toNat ↔
      (10 : ℚ) ^ guess ≤ (num : ℚ) / den := by
    have ha : (0 : ℚ) < 10 ^ (-guess).toNat := by positivity
    rw [le_div_iff₀ hdq, ← mul_le_mul_iff_left₀ ha, ge_iff_le]
    qify [tenTo_eq]
    rw [pow_toNat_eq (by norm_num) guess, show (den : ℚ) * (10 ^ guess * 10 ^ (-guess).toNat) =
      10 ^ guess * den * 10 ^ (-guess).toNat by ring]
  simp only [point, hnum, hden, hguess]
  split
  · next h => exact ⟨by rw [Int.add_sub_cancel]; exact hreach.mp h, hhigh⟩
  · next h => exact ⟨hlow, lt_of_not_ge fun hge => h (hreach.mpr hge)⟩

/-- The factor by which everything is scaled to integers. -/
def unit (e scale : Int) : ℚ := 2 ^ (2 - e).toNat * 10 ^ (-scale).toNat

theorem unit_pos (e scale : Int) : 0 < unit e scale := by
  unfold unit
  positivity

theorem quarter_cast (e scale : Int) : (quarter e scale : ℚ) = 2 ^ (e - 2) * unit e scale := by
  have hpow : (2 : ℚ) ^ (e - 2 + (2 - e).toNat).toNat = 2 ^ (e - 2) * 2 ^ (2 - e).toNat := by
    rw [← zpow_natCast, ← zpow_natCast, ← zpow_add₀ (by norm_num)]
    congr 1
    omega
  push_cast [quarter, unit, twoTo_eq, tenTo_eq]
  rw [hpow]
  ring

theorem step_cast (e scale : Int) : (step e scale : ℚ) = 10 ^ scale * unit e scale := by
  push_cast [step, unit, twoTo_eq, tenTo_eq]
  rw [pow_toNat_eq (by norm_num) scale]
  ring

theorem gapBelow_le (m : Nat) (e : Int) : gapBelow m e ≤ 2 := by
  rw [gapBelow]
  split <;> omega

theorem isInside_iff {m : Nat} (hm : 0 < m) (e scale : Int) (n : Nat) :
    isInside m e scale n ↔ RoundsTo m e (n * 10 ^ scale) := by
  have hunit := unit_pos e scale
  have hgap : gapBelow m e ≤ 4 * m := by have := gapBelow_le m e; omega
  have hlow : ((4 * m - gapBelow m e) * quarter e scale : Nat) =
      (4 * m - gapBelow m e) * (2 : ℚ) ^ (e - 2) * unit e scale := by
    push_cast [hgap, quarter_cast]
    ring
  have hhigh : ((4 * m + 2) * quarter e scale : Nat) =
      (4 * m + 2) * (2 : ℚ) ^ (e - 2) * unit e scale := by
    push_cast [quarter_cast]
    ring
  have hvalue : (n * step e scale : Nat) = (n : ℚ) * 10 ^ scale * unit e scale := by
    push_cast [step_cast]
    ring
  have hcast (a b : Nat) : (a ≤ b ↔ (a : ℚ) ≤ b) ∧ (a < b ↔ (a : ℚ) < b) :=
    ⟨Nat.cast_le.symm, Nat.cast_lt.symm⟩
  simp only [isInside]
  by_cases heven : m % 2 = 0
  · rw [if_pos (by simpa using heven), Bool.and_eq_true, decide_eq_true_eq, decide_eq_true_eq,
      (hcast _ _).1, (hcast _ _).1, hlow, hhigh, hvalue, mul_le_mul_iff_left₀ hunit,
      mul_le_mul_iff_left₀ hunit]
    exact ⟨fun h => ⟨h.1, h.2, fun hodd => by omega⟩, fun h => ⟨h.low, h.high⟩⟩
  · rw [if_neg (by simpa using heven), Bool.and_eq_true, decide_eq_true_eq, decide_eq_true_eq,
      (hcast _ _).2, (hcast _ _).2, hlow, hhigh, hvalue, mul_lt_mul_iff_left₀ hunit,
      mul_lt_mul_iff_left₀ hunit]
    exact ⟨fun h => ⟨h.1.le, h.2.le, fun _ => h⟩, fun h => h.odd (by omega)⟩

theorem isInside_of_withDigits? {m : Nat} {e : Int} {count : Nat} {d : Decimal}
    (h : withDigits? m e count = some d) : isInside m e d.scale d.digits := by
  rw [withDigits?] at h
  generalize point m e - count = scale at h
  generalize nearest (4 * m * quarter e scale) (step e scale) = nearer at h
  split at h
  · next hin =>
    obtain rfl := Option.some.inj h
    exact hin
  · rw [Option.ite_none_right_eq_some] at h
    obtain ⟨hin, hd⟩ := h
    obtain rfl := Option.some.inj hd
    exact hin

theorem roundsTo_of_withDigits? {m : Nat} (hm : 0 < m) {e : Int} {count : Nat} {d : Decimal}
    (h : withDigits? m e count = some d) : RoundsTo m e d.value :=
  (isInside_iff hm e d.scale d.digits).mp (isInside_of_withDigits? h)

theorem nearest_spec {step : Nat} (hstep : 0 < step) (value : Nat) :
    2 * value ≤ 2 * (nearest value step * step) + step ∧
      2 * (nearest value step * step) ≤ 2 * value + step := by
  have hdiv := Nat.div_add_mod value step
  have hmod := Nat.mod_lt value hstep
  obtain ⟨below, hbelow⟩ : ∃ n, value / step = n := ⟨_, rfl⟩
  rw [hbelow, Nat.mul_comm] at hdiv
  have hsum : (below + (below + 1)) * step = 2 * (below * step) + step := by ring
  have habove : (below + 1) * step = below * step + step := by ring
  simp only [nearest, hbelow, hsum]
  split
  · omega
  · split
    · omega
    · split <;> omega

/-- The nearest decimal of some scale lies half a step away at most. -/
theorem nearest_quarters {m n : Nat} {e scale : Int}
    (hn : nearest (4 * m * quarter e scale) (step e scale) = n) :
    2 * (4 * m * (2 : ℚ) ^ (e - 2)) ≤ 2 * (n * 10 ^ scale) + 10 ^ scale ∧
      2 * (n * (10 : ℚ) ^ scale) ≤ 2 * (4 * m * 2 ^ (e - 2)) + 10 ^ scale := by
  have hunit := unit_pos e scale
  have hstep : 0 < step e scale :=
    Nat.mul_pos (Nat.pow_pos (by decide)) (Nat.pow_pos (by decide))
  obtain ⟨hlow, hhigh⟩ := nearest_spec hstep (4 * m * quarter e scale)
  rw [hn] at hlow hhigh
  qify [quarter_cast, step_cast] at hlow hhigh
  constructor
  all_goals
    rw [← mul_le_mul_iff_left₀ hunit]
    linarith

theorem two_mul_lt_gapBelow {m : Nat} (hlt : m < 2 ^ 53) (e : Int) :
    2 * (m : ℚ) < gapBelow m e * 10 ^ 16 := by
  by_cases hedge : m = 2 ^ 52 ∧ leastExponent < e
  · obtain ⟨rfl, he⟩ := hedge
    rw [gapBelow_edge rfl he]
    norm_num
  · rw [gapBelow_inner hedge]
    have : (m : ℚ) < 9007199254740992 := by exact_mod_cast hlt
    norm_num
    linarith

/-- A decimal less than half a step away is read as the double, if a step is less than twice the gap
to the neighbour below. -/
theorem roundsTo_of_near {m : Nat} {e : Int} {q step : ℚ}
    (hlow : 2 * (4 * m * (2 : ℚ) ^ (e - 2)) ≤ 2 * q + step)
    (hhigh : 2 * q ≤ 2 * (4 * m * (2 : ℚ) ^ (e - 2)) + step)
    (hstep : step < 2 * (gapBelow m e * (2 : ℚ) ^ (e - 2))) : RoundsTo m e q := by
  have hgap : gapBelow m e * (2 : ℚ) ^ (e - 2) ≤ 2 * 2 ^ (e - 2) := by
    gcongr
    exact_mod_cast gapBelow_le m e
  have hbelow : (4 * m - gapBelow m e) * (2 : ℚ) ^ (e - 2) < q := by linarith
  have habove : q < (4 * m + 2) * (2 : ℚ) ^ (e - 2) := by linarith
  exact ⟨hbelow.le, habove.le, fun _ => ⟨hbelow, habove⟩⟩

theorem withDigits?_seventeen {m : Nat} (hm : 0 < m) (hlt : m < 2 ^ 53) (e : Int) :
    (withDigits? m e 17).isSome := by
  obtain ⟨scale, hscale⟩ : ∃ s, point m e - (17 : Nat) = s := ⟨_, rfl⟩
  have hsize : (10 : ℚ) ^ scale * 10 ^ 16 ≤ 4 * m * 2 ^ (e - 2) := by
    have hpoint := (point_spec hm e).1
    rw [show point m e - 1 = scale + 16 by omega, zpow_add₀ (by norm_num)] at hpoint
    rw [zpow_sub_two]
    norm_num at hpoint ⊢
    linarith
  have hstep : (10 : ℚ) ^ scale < 2 * (gapBelow m e * 2 ^ (e - 2)) := by
    have hquarter : (0 : ℚ) < 2 ^ (e - 2) := by positivity
    have := mul_lt_mul_of_pos_right (two_mul_lt_gapBelow hlt e) hquarter
    linarith
  obtain ⟨n, hn⟩ : ∃ n, nearest (4 * m * quarter e scale) (step e scale) = n := ⟨_, rfl⟩
  obtain ⟨hlow, hhigh⟩ := nearest_quarters hn
  have hin : isInside m e scale n :=
    (isInside_iff hm e scale n).mpr (roundsTo_of_near hlow hhigh hstep)
  simp only [withDigits?, hscale, hn]
  rw [if_pos hin]
  rfl

theorem Decimal.value_trim (fuel : Nat) (d : Decimal) : (d.trim fuel).value = d.value := by
  induction fuel generalizing d with
  | zero => rfl
  | succ fuel ih =>
    rw [trim]
    split
    · next h =>
      simp only [Bool.and_eq_true, bne_iff_ne, beq_iff_eq] at h
      have hten : d.digits = d.digits / 10 * 10 := by omega
      have hcast : (d.digits : ℚ) = (d.digits / 10 : Nat) * 10 := by exact_mod_cast hten
      rw [ih, value, value, zpow_add₀ (by norm_num), hcast, zpow_one]
      ring
    · rfl

/-- The shortest decimal of a double is read as it. -/
theorem roundsTo_shortest {m : Nat} (hm : 0 < m) (hlt : m < 2 ^ 53) (e : Int) :
    RoundsTo m e (shortest m e).value := by
  have hfound : ((List.range 17).findSome? fun n => withDigits? m e (n + 1)).isSome := by
    rw [List.findSome?_isSome_iff]
    exact ⟨16, by simp, withDigits?_seventeen hm hlt e⟩
  obtain ⟨d, hd⟩ := Option.isSome_iff_exists.mp hfound
  obtain ⟨count, -, hcount⟩ := List.exists_of_findSome?_eq_some hd
  rw [shortest, hd, Option.getD_some, Decimal.value_trim]
  exact roundsTo_of_withDigits? hm hcount

theorem digits_shortest_pos {m : Nat} (hm : 0 < m) (hlt : m < 2 ^ 53) (e : Int) :
    0 < (shortest m e).digits :=
  (roundsTo_shortest hm hlt e).digits_pos hm

end Refsite.Binary64
