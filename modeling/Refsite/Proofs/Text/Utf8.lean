import Refsite.Text.Utf8
namespace Refsite.Text.Utf8

theorem toNat_cases (c : Char) :
    c.toNat < 0xD800 ∨ (0xE000 ≤ c.toNat ∧ c.toNat < 0x110000) := by
  have h := c.valid
  simp only [UInt32.isValidChar, Nat.isValidChar] at h
  change c.toNat < 0xD800 ∨ (0xDFFF < c.toNat ∧ c.toNat < 0x110000) at h
  omega

theorem toNat_ofNat_of_lt {n : Nat} (h : n < 256) : (UInt8.ofNat n).toNat = n := by
  rw [UInt8.toNat_ofNat']
  exact Nat.mod_eq_of_lt h

/-- A byte inside the window of a character that owes no more ends it. -/
theorem scan_last {low high bits n : Nat} {rest : List UInt8} (hn : n < 256)
    (hl : low ≤ n) (hh : n ≤ high) :
    scan (some ⟨0, low, high, bits⟩) (UInt8.ofNat n :: rest) =
      some (Char.ofNat (bits * 64 + (n - 0x80))) :: scan none rest := by
  rw [scan, toNat_ofNat_of_lt hn]
  simp [hl, hh]

theorem scan_next {owed low high bits n : Nat} {rest : List UInt8} (hn : n < 256)
    (hl : low ≤ n) (hh : n ≤ high) :
    scan (some ⟨owed + 1, low, high, bits⟩) (UInt8.ofNat n :: rest) =
      scan (some ⟨owed, 0x80, 0xBF, bits * 64 + (n - 0x80)⟩) rest := by
  rw [scan, toNat_ofNat_of_lt hn]
  simp [hl, hh]

theorem scan_opens {n : Nat} {p : Pending} {rest : List UInt8} (hn : n < 256)
    (hp : lead n = .opens p) : scan none (UInt8.ofNat n :: rest) = scan (some p) rest := by
  rw [scan, toNat_ofNat_of_lt hn, hp]

/-- The window that the first byte leaves for the second one holds the second byte of a character
of three bytes: surrogates and overlong forms are what it shuts out. -/
theorem lead_of_three {n : Nat} (hlow : 0x800 ≤ n) (hhigh : n < 0x10000)
    (hs : n < 0xD800 ∨ 0xE000 ≤ n) :
    ∃ low high, lead (0xE0 + n / 4096) = .opens ⟨1, low, high, n / 4096⟩ ∧
      low ≤ 0x80 + n / 64 % 64 ∧ 0x80 + n / 64 % 64 ≤ high := by
  by_cases hfirst : n / 4096 = 0
  · exact ⟨0xA0, 0xBF, by simp [lead, hfirst], by omega, by omega⟩
  · by_cases hd : n / 4096 = 0xD
    · exact ⟨0x80, 0x9F, by simp [lead, hd], by omega, by omega⟩
    · refine ⟨0x80, 0xBF, ?_, by omega, by omega⟩
      have h2 : 0xE0 + n / 4096 < 0xF0 := by omega
      simp [lead, hfirst, h2, show ¬ (0xE0 + n / 4096 < 0x80) by omega,
        show ¬ (0xE0 + n / 4096 < 0xC2) by omega, show ¬ (0xE0 + n / 4096 = 0xED) by omega]

theorem lead_of_four {n : Nat} (hlow : 0x10000 ≤ n) (hhigh : n < 0x110000) :
    ∃ low high, lead (0xF0 + n / 262144) = .opens ⟨2, low, high, n / 262144⟩ ∧
      low ≤ 0x80 + n / 4096 % 64 ∧ 0x80 + n / 4096 % 64 ≤ high := by
  by_cases hfirst : n / 262144 = 0
  · exact ⟨0x90, 0xBF, by simp [lead, hfirst], by omega, by omega⟩
  · by_cases hlast : n / 262144 = 4
    · exact ⟨0x80, 0x8F, by simp [lead, hlast], by omega, by omega⟩
    · refine ⟨0x80, 0xBF, ?_, by omega, by omega⟩
      have h1 : 0xF0 + n / 262144 < 0xF4 := by omega
      simp [lead, hfirst, h1, show ¬ (0xF0 + n / 262144 < 0x80) by omega,
        show ¬ (0xF0 + n / 262144 < 0xC2) by omega, show ¬ (0xF0 + n / 262144 < 0xE0) by omega,
        show ¬ (0xF0 + n / 262144 = 0xE0) by omega, show ¬ (0xF0 + n / 262144 = 0xED) by omega]

theorem scan_encodeChar (c : Char) (rest : List UInt8) :
    scan none (encodeChar c ++ rest) = some c :: scan none rest := by
  have hc : Char.ofNat c.toNat = c := Char.ofNat_toNat c
  have hv := toNat_cases c
  unfold encodeChar
  dsimp only
  split
  · next h1 =>
    rw [List.singleton_append, scan, toNat_ofNat_of_lt (by omega)]
    simp [lead, h1, hc]
  · split
    · next h1 h2 =>
      have hlead : lead (0xC0 + c.toNat / 64) = .opens ⟨0, 0x80, 0xBF, c.toNat / 64⟩ := by
        simp [lead, show ¬ (0xC0 + c.toNat / 64 < 0x80) by omega,
          show ¬ (0xC0 + c.toNat / 64 < 0xC2) by omega, show 0xC0 + c.toNat / 64 < 0xE0 by omega]
      simp only [List.cons_append, List.nil_append]
      rw [scan_opens (by omega) hlead, scan_last (by omega) (by omega) (by omega)]
      rw [show c.toNat / 64 * 64 + (0x80 + c.toNat / 1 % 64 - 0x80) = c.toNat by omega, hc]
    · split
      · next h1 h2 h3 =>
        obtain ⟨low, high, hlead, hl, hh⟩ := lead_of_three (by omega) h3 (by omega)
        simp only [List.cons_append, List.nil_append]
        rw [scan_opens (by omega) hlead, scan_next (by omega) hl hh,
          scan_last (by omega) (by omega) (by omega)]
        rw [show (c.toNat / 4096 * 64 + (0x80 + c.toNat / 64 % 64 - 0x80)) * 64 +
          (0x80 + c.toNat / 1 % 64 - 0x80) = c.toNat by omega, hc]
      · next h1 h2 h3 =>
        obtain ⟨low, high, hlead, hl, hh⟩ := lead_of_four (n := c.toNat) (by omega) (by omega)
        simp only [List.cons_append, List.nil_append]
        rw [scan_opens (by omega) hlead, scan_next (by omega) hl hh,
          scan_next (by omega) (by omega) (by omega), scan_last (by omega) (by omega) (by omega)]
        rw [show ((c.toNat / 262144 * 64 + (0x80 + c.toNat / 4096 % 64 - 0x80)) * 64 +
          (0x80 + c.toNat / 64 % 64 - 0x80)) * 64 + (0x80 + c.toNat / 1 % 64 - 0x80) = c.toNat
          by omega, hc]

theorem scan_encode (text : List Char) : scan none (encode text) = text.map some := by
  induction text with
  | nil => rfl
  | cons c text ih =>
    rw [encode, List.flatMap_cons, scan_encodeChar, List.map_cons]
    exact congrArg _ ih

theorem decode?_encode (text : List Char) : decode? (encode text) = some text := by
  rw [decode?, scan_encode]
  induction text with
  | nil => rfl
  | cons c text ih =>
    rw [List.map_cons, List.mapM_cons, ih]
    rfl

theorem decodeLossy_encode (text : List Char) : decodeLossy (encode text) = text := by
  rw [decodeLossy, scan_encode, List.map_map]
  exact List.map_id text

end Refsite.Text.Utf8
