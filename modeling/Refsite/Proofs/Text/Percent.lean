import Refsite.Proofs.Text.Utf8
import Refsite.Text.Percent
namespace Refsite.Text.Percent

theorem hexValue_upperHexDigits {n : Nat} (h : n < 16) :
    hexValue? (upperHexDigits.getD n '0') = some n := by
  have hall : ∀ n < 16, hexValue? (upperHexDigits.getD n '0') = some n := by decide
  exact hall n h

theorem hashFree_upperHexDigits {n : Nat} (h : n < 16) : upperHexDigits.getD n '0' ≠ '#' := by
  have hall : ∀ n < 16, upperHexDigits.getD n '0' ≠ '#' := by decide
  exact hall n h

theorem encodeByte_eq (b : UInt8) :
    encodeByte b = ['%', upperHexDigits.getD (b.toNat / 16) '0',
      upperHexDigits.getD (b.toNat % 16) '0'] := by
  have hb : b.toNat / 16 % 16 = b.toNat / 16 :=
    Nat.mod_eq_of_lt (Nat.div_lt_of_lt_mul b.toNat_lt)
  simp only [encodeByte, hexDigits, List.nil_append, List.cons_append, hb]

theorem hash_notMem_encodeByte (b : UInt8) : '#' ∉ encodeByte b := by
  have hhigh := hashFree_upperHexDigits (Nat.div_lt_of_lt_mul b.toNat_lt : b.toNat / 16 < 16)
  have hlow := hashFree_upperHexDigits (Nat.mod_lt b.toNat (by omega) : b.toNat % 16 < 16)
  rw [encodeByte_eq]
  simp only [List.mem_cons, List.not_mem_nil, or_false, not_or]
  exact ⟨by decide, hhigh.symm, hlow.symm⟩

/-- What is left alone is ASCII and not the percent sign. -/
theorem isPlain_bounds {c : Char} (h : isPlain c = true) : c.toNat < 0x80 ∧ c ≠ '%' := by
  rw [isPlain, Bool.or_eq_true] at h
  cases h with
  | inl h =>
    constructor
    · change (decide (65 ≤ c.val ∧ c.val ≤ 90) || decide (97 ≤ c.val) && decide (c.val ≤ 122) ||
        decide (48 ≤ c.val) && decide (c.val ≤ 57)) = true at h
      simp only [Bool.or_eq_true, Bool.and_eq_true, decide_eq_true_eq,
        UInt32.le_iff_toNat_le] at h
      change (((65 ≤ c.toNat ∧ c.toNat ≤ 90) ∨ (97 ≤ c.toNat ∧ c.toNat ≤ 122)) ∨
        (48 ≤ c.toNat ∧ c.toNat ≤ 57)) at h
      omega
    · rintro rfl
      revert h
      decide
  | inr h =>
    have hall : (marks.all fun c => c.toNat < 0x80 && c != '%') = true := by decide
    have hc := List.all_eq_true.mp hall c (List.contains_iff_mem.mp h)
    rw [Bool.and_eq_true, decide_eq_true_eq, bne_iff_ne] at hc
    exact hc

theorem encodeChar_hash : encodeChar '#' = ['#'] := by decide

theorem hash_mem_encodeChar {c : Char} (h : '#' ∈ encodeChar c) : c = '#' := by
  rw [encodeChar] at h
  split at h
  · exact (List.mem_singleton.mp h).symm
  · obtain ⟨b, _, hb⟩ := List.mem_flatMap.mp h
    exact absurd hb (hash_notMem_encodeByte b)

theorem hash_mem_encode_iff {text : List Char} : '#' ∈ encode text ↔ '#' ∈ text := by
  constructor
  · intro hmem
    obtain ⟨c, hc, hin⟩ := List.mem_flatMap.mp hmem
    exact hash_mem_encodeChar hin ▸ hc
  · exact fun h => List.mem_flatMap.mpr ⟨'#', h, encodeChar_hash ▸ List.mem_singleton_self '#'⟩

theorem hash_notMem_encode {text : List Char} (h : '#' ∉ text) : '#' ∉ encode text :=
  mt hash_mem_encode_iff.mp h

theorem encode_append (s t : List Char) : encode (s ++ t) = encode s ++ encode t :=
  List.flatMap_append

theorem escape_digits (b : UInt8) (rest : List Char) :
    escape? (upperHexDigits.getD (b.toNat / 16) '0' ::
      upperHexDigits.getD (b.toNat % 16) '0' :: rest) = some b := by
  have hhigh := hexValue_upperHexDigits (Nat.div_lt_of_lt_mul b.toNat_lt : b.toNat / 16 < 16)
  have hlow := hexValue_upperHexDigits (Nat.mod_lt b.toNat (by omega) : b.toNat % 16 < 16)
  rw [escape?, hhigh, hlow]
  simp only [bind, Option.bind, pure]
  rw [show 16 * (b.toNat / 16) + b.toNat % 16 = b.toNat by omega, UInt8.ofNat_toNat]

theorem decodeAfter_encodeByte (bytes : List UInt8) (b : UInt8) (rest : List Char) :
    decodeAfter bytes 0 (encodeByte b ++ rest) = decodeAfter (b :: bytes) 0 rest := by
  rw [encodeByte_eq]
  simp only [List.cons_append, List.nil_append]
  rw [decodeAfter, if_pos (by decide)]
  simp only [beq_self_eq_true, if_true, escape_digits]
  rfl

theorem decodeAfter_encodeBytes (new bytes : List UInt8) (rest : List Char) :
    decodeAfter bytes 0 (new.flatMap encodeByte ++ rest) =
      decodeAfter (new.reverse ++ bytes) 0 rest := by
  induction new generalizing bytes with
  | nil => rfl
  | cons b new ih =>
    rw [List.flatMap_cons, List.append_assoc, decodeAfter_encodeByte, ih, List.reverse_cons,
      List.append_assoc, List.singleton_append]

theorem decodeAfter_encodeChar (bytes : List UInt8) (c : Char) (rest : List Char) :
    decodeAfter bytes 0 (encodeChar c ++ rest) =
      decodeAfter ((Utf8.encodeChar c).reverse ++ bytes) 0 rest := by
  rw [encodeChar]
  split
  · next h =>
    obtain ⟨hc, hne⟩ := isPlain_bounds h
    rw [List.singleton_append, decodeAfter, if_pos hc]
    simp [hne, Utf8.encodeChar, hc]
  · exact decodeAfter_encodeBytes _ _ _

theorem decodeAfter_encode (bytes : List UInt8) (text : List Char) :
    decodeAfter bytes 0 (encode text) =
      Utf8.decodeLossy (bytes.reverse ++ Utf8.encode text) := by
  induction text generalizing bytes with
  | nil =>
    rw [encode, List.flatMap_nil, decodeAfter, Utf8.encode, List.flatMap_nil, List.append_nil]
  | cons c text ih =>
    have htail := ih ((Utf8.encodeChar c).reverse ++ bytes)
    rw [List.reverse_append, List.reverse_reverse, List.append_assoc] at htail
    rw [encode, List.flatMap_cons, decodeAfter_encodeChar]
    exact htail

theorem decode_encode (text : List Char) : decode (encode text) = text := by
  rw [decode, decodeAfter_encode]
  exact Utf8.decodeLossy_encode text

end Refsite.Text.Percent
