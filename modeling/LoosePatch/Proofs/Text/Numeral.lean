import LoosePatch.Text.Blank
import LoosePatch.Text.Digit
import Mathlib.Data.List.Basic
import Mathlib.Data.List.TakeWhile

/-!
Decimal numerals. One is read up to its end (`readNumeral?_numeral`), and it stands for the number that
it was written for (`digitsValue_numeral`).
-/

namespace LoosePatch

theorem digitValue?_of_isDigit {c : Char} (h : c.isDigit = true) :
    digitValue? c = some (c.toNat - '0'.toNat) := by
  have hrange : 48 ≤ c.toNat ∧ c.toNat ≤ 57 := by
    simpa [Char.isDigit, UInt32.le_iff_toNat_le] using h
  rw [digitValue?]
  exact if_pos hrange

theorem isDigit_of_mem_numeral {n : Nat} {c : Char} (h : c ∈ numeral n) : c.isDigit = true :=
  Nat.isDigit_of_mem_toDigits (by decide) (by decide) h

theorem digitsValue_numeral (n : Nat) : (numeral n).digitsValue = n := by
  have hdigits : (numeral n).digitsValue = Nat.ofDigitChars 10 (numeral n) 0 := by
    rw [Text.digitsValue, Nat.ofDigitChars_eq_foldl]
    refine List.foldl_ext _ _ 0 fun value c hc => ?_
    rw [digitValue?_of_isDigit (isDigit_of_mem_numeral hc), Option.getD_some]
  rw [hdigits, numeral, Nat.ofDigitChars_ten_toDigits]

/-- No digit of any script is blank. -/
theorem isBlank_of_isDigit {c : Char} (h : isDigit c = true) : isBlank c = false := by
  have hzeros : ∀ z ∈ digitZeros, z = 48 ∨ 160 < z ∧ z + 10 ≤ 0x1680 ∨
      0x1680 < z ∧ z + 10 ≤ 0x2000 ∨ 0x3000 < z := by decide
  have hblock : ∃ z,
      (z = 48 ∨ 160 < z ∧ z + 10 ≤ 0x1680 ∨ 0x1680 < z ∧ z + 10 ≤ 0x2000 ∨ 0x3000 < z) ∧
      z ≤ c.toNat ∧ c.toNat < z + 10 := by
    simp only [isDigit, digitValue?] at h
    split at h
    · rename_i hrange
      exact ⟨48, .inl rfl, hrange.1, by omega⟩
    · split at h
      · cases h
      · rw [Option.isSome_map, List.find?_isSome] at h
        obtain ⟨z, hz, hinside⟩ := h
        simp only [Bool.and_eq_true, decide_eq_true_eq] at hinside
        exact ⟨z, hzeros z hz, hinside⟩
  obtain ⟨z, hz, hle, hlt⟩ := hblock
  simp only [isBlank, Bool.or_eq_false_iff, Bool.and_eq_false_iff, decide_eq_false_iff_not,
    beq_eq_false_iff_ne, ne_eq]
  omega

/-- A run of digits is read up to its end. -/
theorem readNumeral?_digits {ds rest : Text} (hds : ∀ c ∈ ds, isDigit c = true) (hne : ds ≠ [])
    (h : rest.head?.all (!isDigit ·) = true) : Text.readNumeral? (ds ++ rest) = some (ds, rest) := by
  have hend : rest.takeWhile isDigit = [] := by
    cases rest with
    | nil => rfl
    | cons c rest => exact List.takeWhile_cons_of_neg (by simpa using h)
  have hrun : (ds ++ rest).takeWhile isDigit = ds := by
    rw [List.takeWhile_append_of_pos hds, hend, List.append_nil]
  simp only [Text.readNumeral?, hrun, List.isEmpty_eq_false_iff.mpr hne, Bool.false_eq_true, if_false,
    List.drop_left]

theorem readNat?_digits {ds rest : Text} (hds : ∀ c ∈ ds, isDigit c = true) (hne : ds ≠ [])
    (h : rest.head?.all (!isDigit ·) = true) :
    Text.readNat? (ds ++ rest) = some (ds.digitsValue, rest) := by
  rw [Text.readNat?, readNumeral?_digits hds hne h, Option.map_some]

theorem forall_isDigit_numeral (n : Nat) : ∀ c ∈ numeral n, isDigit c = true := by
  intro c hc
  rw [isDigit, digitValue?_of_isDigit (isDigit_of_mem_numeral hc)]
  rfl

/-- A numeral is read up to its end. -/
theorem readNumeral?_numeral (n : Nat) {rest : Text} (h : rest.head?.all (!isDigit ·) = true) :
    Text.readNumeral? (numeral n ++ rest) = some (numeral n, rest) :=
  readNumeral?_digits (forall_isDigit_numeral n) Nat.toDigits_ne_nil h

theorem numeral_injective {m n : Nat} (h : numeral m = numeral n) : m = n := by
  rw [← digitsValue_numeral m, h, digitsValue_numeral]

end LoosePatch
