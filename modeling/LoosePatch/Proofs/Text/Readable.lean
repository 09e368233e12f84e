import LoosePatch.Proofs.Outcome
import LoosePatch.Proofs.Text.Numeral
import Mathlib.Algebra.Ring.Nat

/-!
Numerals of a length that is read. A number with few enough digits is read from its numeral
(`Readable.readNumber_numeral`), and where reading a number fails, a run of too many digits stands in
the text (`readNumber_failsOnly`).
-/

namespace LoosePatch

/-! ## Numbers that are read -/

/-- The number has no more digits than are read. -/
def Readable (n : Nat) : Prop := n < 10 ^ mostDigits

instance (n : Nat) : Decidable (Readable n) := Nat.decLt _ _

theorem Readable.of_le {m n : Nat} (hn : Readable n) (h : m ≤ n) : Readable m := Nat.lt_of_le_of_lt h hn

theorem readable_iff {n : Nat} : Readable n ↔ (numeral n).length ≤ mostDigits :=
  (Nat.length_toDigits_le_iff (by decide) (by decide)).symm

theorem Readable.readNumber_numeral {n : Nat} (h : Readable n) : readNumber (numeral n) = .ok n := by
  rw [readNumber, if_neg (Nat.not_lt.mpr (readable_iff.mp h)), digitsValue_numeral]

/-! ## Numbers that are too long -/

theorem readNumber_numeral_of_not_readable {n : Nat} (h : ¬ Readable n) :
    readNumber (numeral n) = .error (.fault (.numberTooLong (numeral n).length)) := by
  rw [readNumber, if_pos (Nat.lt_of_not_le (mt readable_iff.mpr h))]

theorem length_numeral_pow (k : Nat) : (numeral (10 ^ k)).length = k + 1 := by
  have hbound {j : Nat} (hj : 0 < j) : (numeral (10 ^ k)).length ≤ j ↔ 10 ^ k < 10 ^ j :=
    Nat.length_toDigits_le_iff (by decide) hj
  have hle : (numeral (10 ^ k)).length ≤ k + 1 :=
    (hbound (Nat.succ_pos k)).mpr (Nat.pow_lt_pow_right (by decide) (Nat.lt_succ_self k))
  have hlt : ¬ (numeral (10 ^ k)).length ≤ k := by
    rcases Nat.eq_zero_or_pos k with rfl | hk
    · decide
    · exact mt (hbound hk).mp (Nat.lt_irrefl _)
  omega

/-- The least number that is too long to be read. -/
theorem not_readable_pow : ¬ Readable (10 ^ mostDigits) := Nat.lt_irrefl _

/-- A run of digits stands in the text. -/
structure Text.HasDigits (s run : Text) : Prop where
  piece : run <:+: s
  isDigit_of_mem : ∀ c ∈ run, isDigit c = true

/-- So many digits stand next to each other in the text, and a number is not read from so many. -/
def Text.HoldsLong (s : Text) (digits : Nat) : Prop :=
  mostDigits < digits ∧ ∃ run, s.HasDigits run ∧ run.length = digits

/-- The failure is that of a number which is too long and stands in the text. -/
def Failure.IsLongNumber (s : Text) (failure : Failure) : Prop :=
  ∃ digits, failure = .fault (.numberTooLong digits) ∧ s.HoldsLong digits

/-- The failure has the property, or it is that of a number which is too long. -/
def Failure.OrLongNumber (P : Failure → Prop) (s : Text) (failure : Failure) : Prop :=
  P failure ∨ failure.IsLongNumber s

variable {β : Type} {P : Failure → Prop} {s t run rest : Text}

theorem Text.HasDigits.of_piece (h : s.HasDigits run) (hpiece : s <:+: t) : t.HasDigits run :=
  ⟨h.piece.trans hpiece, h.isDigit_of_mem⟩

theorem Text.hasDigits_of_readNumeral? (h : s.readNumeral? = some (run, rest)) : s.HasDigits run := by
  obtain ⟨rfl, -, hdigits⟩ := Text.eq_append_of_readNumeral? h
  exact ⟨(List.prefix_append run rest).isInfix, hdigits⟩

theorem Text.HoldsLong.lt_length {digits : Nat} (h : s.HoldsLong digits) : mostDigits < s.length := by
  obtain ⟨hlong, run, hrun, rfl⟩ := h
  exact hlong.trans_le hrun.piece.length_le

theorem FailsOnly.orLongNumber {x : Outcome β} (h : FailsOnly P x) (s : Text) :
    FailsOnly (Failure.OrLongNumber P s) x :=
  h.imp fun _ => Or.inl

/-- What fails for a piece of a text fails for the text. -/
theorem FailsOnly.of_piece {x : Outcome β} (h : FailsOnly (Failure.OrLongNumber P s) x)
    (hpiece : s <:+: t) : FailsOnly (Failure.OrLongNumber P t) x := by
  refine h.imp fun failure hfailure => hfailure.imp_right ?_
  rintro ⟨digits, rfl, hlong, run, hrun, hlength⟩
  exact ⟨digits, rfl, hlong, run, hrun.of_piece hpiece, hlength⟩

theorem readNumber_failsOnly (h : s.HasDigits run) :
    FailsOnly (Failure.OrLongNumber P s) (readNumber run) := by
  unfold readNumber
  split
  · rename_i hlong
    exact failsOnly_error (.inr ⟨run.length, rfl, hlong, run, h, rfl⟩)
  · exact failsOnly_ok _

end LoosePatch
