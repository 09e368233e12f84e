import LoosePatch.Text.Basic

/-!
Decimal digits of every script, and numbers written with them. The digits of a script stand in
one block of ten, so a block is known by its zero.
-/

namespace LoosePatch

/-- The zeros of all decimal digit blocks. -/
def digitZeros : List Nat := [
  48, 1632, 1776, 1984, 2406, 2534, 2662, 2790, 2918, 3046, 3174, 3302, 3430, 3558, 3664, 3792,
  3872, 4160, 4240, 6112, 6160, 6470, 6608, 6784, 6800, 6992, 7088, 7232, 7248, 42528, 43216,
  43264, 43472, 43504, 43600, 44016, 65296, 66720, 68912, 69734, 69872, 69942, 70096, 70384,
  70736, 70864, 71248, 71360, 71472, 71904, 72016, 72784, 73040, 73120, 92768, 92864, 93008,
  120782, 120792, 120802, 120812, 120822, 123200, 123632, 125264, 130032]

/-- The value of a decimal digit of any script. -/
def digitValue? (c : Char) : Option Nat :=
  let n := c.toNat
  if 48 ≤ n ∧ n ≤ 57 then some (n - 48)
  else if n < 128 then none
  else (digitZeros.find? fun z => z ≤ n && n < z + 10).map fun z => n - z

def isDigit (c : Char) : Bool := (digitValue? c).isSome

def isHexDigit (c : Char) : Bool :=
  ('0' ≤ c && c ≤ '9') || ('a' ≤ c && c ≤ 'f') || ('A' ≤ c && c ≤ 'F')

/-- A numeral with more digits than this is not turned into a number. -/
def mostDigits : Nat := 4300

namespace Text

/-- The number that a run of digits denotes. -/
def digitsValue (ds : Text) : Nat := ds.foldl (fun n c => 10 * n + (digitValue? c).getD 0) 0

/-- Reads a maximal non-empty run of digits: the run, and what follows. -/
def readNumeral? (s : Text) : Option (Text × Text) :=
  let ds : Text := s.takeWhile isDigit
  if ds.isEmpty then none else some (ds, s.drop ds.length)

/-- Reads a run of digits of any length: its value, and what follows. -/
def readNat? (s : Text) : Option (Nat × Text) :=
  (readNumeral? s).map fun (ds, rest) => (ds.digitsValue, rest)

/-- A numeral is a run of digits in front of what follows. -/
theorem eq_append_of_readNumeral? {s ds rest : Text} (h : readNumeral? s = some (ds, rest)) :
    s = ds ++ rest ∧ ds ≠ [] ∧ ∀ c ∈ ds, isDigit c = true := by
  simp only [readNumeral?] at h
  split at h
  · cases h
  · rename_i hsome
    cases h
    refine ⟨?_, by simpa using hsome, List.all_eq_true.mp List.all_takeWhile⟩
    exact (List.prefix_iff_eq_append.mp (List.takeWhile_prefix isDigit)).symm

theorem eq_append_of_readNat? {s rest : Text} {n : Nat} (h : readNat? s = some (n, rest)) :
    ∃ ds, s = ds ++ rest ∧ ds ≠ [] ∧ ∀ c ∈ ds, isDigit c = true := by
  obtain ⟨⟨ds, rest⟩, hread, heq⟩ := Option.map_eq_some_iff.mp h
  cases heq
  exact ⟨ds, eq_append_of_readNumeral? hread⟩

end Text

/-- The decimal numeral of a number. -/
def numeral (n : Nat) : Text := Nat.toDigits 10 n

/-- The decimal numeral of a whole number, with a minus sign below zero. -/
def signedNumeral (n : Int) : Text := (if n < 0 then ['-'] else []) ++ numeral n.natAbs

theorem signedNumeral_natCast (n : Nat) : signedNumeral n = numeral n := by
  simp only [signedNumeral, Int.natAbs_natCast]
  rw [if_neg (by omega)]
  rfl

end LoosePatch
