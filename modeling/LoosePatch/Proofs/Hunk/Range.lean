import LoosePatch.Hunk.Header
import LoosePatch.Proofs.Text.Readable

/-!
Range headers as diff tools write them. The numerals that are read from one are those of the ranges that
were written, and what follows them is left for an anchor (`Header.readRange?_range`). They stand for
the ranges unless they are too long to be read (`Header.hint_numeralsOf`).
-/

namespace LoosePatch

namespace Header

/-- The first lines of one side, so many of them. -/
def side (mark : Char) (length : Nat) : Text := mark :: (numeral 1 ++ ',' :: numeral length)

/-- The header of a hunk that has the first lines on either side. -/
def ofRange (old new : Nat) : Text :=
  sign ++ ' ' :: (side '-' old ++ ' ' :: (side '+' new ++ ' ' :: sign))

example : ofRange 12 3 = "@@ -1,12 +1,3 @@".toList := by decide

/-- A range of lines on one side: the number of the first one, and how many they are. -/
def lineRange (mark : Char) (start length : Nat) : Text :=
  mark :: (numeral start ++ ',' :: numeral length)

/-- The header of a hunk with a range of lines on either side. -/
def range (oldStart oldLength newStart newLength : Nat) : Text :=
  sign ++ ' ' :: (lineRange '-' oldStart oldLength ++ ' ' ::
    (lineRange '+' newStart newLength ++ ' ' :: sign))

theorem ofRange_eq_range (old new : Nat) : ofRange old new = range 1 old 1 new := rfl

variable {old new oldStart oldLength newStart newLength start length n : Nat} {c mark : Char}

theorem mem_lineRange (h : c ∈ lineRange mark start length) :
    c = mark ∨ c = ',' ∨ c.isDigit = true := by
  rcases List.mem_cons.mp h with h | h
  · exact .inl h
  · rcases List.mem_append.mp h with h | h
    · exact .inr (.inr (isDigit_of_mem_numeral h))
    · exact .inr ((List.mem_cons.mp h).imp_right isDigit_of_mem_numeral)

theorem mem_range (h : c ∈ range oldStart oldLength newStart newLength) :
    c ∈ ['@', ' ', '-', '+', ','] ∨ c.isDigit = true := by
  have hparts : c = '@' ∨ c = ' ' ∨ c ∈ lineRange '-' oldStart oldLength ∨
      c ∈ lineRange '+' newStart newLength := by
    simp only [range, sign, List.mem_append, List.mem_cons, List.not_mem_nil] at h
    tauto
  rcases hparts with rfl | rfl | h | h
  · exact .inl (by decide)
  · exact .inl (by decide)
  · rcases mem_lineRange h with rfl | rfl | h
    exacts [.inl (by decide), .inl (by decide), .inr h]
  · rcases mem_lineRange h with rfl | rfl | h
    exacts [.inl (by decide), .inl (by decide), .inr h]

theorem readLength_numeral {rest : Text} (h : rest.head?.all (!isDigit ·) = true) :
    readLength (',' :: (numeral n ++ rest)) = (some (numeral n), rest) := by
  simp only [readLength, readNumeral?_numeral n h]

theorem trimEnd_range (oldStart oldLength newStart newLength : Nat) :
    Text.trimEnd (range oldStart oldLength newStart newLength) =
      range oldStart oldLength newStart newLength := by
  have hsplit : range oldStart oldLength newStart newLength =
      (sign ++ ' ' :: (lineRange '-' oldStart oldLength ++ ' ' ::
        (lineRange '+' newStart newLength ++ [' ']))) ++ sign := by
    simp only [range, List.append_assoc, List.cons_append, List.nil_append]
  have hsign (s : Text) : (sign.reverse ++ s).dropWhile isBlank = sign.reverse ++ s := rfl
  rw [hsplit, Text.trimEnd, Text.trimEndBy, List.reverse_append, hsign, ← List.reverse_append,
    List.reverse_reverse]

/-- The numerals of a range of lines on either side. -/
def numeralsOf (oldStart oldLength newStart newLength : Nat) : Numerals where
  oldStart := numeral oldStart
  oldLength := some (numeral oldLength)
  newStart := numeral newStart
  newLength := some (numeral newLength)

theorem hint_numeralsOf (hold : Readable oldStart) (holdLength : Readable oldLength)
    (hnew : Readable newStart) (hnewLength : Readable newLength) :
    (numeralsOf oldStart oldLength newStart newLength).hint = .ok {
      oldStart, oldLength := some oldLength
      newStart := some newStart, newLength := some newLength } := by
  simp only [numeralsOf, Numerals.hint, Option.mapM_some, hold.readNumber_numeral,
    holdLength.readNumber_numeral, hnew.readNumber_numeral, hnewLength.readNumber_numeral]
  rfl

theorem hint_numeralsOf_of_long (hold : ¬ Readable oldStart) :
    (numeralsOf oldStart oldLength newStart newLength).hint =
      .error (.fault (.numberTooLong (numeral oldStart).length)) := by
  rw [Numerals.hint, numeralsOf, readNumber_numeral_of_not_readable hold]
  rfl

/-- Ranges are read as they were written, and what follows them is left. -/
theorem readRange?_range {rest : Text}
    (htrim : Text.trimEnd (range oldStart oldLength newStart newLength ++ rest) =
      range oldStart oldLength newStart newLength ++ rest)
    (hbreak : '\n' ∉ rest) :
    readRange? (range oldStart oldLength newStart newLength ++ rest) =
      some (numeralsOf oldStart oldLength newStart newLength, rest.trimStart) := by
  have hflat : range oldStart oldLength newStart newLength ++ rest =
      '@' :: '@' :: ' ' :: '-' :: (numeral oldStart ++ ',' :: (numeral oldLength ++
        ' ' :: '+' :: (numeral newStart ++ ',' :: (numeral newLength ++ ' ' :: (sign ++ rest))))) := by
    simp only [range, lineRange, sign, List.append_assoc, List.cons_append, List.nil_append]
  -- One fact for each piece that is read, in the order of reading.
  have hopening (s : Text) : Text.readLead? sign ('@' :: '@' :: s) = some s := rfl
  have hold (s : Text) : Text.readLead? ['-'] (Text.trimStart (' ' :: '-' :: s)) = some s := rfl
  have hstart (n : Nat) (s : Text) :
      Text.readNumeral? (numeral n ++ ',' :: s) = some (numeral n, ',' :: s) :=
    readNumeral?_numeral n rfl
  have hlength (n : Nat) (s : Text) :
      readLength (',' :: (numeral n ++ ' ' :: s)) = (some (numeral n), ' ' :: s) :=
    readLength_numeral rfl
  have hblank (s : Text) : Text.readBlanks? (' ' :: '+' :: s) = some ('+' :: s) := rfl
  have hnew (s : Text) : Text.readLead? ['+'] ('+' :: s) = some s := rfl
  have hclosing (s : Text) : Text.readLead? sign (Text.trimStart (' ' :: (sign ++ s))) = some s := rfl
  have hmem : '\n' ∉ rest.trimStart := fun hmem => hbreak ((List.dropWhile_suffix isBlank).subset hmem)
  have hrest : rest.trimStart.contains '\n' = false := by simpa using hmem
  rw [readRange?, htrim, hflat]
  simp only [hopening, hold, hstart, hlength, hblank, hnew, hclosing, hrest, Option.bind_eq_bind,
    Option.bind_some]
  rfl

/-- A header cannot be read if its first number is too long. -/
theorem read_range_of_long (hold : ¬ Readable oldStart) :
    read (range oldStart oldLength newStart newLength) =
      .error (.fault (.numberTooLong (numeral oldStart).length)) := by
  have htrim : Text.trimEnd (range oldStart oldLength newStart newLength ++ []) =
      range oldStart oldLength newStart newLength ++ [] := by
    rw [List.append_nil, trimEnd_range]
  have hrange := readRange?_range htrim List.not_mem_nil
  rw [List.append_nil] at hrange
  rw [read, hrange]
  dsimp only
  rw [hint_numeralsOf_of_long hold]
  rfl

end Header
end LoosePatch
