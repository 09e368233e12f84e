import LoosePatch.Proofs.Hunk.Range
import LoosePatch.Proofs.Text.Trim

/-!
Header lines as they are printed, with ranges and with anchors. What is read from one is what it was
printed from (`Header.read_printed`).
-/

namespace LoosePatch

/-- The hint gives a range of lines on either side, each with its length, in numbers that are not too
long to be read. -/
def LineHint.IsRange (hint : LineHint) : Prop :=
  ∃ oldStart oldLength newStart newLength, 1 ≤ oldStart ∧ 1 ≤ newStart ∧
    (∀ n ∈ [oldStart, oldLength, newStart, newLength], Readable n) ∧
    hint = { oldStart, oldLength := some oldLength
             newStart := some newStart, newLength := some newLength }

namespace Header

/-- A text that is an anchor and nothing else in a header: it is trimmed and holds no control
character, no sign is at either end, and it reads neither as a range nor as a hint. -/
structure IsAnchor (a : Text) : Prop where
  ne_nil : a ≠ []
  trim_eq : a.trim = a
  plain : a.any isControl = false
  not_mem_break : '\n' ∉ a ∧ '\r' ∉ a
  not_opens : opens a = false
  not_closed : sign.isSuffixOf a = false
  not_range : ∀ c rest, a = '-' :: c :: rest → isDigit c = false
  not_lines : readLineNumbers? a = none
  not_top : namesTop a = false

/-- What follows the sign or the range of a header. -/
def anchorPart : Option Text → Text
  | none => []
  | some a => ' ' :: a

/-- A header line. -/
def printed (hint : Option LineHint) (anchor : Option Text) : Text :=
  match hint with
  | none => sign ++ anchorPart anchor
  | some hint => range hint.oldStart (hint.oldLength.getD 0) (hint.newStart.getD 0)
      (hint.newLength.getD 0) ++ anchorPart anchor

variable {a : Text} {anchor : Option Text} {hint : Option LineHint}

theorem opens_printed (hint : Option LineHint) (anchor : Option Text) :
    opens (printed hint anchor) = true := by
  cases hint <;> rfl

/-- A character that is not in the anchor and that nothing else is made of. -/
theorem not_mem_printed {c : Char} (hc : c ∉ ['@', ' ', '-', '+', ',']) (hdigit : c.isDigit = false)
    (hanchor : ∀ a, anchor = some a → c ∉ a) : c ∉ printed hint anchor := by
  have hpart : c ∉ anchorPart anchor := by
    cases anchor with
    | none => exact List.not_mem_nil
    | some a =>
      have hblank : c ≠ ' ' := fun heq => hc (by simp [heq])
      exact List.not_mem_cons_of_ne_of_not_mem hblank (hanchor a rfl)
  intro hmem
  cases hint with
  | none =>
    have hsign : sign ⊆ ['@', ' ', '-', '+', ','] := by decide
    rcases List.mem_append.mp hmem with hmem | hmem
    exacts [hc (hsign hmem), hpart hmem]
  | some hint =>
    rcases List.mem_append.mp hmem with hmem | hmem
    · rcases mem_range hmem with hmem | hmem
      exacts [hc hmem, Bool.false_ne_true (hdigit.symm.trans hmem)]
    · exact hpart hmem

namespace IsAnchor

variable (h : IsAnchor a)

include h

theorem anchorOf_eq : anchorOf a = .ok (some a) := by
  have hsome : a.isEmpty = false := List.isEmpty_eq_false_iff.mpr h.ne_nil
  simp only [anchorOf, h.trim_eq, h.not_closed, h.plain, hsome, Bool.false_eq_true, if_false]

theorem trimEnd_append (s : Text) : Text.trimEnd (s ++ ' ' :: a) = s ++ ' ' :: a := by
  refine Text.trimEnd_of_getLast fun hne => ?_
  have hlast : (s ++ ' ' :: a).getLast hne = a.getLast h.ne_nil := by
    rw [List.getLast_append_of_ne_nil _ (List.cons_ne_nil _ _), List.getLast_cons h.ne_nil]
  rw [hlast]
  exact Text.getLast_of_trim_eq h.trim_eq h.ne_nil

theorem readNumeral?_after_minus {rest : Text} (ha : a = '-' :: rest) :
    Text.readNumeral? rest = none := by
  cases rest with
  | nil => rfl
  | cons c rest =>
    have hrun : (c :: rest).takeWhile isDigit = [] :=
      List.takeWhile_cons_of_neg (by simp [h.not_range c rest ha])
    simp only [Text.readNumeral?, hrun, List.isEmpty_nil, if_true]

theorem trimStart_cons : Text.trimStart (' ' :: a) = a := by
  rw [Text.trimStart, List.dropWhile_cons_of_pos (by decide)]
  exact Text.trimStart_of_trim_eq h.trim_eq

theorem readRange?_eq_none : readRange? (sign ++ ' ' :: a) = none := by
  have hsign : Text.readLead? sign (sign ++ ' ' :: a) = some (' ' :: a) := rfl
  rw [readRange?, h.trimEnd_append]
  simp only [hsign, Option.bind_eq_bind, Option.bind_some, h.trimStart_cons]
  cases hlead : Text.readLead? ['-'] a with
  | none => rfl
  | some rest =>
    have ha : a = '-' :: rest := (List.isPrefixOf?_eq_some_iff_append_eq.mp hlead).symm
    simp only [Option.bind_some, h.readNumeral?_after_minus ha, Option.bind_none]

theorem looksLikeRange_eq_false : looksLikeRange (sign ++ ' ' :: a) = false := by
  have hsign : (Text.readLead? sign (sign ++ ' ' :: a)).map Text.trimStart = some a :=
    congrArg some h.trimStart_cons
  rw [looksLikeRange, hsign]
  split
  · rename_i c rest heq
    exact h.not_range c rest (Option.some.inj heq)
  · rfl

/-- A header with nothing but an anchor is read as that. -/
theorem read_eq : read (sign ++ ' ' :: a) = .ok ([a], none) := by
  have hrest : Text.trim ((sign ++ ' ' :: a).drop 2) = a :=
    (Text.trim_blank_cons (by decide) a).trans h.trim_eq
  have hlead : Text.readLead? sign a = none := by
    refine Option.eq_none_iff_forall_ne_some.mpr fun rest hrest => ?_
    have ha : sign ++ rest = a := List.isPrefixOf?_eq_some_iff_append_eq.mp hrest
    have hopens : opens (sign ++ rest) = true := rfl
    rw [ha, h.not_opens] at hopens
    cases hopens
  have hsome : a.isEmpty = false := List.isEmpty_eq_false_iff.mpr h.ne_nil
  rw [read, h.readRange?_eq_none]
  simp only [h.looksLikeRange_eq_false, hrest, hlead, hsome, h.not_lines, h.not_top, h.anchorOf_eq,
    Bool.false_eq_true, if_false]
  rfl

end IsAnchor

section Printed

variable (hanchor : ∀ a, anchor = some a → IsAnchor a)

include hanchor

theorem anchorOf_anchorPart : anchorOf (anchorPart anchor).trimStart = .ok anchor := by
  cases anchor with
  | none => rfl
  | some a =>
    rw [anchorPart, (hanchor a rfl).trimStart_cons]
    exact (hanchor a rfl).anchorOf_eq

theorem readRange?_anchorPart (oldStart oldLength newStart newLength : Nat) :
    readRange? (range oldStart oldLength newStart newLength ++ anchorPart anchor) =
      some (numeralsOf oldStart oldLength newStart newLength, (anchorPart anchor).trimStart) := by
  refine readRange?_range ?_ ?_
  · cases anchor with
    | none => rw [anchorPart, List.append_nil, trimEnd_range]
    | some a => exact (hanchor a rfl).trimEnd_append _
  · cases anchor with
    | none => exact List.not_mem_nil
    | some a =>
      exact List.not_mem_cons_of_ne_of_not_mem (by decide) (hanchor a rfl).not_mem_break.1

/-- A printed header is read as what it was printed from. -/
theorem read_printed (hhint : ∀ range, hint = some range → range.IsRange) :
    read (printed hint anchor) = .ok (anchor.toList, hint) := by
  cases hint with
  | none =>
    cases anchor with
    | none => rfl
    | some a => exact (hanchor a rfl).read_eq
  | some hint =>
    obtain ⟨oldStart, oldLength, newStart, newLength, hold, hnew, hreadable, rfl⟩ := hhint hint rfl
    have hvalid : rangeIsInvalid {
        oldStart, oldLength := some oldLength
        newStart := some newStart, newLength := some newLength } = false := by
      simp only [rangeIsInvalid, Option.any_some, Bool.or_eq_false_iff, Bool.and_eq_false_iff,
        decide_eq_false_iff_not]
      omega
    show read (range oldStart oldLength newStart newLength ++ anchorPart anchor) = _
    have hnumbers := hint_numeralsOf (hreadable oldStart (by simp)) (hreadable oldLength (by simp))
      (hreadable newStart (by simp)) (hreadable newLength (by simp))
    rw [read, readRange?_anchorPart hanchor]
    dsimp only
    rw [hnumbers]
    show (if rangeIsInvalid _ then _ else _) = _
    simp only [hvalid, anchorOf_anchorPart hanchor, Bool.false_eq_true, if_false]
    rfl

end Printed

end Header

end LoosePatch
