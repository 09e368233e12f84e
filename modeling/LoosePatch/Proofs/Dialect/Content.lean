import LoosePatch.Proofs.Dialect.Printed
import LoosePatch.Proofs.Hunk.Reading

/-!
The content of an update diff: its marked lines, but for pairs of file lines in front of the first
header. A normalised diff has them all, each once and in order, except for marked lines at the very
beginning that are blank or open an envelope (`Dialect.normalize_content`); those are lost
(`Dialect.normalize_loses_blank`).
-/

namespace LoosePatch.Dialect

open Hunk (isMarked)

variable {line : Text} {before lines front tail : List Text}

/-- The line is one of a pair of file lines, and no header stands before it. -/
def inFilePair (before : List Text) (line : Text) (after : List Text) : Bool :=
  !before.any Header.opens &&
    ((isOldFileLine line && after.head?.any isNewFileLine) ||
      (isNewFileLine line && before.getLast?.any isOldFileLine))

/-- The content among the lines that come after `before`. -/
def contentAfter (before : List Text) : List Text → List Text
  | [] => []
  | line :: after =>
    (if isMarked line && !inFilePair before line after then [line] else []) ++
      contentAfter (before ++ [line]) after

def contentLines (lines : List Text) : List Text := contentAfter [] lines

/-! ## Kinds of lines -/

theorem isOldFileLine_eq_true (h : isOldFileLine line = true) :
    ∃ s, line = '-' :: '-' :: '-' :: ' ' :: s := by
  obtain ⟨s, rfl⟩ := List.isPrefixOf_iff_prefix.mp h
  exact ⟨s, rfl⟩

theorem isNewFileLine_eq_true (h : isNewFileLine line = true) :
    ∃ s, line = '+' :: '+' :: '+' :: ' ' :: s := by
  obtain ⟨s, rfl⟩ := List.isPrefixOf_iff_prefix.mp h
  exact ⟨s, rfl⟩

theorem isMarked_of_opens (h : Header.opens line = true) : isMarked line = false := by
  obtain ⟨s, rfl⟩ := List.isPrefixOf_iff_prefix.mp h
  rfl

theorem isMarked_of_isEnvelope (h : isEnvelope line = true) : isMarked line = false := by
  simp only [isEnvelope, Bool.and_eq_true, Bool.not_eq_true'] at h
  exact h.1

/-- What a line that opens an envelope is not. -/
theorem not_of_opensEnvelope (h : opensEnvelope line = true) :
    Header.opens line = false ∧ isOldFileLine line = false ∧ isNewFileLine line = false := by
  have hother {c : Char} (hblank : isBlank c = false) (hstar : c ≠ '*') (s : Text) : line ≠ c :: s := by
    rintro rfl
    rw [opensEnvelope_cons hblank hstar] at h
    cases h
  refine ⟨Bool.eq_false_iff.mpr fun hopens => ?_, Bool.eq_false_iff.mpr fun hold => ?_,
    Bool.eq_false_iff.mpr fun hnew => ?_⟩
  · obtain ⟨s, rfl⟩ := List.isPrefixOf_iff_prefix.mp hopens
    exact hother (by decide) (by decide) _ rfl
  · obtain ⟨s, hs⟩ := isOldFileLine_eq_true hold
    exact hother (by decide) (by decide) _ hs
  · obtain ⟨s, hs⟩ := isNewFileLine_eq_true hnew
    exact hother (by decide) (by decide) _ hs

/-- A marked line that opens an envelope is a context line, blank or with the marker for its text. -/
theorem eq_space_cons_of_opensEnvelope (hmarked : isMarked line = true) (h : opensEnvelope line = true) :
    ∃ s, line = ' ' :: s ∧ (line.isBlankText = true ∨ beginsPatch line.trim = true) := by
  cases line with
  | nil => cases hmarked
  | cons c s =>
    rcases Hunk.isMarked_cons hmarked with rfl | rfl | rfl
    · refine ⟨s, rfl, ?_⟩
      have hstars : isBareStars (' ' :: s) = false := isStarred_cons (by decide) _ s
      simpa only [opensEnvelope, hstars, Bool.or_false, Bool.or_eq_true] using h
    · rw [opensEnvelope_cons (by decide) (by decide)] at h
      cases h
    · rw [opensEnvelope_cons (by decide) (by decide)] at h
      cases h

theorem of_isOldFileLine (h : isOldFileLine line = true) :
    isMarked line = true ∧ Header.opens line = false ∧ isNewFileLine line = false := by
  obtain ⟨s, rfl⟩ := isOldFileLine_eq_true h
  exact ⟨rfl, rfl, rfl⟩

theorem of_isNewFileLine (h : isNewFileLine line = true) :
    isMarked line = true ∧ Header.opens line = false ∧ isOldFileLine line = false := by
  obtain ⟨s, rfl⟩ := isNewFileLine_eq_true h
  exact ⟨rfl, rfl, rfl⟩

theorem not_isFileLine_of_unmarked (h : isMarked line = false) :
    isOldFileLine line = false ∧ isNewFileLine line = false := by
  refine ⟨Bool.eq_false_iff.mpr fun hold => ?_, Bool.eq_false_iff.mpr fun hnew => ?_⟩
  · exact Bool.false_ne_true (h.symm.trans (of_isOldFileLine hold).1)
  · exact Bool.false_ne_true (h.symm.trans (of_isNewFileLine hnew).1)

/-! ## One line more -/

theorem inFilePair_of_old (h : isOldFileLine line = true) (before after : List Text) :
    inFilePair before line after = (!before.any Header.opens && after.head?.any isNewFileLine) := by
  rw [inFilePair, h, (of_isOldFileLine h).2.2, Bool.true_and, Bool.false_and, Bool.or_false]

theorem inFilePair_of_new (h : isNewFileLine line = true) (before after : List Text) :
    inFilePair before line after = (!before.any Header.opens && before.getLast?.any isOldFileLine) := by
  rw [inFilePair, h, (of_isNewFileLine h).2.2, Bool.true_and, Bool.false_and, Bool.false_or]

theorem contentAfter_cons_of_unmarked (h : isMarked line = false) (before after : List Text) :
    contentAfter before (line :: after) = contentAfter (before ++ [line]) after := by
  rw [contentAfter, h, Bool.false_and, if_neg Bool.false_ne_true, List.nil_append]

theorem contentAfter_cons_of_pair (h : inFilePair before line tail = true) :
    contentAfter before (line :: tail) = contentAfter (before ++ [line]) tail := by
  rw [contentAfter, h, Bool.not_true, Bool.and_false, if_neg Bool.false_ne_true, List.nil_append]

theorem contentAfter_cons_of_kept (hmarked : isMarked line = true)
    (hpair : inFilePair before line tail = false) :
    contentAfter before (line :: tail) = line :: contentAfter (before ++ [line]) tail := by
  rw [contentAfter, hmarked, hpair, Bool.not_false, Bool.and_true, if_pos rfl, List.singleton_append]

/-! ## Dropping markers -/

theorem any_opens_concat (h : Header.opens line = false) (before : List Text) :
    (before ++ [line]).any Header.opens = before.any Header.opens := by
  rw [List.any_append, List.any_cons, h, List.any_nil, Bool.or_false, Bool.or_false]

/-- Between these lines it is known whether a header was read, and no pair of file lines is cut. -/
structure Between (inHunk : Bool) (before after : List Text) : Prop where
  state : before.any Header.opens = inHunk
  whole : before.getLast?.any isOldFileLine = true → after.head?.any isNewFileLine = true → inHunk = true

namespace Between

variable {inHunk : Bool}

theorem header (h : Header.opens line = true) (before after : List Text) :
    Between true (before ++ [line]) after where
  state := by rw [List.any_append, List.any_cons, h, Bool.true_or, Bool.or_true]
  whole _ _ := rfl

theorem step (h : Between inHunk before (line :: tail)) (hopens : Header.opens line = false)
    (hwhole : isOldFileLine line = true → tail.head?.any isNewFileLine = true → inHunk = true) :
    Between inHunk (before ++ [line]) tail where
  state := (any_opens_concat hopens before).trans h.state
  whole := by
    rw [List.getLast?_concat, Option.any_some]
    exact hwhole

/-- What is not read as the first line of a pair is in none. -/
theorem inFilePair_eq_false (h : Between inHunk before (line :: tail))
    (hold : isOldFileLine line = true → inHunk = true) : inFilePair before line tail = false := by
  cases inHunk with
  | true => rw [inFilePair, h.state, Bool.not_true, Bool.false_and]
  | false =>
    have hfirst : isOldFileLine line = false :=
      Bool.eq_false_iff.mpr fun hline => Bool.false_ne_true (hold hline)
    have hsecond : (isNewFileLine line && before.getLast?.any isOldFileLine) = false := by
      refine Bool.eq_false_iff.mpr fun hboth => ?_
      obtain ⟨hnew, habove⟩ := Bool.and_eq_true_iff.mp hboth
      exact Bool.false_ne_true (h.whole habove hnew)
    rw [inFilePair, hfirst, hsecond, Bool.false_and, Bool.or_false, Bool.and_false]

end Between

/-- No content is dropped with the markers. -/
theorem filter_dropMarkers {inHunk : Bool} (h : Between inHunk before lines) :
    (dropMarkers inHunk lines).filter isMarked = contentAfter before lines := by
  fun_induction dropMarkers inHunk lines generalizing before with
  | case1 => rfl
  | case2 inHunk line rest hopens ih =>
    have hmarked := isMarked_of_opens hopens
    rw [contentAfter_cons_of_unmarked hmarked, List.filter_cons_of_neg (by simp [hmarked])]
    exact ih (.header hopens before rest)
  | case3 inHunk line rest hopens henvelope ih =>
    have hmarked := isMarked_of_isEnvelope henvelope
    have hold := (not_isFileLine_of_unmarked hmarked).1
    rw [contentAfter_cons_of_unmarked hmarked]
    exact ih (h.step (Bool.eq_false_iff.mpr hopens) fun hline => by simp [hold] at hline)
  | case4 inHunk line hopens henvelope hold =>
    obtain ⟨-, hold⟩ := Bool.and_eq_true_iff.mp hold
    have hmarked := (of_isOldFileLine hold).1
    have hpair : inFilePair before line [] = false := by
      rw [inFilePair_of_old hold, List.head?_nil, Option.any_none, Bool.and_false]
    rw [contentAfter_cons_of_kept hmarked hpair, List.filter_cons_of_pos hmarked]
    rfl
  | case5 inHunk line hopens henvelope hold next rest hnew ih =>
    -- a pair, both lines of which are left out
    obtain ⟨hfirst, hold⟩ := Bool.and_eq_true_iff.mp hold
    obtain ⟨-, hopensNext, holdNext⟩ := of_isNewFileLine hnew
    have hstate := (any_opens_concat (of_isOldFileLine hold).2.1 before).trans h.state
    have hline : inFilePair before line (next :: rest) = true := by
      rw [inFilePair_of_old hold, h.state, hfirst, List.head?_cons, Option.any_some, hnew, Bool.and_true]
    have hnext : inFilePair (before ++ [line]) next rest = true := by
      rw [inFilePair_of_new hnew, hstate, hfirst, List.getLast?_concat, Option.any_some, hold,
        Bool.and_true]
    rw [contentAfter_cons_of_pair hline, contentAfter_cons_of_pair hnext]
    refine ih ⟨(any_opens_concat hopensNext _).trans hstate, ?_⟩
    rw [List.getLast?_concat, Option.any_some, holdNext]
    rintro ⟨⟩
  | case6 inHunk line hopens henvelope hold next rest hnew ih =>
    obtain ⟨-, hold⟩ := Bool.and_eq_true_iff.mp hold
    obtain ⟨hmarked, hopens, -⟩ := of_isOldFileLine hold
    have hnext : (next :: rest).head?.any isNewFileLine = false := Bool.eq_false_iff.mpr hnew
    have hline : inFilePair before line (next :: rest) = false := by
      rw [inFilePair_of_old hold, hnext, Bool.and_false]
    rw [contentAfter_cons_of_kept hmarked hline, List.filter_cons_of_pos hmarked]
    exact congrArg _ (ih (h.step hopens fun _ hhead => absurd hhead hnew))
  | case7 inHunk line rest hopens henvelope hold ih =>
    -- an old file line is left standing only in a hunk, where there are no pairs
    have hinside : isOldFileLine line = true → inHunk = true := fun hline => by simpa [hline] using hold
    have hnext := h.step (Bool.eq_false_iff.mpr hopens) fun hline _ => hinside hline
    cases hmarked : isMarked line with
    | false =>
      rw [contentAfter_cons_of_unmarked hmarked, List.filter_cons_of_neg (by simp [hmarked])]
      exact ih hnext
    | true =>
      rw [contentAfter_cons_of_kept hmarked (h.inFilePair_eq_false hinside),
        List.filter_cons_of_pos hmarked]
      exact congrArg _ (ih hnext)

/-! ## Trimming -/

/-- Unmarked lines at the end are no content, and end no pair. -/
theorem contentAfter_append_of_unmarked (h : ∀ line ∈ tail, isMarked line = false)
    (before lines : List Text) : contentAfter before (lines ++ tail) = contentAfter before lines := by
  have hnone (before : List Text) : contentAfter before tail = [] := by
    induction tail generalizing before with
    | nil => rfl
    | cons line tail ih =>
      obtain ⟨hline, htail⟩ := List.forall_mem_cons.mp h
      rw [contentAfter_cons_of_unmarked hline, ih htail]
  have hhead : tail.head?.any isNewFileLine = false := by
    cases tail with
    | nil => rfl
    | cons line tail => exact (not_isFileLine_of_unmarked (h line List.mem_cons_self)).2
  induction lines generalizing before with
  | nil => exact hnone before
  | cons line lines ih =>
    have hnext : (lines ++ tail).head?.any isNewFileLine = lines.head?.any isNewFileLine := by
      cases lines with
      | nil => exact hhead
      | cons => rfl
    rw [List.cons_append, contentAfter, contentAfter, ih, inFilePair, inFilePair, hnext]

/-- The marked lines that open an envelope are content, like those after them. -/
theorem contentAfter_append_of_opensEnvelope (h : ∀ line ∈ front, opensEnvelope line = true)
    (before lines : List Text) : contentAfter before (front ++ lines) =
      front.filter isMarked ++ contentAfter (before ++ front) lines := by
  induction front generalizing before with
  | nil => rw [List.append_nil]; rfl
  | cons line front ih =>
    obtain ⟨hline, hfront⟩ := List.forall_mem_cons.mp h
    obtain ⟨-, hold, hnew⟩ := not_of_opensEnvelope hline
    have hpair : inFilePair before line (front ++ lines) = false := by
      rw [inFilePair, hold, hnew, Bool.false_and, Bool.false_and, Bool.or_false, Bool.and_false]
    rw [List.cons_append, List.filter_cons]
    cases hmarked : isMarked line with
    | false =>
      rw [contentAfter_cons_of_unmarked hmarked, ih hfront, List.append_assoc]
      rfl
    | true =>
      rw [contentAfter_cons_of_kept hmarked hpair, ih hfront, List.append_assoc]
      rfl

theorem filter_lines_unlines (h : ∀ line ∈ lines, '\n' ∉ line) :
    (Text.unlines lines).lines.filter isMarked = lines.filter isMarked := by
  by_cases hne : lines = []
  · rw [hne]
    rfl
  · rw [Text.lines_unlines lines h hne]

/-- No line that opens an envelope is a header or the first line of a pair. -/
theorem between_opening (lines after : List Text) :
    Between false (lines.takeWhile opensEnvelope) after := by
  have hother : ∀ line ∈ lines.takeWhile opensEnvelope,
      Header.opens line = false ∧ isOldFileLine line = false := fun line hline =>
    ⟨(not_of_opensEnvelope (List.mem_takeWhile_imp hline)).1,
      (not_of_opensEnvelope (List.mem_takeWhile_imp hline)).2.1⟩
  refine ⟨List.any_eq_false.mpr fun line hline => by simp [(hother line hline).1], ?_⟩
  cases hlast : (lines.takeWhile opensEnvelope).getLast? with
  | none => rintro ⟨⟩
  | some line =>
    rw [Option.any_some, (hother line (List.mem_of_getLast? hlast)).2]
    rintro ⟨⟩

/-- Only unmarked lines are taken off at the end. -/
theorem exists_trimEnvelope_append (lines : List Text) :
    ∃ tail, lines.dropWhile opensEnvelope = trimEnvelope lines ++ tail ∧
      ∀ line ∈ tail, isMarked line = false := by
  refine ⟨((lines.dropWhile opensEnvelope).reverse.takeWhile closesEnvelope).reverse, ?_, ?_⟩
  · rw [trimEnvelope, ← List.reverse_append, List.takeWhile_append_dropWhile, List.reverse_reverse]
  · intro line hline
    have hcloses := List.mem_takeWhile_imp (List.mem_reverse.mp hline)
    refine Bool.eq_false_iff.mpr fun hmarked => ?_
    rw [closesEnvelope_of_isMarked hmarked] at hcloses
    cases hcloses

/-- The content of a normalised diff is that of the lines after those that open its envelope. -/
theorem filter_normalize (diff : Text) :
    (normalize diff).lines.filter isMarked = contentAfter (diff.anyLines.takeWhile opensEnvelope)
      (diff.anyLines.dropWhile opensEnvelope) := by
  have hbreak : ∀ line ∈ dropMarkers false (trimEnvelope diff.anyLines), '\n' ∉ line := fun line hline =>
    Text.not_mem_of_mem_lines (trimEnvelope_subset _ (dropMarkers_subset _ _ hline))
  obtain ⟨tail, hsplit, htail⟩ := exists_trimEnvelope_append diff.anyLines
  rw [normalize, filter_lines_unlines hbreak, filter_dropMarkers (between_opening diff.anyLines _), hsplit,
    contentAfter_append_of_unmarked htail]

/-- Normalising keeps the content of a diff, each line once and in order, but for the marked lines
among those in front that are blank or open an envelope: context lines without text, or with such a
marker for their text. So nothing is lost if and only if there are none. -/
theorem normalize_content (diff : Text) :
    contentLines diff.anyLines = (diff.anyLines.takeWhile opensEnvelope).filter isMarked ++
      (normalize diff).lines.filter isMarked ∧
    ((normalize diff).lines.filter isMarked = contentLines diff.anyLines ↔
      ∀ line ∈ diff.anyLines.takeWhile opensEnvelope, isMarked line = false) ∧
    ∀ line ∈ diff.anyLines.takeWhile opensEnvelope, isMarked line = true →
      ∃ s, line = ' ' :: s ∧ (line.isBlankText = true ∨ beginsPatch line.trim = true) := by
  have hopens : ∀ line ∈ diff.anyLines.takeWhile opensEnvelope, opensEnvelope line = true :=
    fun line hline => List.mem_takeWhile_imp hline
  have hcontent : contentLines diff.anyLines =
      (diff.anyLines.takeWhile opensEnvelope).filter isMarked ++ (normalize diff).lines.filter isMarked := by
    have hsplit := contentAfter_append_of_opensEnvelope hopens [] (diff.anyLines.dropWhile opensEnvelope)
    rw [List.takeWhile_append_dropWhile, List.nil_append] at hsplit
    rw [contentLines, hsplit, filter_normalize]
  refine ⟨hcontent, ?_, fun line hline hmarked => ?_⟩
  · rw [hcontent, List.self_eq_append_left, List.filter_eq_nil_iff]
    simp only [Bool.not_eq_true]
  · exact eq_space_cons_of_opensEnvelope hmarked (hopens line hline)

/-- A context line without text in front of all others is lost. -/
theorem normalize_loses_blank :
    normalize " \n-a\n+b".toList = "-a\n+b".toList ∧
      contentLines (Text.anyLines " \n-a\n+b".toList) = [[' '], ['-', 'a'], ['+', 'b']] ∧
      (normalize " \n-a\n+b".toList).lines.filter isMarked ≠
        contentLines (Text.anyLines " \n-a\n+b".toList) := by
  decide +kernel

end LoosePatch.Dialect
