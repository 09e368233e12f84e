import LoosePatch.Proofs.Dialect.NewFile

/-!
Diffs for new files in an envelope. The envelope leaves no trace, unless a blank line stands in front
of it or something else than a final line break behind it; then its markers, and the marks of the
lines, are in the file (`Dialect.newFileText_enveloped`).
-/

namespace LoosePatch.Dialect

open Text (terminated unlines)

variable {l path : Text} {ls before after : List Text}

/-! ## Markers -/

def beginLine : Text := "*** Begin Patch".toList

def endLine : Text := "*** End Patch".toList

def addLine (path : Text) : Text := "*** Add File: ".toList ++ path

/-- The lines `body` in an envelope, with the lines `before` and `after` around it. -/
def enveloped (before body after : List Text) : List Text :=
  before ++ beginLine :: (body ++ endLine :: after)

theorem mem_enveloped {body : List Text} (h : l ∈ enveloped before body after) :
    l ∈ before ∨ l = beginLine ∨ l ∈ body ∨ l = endLine ∨ l ∈ after := by
  simpa [enveloped] using h

theorem not_mem_addLine {c : Char} (hc : c ∉ "*** Add File: ".toList) (h : c ∉ path) :
    c ∉ addLine path := by
  intro hmem
  rcases List.mem_append.mp hmem with hmem | hmem
  · exact hc hmem
  · exact h hmem

theorem fileMarker?_addLine (path : Text) : fileMarker? (addLine path) = some path.trim := by
  rw [← Text.trim_blank_cons (c := ' ') (by decide) path]
  rfl

theorem trim_of_isBlankText (h : l.isBlankText = true) : l.trim = [] := by
  have hlead : l.dropWhile isBlank = [] :=
    List.dropWhile_eq_nil_iff.mpr fun c hc => List.all_eq_true.mp h c hc
  rw [Text.trim, Text.trimBy, hlead]
  rfl

theorem not_fileMarker_of_isBlankText (h : l.isBlankText = true) : fileMarker? l = none := by
  cases l with
  | nil => rfl
  | cons c l =>
    have hc : c ≠ '*' := by
      rintro rfl
      cases h
    exact fileMarker?_cons hc l

/-- A blank line is no marker around a new file. -/
theorem not_marker_of_isBlankText (h : l.isBlankText = true) :
    opensNewFile l = false ∧ endsPatch l.trim = false := by
  rw [opensNewFile, trim_of_isBlankText h, not_fileMarker_of_isBlankText h]
  exact ⟨rfl, rfl⟩

/-! ## Added lines in an envelope -/

/-- A diff that adds a file with these lines, in an envelope, without a line break at its end. -/
def envelopedText (before : List Text) (path : Text) (ls after : List Text) : Text :=
  unlines (enveloped before (addLine path :: ls.map ('+' :: ·)) after)

/-- What is left in front of the added lines. -/
def leftAbove (before : List Text) (path : Text) : List Text :=
  if before.isEmpty then [] else before ++ [beginLine, addLine path]

/-- What is left behind the added lines. -/
def leftBelow (after : List Text) : List Text :=
  if (dropLastEmpty after).isEmpty then [] else endLine :: dropLastEmpty after

/-- Nothing is left if the envelope stands at both ends, but for a line break behind it. -/
theorem left_eq_nil_iff (before : List Text) (path : Text) (after : List Text) :
    leftAbove before path = [] ∧ leftBelow after = [] ↔ before = [] ∧ (after = [] ∨ after = [[]]) := by
  have habove : leftAbove before path = [] ↔ before = [] := by cases before <;> simp [leftAbove]
  have hbelow : leftBelow after = [] ↔ dropLastEmpty after = [] := by simp [leftBelow]
  rw [habove, hbelow, dropLastEmpty_eq_nil_iff]

theorem mem_leftAbove (h : leftAbove before path ≠ []) : beginLine ∈ leftAbove before path := by
  unfold leftAbove at h ⊢
  split at h
  · cases h rfl
  · rw [if_neg ‹_›]
    simp

theorem mem_leftBelow (h : leftBelow after ≠ []) : endLine ∈ dropLastEmpty (leftBelow after) := by
  unfold leftBelow at h ⊢
  split at h
  · cases h rfl
  · rw [if_neg ‹_›, dropLastEmpty_cons (by decide)]
    exact List.mem_cons_self

/-- Added lines are not empty, the last one among them. -/
theorem dropLastEmpty_added (ls rest : List Text) :
    dropLastEmpty (ls.map ('+' :: ·) ++ rest) = ls.map ('+' :: ·) ++ dropLastEmpty rest := by
  by_cases hrest : rest = []
  · subst hrest
    rw [List.append_nil, dropLastEmpty_eq_self_iff.mpr (by cases h : ls.getLast? <;> simp [h])]
    simp [dropLastEmpty]
  · exact dropLastEmpty_append _ hrest

theorem dropLastEmpty_enveloped (before body after : List Text) :
    dropLastEmpty (enveloped before body after) = enveloped before body (dropLastEmpty after) := by
  have hend : endLine ≠ [] := by decide
  rw [enveloped, ← List.cons_append, ← List.append_assoc,
    dropLastEmpty_append _ (List.cons_ne_nil endLine after), dropLastEmpty_cons hend]
  simp [enveloped]

theorem dropWhile_enveloped (hne : ls ≠ []) (hbefore : ∀ l ∈ before, l.isBlankText = true) :
    (enveloped before (addLine path :: ls.map ('+' :: ·)) after).dropWhile opensNewFile =
      leftAbove before path ++ (ls.map ('+' :: ·) ++ endLine :: after) := by
  cases before with
  | nil =>
    obtain ⟨l, ls, rfl⟩ := List.exists_cons_of_ne_nil hne
    have hbegin : opensNewFile beginLine = true := by decide
    have hadd : opensNewFile (addLine path) = true := by
      rw [opensNewFile, fileMarker?_addLine, Option.isSome_some, Bool.or_true]
    have hline : ¬ opensNewFile ('+' :: l) = true :=
      Bool.eq_false_iff.mp (not_marker_cons (by decide) (by decide) l).1
    rw [enveloped, List.nil_append, List.dropWhile_cons_of_pos hbegin, List.cons_append,
      List.dropWhile_cons_of_pos hadd, List.map_cons, List.cons_append, List.dropWhile_cons_of_neg hline]
    rfl
  | cons l before =>
    have hline := Bool.eq_false_iff.mp (not_marker_of_isBlankText (hbefore l List.mem_cons_self)).1
    rw [enveloped, List.cons_append, List.dropWhile_cons_of_neg hline]
    simp [leftAbove]

/-- The end marker is taken off if it is the last line. -/
theorem rdropWhile_endLine (above : List Text) (hne : ls ≠ [])
    (hafter : ∀ l ∈ after, l.isBlankText = true) :
    (above ++ (ls.map ('+' :: ·) ++ endLine :: after)).rdropWhile (fun l => endsPatch l.trim) =
      above ++ (ls.map ('+' :: ·) ++ if after.isEmpty then [] else endLine :: after) := by
  rcases List.eq_nil_or_concat' after with rfl | ⟨init, last, rfl⟩
  · obtain ⟨init, last, rfl⟩ := List.eq_nil_or_concat' ls |>.resolve_left hne
    have hend : endsPatch (Text.trim endLine) = true := by decide
    have hlast : ¬ endsPatch (Text.trim ('+' :: last)) = true :=
      Bool.eq_false_iff.mp (not_marker_cons (by decide) (by decide) last).2
    rw [← List.append_assoc, List.rdropWhile_concat_pos (fun l => endsPatch (Text.trim l)) _ _ hend,
      List.map_append, List.map_singleton, ← List.append_assoc,
      List.rdropWhile_concat_neg (fun l => endsPatch (Text.trim l)) _ _ hlast]
    simp
  · have hlast : ¬ endsPatch last.trim = true :=
      Bool.eq_false_iff.mp (not_marker_of_isBlankText (hafter last (by simp))).2
    rw [← List.cons_append, ← List.append_assoc, ← List.append_assoc,
      List.rdropWhile_concat_neg (fun l => endsPatch (Text.trim l)) _ _ hlast]
    simp

/-- A text in which some line has no mark is taken as it is. -/
theorem markWidth_of_unmarked (hl : l ∈ ls) (hne : l ≠ []) (hplus : isPlus l = false) :
    markWidth ls = 0 := by
  have hall : (ls.filter (!·.isEmpty)).all isPlus = false := by
    refine List.all_eq_false.mpr ⟨l, List.mem_filter.mpr ⟨hl, ?_⟩, by simp [hplus]⟩
    simpa using hne
  simp only [markWidth, hall, Bool.not_false, Bool.or_true, if_true]

section Enveloped

variable (hbreak : ∀ l ∈ path :: (before ++ ls ++ after), '\n' ∉ l ∧ '\r' ∉ l) (hne : ls ≠ [])
  (hbefore : ∀ l ∈ before, l.isBlankText = true) (hafter : ∀ l ∈ after, l.isBlankText = true)

include hbreak in
theorem unbroken_enveloped : ∀ l ∈ enveloped before (addLine path :: ls.map ('+' :: ·)) after,
    '\n' ∉ l ∧ '\r' ∉ l := by
  have hplain : ∀ l, l = path ∨ l ∈ before ∨ l ∈ ls ∨ l ∈ after → '\n' ∉ l ∧ '\r' ∉ l := by
    intro l hl
    refine hbreak l ?_
    rw [List.mem_cons, List.mem_append, List.mem_append, or_assoc]
    exact hl
  intro l hl
  rcases mem_enveloped hl with hl | rfl | hl | rfl | hl
  · exact hplain l (.inr (.inl hl))
  · decide
  · rcases List.mem_cons.mp hl with rfl | hl
    · have hpath := hplain path (.inl rfl)
      exact ⟨not_mem_addLine (by decide) hpath.1, not_mem_addLine (by decide) hpath.2⟩
    · obtain ⟨added, hadded, rfl⟩ := List.mem_map.mp hl
      have hline := hplain added (.inr (.inr (.inl hadded)))
      exact ⟨List.not_mem_cons_of_ne_of_not_mem (by decide) hline.1,
        List.not_mem_cons_of_ne_of_not_mem (by decide) hline.2⟩
  · decide
  · exact hplain l (.inr (.inr (.inr hl)))

include hbreak in
theorem anyLines_envelopedText : (envelopedText before path ls after).anyLines =
    enveloped before (addLine path :: ls.map ('+' :: ·)) after := by
  have hplain := unbroken_enveloped hbreak
  exact Text.anyLines_unlines (fun l hl => (hplain l hl).1) (fun l hl => (hplain l hl).2)
    (by simp [enveloped])

include hbreak hne hbefore hafter

theorem newFileBody_envelopedText : newFileBody (envelopedText before path ls after) =
    leftAbove before path ++ (ls.map ('+' :: ·) ++ leftBelow after) := by
  have hblank : ∀ l ∈ dropLastEmpty after, l.isBlankText = true := fun l hl =>
    hafter l (dropLastEmpty_subset after hl)
  rw [newFileBody, anyLines_envelopedText hbreak, dropLastEmpty_enveloped, dropWhile_enveloped hne hbefore]
  exact rdropWhile_endLine _ hne hblank

theorem unbroken_left :
    ∀ l ∈ leftAbove before path ++ (ls.map ('+' :: ·) ++ dropLastEmpty (leftBelow after)), '\n' ∉ l := by
  intro l hl
  rw [← dropLastEmpty_added, ← dropLastEmpty_append _ (by simp [hne]),
    ← newFileBody_envelopedText hbreak hne hbefore hafter] at hl
  exact not_mem_of_mem_newFileBody (dropLastEmpty_subset _ hl)

/-- If anything of the envelope is left, the text is taken as it is. -/
theorem newFileText_left (h : leftAbove before path ≠ [] ∨ leftBelow after ≠ []) :
    newFileText (envelopedText before path ls after) =
      terminated (leftAbove before path ++ (ls.map ('+' :: ·) ++ dropLastEmpty (leftBelow after))) := by
  have hbody := newFileBody_envelopedText hbreak hne hbefore hafter
  have hmarker : beginLine ∈ leftAbove before path ∨ endLine ∈ leftBelow after :=
    h.imp mem_leftAbove fun hbelow => dropLastEmpty_subset _ (mem_leftBelow hbelow)
  have hwidth : markWidth (newFileBody (envelopedText before path ls after)) = 0 := by
    rw [hbody]
    rcases hmarker with hmem | hmem
    · exact markWidth_of_unmarked (List.mem_append_left _ hmem) (by decide) rfl
    · exact markWidth_of_unmarked (List.mem_append_right _ (List.mem_append_right _ hmem)) (by decide) rfl
  have hwhole : (newFileBody (envelopedText before path ls after)).map
      (·.drop (markWidth (newFileBody (envelopedText before path ls after)))) =
        newFileBody (envelopedText before path ls after) := by
    simp [hwidth]
  rw [newFileText_eq hwhole (by simp [hbody, hne]) (fun _ => not_mem_of_mem_newFileBody), hbody,
    dropLastEmpty_append _ (by simp [hne]), dropLastEmpty_added]

/-- The envelope leaves no trace if it begins with the first line, and ends with the last one or with a
line break behind it. Else all marks are kept, and a marker of the envelope is in the file. -/
theorem newFileText_enveloped (ended : Bool) :
    newFileText (addedText ls ended) = terminated (dropLastEmpty (withoutMargin ls)) ∧
    (newFileText (envelopedText before path ls after) = newFileText (addedText ls ended) ↔
      before = [] ∧ (after = [] ∨ after = [[]])) ∧
    (¬ (before = [] ∧ (after = [] ∨ after = [[]])) →
      newFileText (envelopedText before path ls after) =
        terminated (leftAbove before path ++ (ls.map ('+' :: ·) ++ dropLastEmpty (leftBelow after))) ∧
      (beginLine ∈ leftAbove before path ∨ endLine ∈ dropLastEmpty (leftBelow after))) := by
  have hplain (l : Text) (hl : l ∈ ls) : '\n' ∉ l ∧ '\r' ∉ l := hbreak l (by simp [hl])
  have hfeed : ∀ l ∈ ls, '\n' ∉ l := fun l hl => (hplain l hl).1
  have hreturn : ∀ l ∈ ls, '\r' ∉ l := fun l hl => (hplain l hl).2
  have hadded := newFileText_added hfeed hreturn ended hne
  have hnothing := left_eq_nil_iff before path after
  have hsome (h : ¬ (before = [] ∧ (after = [] ∨ after = [[]]))) :
      leftAbove before path ≠ [] ∨ leftBelow after ≠ [] := by
    rw [← hnothing] at h
    exact not_and_or.mp h
  refine ⟨hadded, ⟨fun heq => ?_, fun h => ?_⟩, fun h => ⟨?_, ?_⟩⟩
  · -- a text that is taken as it is has more lines
    by_contra h
    have hlines := Text.terminated_injective (unbroken_left hbreak hne hbefore hafter)
      (fun l hl => not_mem_withoutMargin hfeed l (dropLastEmpty_subset _ hl))
      ((newFileText_left hbreak hne hbefore hafter (hsome h)).symm.trans (heq.trans hadded))
    have hlength := congrArg List.length hlines
    have hless := length_dropLastEmpty_le (withoutMargin ls)
    rw [length_withoutMargin] at hless
    simp only [List.length_append, List.length_map] at hlength
    rcases hsome h with habove | hbelow
    · have hpos := List.length_pos_iff.mpr habove
      omega
    · have hpos := List.length_pos_of_mem (mem_leftBelow hbelow)
      omega
  · obtain ⟨habove, hbelow⟩ := hnothing.mpr h
    have hbody := newFileBody_envelopedText hbreak hne hbefore hafter
    rw [habove, hbelow, List.nil_append, List.append_nil,
      ← newFileBody_addedText hfeed hreturn ended hne] at hbody
    rw [newFileText, hbody, newFileText]
  · exact newFileText_left hbreak hne hbefore hafter (hsome h)
  · exact (hsome h).imp mem_leftAbove mem_leftBelow

end Enveloped

/-- Two line breaks behind the envelope are one too many. -/
theorem newFileText_enveloped_above_blanks :
    newFileText (envelopedText [] "n.txt".toList ["hi".toList] [[], []]) =
      terminated ["+hi".toList, endLine] := by
  have hbreak : ∀ l ∈ "n.txt".toList :: ([] ++ ["hi".toList] ++ [[], []]), '\n' ∉ l ∧ '\r' ∉ l := by
    decide
  obtain ⟨-, -, hleft⟩ := newFileText_enveloped hbreak (by decide) (by decide) (by decide) false
  exact (hleft (by decide)).1

/-- One blank line in front of an envelope leaves all its markers in the file. -/
theorem newFileText_keeps_markers :
    newFileText (envelopedText [[]] "n.txt".toList ["hi".toList] []) =
      "\n*** Begin Patch\n*** Add File: n.txt\n+hi\n".toList ∧
    newFileText (addedText ["hi".toList] false) = "hi\n".toList := by
  decide +kernel

end LoosePatch.Dialect
