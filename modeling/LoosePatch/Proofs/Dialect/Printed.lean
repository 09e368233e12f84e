import LoosePatch.Dialect.Normalize
import LoosePatch.Proofs.Hunk.Printed

/-!
Printed hunks with nothing around them. They are normal already (`Dialect.normalize_printed`), so a
diff that is printed is read back as the hunks it was printed from.
-/

namespace LoosePatch.Dialect

open Hunk (isMarked isStarred printedLines)

variable {c : Char} {s line : Text} {lines after : List Text} {hunks : List Hunk}

/-! ## Lines that are no markers -/

theorem readLead?_append (lead s : Text) : Text.readLead? lead (lead ++ s) = some s :=
  List.isPrefixOf?_eq_some_iff_append_eq.mpr rfl

theorem fileMarker?_cons (h : c ≠ '*') (s : Text) : fileMarker? (c :: s) = none := by
  simp [fileMarker?, readStars?, Text.readLead?, List.isPrefixOf?, h.symm]

theorem isStarred_cons (h : c ≠ '*') (words : List Text) (s : Text) :
    isStarred words (c :: s) = false := by
  have hlead : Text.readLead? ['*', '*', '*'] (c :: s) = none := by
    simp [Text.readLead?, List.isPrefixOf?, h.symm]
  rw [isStarred, hlead]
  rfl

theorem opensEnvelope_cons (hblank : isBlank c = false) (hstar : c ≠ '*') (s : Text) :
    opensEnvelope (c :: s) = false := by
  rw [opensEnvelope, beginsPatch, isBareStars, Text.trim_cons hblank, isStarred_cons hstar,
    isStarred_cons hstar, Text.isBlankText, List.all_cons, hblank]
  rfl

theorem closesEnvelope_cons (h : c = ' ' ∨ isBlank c = false ∧ c ≠ '*') (s : Text) :
    closesEnvelope (c :: s) = false := by
  rcases h with rfl | ⟨hblank, hstar⟩
  · rfl
  · rw [closesEnvelope, endsPatch, isBareStars, Text.trim_cons hblank, isStarred_cons hstar,
      isStarred_cons hstar, Text.isBlankText, List.all_cons, hblank]
    simp

theorem closesEnvelope_of_isMarked (h : isMarked line = true) : closesEnvelope line = false := by
  cases line with
  | nil => cases h
  | cons c s =>
    rcases Hunk.isMarked_cons h with rfl | rfl | rfl
    · exact closesEnvelope_cons (.inl rfl) s
    · exact closesEnvelope_cons (.inr (by decide)) s
    · exact closesEnvelope_cons (.inr (by decide)) s

theorem closesEnvelope_of_mem_printedLines {hunk : Hunk} (h : line ∈ hunk.printedLines) :
    closesEnvelope line = false := by
  rcases Hunk.mem_printedLines h with ⟨hint, anchor, rfl⟩ | hmarked | rfl | rfl
  · cases hint <;> exact closesEnvelope_cons (.inr (by decide)) _
  · exact closesEnvelope_of_isMarked hmarked
  · decide
  · decide

/-- A printed hunk names no file. -/
theorem namedPath?_of_mem_printedLines {hunk : Hunk} (h : line ∈ hunk.printedLines) :
    namedPath? line = none := by
  rcases Hunk.mem_printedLines h with ⟨hint, anchor, rfl⟩ | hmarked | rfl | rfl
  · cases hint <;> rfl
  · rw [namedPath?, hmarked, if_pos rfl]
  · decide
  · decide

/-- A diff that names no file may be about any. -/
theorem checkSingleFile_of_unnamed {diff : Text} (h : ∀ line ∈ diff.anyLines, namedPath? line = none)
    (requested : Option Text) : checkSingleFile diff requested = .ok () := by
  unfold checkSingleFile
  rw [markerPaths, List.filterMap_eq_nil_iff.mpr h]
  rfl

/-! ## Nothing to take off -/

theorem trimEnvelope_cons (h : opensEnvelope line = false) (lines : List Text) :
    trimEnvelope (line :: lines) = (line :: lines).rdropWhile closesEnvelope := by
  rw [trimEnvelope, List.dropWhile_cons_of_neg (Bool.eq_false_iff.mp h), List.rdropWhile]

/-- Only closing lines after the lines of some hunks are taken off. -/
theorem trimEnvelope_printedLines (hne : hunks ≠ []) (hafter : ∀ line ∈ after, closesEnvelope line = true) :
    trimEnvelope (hunks.flatMap printedLines ++ after) = hunks.flatMap printedLines := by
  have hcloses : ∀ line ∈ hunks.flatMap printedLines, closesEnvelope line = false := by
    intro line hline
    obtain ⟨hunk, -, hline⟩ := List.mem_flatMap.mp hline
    exact closesEnvelope_of_mem_printedLines hline
  have hend : (hunks.flatMap printedLines).rdropWhile closesEnvelope = hunks.flatMap printedLines :=
    List.rdropWhile_eq_self_iff.mpr fun hne =>
      Bool.eq_false_iff.mp (hcloses _ (List.getLast_mem hne))
  obtain ⟨hunk, hunks, rfl⟩ := List.exists_cons_of_ne_nil hne
  have hopens : opensEnvelope (Header.printed hunk.hint hunk.anchors.head?) = false := by
    cases hunk.hint <;> exact opensEnvelope_cons (by decide) (by decide) _
  exact (trimEnvelope_cons hopens _).trans ((Text.rdropWhile_append_of_all hafter _).trans hend)

/-- In a hunk the lines that are kept are chosen one by one. -/
theorem dropMarkers_true (lines : List Text) :
    dropMarkers true lines = lines.filter fun line => Header.opens line || !isEnvelope line := by
  induction lines with
  | nil => rfl
  | cons line lines ih =>
    unfold dropMarkers
    cases hopens : Header.opens line <;> cases henvelope : isEnvelope line <;>
      simp [hopens, henvelope, ih]

theorem dropMarkers_of_not_isEnvelope
    (h : ∀ line ∈ lines, Header.opens line = true ∨ isEnvelope line = false) :
    dropMarkers true lines = lines := by
  rw [dropMarkers_true, List.filter_eq_self]
  intro line hline
  simpa using h line hline

theorem opens_or_not_isEnvelope {hunk : Hunk} (h : line ∈ hunk.printedLines) :
    Header.opens line = true ∨ isEnvelope line = false := by
  rcases Hunk.mem_printedLines h with ⟨hint, anchor, rfl⟩ | hmarked | rfl | rfl
  · exact .inl (Header.opens_printed hint anchor)
  · exact .inr (by rw [isEnvelope, hmarked]; rfl)
  · exact .inr (by decide)
  · exact .inr (by decide)

theorem dropMarkers_printedLines (inHunk : Bool) (hunks : List Hunk) :
    dropMarkers inHunk (hunks.flatMap printedLines) = hunks.flatMap printedLines := by
  cases hunks with
  | nil => rfl
  | cons hunk hunks =>
    obtain ⟨first, rest, hlines, hfirst⟩ : ∃ first rest,
        (hunk :: hunks).flatMap printedLines = first :: rest ∧ Header.opens first = true :=
      ⟨_, _, rfl, Header.opens_printed _ _⟩
    have hrest : ∀ line ∈ rest, Header.opens line = true ∨ isEnvelope line = false := by
      intro line hline
      have hmem : line ∈ (hunk :: hunks).flatMap printedLines := by
        rw [hlines]
        exact List.mem_cons_of_mem first hline
      obtain ⟨hunk', -, hline'⟩ := List.mem_flatMap.mp hmem
      exact opens_or_not_isEnvelope hline'
    rw [hlines]
    unfold dropMarkers
    rw [if_pos hfirst, dropMarkers_of_not_isEnvelope hrest]

/-! ## Printing and reading -/

/-- Every line of a printed diff is a line of some hunk. -/
theorem anyLines_printed (hne : hunks ≠ []) (hbreak : ∀ line ∈ hunks.flatMap printedLines, '\n' ∉ line)
    (hreturn : ∀ line ∈ hunks.flatMap printedLines, '\r' ∉ line) :
    Text.anyLines (Hunk.printed hunks) = hunks.flatMap printedLines := by
  have hsome : hunks.flatMap printedLines ≠ [] := by
    obtain ⟨hunk, hunks, rfl⟩ := List.exists_cons_of_ne_nil hne
    exact List.cons_ne_nil _ _
  rw [Hunk.printed, Text.anyLines_unlines hbreak hreturn hsome]

theorem normalize_printed (hne : hunks ≠ []) (hbreak : ∀ line ∈ hunks.flatMap printedLines, '\n' ∉ line)
    (hreturn : ∀ line ∈ hunks.flatMap printedLines, '\r' ∉ line) :
    normalize (Hunk.printed hunks) = Hunk.printed hunks := by
  have htrim : trimEnvelope (hunks.flatMap printedLines) = hunks.flatMap printedLines := by
    have hnone : ∀ line ∈ ([] : List Text), closesEnvelope line = true := fun line hline => by cases hline
    simpa using trimEnvelope_printedLines hne hnone
  rw [normalize, anyLines_printed hne hbreak hreturn, htrim, dropMarkers_printedLines, Hunk.printed]

/-- Reading a diff undoes printing it. Nothing is taken off its text, and its hunks come back in
order with their anchors, hints and end-of-file marks; copied line numbers are taken off their edits,
and kept lines that read as an ellipsis have become one. -/
theorem printed_reads_back (hne : hunks ≠ []) (h : ∀ hunk ∈ hunks, hunk.Printable)
    (htext : ∀ hunk ∈ hunks, ∀ e ∈ hunk.edits, '\n' ∉ e.text ∧ '\r' ∉ e.text) :
    normalize (Hunk.printed hunks) = Hunk.printed hunks ∧
      Hunk.parse (Hunk.printed hunks) = .ok (hunks.map Hunk.reread) := by
  refine ⟨normalize_printed hne (fun line hline => ?_) (fun line hline => ?_),
    Hunk.parse_printed h fun hunk hhunk e he => (htext hunk hhunk e he).1⟩
  · obtain ⟨hunk, hhunk, hline⟩ := List.mem_flatMap.mp hline
    exact (h hunk hhunk).not_mem_line (.inl rfl) (fun e he => (htext hunk hhunk e he).1) line hline
  · obtain ⟨hunk, hhunk, hline⟩ := List.mem_flatMap.mp hline
    exact (h hunk hhunk).not_mem_line (.inr rfl) (fun e he => (htext hunk hhunk e he).2) line hline

/-- A hunk with a range and two anchors. Its lines look like a header, a marker and an ellipsis. -/
def methodHunk : Hunk where
  edits := [⟨.keep, "@@ a".toList⟩, ⟨.keep, "... ".toList⟩, ⟨.remove, "*** End Patch".toList⟩,
    ⟨.add, "...".toList⟩, ⟨.ellipsis, []⟩, ⟨.keep, []⟩]
  anchors := ["class A:".toList, "- line 3".toList]
  hint := some { oldStart := 3, oldLength := some 4, newStart := some 12, newLength := some 0 }

/-- A hunk at the end of a file, with line numbers copied into it. -/
def footerHunk : Hunk where
  edits := [⟨.keep, "41: x".toList⟩, ⟨.remove, "42: y".toList⟩, ⟨.keep, "43: z".toList⟩]
  endsFile := true

/-- The two hunks as they are printed. -/
def methodText : Text := Text.unlines ["@@ -3,4 +12,0 @@ class A:".toList, "@@ - line 3".toList,
  " @@ a".toList, " ... ".toList, "-*** End Patch".toList, "+...".toList, "...".toList, " ".toList,
  "@@".toList, " 41: x".toList, "-42: y".toList, " 43: z".toList, "*** End of File".toList]

theorem printable_methodHunk : methodHunk.Printable where
  edits_ne_nil := by decide
  isAnchor := by
    have hclass : Header.IsAnchor "class A:".toList :=
      ⟨by decide, by decide, by decide, by decide, by decide, by decide, by rintro c rest ⟨⟩,
        by decide, by decide⟩
    have hitem : Header.IsAnchor "- line 3".toList :=
      ⟨by decide, by decide, by decide, by decide, by decide, by decide,
        by rintro c rest ⟨⟩; decide, by decide, by decide⟩
    exact List.forall_mem_cons.mpr ⟨hclass, List.forall_mem_singleton.mpr hitem⟩
  isRange := fun hint h => ⟨3, 4, 12, 0, by decide, by decide, by decide +kernel,
    (Option.some.inj h).symm⟩

theorem printable_footerHunk : footerHunk.Printable where
  edits_ne_nil := by decide
  isAnchor := fun a ha => by cases ha
  isRange := fun hint h => by cases h

/-- A hunk with ranges, an anchor and lines that look like markers, and a hunk under a bare header. -/
theorem printed_reads_back_two :
    normalize methodText = methodText ∧
      Hunk.parse methodText = .ok [
        { methodHunk with
          edits := [⟨.keep, "@@ a".toList⟩, ⟨.ellipsis, []⟩, ⟨.remove, "*** End Patch".toList⟩,
            ⟨.add, "...".toList⟩, ⟨.ellipsis, []⟩, ⟨.keep, []⟩]
          header := "@@ -3,4 +12,0 @@ class A:".toList },
        { footerHunk with
          edits := [⟨.keep, "x".toList⟩, ⟨.remove, "y".toList⟩, ⟨.keep, "z".toList⟩]
          header := "@@".toList }] := by
  have hprintable : ∀ hunk ∈ [methodHunk, footerHunk], hunk.Printable :=
    List.forall_mem_cons.mpr
      ⟨printable_methodHunk, List.forall_mem_singleton.mpr printable_footerHunk⟩
  have hback := printed_reads_back (List.cons_ne_nil methodHunk [footerHunk]) hprintable (by decide)
  have htext : Hunk.printed [methodHunk, footerHunk] = methodText := by decide
  rw [htext] at hback
  refine ⟨hback.1, hback.2.trans (congrArg _ ?_)⟩
  decide

end LoosePatch.Dialect
