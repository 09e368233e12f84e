import LoosePatch.Proofs.Dialect.Printed
import LoosePatch.Proofs.Text.Lines

/-!
Diffs for new files that consist of added lines. The add marks are taken off, and the lines get a line
feed each but for the last one if it is empty: the line feed in front of it is taken for the one that
ends the file (`Dialect.newFileText_addedText`).
-/

namespace LoosePatch.Dialect

open Text (terminated unlines)

variable {c : Char} {diff : Text} {ls body : List Text}

/-- The lines as a diff that adds them, with or without a line feed at its end. -/
def addedText (ls : List Text) (ended : Bool) : Text :=
  unlines (ls.map ('+' :: ·)) ++ if ended then ['\n'] else []

theorem mem_addedText {ended : Bool} (h : c ∈ addedText ls ended) :
    c = '\n' ∨ c = '+' ∨ ∃ l ∈ ls, c ∈ l := by
  rcases List.mem_append.mp h with h | h
  · rcases Text.mem_unlines h with rfl | ⟨_, hline, hc⟩
    · exact .inl rfl
    · obtain ⟨l, hl, rfl⟩ := List.mem_map.mp hline
      rcases List.mem_cons.mp hc with rfl | hc
      · exact .inr (.inl rfl)
      · exact .inr (.inr ⟨l, hl, hc⟩)
  · cases ended with
    | true => exact .inl (List.mem_singleton.mp h)
    | false => cases h

/-! ## Markers -/

/-- A line without stars at its beginning stays in the body. -/
theorem not_marker_cons (hblank : isBlank c = false) (hstar : c ≠ '*') (s : Text) :
    opensNewFile (c :: s) = false ∧ endsPatch (Text.trim (c :: s)) = false := by
  rw [opensNewFile, beginsPatch, endsPatch, fileMarker?_cons hstar, Text.trim_cons hblank,
    isStarred_cons hstar, isStarred_cons hstar]
  exact ⟨rfl, rfl⟩

theorem newFileBody_eq (hlines : dropLastEmpty diff.anyLines = body)
    (hbody : ∀ line ∈ body, opensNewFile line = false ∧ endsPatch line.trim = false) :
    newFileBody diff = body := by
  have hopens : body.dropWhile opensNewFile = body := by
    cases body with
    | nil => rfl
    | cons line body =>
      exact List.dropWhile_cons_of_neg (Bool.eq_false_iff.mp (hbody line List.mem_cons_self).1)
  have hends : body.rdropWhile (fun l => endsPatch l.trim) = body :=
    List.rdropWhile_eq_self_iff.mpr fun hne =>
      Bool.eq_false_iff.mp (hbody _ (List.getLast_mem hne)).2
  rw [newFileBody, hlines, hopens]
  exact hends

/-! ## The last line -/

theorem dropLastEmpty_concat (ls : List Text) (last : Text) :
    dropLastEmpty (ls ++ [last]) = if last = [] then ls else ls ++ [last] := by
  rw [dropLastEmpty, List.getLast?_concat, List.dropLast_concat]
  simp only [Option.some.injEq]

theorem dropLastEmpty_eq_self_iff : dropLastEmpty ls = ls ↔ ls.getLast? ≠ some [] := by
  unfold dropLastEmpty
  split
  · rename_i hlast
    refine iff_of_false (fun heq => ?_) (not_not.mpr hlast)
    have hlength := congrArg List.length heq
    have hpos : ls ≠ [] := by
      rintro rfl
      cases hlast
    rw [List.length_dropLast] at hlength
    have hne := List.length_pos_iff.mpr hpos
    omega
  · rename_i hlast
    exact iff_of_true rfl hlast

theorem dropLastEmpty_subset (ls : List Text) : dropLastEmpty ls ⊆ ls := by
  unfold dropLastEmpty
  split
  · exact List.dropLast_subset ls
  · exact List.Subset.refl ls

theorem length_dropLastEmpty_le (ls : List Text) : (dropLastEmpty ls).length ≤ ls.length := by
  unfold dropLastEmpty
  split
  · rw [List.length_dropLast]
    exact Nat.sub_le _ _
  · exact Nat.le_refl _

theorem not_mem_of_mem_newFileBody {l : Text} (h : l ∈ newFileBody diff) : '\n' ∉ l := by
  have hlast := List.dropWhile_subset _ (List.mem_reverse.mp h)
  have hfirst := List.dropWhile_subset _ (List.mem_reverse.mp hlast)
  exact Text.not_mem_of_mem_lines (dropLastEmpty_subset _ hfirst)

/-- The text of a new file has all lines of its body without their marks, but for an empty last one. -/
theorem newFileText_eq (hbody : (newFileBody diff).map (·.drop (markWidth (newFileBody diff))) = ls)
    (hne : ls ≠ []) (hbreak : ∀ l ∈ ls, '\n' ∉ l) :
    newFileText diff = terminated (dropLastEmpty ls) := by
  obtain ⟨init, last, rfl⟩ := List.eq_nil_or_concat' ls |>.resolve_left hne
  have hclosed : ((terminated init ++ last).isEmpty ||
      decide ((terminated init ++ last).getLast? = some '\n')) = true ↔ last = [] := by
    rw [Bool.or_eq_true, List.isEmpty_iff, decide_eq_true_eq]
    exact Text.ends_terminated_append (hbreak last (by simp))
  rw [newFileText, hbody, dropLastEmpty_concat, Text.unlines_concat]
  by_cases hlast : last = []
  · rw [if_pos (hclosed.mpr hlast), if_pos hlast, hlast, List.append_nil]
  · rw [if_neg (mt hclosed.mp hlast), if_neg hlast, ← Text.unlines_concat,
      Text.unlines_append_break hne]

theorem dropLastEmpty_append {rest : List Text} (ls : List Text) (h : rest ≠ []) :
    dropLastEmpty (ls ++ rest) = ls ++ dropLastEmpty rest := by
  obtain ⟨init, last, rfl⟩ := List.eq_nil_or_concat' rest |>.resolve_left h
  rw [← List.append_assoc, dropLastEmpty_concat, dropLastEmpty_concat]
  split
  · rfl
  · rw [List.append_assoc]

theorem dropLastEmpty_cons {l : Text} (h : l ≠ []) (ls : List Text) :
    dropLastEmpty (l :: ls) = l :: dropLastEmpty ls := by
  cases ls with
  | nil =>
    rw [dropLastEmpty_eq_self_iff.mpr (by simpa using h)]
    rfl
  | cons next ls => exact dropLastEmpty_append [l] (List.cons_ne_nil next ls)

theorem dropLastEmpty_eq_nil_iff : dropLastEmpty ls = [] ↔ ls = [] ∨ ls = [[]] := by
  constructor
  · intro h
    rcases List.eq_nil_or_concat' ls with rfl | ⟨init, last, rfl⟩
    · exact .inl rfl
    · rw [dropLastEmpty_concat] at h
      split at h
      · rename_i hlast
        exact .inr (by rw [h, hlast]; rfl)
      · simp at h
  · rintro (rfl | rfl) <;> rfl

/-! ## Margins -/

/-- Some line has text, and every line that has begins with a space. -/
def isSpaced (ls : List Text) : Bool :=
  ls.any (!·.isEmpty) && ls.all fun l => l.isEmpty || l.head? == some ' '

/-- The lines without the space that all of them begin with, if they do. -/
def withoutMargin (ls : List Text) : List Text := if isSpaced ls then ls.map (·.drop 1) else ls

theorem isSpaced_eq_false {l : Text} (hl : l ∈ ls) (hsome : l ≠ []) (hspace : l.head? ≠ some ' ') :
    isSpaced ls = false := by
  rw [isSpaced, Bool.and_eq_false_iff]
  refine .inr (List.all_eq_false.mpr ⟨l, hl, ?_⟩)
  simpa using ⟨hsome, hspace⟩

theorem length_withoutMargin (ls : List Text) : (withoutMargin ls).length = ls.length := by
  unfold withoutMargin
  split
  · exact List.length_map _
  · rfl

theorem not_mem_withoutMargin (h : ∀ l ∈ ls, c ∉ l) : ∀ l ∈ withoutMargin ls, c ∉ l := by
  unfold withoutMargin
  split
  · exact List.forall_mem_map.mpr fun l hl hc => h l hl (List.mem_of_mem_drop hc)
  · exact h

/-! ## Added lines -/

section Added

variable (hbreak : ∀ l ∈ ls, '\n' ∉ l) (hreturn : ∀ l ∈ ls, '\r' ∉ l) (ended : Bool)

include hbreak hreturn

theorem anyLines_addedText (hne : ls ≠ []) : (addedText ls ended).anyLines =
    ls.map ('+' :: ·) ++ if ended then [[]] else [] := by
  have hadded {c : Char} (hc : c ≠ '+') (h : ∀ l ∈ ls, c ∉ l) :
      ∀ l ∈ ls.map ('+' :: ·), c ∉ l := by
    refine List.forall_mem_map.mpr fun l hl hmem => ?_
    rcases List.mem_cons.mp hmem with heq | hmem
    · exact hc heq
    · exact h l hl hmem
  have hbreak' := hadded (by decide) hbreak
  have hreturn' := hadded (by decide) hreturn
  have hne' : ls.map ('+' :: ·) ≠ [] := by simpa using hne
  cases ended with
  | true =>
    rw [addedText, if_pos rfl, if_pos rfl, Text.unlines_append_break hne',
      Text.anyLines_terminated hbreak' hreturn']
  | false =>
    rw [addedText, if_neg Bool.false_ne_true, if_neg Bool.false_ne_true, List.append_nil,
      List.append_nil, Text.anyLines_unlines hbreak' hreturn' hne']

theorem newFileBody_addedText (hne : ls ≠ []) :
    newFileBody (addedText ls ended) = ls.map ('+' :: ·) := by
  refine newFileBody_eq ?_ (List.forall_mem_map.mpr fun l _ => not_marker_cons (by decide) (by decide) l)
  rw [anyLines_addedText hbreak hreturn ended hne]
  cases ended with
  | true => rw [if_pos rfl, dropLastEmpty_concat, if_pos rfl]
  | false =>
    rw [if_neg Bool.false_ne_true, List.append_nil, dropLastEmpty_eq_self_iff, List.getLast?_map]
    cases ls.getLast? <;> simp

omit hbreak hreturn in
/-- One space is taken for a part of the marks if every line with text begins with one. -/
theorem markWidth_added (hne : ls ≠ []) :
    markWidth (ls.map ('+' :: ·)) = if isSpaced ls then 2 else 1 := by
  have hfull : (ls.map ('+' :: ·)).filter (!·.isEmpty) = ls.map ('+' :: ·) :=
    List.filter_eq_self.mpr (List.forall_mem_map.mpr fun _ _ => rfl)
  have hplus : (ls.map ('+' :: ·)).all isPlus = true :=
    List.all_eq_true.mpr (List.forall_mem_map.mpr fun _ _ => rfl)
  have hsome : (ls.map ('+' :: ·)).isEmpty = false := by
    rwa [List.isEmpty_map, List.isEmpty_eq_false_iff]
  have htexts : (ls.map ('+' :: ·)).filter (· ≠ ['+']) = (ls.filter (!·.isEmpty)).map ('+' :: ·) := by
    rw [List.filter_map]
    congr 2
    funext l
    cases l <;> simp
  have hspaced : (!((ls.filter (!·.isEmpty)).map ('+' :: ·)).isEmpty &&
      ((ls.filter (!·.isEmpty)).map ('+' :: ·)).all (['+', ' '].isPrefixOf ·)) = isSpaced ls := by
    rw [List.isEmpty_map, List.all_map, List.all_filter, isSpaced]
    congr 2
    · rw [Bool.eq_iff_iff]
      simp
    · funext l
      cases l <;> simp [List.isPrefixOf, eq_comm]
  simp only [markWidth, hfull, hplus, hsome, htexts, hspaced]
  rfl

/-- The file that added lines make. -/
theorem newFileText_added (hne : ls ≠ []) :
    newFileText (addedText ls ended) = terminated (dropLastEmpty (withoutMargin ls)) := by
  have hbody : (newFileBody (addedText ls ended)).map
      (·.drop (markWidth (newFileBody (addedText ls ended)))) = withoutMargin ls := by
    rw [newFileBody_addedText hbreak hreturn ended hne, markWidth_added hne, List.map_map, withoutMargin]
    split
    · rfl
    · exact List.map_id ls
  exact newFileText_eq hbody (List.ne_nil_of_length_pos (by
    rw [length_withoutMargin]; exact List.length_pos_iff.mpr hne)) (not_mem_withoutMargin hbreak)

/-- Lines one of which has text that begins with no space keep all their spaces. -/
theorem newFileText_addedText (hline : ∃ l ∈ ls, l ≠ [] ∧ l.head? ≠ some ' ') :
    newFileText (addedText ls ended) = terminated (dropLastEmpty ls) := by
  obtain ⟨l, hl, hsome, hspace⟩ := hline
  rw [newFileText_added hbreak hreturn ended (List.ne_nil_of_mem hl), withoutMargin,
    isSpaced_eq_false hl hsome hspace, if_neg Bool.false_ne_true]

theorem checkSingleFile_addedText (hne : ls ≠ []) (requested : Option Text) :
    checkSingleFile (addedText ls ended) requested = .ok () := by
  refine checkSingleFile_of_unnamed (fun line hline => ?_) requested
  rw [anyLines_addedText hbreak hreturn ended hne] at hline
  rcases List.mem_append.mp hline with hline | hline
  · obtain ⟨l, -, rfl⟩ := List.mem_map.mp hline
    rfl
  · cases ended with
    | true => rw [List.mem_singleton.mp hline]; rfl
    | false => cases hline

end Added

end LoosePatch.Dialect
