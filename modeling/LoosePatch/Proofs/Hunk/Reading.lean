import LoosePatch.Dialect.Normalize
import LoosePatch.Proofs.Hunk.Numerals
import LoosePatch.Proofs.Text.Lines

/-!
Hunks as they are read from a diff. The text of every edit is a piece of a line of the diff
(`text_subset_of_parse`), so it holds no line break of any kind once the diff is normalised
(`not_mem_of_parse_normalize`). Reading fails only by a refusal, or for a number in a header that is too
long (`parse_failsOnly`).
-/

namespace LoosePatch

namespace Hunk

variable {line : Text} {lines rest : List Text} {e : Edit}

/-! ## Pieces of lines -/

theorem editOf_text_subset (line : Text) : (editOf line).text ⊆ line := by
  unfold editOf
  split
  · exact List.nil_subset line
  · split
    · exact List.subset_cons_self _ _
    · exact List.subset_cons_self _ _
    · exact List.subset_cons_self _ _
    · exact List.Subset.refl line

theorem readHeaders_eq_append {heads : Headers} (h : readHeaders lines = .ok (heads, rest)) :
    ∃ front, lines = front ++ rest ∧ ∀ l ∈ front, Header.opens l = true := by
  induction lines generalizing heads rest with
  | nil => cases h; exact ⟨[], rfl, by simp⟩
  | cons line lines ih =>
    unfold readHeaders at h
    split at h
    · rename_i hopens
      obtain ⟨_, -, h⟩ := bind_eq_ok.mp h
      obtain ⟨⟨inner, after⟩, hrest, h⟩ := bind_eq_ok.mp h
      cases h
      obtain ⟨front, rfl, hfront⟩ := ih hrest
      exact ⟨line :: front, rfl, List.forall_mem_cons.mpr ⟨hopens, hfront⟩⟩
    · cases h
      exact ⟨[], rfl, by simp⟩

theorem readHeaders_suffix {heads : Headers} (h : readHeaders lines = .ok (heads, rest)) :
    rest <:+ lines := by
  obtain ⟨front, rfl, -⟩ := readHeaders_eq_append h
  exact List.suffix_append front rest

theorem readBody_suffix (begun : Bool) (lines : List Text) : (readBody begun lines).2.2 <:+ lines := by
  induction lines generalizing begun with
  | nil => exact List.suffix_rfl
  | cons line lines ih =>
    unfold readBody
    split
    · exact (List.dropWhile_suffix _).trans (List.suffix_cons line lines)
    · split
      · exact List.suffix_rfl
      · split
        · exact List.suffix_cons line lines
        · exact (ih true).trans (List.suffix_cons line lines)

theorem text_subset_of_readBody (begun : Bool) (h : e ∈ (readBody begun lines).1) :
    ∃ line ∈ lines, e.text ⊆ line := by
  induction lines generalizing begun with
  | nil => cases h
  | cons line lines ih =>
    unfold readBody at h
    split at h
    · cases h
    · split at h
      · cases h
      · split at h
        · cases h
        · rcases List.mem_cons.mp h with rfl | h
          · exact ⟨line, List.mem_cons_self, editOf_text_subset line⟩
          · obtain ⟨line', hline', hsubset⟩ := ih true h
            exact ⟨line', List.mem_cons_of_mem line hline', hsubset⟩

theorem readHunk_eq_ok {hunk : Hunk} (h : readHunk lines = .ok (hunk, rest)) :
    ∃ heads after, readHeaders lines = .ok (heads, after) ∧
      hunk.edits = Numbering.strip (readBody false after).1 ∧ rest = (readBody false after).2.2 := by
  obtain ⟨⟨heads, after⟩, hheads, h⟩ := bind_eq_ok.mp h
  refine ⟨heads, after, hheads, ?_⟩
  dsimp only at h
  split at h
  · cases h
  · cases h
    exact ⟨rfl, rfl⟩

theorem readHunk_suffix {hunk : Hunk} (h : readHunk lines = .ok (hunk, rest)) : rest <:+ lines := by
  obtain ⟨heads, after, hheads, -, rfl⟩ := readHunk_eq_ok h
  exact (readBody_suffix false after).trans (readHeaders_suffix hheads)

theorem text_subset_of_readHunk {hunk : Hunk} (h : readHunk lines = .ok (hunk, rest))
    (he : e ∈ hunk.edits) : ∃ line ∈ lines, e.text ⊆ line := by
  obtain ⟨heads, after, hheads, hedits, -⟩ := readHunk_eq_ok h
  obtain ⟨e', he', hstrip⟩ := Numbering.strip_text_subset (hedits ▸ he)
  obtain ⟨line, hline, hpiece⟩ := text_subset_of_readBody false he'
  exact ⟨line, (readHeaders_suffix hheads).subset hline, List.Subset.trans hstrip hpiece⟩

theorem text_subset_of_readAll {begun : Bool} {hunks : List Hunk}
    (h : readAll begun lines = .ok hunks) :
    ∀ hunk ∈ hunks, ∀ e ∈ hunk.edits, ∃ line ∈ lines, e.text ⊆ line := by
  fun_induction readAll begun lines generalizing hunks with
  | case1 => cases h; simp
  | case2 begun line rest _ ih =>
    intro hunk hhunk e he
    obtain ⟨line', hline', hpiece⟩ := ih h hunk hhunk e he
    exact ⟨line', List.mem_cons_of_mem line hline', hpiece⟩
  | case3 => cases h; simp
  | case4 => cases h
  | case5 begun line rest _ _ first rest' hfirst ih =>
    obtain ⟨more, hmore, h⟩ := bind_eq_ok.mp h
    cases h
    intro hunk hhunk e he
    rcases List.mem_cons.mp hhunk with rfl | hhunk
    · exact text_subset_of_readHunk hfirst he
    · obtain ⟨line', hline', hpiece⟩ := ih hmore hunk hhunk e he
      exact ⟨line', (readHunk_suffix hfirst).subset hline', hpiece⟩

theorem text_subset_of_parse {diff : Text} {hunks : List Hunk} (h : parse diff = .ok hunks) :
    ∀ hunk ∈ hunks, ∀ e ∈ hunk.edits, ∃ line ∈ diff.lines, e.text ⊆ line :=
  text_subset_of_readAll h

/-! ## Failures -/

/-- The failure is a number too long to be read, in a header among the lines. -/
def IsLongHeader (lines : List Text) (failure : Failure) : Prop :=
  ∃ line ∈ lines, Header.opens line = true ∧ failure.IsLongNumber line

/-- The failures of reading hunks from lines. -/
def FailsToRead (lines : List Text) (failure : Failure) : Prop :=
  failure.IsRefusal ∨ IsLongHeader lines failure

theorem FailsToRead.mono {failure : Failure} (h : FailsToRead rest failure) (hsub : rest ⊆ lines) :
    FailsToRead lines failure :=
  h.imp_right fun ⟨line, hline, hlong⟩ => ⟨line, hsub hline, hlong⟩

theorem readHeaders_failsOnly (lines : List Text) :
    FailsOnly (FailsToRead lines) (readHeaders lines) := by
  induction lines with
  | nil => exact failsOnly_ok _
  | cons line lines ih =>
    unfold readHeaders
    split
    · rename_i hopens
      have hfirst : FailsOnly (FailsToRead (line :: lines)) (Header.read line) :=
        (Header.read_failsOnly line).imp fun failure hfailure =>
          hfailure.imp_right fun hlong => ⟨line, List.mem_cons_self, hopens, hlong⟩
      have hrest := ih.imp fun failure hfailure => hfailure.mono (List.subset_cons_self line lines)
      exact hfirst.bind fun _ _ => hrest.bind fun _ _ => failsOnly_ok _
    · exact failsOnly_ok _

theorem readHunk_failsOnly (lines : List Text) : FailsOnly (FailsToRead lines) (readHunk lines) := by
  refine (readHeaders_failsOnly lines).bind fun _ _ => ?_
  have hrefuse {β : Type} (why : Refusal) : FailsOnly (FailsToRead lines) (refuse why : Outcome β) :=
    (refuse_failsOnly why).imp fun _ => Or.inl
  dsimp only
  split
  · exact (hrefuse _).bind fun _ _ => failsOnly_ok _
  · exact failsOnly_ok _

theorem readAll_failsOnly (begun : Bool) (lines : List Text) :
    FailsOnly (FailsToRead lines) (readAll begun lines) := by
  fun_induction readAll begun lines with
  | case1 => exact failsOnly_ok _
  | case2 _ line rest _ ih =>
    exact ih.imp fun failure hfailure => hfailure.mono (List.subset_cons_self line rest)
  | case3 => exact failsOnly_ok _
  | case4 _ _ _ _ _ failure hfailure => exact failsOnly_error (readHunk_failsOnly _ failure hfailure)
  | case5 _ _ _ _ _ _ _ hfirst ih =>
    refine FailsOnly.bind ?_ fun _ _ => failsOnly_ok _
    exact ih.imp fun failure hfailure => hfailure.mono (readHunk_suffix hfirst).subset

/-- A first header that cannot be read fails the whole text. -/
theorem parse_of_unread {failure : Failure} (hopens : Header.opens line = true)
    (hread : Header.read line = .error failure) (hbreak : ∀ l ∈ line :: rest, '\n' ∉ l) :
    parse (Text.unlines (line :: rest)) = .error failure := by
  have hne : line.isEmpty = false := by
    cases line with
    | nil => cases hopens
    | cons => rfl
  have hfirst : readHunk (line :: rest) = .error failure := by
    rw [readHunk, readHeaders, if_pos hopens, hread]
    rfl
  rw [parse, Text.lines_unlines _ hbreak (List.cons_ne_nil line rest), readAll, hne,
    Bool.false_and, Bool.false_and, if_neg Bool.false_ne_true, if_neg Bool.false_ne_true]
  split
  · rename_i failure' hfailure
    exact congrArg Except.error (Except.error.inj (hfailure.symm.trans hfirst))
  · rename_i hok
    cases hok.symm.trans hfirst

theorem parse_failsOnly (diff : Text) : FailsOnly (FailsToRead diff.lines) (parse diff) :=
  readAll_failsOnly false diff.lines

end Hunk

/-! ## Normalised diffs -/

namespace Dialect

theorem checkSingleFile_failsOnly (diff : Text) (requested : Option Text) :
    FailsOnly Failure.IsRefusal (checkSingleFile diff requested) := by
  unfold checkSingleFile
  split
  · exact refuse_failsOnly _
  · split
    · exact failsOnly_ok _
    · exact refuse_failsOnly _
  · exact failsOnly_ok _

theorem dropMarkers_subset (inHunk : Bool) (lines : List Text) : dropMarkers inHunk lines ⊆ lines := by
  fun_induction dropMarkers inHunk lines with
  | case1 => exact List.Subset.refl _
  | case2 _ line rest _ ih => exact List.cons_subset_cons line ih
  | case3 _ line rest _ _ ih => exact List.subset_cons_of_subset line ih
  | case4 _ line => exact List.Subset.refl _
  | case5 _ line _ _ _ next rest _ ih =>
    exact List.subset_cons_of_subset line (List.subset_cons_of_subset next ih)
  | case6 _ line _ _ _ next rest _ ih => exact List.cons_subset_cons line ih
  | case7 _ line rest _ _ _ ih => exact List.cons_subset_cons line ih

theorem trimEnvelope_subset (lines : List Text) : trimEnvelope lines ⊆ lines := by
  intro line h
  have h := (List.dropWhile_suffix _).subset (List.mem_reverse.mp h)
  exact (List.dropWhile_suffix _).subset (List.mem_reverse.mp h)

/-- A normalised diff has no carriage return. -/
theorem not_mem_normalize (diff : Text) : '\r' ∉ normalize diff := by
  refine Text.not_mem_unlines (by decide) fun line hline hmem => ?_
  have hline := trimEnvelope_subset _ (dropMarkers_subset _ _ hline)
  exact Text.not_mem_unifyBreaks diff (Text.mem_of_mem_lines hline hmem)

/-- The hunks of a normalised diff have no line break in their texts, whatever breaks end the lines
of the diff. -/
theorem not_mem_of_parse_normalize {diff : Text} {hunks : List Hunk}
    (h : Hunk.parse (normalize diff) = .ok hunks) :
    ∀ hunk ∈ hunks, ∀ e ∈ hunk.edits, '\n' ∉ e.text ∧ '\r' ∉ e.text := by
  intro hunk hhunk e he
  obtain ⟨line, hline, hpiece⟩ := Hunk.text_subset_of_parse h hunk hhunk e he
  refine ⟨fun hmem => Text.not_mem_of_mem_lines hline (hpiece hmem), fun hmem => ?_⟩
  exact not_mem_normalize diff (Text.mem_of_mem_lines hline (hpiece hmem))

end Dialect
end LoosePatch
