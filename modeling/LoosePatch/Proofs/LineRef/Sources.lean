import LoosePatch.Proofs.LineRef.Blocks

/-!
Where the lines of an outcome come from: each is a line of the file, or the end of a line of the text
that an edit was sent with (`applyLineEdits_sources`). What a line edit brings in is what was sent.
-/

namespace LoosePatch

variable {file lines given new : List Text} {l line rest : Text}

/-! ## What is sent -/

theorem Text.readNat?_suffix {n : Nat} (h : line.readNat? = some (n, rest)) : rest <:+ line := by
  obtain ⟨digits, hsplit, -⟩ := Text.eq_append_of_readNat? h
  exact ⟨digits, hsplit.symm⟩

namespace LineRef

theorem afterReference?_suffix (h : afterReference? line = some rest) : rest <:+ line := by
  unfold afterReference? at h
  obtain ⟨⟨n, s⟩, hnat, h⟩ := Option.bind_eq_some_iff.mp h
  obtain ⟨t, hcolon, h⟩ := Option.bind_eq_some_iff.mp h
  have ht : t <:+ s := ⟨[':'], List.isPrefixOf?_eq_some_iff_append_eq.mp hcolon⟩
  dsimp only at h
  split at h
  · cases h
  · have hrest : rest <:+ t.drop (t.takeWhile isHexDigit).length :=
      ⟨['|', ' '], List.isPrefixOf?_eq_some_iff_append_eq.mp h⟩
    exact ((hrest.trans (List.drop_suffix _ t)).trans ht).trans (Text.readNat?_suffix hnat)

theorem afterPlus?_suffix (h : afterPlus? line = some rest) : rest <:+ line := by
  unfold afterPlus? at h
  split at h
  · split at h
    · cases h
    · cases h
      exact List.suffix_cons '+' _
  · cases h

theorem dropMark_suffix {mark? : Text → Option Text}
    (h : ∀ line rest, mark? line = some rest → rest <:+ line) (line : Text) :
    dropMark mark? line <:+ line := by
  rw [dropMark]
  cases hmark : mark? line with
  | none => exact List.suffix_refl line
  | some rest => exact h line rest hmark

/-- Marks are dropped in front of lines. -/
theorem exists_of_mem_dropCopied (h : l ∈ dropCopied lines) : ∃ line ∈ lines, l <:+ line := by
  unfold dropCopied at h
  split at h
  · obtain ⟨line, hline, rfl⟩ := List.mem_map.mp h
    exact ⟨line, hline, dropMark_suffix (fun _ _ => afterReference?_suffix) line⟩
  · split at h
    · obtain ⟨line, hline, rfl⟩ := List.mem_map.mp h
      exact ⟨line, hline, dropMark_suffix (fun _ _ => afterPlus?_suffix) line⟩
    · exact ⟨l, h, List.suffix_refl l⟩

end LineRef

theorem LineEdit.exists_of_mem_read {e : LineEdit} {read : TargetEdit} (h : e.read = .ok read)
    (hl : l ∈ read.lines) : ∃ line ∈ e.dst.lines, l <:+ line := by
  obtain ⟨target, -, h⟩ := bind_eq_ok.mp h
  cases h
  obtain ⟨line, hline, hsuffix⟩ := LineRef.exists_of_mem_dropCopied hl
  split at hline
  · cases hline
  · exact ⟨line, hline, hsuffix⟩

/-! ## What is written -/

theorem LineRef.mem_keepSpacing {old : List Text} (h : l ∈ keepSpacing old new) :
    l ∈ old ∨ l ∈ new := by
  unfold keepSpacing at h
  split at h
  · obtain ⟨i, hi, rfl⟩ := List.mem_iff_getElem.mp h
    rw [List.length_zipWith] at hi
    rw [List.getElem_zipWith]
    split
    · exact .inl (List.getElem_mem _)
    · exact .inr (List.getElem_mem _)
  · obtain ⟨line, hline, rfl⟩ := List.mem_map.mp h
    cases htwin : twin? old line with
    | none => exact .inr hline
    | some twin => exact .inl (LineRef.of_twin?_eq_some htwin).1

namespace TargetEdit

variable {done done' : LineOutcome} {e : TargetEdit} {edits : List TargetEdit}

theorem mem_change {place count : Nat} (h : change lines e = .ok (place, count, new)) (hl : l ∈ new) :
    l ∈ lines ∨ l ∈ e.lines := by
  cases htarget : e.target with
  | after ref =>
    simp only [change, htarget] at h
    obtain ⟨anchor, -, h⟩ := bind_eq_ok.mp h
    cases Except.ok.inj h
    split at hl
    · exact .inr (List.mem_of_mem_drop hl)
    · exact .inr hl
  | before ref =>
    simp only [change, htarget] at h
    obtain ⟨anchor, -, h⟩ := bind_eq_ok.mp h
    cases Except.ok.inj h
    split at hl
    · exact .inr (List.dropLast_subset _ hl)
    · exact .inr hl
  | single ref | range ref other =>
    simp only [change, htarget] at h
    obtain ⟨cut, hcut, h⟩ := bind_eq_ok.mp h
    cases Except.ok.inj h
    obtain ⟨lead, trail, hlines, -, -⟩ := LineRef.dropEcho_cuts hcut
    refine (LineRef.mem_keepSpacing hl).imp (fun hl => ?_) fun hl => ?_
    · exact List.mem_of_mem_drop (List.mem_of_mem_take hl)
    · rw [hlines]
      exact List.mem_append_left _ (List.mem_append_right _ hl)

theorem mem_step (h : step done e = .ok done') (hl : l ∈ done'.lines) : l ∈ done.lines ∨ l ∈ e.lines := by
  obtain ⟨new, hchange, hlines, -, -⟩ := step_eq_ok h
  rw [hlines] at hl
  rcases List.mem_append.mp hl with hl | hl
  · rcases List.mem_append.mp hl with hl | hl
    · exact .inl (List.mem_of_mem_take hl)
    · exact mem_change hchange hl
  · exact .inl (List.mem_of_mem_drop hl)

theorem mem_run (h : edits.foldlM step done = .ok done') (hl : l ∈ done'.lines) :
    l ∈ done.lines ∨ ∃ e ∈ edits, l ∈ e.lines := by
  induction edits generalizing done with
  | nil =>
    cases h
    exact .inl hl
  | cons e edits ih =>
    obtain ⟨next, hstep, hrun⟩ := bind_eq_ok.mp h
    rcases ih hrun with hl | ⟨e', he', hl⟩
    · exact (mem_step hstep hl).imp_right fun hl => ⟨e, List.mem_cons_self, hl⟩
    · exact .inr ⟨e', List.mem_cons_of_mem e he', hl⟩

end TargetEdit

/-- Line edits write lines of the file, and ends of the lines they were sent with. -/
theorem applyLineEdits_sources {edits : List LineEdit} {done : LineOutcome}
    (h : applyLineEdits file edits = .ok done) (hl : l ∈ done.lines) :
    l ∈ file ∨ ∃ e ∈ edits, ∃ line ∈ e.dst.lines, l <:+ line := by
  obtain ⟨read, hread, -, hrun⟩ := applyLineEdits_eq_ok.mp h
  refine (TargetEdit.mem_run hrun hl).imp_right fun ⟨e, he, hl⟩ => ?_
  obtain ⟨given, hgiven, heq⟩ := exists_mem_of_forall₂ (mapM_eq_ok.mp hread) (List.mem_mergeSort.mp he)
  exact ⟨given, hgiven, given.exists_of_mem_read heq hl⟩

end LoosePatch
