import LoosePatch.Proofs.LineRef.Order

/-!
What becomes of the lines of an edit before they go into the file: at most one line at either end is
dropped as an echo of the lines around it, and no other line changes except in its blanks
(`change_block`).
-/

namespace LoosePatch

/-- A block that is written for given lines: without at most one of them at either end, and with
nothing changed but blanks. -/
def BlockOf (given block : List Text) : Prop :=
  ∃ lead middle trail, given = lead ++ middle ++ trail ∧ lead.length ≤ 1 ∧ trail.length ≤ 1 ∧
    List.Forall₂ (fun line written => line.withoutBlanks = written.withoutBlanks) middle block

theorem blockOf_self (given : List Text) : BlockOf given given :=
  ⟨[], given, [], by simp, by simp, by simp, List.forall₂_same.mpr fun _ _ => rfl⟩

theorem blockOf_drop (given : List Text) : BlockOf given (given.drop 1) := by
  refine ⟨given.take 1, given.drop 1, [], ?_, List.length_take_le 1 given, by simp, ?_⟩
  · rw [List.append_nil, List.take_append_drop]
  · exact List.forall₂_same.mpr fun _ _ => rfl

theorem blockOf_dropLast (given : List Text) : BlockOf given given.dropLast := by
  refine ⟨[], given.dropLast, given.drop (given.length - 1), ?_, by simp, ?_, ?_⟩
  · rw [List.nil_append, List.dropLast_eq_take, List.take_append_drop]
  · rw [List.length_drop]
    omega
  · exact List.forall₂_same.mpr fun _ _ => rfl

namespace LineRef

theorem sameShape_iff {a b : Text} : sameShape a b = true ↔ a.withoutBlanks = b.withoutBlanks :=
  beq_iff_eq

/-- No line is dropped with the marks in front of it. -/
theorem length_dropCopied (lines : List Text) : (dropCopied lines).length = lines.length := by
  unfold dropCopied
  split
  · exact List.length_map _
  · split
    · exact List.length_map _
    · rfl

/-- What is found is another old line of the same shape. -/
theorem of_twin?_eq_some {old : List Text} {line twin : Text} (h : twin? old line = some twin) :
    twin ∈ old ∧ twin.withoutBlanks = line.withoutBlanks ∧ twin ≠ line := by
  have hfound := List.find?_some (p := fun o => sameShape o line && o != line) h
  obtain ⟨hshape, hne⟩ := Bool.and_eq_true_iff.mp hfound
  exact ⟨List.mem_of_find?_eq_some h, sameShape_iff.mp hshape, bne_iff_ne.mp hne⟩

/-- Spacing that is put back changes blanks only. -/
theorem keepSpacing_shapes (old new : List Text) :
    List.Forall₂ (fun line written => line.withoutBlanks = written.withoutBlanks) new
      (keepSpacing old new) := by
  unfold keepSpacing
  split
  · rename_i hlength
    refine List.forall₂_of_length_eq_of_get (by simp [hlength]) fun i hi hi' => ?_
    simp only [List.get_eq_getElem, List.getElem_zipWith]
    split
    · rename_i hshape
      exact (sameShape_iff.mp hshape).symm
    · rfl
  · refine List.forall₂_map_right_iff.mpr (List.forall₂_same.mpr fun line _ => ?_)
    cases htwin : twin? old line with
    | none => rfl
    | some twin => exact (of_twin?_eq_some htwin).2.1.symm

/-- Of a replacement at most its first line and its last line are dropped. -/
theorem dropEcho_cuts {file new cut : List Text} {first last : Nat}
    (h : dropEcho file first last new = .ok cut) :
    ∃ lead trail, new = lead ++ cut ++ trail ∧ lead.length ≤ 1 ∧ trail.length ≤ 1 := by
  unfold dropEcho at h
  split at h
  · cases Except.ok.inj h
    exact ⟨[], [], by simp⟩
  extract_lets cutBelow at h
  have htrail {below : List Text} (hcut : cutBelow below = .ok cut) :
      ∃ trail, below = cut ++ trail ∧ trail.length ≤ 1 := by
    cases Except.ok.inj hcut
    split
    · split
      · refine ⟨below.drop (below.length - 1), ?_, by rw [List.length_drop]; omega⟩
        rw [List.dropLast_eq_take, List.take_append_drop]
      · exact ⟨[], by simp⟩
    · exact ⟨[], by simp⟩
  split at h
  · obtain ⟨above, -, h⟩ := bind_eq_ok.mp h
    split at h
    · obtain ⟨trail, hbelow, hlength⟩ := htrail h
      refine ⟨new.take 1, trail, ?_, List.length_take_le 1 new, hlength⟩
      rw [List.append_assoc, ← hbelow, List.take_append_drop]
    · obtain ⟨trail, hbelow, hlength⟩ := htrail h
      exact ⟨[], trail, hbelow, by simp, hlength⟩
  · obtain ⟨trail, hbelow, hlength⟩ := htrail h
    exact ⟨[], trail, hbelow, by simp, hlength⟩

end LineRef

/-- An edit has lines exactly if it was sent with some text. -/
theorem LineEdit.lines_eq_nil_iff {given : LineEdit} {e : TargetEdit} (h : given.read = .ok e) :
    e.lines = [] ↔ given.dst = [] := by
  obtain ⟨target, -, h⟩ := bind_eq_ok.mp h
  cases Except.ok.inj h
  rw [← List.length_eq_zero_iff, LineRef.length_dropCopied]
  cases hdst : given.dst with
  | nil => simp
  | cons c rest => simp [Text.lines]

/-- What an edit writes is a block for its lines. -/
theorem TargetEdit.change_block {lines new : List Text} {e : TargetEdit} {place count : Nat}
    (h : change lines e = .ok (place, count, new)) : BlockOf e.lines new := by
  cases htarget : e.target with
  | after ref =>
    simp only [change, htarget] at h
    obtain ⟨anchor, -, h⟩ := bind_eq_ok.mp h
    cases Except.ok.inj h
    split
    · exact blockOf_drop e.lines
    · exact blockOf_self e.lines
  | before ref =>
    simp only [change, htarget] at h
    obtain ⟨anchor, -, h⟩ := bind_eq_ok.mp h
    cases Except.ok.inj h
    split
    · exact blockOf_dropLast e.lines
    · exact blockOf_self e.lines
  | single ref | range ref other =>
    simp only [change, htarget] at h
    obtain ⟨cut, hcut, h⟩ := bind_eq_ok.mp h
    cases Except.ok.inj h
    obtain ⟨lead, trail, hlines, hlead, htrail⟩ := LineRef.dropEcho_cuts hcut
    exact ⟨lead, cut, trail, hlines, hlead, htrail, LineRef.keepSpacing_shapes _ cut⟩

end LoosePatch
