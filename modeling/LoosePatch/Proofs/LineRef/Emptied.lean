import LoosePatch.Proofs.LineRef.Surroundings

/-!
Edits with text that leave nothing. The lines that repeat the neighbours of a replacement are looked
for only if it has more lines than those it replaces, but how many are left once they are dropped
does not count. One line that is replaced by the line above it and the one below is deleted; no other
text disappears as a whole (`applyLineEdits_writes`).
-/

namespace LoosePatch

namespace LineRef

theorem keepSpacing_eq_nil_iff {old new : List Text} : keepSpacing old new = [] ↔ new = [] := by
  rw [← List.length_eq_zero_iff, ← (keepSpacing_shapes old new).length_eq, List.length_eq_zero_iff]

end LineRef

namespace TargetEdit

variable {lines : List Text} {e : TargetEdit}

/-- One line at most gives way to two that repeat the line above and the line below. -/
def OnlyRepeats (lines : List Text) (e : TargetEdit) : Prop :=
  e.count ≤ 1 ∧ ∃ above x below y, e.upper lines = some above ∧ e.lower lines = some below ∧
    e.lines = [x, y] ∧ x.withoutBlanks = above.withoutBlanks ∧ y.withoutBlanks = below.withoutBlanks

theorem OnlyRepeats.length_eq_two (h : e.OnlyRepeats lines) : e.lines.length = 2 := by
  obtain ⟨-, above, x, below, y, -, -, hlines, -⟩ := h
  rw [hlines]
  rfl

end TargetEdit

/-- Of an edit with lines nothing is written only if they do no more than repeat the lines around. -/
theorem MadeEdit.WrittenInto.block_eq_nil_iff {lines : List Text} {m : MadeEdit}
    (h : m.WrittenInto lines) (hpos : 1 ≤ m.edit.target.first)
    (hle : m.edit.target.first ≤ m.edit.target.last) (hne : m.edit.lines ≠ []) :
    m.block = [] ↔ m.edit.OnlyRepeats lines := by
  rw [h.block_eq hpos hle, LineRef.keepSpacing_eq_nil_iff, LineRef.cutEcho_eq_nil_iff hne]
  rfl

open TargetEdit in
/-- A replacement with text writes a line unless its lines do no more than repeat those around it,
alone and among other edits. -/
theorem applyLineEdits_writes {file : List Text} {g : LineEdit} {e : TargetEdit}
    (hread : g.read = .ok e) (hcurrent : e.Current file) (hreplaces : e.target.isInsertion = false)
    (hdst : g.dst ≠ []) :
    (∃ done block, applyLineEdits file [g] = .ok done ∧
      done.lines = file.take (e.target.first - 1) ++ block ++ file.drop e.target.last ∧
      done.added = block.length ∧ (block = [] ↔ e.OnlyRepeats file)) ∧
    ∀ given done, g ∈ given → applyLineEdits file given = .ok done →
      ∃ edits made, given.mapM LineEdit.read = .ok edits ∧ e ∈ edits ∧
        (made.map MadeEdit.edit).Perm edits ∧ Makes { lines := file } made done ∧
        ∀ before m after mid, made = before ++ m :: after → m.edit = e →
          Makes { lines := file } before mid → (m.block = [] ↔ e.OnlyRepeats mid.lines) := by
  have hne : e.lines ≠ [] := mt (LineEdit.lines_eq_nil_iff hread).mp hdst
  have hpos := hcurrent.first_pos
  have hle := hcurrent.first_le_last
  constructor
  · obtain ⟨block, hwritten, hdone⟩ := applyLineEdits_alone hread hcurrent
    refine ⟨_, block, hdone, ?_, Nat.zero_add _, hwritten.block_eq_nil_iff hpos hle hne⟩
    rw [LineOutcome.lines_make, place_add_count hcurrent.toFits hreplaces,
      place_of_replacement hreplaces]
  · intro given done hg hdone
    obtain ⟨edits, hreads, -, hrun⟩ := applyLineEdits_eq_ok.mp hdone
    obtain ⟨made, hmade, hmakes⟩ := run_iff_makes.mp hrun
    obtain ⟨e', he', hread'⟩ := exists_mem_of_forall₂ (mapM_eq_ok.mp hreads).flip hg
    obtain rfl : e = e' := Except.ok.inj (hread.symm.trans hread')
    refine ⟨edits, made, hreads, he', hmade ▸ List.mergeSort_perm edits le, hmakes, ?_⟩
    rintro before m after mid rfl rfl hmid
    obtain ⟨mid', hmid', hwritten, -⟩ := hmakes.split
    obtain rfl : mid = mid' := hmid.eq_foldl.trans hmid'.eq_foldl.symm
    exact hwritten.block_eq_nil_iff hpos hle hne

open TargetEdit in
/-- Copied add marks and both neighbours around the one line that is new. -/
theorem applyLineEdits_writes_between :
    ∃ done block, applyLineEdits [['a'], ['b'], ['c']]
        [⟨"2:c19f".toList, "+a\n+x\n+c".toList⟩] = .ok done ∧
      done.lines = ['a'] :: block ++ [['c']] ∧ done.added = block.length ∧ block ≠ [] := by
  let e : TargetEdit := ⟨.single ⟨2, "c19f".toList⟩, [['a'], ['x'], ['c']]⟩
  have hb : LineRef.hashOf 2 ['b'] = "c19f".toList := by decide +kernel
  have hread : (⟨"2:c19f".toList, "+a\n+x\n+c".toList⟩ : LineEdit).read = .ok e := by decide +kernel
  have hcurrent : e.Current [['a'], ['b'], ['c']] :=
    ⟨⟨by decide, by decide, by decide⟩, by simp [e, LineTarget.refs, hb], by decide⟩
  obtain ⟨done, block, hdone, hlines, hadded, hempty⟩ :=
    (applyLineEdits_writes hread hcurrent rfl (by decide)).1
  exact ⟨done, block, hdone, hlines, hadded, fun h => absurd (hempty.mp h).length_eq_two (by decide)⟩

/-- A line that is replaced by the line above it and the one below is deleted. -/
theorem applyLineEdits_deletes_repeated :
    applyLineEdits [['a'], ['b'], ['c']] [⟨"2:c19f".toList, "a\nc".toList⟩] =
      .ok { lines := [['a'], ['c']], firstChanged := some 2, added := 0, removed := 1 } := by
  let e : TargetEdit := ⟨.single ⟨2, "c19f".toList⟩, [['a'], ['c']]⟩
  have hb : LineRef.hashOf 2 ['b'] = "c19f".toList := by decide +kernel
  have hread : (⟨"2:c19f".toList, "a\nc".toList⟩ : LineEdit).read = .ok e := by decide +kernel
  have hcurrent : e.Current [['a'], ['b'], ['c']] :=
    ⟨⟨by decide, by decide, by decide⟩, by simp [e, LineTarget.refs, hb], by decide⟩
  rw [applyLineEdits_single hread hcurrent]
  rfl

end LoosePatch
