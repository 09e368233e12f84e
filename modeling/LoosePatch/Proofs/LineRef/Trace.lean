import LoosePatch.Proofs.LineRef.Blocks
import LoosePatch.Proofs.LineRef.Faults
import LoosePatch.Proofs.Splice.Assembly

/-!
A run of line edits with what each of them wrote. `Makes` says that edits were made one after the
other, each on what those before it have left; every run is such a list of edits
(`run_iff_makes`), and it can be taken apart at any one of them (`Makes.split`).
-/

namespace LoosePatch

/-- An edit that was made, with the lines that it wrote. -/
structure MadeEdit where
  edit : TargetEdit
  block : List Text

namespace MadeEdit

def splice (m : MadeEdit) : Splice := ⟨m.edit.place, m.edit.place + m.edit.count, m.block⟩

def region (m : MadeEdit) : Region Text := m.splice.region

/-- The block is what the edit writes into these lines. -/
def WrittenInto (lines : List Text) (m : MadeEdit) : Prop :=
  TargetEdit.change lines m.edit = .ok (m.edit.place, m.edit.count, m.block)

theorem WrittenInto.blockOf {lines : List Text} {m : MadeEdit} (h : m.WrittenInto lines) :
    BlockOf m.edit.lines m.block :=
  TargetEdit.change_block h

end MadeEdit

/-- The outcome after one edit more. -/
def LineOutcome.make (done : LineOutcome) (m : MadeEdit) : LineOutcome where
  lines := m.splice.apply done.lines
  firstChanged :=
    some ((done.firstChanged.map (min · (m.edit.place + 1))).getD (m.edit.place + 1))
  added := done.added + m.block.length
  removed := done.removed + m.edit.count

theorem LineOutcome.lines_make (done : LineOutcome) (m : MadeEdit) :
    (done.make m).lines =
      done.lines.take m.edit.place ++ m.block ++ done.lines.drop (m.edit.place + m.edit.count) := by
  rw [LineOutcome.make, MadeEdit.splice, Splice.apply, Nat.max_eq_right (Nat.le_add_right _ _)]

/-- The edits are made one after the other, each on the outcome of those before it. -/
inductive Makes : LineOutcome → List MadeEdit → LineOutcome → Prop
  | nil (done : LineOutcome) : Makes done [] done
  | cons {done done' : LineOutcome} {m : MadeEdit} {made : List MadeEdit} :
    m.WrittenInto done.lines → Makes (done.make m) made done' → Makes done (m :: made) done'

variable {done done' : LineOutcome} {m : MadeEdit} {made before after : List MadeEdit}

namespace TargetEdit

variable {edits : List TargetEdit} {e : TargetEdit}

/-- A step makes its edit. -/
theorem step_iff_writtenInto :
    step done e = .ok done' ↔ ∃ block, MadeEdit.WrittenInto done.lines ⟨e, block⟩ ∧
      done' = done.make ⟨e, block⟩ := by
  have hmake (block : List Text) : LineOutcome.make done ⟨e, block⟩ = {
      lines := done.lines.take e.place ++ block ++ done.lines.drop (e.place + e.count)
      firstChanged := some ((done.firstChanged.map (min · (e.place + 1))).getD (e.place + 1))
      added := done.added + block.length
      removed := done.removed + e.count } := by
    rw [← done.lines_make ⟨e, block⟩]
    rfl
  constructor
  · intro h
    obtain ⟨⟨place, count, block⟩, hchange, h⟩ := bind_eq_ok.mp h
    obtain ⟨rfl, rfl⟩ := change_eq_ok hchange
    exact ⟨block, hchange, by rw [hmake, ← Except.ok.inj h]⟩
  · rintro ⟨block, hchange, rfl⟩
    rw [hmake]
    exact bind_eq_ok.mpr ⟨_, hchange, rfl⟩

/-- A run of steps is a list of edits that are made. -/
theorem run_iff_makes :
    edits.foldlM step done = .ok done' ↔
      ∃ made : List MadeEdit, made.map MadeEdit.edit = edits ∧ Makes done made done' := by
  induction edits generalizing done with
  | nil =>
    constructor
    · intro h
      cases Except.ok.inj h
      exact ⟨[], rfl, .nil _⟩
    · rintro ⟨made, hmade, h⟩
      obtain rfl := List.map_eq_nil_iff.mp hmade
      cases h
      rfl
  | cons e edits ih =>
    rw [List.foldlM_cons, bind_eq_ok]
    constructor
    · rintro ⟨next, hstep, hrun⟩
      obtain ⟨block, hwritten, rfl⟩ := step_iff_writtenInto.mp hstep
      obtain ⟨made, rfl, hmade⟩ := ih.mp hrun
      exact ⟨⟨e, block⟩ :: made, rfl, .cons hwritten hmade⟩
    · rintro ⟨made, hmade, h⟩
      cases h with
      | nil => cases hmade
      | @cons _ _ m made hwritten hrest =>
        obtain ⟨rfl, hedits⟩ := List.cons.inj hmade
        exact ⟨done.make m, step_iff_writtenInto.mpr ⟨m.block, hwritten, rfl⟩,
          ih.mpr ⟨made, hedits, hrest⟩⟩

end TargetEdit

namespace Makes

theorem eq_foldl (h : Makes done made done') : done' = made.foldl LineOutcome.make done := by
  induction h with
  | nil => rfl
  | cons _ _ ih => exact ih

theorem blocks (h : Makes done made done') : ∀ m ∈ made, BlockOf m.edit.lines m.block := by
  induction h with
  | nil => exact List.forall_mem_nil _
  | cons hwritten _ ih => exact List.forall_mem_cons.mpr ⟨hwritten.blockOf, ih⟩

/-- An edit in a run is written into what the edits before it have left. -/
theorem split (h : Makes done (before ++ m :: after) done') :
    ∃ mid, Makes done before mid ∧ m.WrittenInto mid.lines ∧ Makes (mid.make m) after done' := by
  induction before generalizing done with
  | nil =>
    cases h with
    | cons hwritten hrest => exact ⟨done, .nil done, hwritten, hrest⟩
  | cons m' before ih =>
    cases h with
    | cons hwritten hrest =>
      obtain ⟨mid, hbefore, hm, hafter⟩ := ih hrest
      exact ⟨mid, .cons hwritten hbefore, hm, hafter⟩

end Makes

/-! ## One edit alone -/

/-- One edit of lines as they are is made. -/
theorem applyLineEdits_alone {file : List Text} {given : LineEdit} {e : TargetEdit}
    (hread : given.read = .ok e) (h : e.Current file) :
    ∃ block, MadeEdit.WrittenInto file ⟨e, block⟩ ∧
      applyLineEdits file [given] = .ok (LineOutcome.make { lines := file } ⟨e, block⟩) := by
  have hreach : e.reach ≤ file.length := h.toFits.reach_le_last.trans h.last_le
  obtain ⟨⟨place, count, block⟩, hchange⟩ := TargetEdit.change_eq_of_reach h.first_pos hreach
  obtain ⟨rfl, rfl⟩ := TargetEdit.change_eq_ok hchange
  refine ⟨block, hchange, ?_⟩
  rw [applyLineEdits_single hread h]
  exact TargetEdit.step_iff_writtenInto.mpr ⟨block, hchange, rfl⟩

end LoosePatch
