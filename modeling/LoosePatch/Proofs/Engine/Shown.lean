import LoosePatch.Proofs.Image.Shape
import LoosePatch.Proofs.LineRef.Blocks
import LoosePatch.Proofs.LineRef.Faults
import LoosePatch.Proofs.LineRef.Shown
import LoosePatch.Proofs.Text.Lines

/-!
Edits by references that were shown. Such an edit applies (`applyLineEdits_shown`), and one that puts
copied rows in the place of the lines they show changes nothing (`Engine.apply_own_rows`).
-/

namespace LoosePatch

variable {lines : List Text} {src dst : Text} {target : LineTarget}

/-! ## Line edits -/

/-- What a shown target and some text are read as: an edit that is accepted as fresh. -/
theorem LineEdit.exists_read_of_shown (h : LineTarget.Shown lines src target)
    (hfew : Readable lines.length) (hdst : target.isInsertion = true → dst ≠ []) :
    ∃ new, LineEdit.read ⟨src, dst⟩ = .ok ⟨target, new⟩ ∧
      TargetEdit.Current lines ⟨target, new⟩ := by
  have hread : LineEdit.read ⟨src, dst⟩ =
      .ok ⟨target, LineRef.dropCopied (if dst.isEmpty then [] else dst.lines)⟩ := by
    rw [LineEdit.read, h.read hfew]
    rfl
  exact ⟨_, hread, h.current fun hinserts => mt (LineEdit.lines_eq_nil_iff hread).mp (hdst hinserts)⟩

/-- An edit of the file with a shown target applies. -/
theorem applyLineEdits_shown (h : LineTarget.Shown lines src target)
    (hfew : Readable lines.length) (hdst : target.isInsertion = true → dst ≠ []) :
    ∃ done, applyLineEdits lines [⟨src, dst⟩] = .ok done := by
  obtain ⟨new, hread, hcurrent⟩ := LineEdit.exists_read_of_shown h hfew hdst
  have hpos : 1 ≤ target.first := hcurrent.first_pos
  have hle : target.first ≤ target.last := hcurrent.first_le_last
  have hlast : target.last ≤ lines.length := hcurrent.last_le
  have hreach : TargetEdit.reach ⟨target, new⟩ ≤ lines.length :=
    hcurrent.toFits.reach_le_last.trans hlast
  obtain ⟨changed, hchanged⟩ := TargetEdit.change_eq_of_reach hpos hreach
  rw [applyLineEdits_single hread hcurrent, TargetEdit.step, hchanged]
  exact ⟨_, rfl⟩

/-- The lines that rows are shown of. -/
theorem map_getD_range' {first last : Nat} (hfirst : 1 ≤ first) (hlast : last ≤ lines.length) :
    (List.range' first (last + 1 - first)).map (fun k => lines.getD (k - 1) []) =
      (lines.take last).drop (first - 1) := by
  refine List.ext_getElem (by simp; omega) fun i hi hi' => ?_
  simp only [List.getElem_map, List.getElem_range', List.getElem_drop, List.getElem_take]
  rw [List.getElem_eq_getD []]
  congr 1
  omega

/-! ## Rows in the place of their lines -/

namespace LineRef

theorem mem_shownRow_bar (lines : List Text) (k : Nat) : '|' ∈ shownRow lines k := by simp [shownRow]

theorem not_mem_shownRow (hbreak : ∀ l ∈ lines, '\n' ∉ l) (k : Nat) : '\n' ∉ shownRow lines k := by
  have hline : '\n' ∉ lines[k - 1]?.getD [] := by
    cases hget : lines[k - 1]? with
    | none => exact List.not_mem_nil
    | some l => exact hbreak l (List.mem_of_getElem? hget)
  have hshown : '\n' ∉ (ofLine lines k).shown := not_mem_shown (by decide)
  simp [shownRow, hshown, hline]

end LineRef

/-- The text of some rows is read as the lines that they show. -/
theorem LineEdit.read_rows (h : LineTarget.Shown lines src target)
    (hfew : Readable lines.length) (hbreak : ∀ l ∈ lines, '\n' ∉ l) {ks : List Nat} (hne : ks ≠ []) :
    LineEdit.read ⟨src, Text.unlines (ks.map (LineRef.shownRow lines))⟩ =
      .ok ⟨target, ks.map fun k => lines.getD (k - 1) []⟩ := by
  have hrows : (Text.unlines (ks.map (LineRef.shownRow lines))).lines =
      ks.map (LineRef.shownRow lines) := by
    refine Text.lines_unlines _ (fun row hrow => ?_) (by simpa using hne)
    obtain ⟨k, -, rfl⟩ := List.mem_map.mp hrow
    exact LineRef.not_mem_shownRow hbreak k
  have hempty : (Text.unlines (ks.map (LineRef.shownRow lines))).isEmpty = false := by
    obtain ⟨k, ks', rfl⟩ := List.exists_cons_of_ne_nil hne
    exact List.isEmpty_eq_false_iff.mpr (List.ne_nil_of_mem
      (Text.mem_intercalate_of_mem List.mem_cons_self (LineRef.mem_shownRow_bar lines k)))
  rw [LineEdit.read, h.read hfew]
  simp only [hempty, Bool.false_eq_true, if_false, hrows, LineRef.dropCopied_rows lines hne]
  rfl

/-- Lines in their own place are left as they are. -/
theorem TargetEdit.change_own {e : TargetEdit} (hfits : e.Fits lines)
    (hreplaces : e.target.isInsertion = false)
    (hlines : e.lines = (lines.take e.target.last).drop (e.target.first - 1)) :
    change lines e =
      .ok (e.target.first - 1, e.target.last - e.target.first + 1, e.lines) := by
  have hpos := hfits.first_pos
  have hle := hfits.first_le_last
  have hold : (lines.drop (e.target.first - 1)).take (e.target.last - e.target.first + 1) = e.lines := by
    rw [hlines, List.drop_take]
    congr 1
    omega
  have hlength : e.lines.length ≤ e.target.last - e.target.first + 1 := by
    rw [← hold, List.length_take]
    omega
  have hecho : LineRef.dropEcho lines e.target.first e.target.last e.lines = .ok e.lines := by
    rw [LineRef.dropEcho, if_pos (.inr hlength)]
  cases htarget : e.target with
  | after | before =>
    rw [htarget] at hreplaces
    cases hreplaces
  | single | range =>
    rw [htarget] at hold hecho
    simp only [change, htarget, hecho, bind, Except.bind, hold, LineRef.keepSpacing_self]
    rfl

/-- Rows in the place of the lines that they show leave the file as it is. -/
theorem applyLineEdits_own_rows (h : LineTarget.Shown lines src target)
    (hfew : Readable lines.length) (hreplaces : target.isInsertion = false)
    (hbreak : ∀ l ∈ lines, '\n' ∉ l) : ∃ done, applyLineEdits lines [⟨src, Text.unlines ((List.range' target.first
        (target.last + 1 - target.first)).map (LineRef.shownRow lines))⟩] = .ok done ∧
      done.lines = lines := by
  have hcurrent : TargetEdit.Current lines
      ⟨target, (lines.take target.last).drop (target.first - 1)⟩ :=
    h.current fun hinserts => by rw [hreplaces] at hinserts; cases hinserts
  have hpos : 1 ≤ target.first := hcurrent.first_pos
  have hle : target.first ≤ target.last := hcurrent.first_le_last
  have hlast : target.last ≤ lines.length := hcurrent.last_le
  have hne : List.range' target.first (target.last + 1 - target.first) ≠ [] := by
    simp
    omega
  have hread := LineEdit.read_rows h hfew hbreak hne
  rw [map_getD_range' hpos hlast] at hread
  have hchange := TargetEdit.change_own hcurrent.toFits hreplaces rfl
  rw [applyLineEdits_single hread hcurrent, TargetEdit.step, hchange]
  refine ⟨_, rfl, ?_⟩
  show lines.take (target.first - 1) ++ (lines.take target.last).drop (target.first - 1) ++
    lines.drop (target.first - 1 + (target.last - target.first + 1)) = lines
  have htop : lines.take (target.first - 1) = (lines.take target.last).take (target.first - 1) := by
    rw [List.take_take, Nat.min_eq_left (by omega)]
  rw [htop, List.take_append_drop, show target.first - 1 + (target.last - target.first + 1) = target.last
    by omega, List.take_append_drop]

/-! ## The engine -/

namespace Engine

variable {α : Type} [Score α] {content : ByteArray} {image : Image} {edit : LineEdit}

theorem loadImage_of_ofBytes? (hzero : isBinary content = false)
    (himage : Image.ofBytes? content = some image) : loadImage content = .ok image := by
  rw [loadImage, hzero, himage]
  rfl

/-- What is left of one line edit that applies is to see whether it changes the file. -/
theorem apply_line_edit (config : Config α) (path : Text) (hload : loadImage content = .ok image)
    {done : LineOutcome} (hdone : applyLineEdits image.lines [edit] = .ok done) :
    (apply config { path, lineEdits := some [edit] } (some content)).result =
      (checkChanged { path, lineEdits := some [edit] } content (image.withLines done.lines).toBytes
        .unchangedByLineEdits).bind fun _ =>
          .ok { effect := .write (image.withLines done.lines).toBytes, hunks := 1, added := done.added,
                removed := done.removed } := by
  have hchecks : (do
      Request.checkRename { path, lineEdits := some [edit] }
      Request.checkContent { path, lineEdits := some [edit] } : Outcome Unit) = .ok () := rfl
  simp only [apply, perform, hchecks, update, hload, updateByLines, List.isEmpty_cons,
    Bool.false_eq_true, if_false, hdone]
  rfl

/-- An edit by a reference that was shown is granted, unless it changes nothing. -/
theorem apply_shown (config : Config α) (path : Text) (hload : loadImage content = .ok image)
    (h : LineTarget.Shown image.lines src target) (hfew : Readable image.lines.length)
    (hdst : target.isInsertion = true → dst ≠ []) :
    (∃ change, (apply config { path, lineEdits := some [⟨src, dst⟩] } (some content)).result =
      .ok change) ∨
    (apply config { path, lineEdits := some [⟨src, dst⟩] } (some content)).result =
      .error (.refused .unchangedByLineEdits) := by
  obtain ⟨done, hdone⟩ := applyLineEdits_shown h hfew hdst
  rw [apply_line_edit config path hload hdone, checkChanged]
  split
  · exact .inr rfl
  · exact .inl ⟨_, rfl⟩

/-- Rows in the place of the lines that they show are refused: they change nothing. -/
theorem apply_own_rows (config : Config α) (path : Text) (hzero : isBinary content = false)
    (himage : Image.ofBytes? content = some image)
    (h : LineTarget.Shown image.lines src target) (hfew : Readable image.lines.length)
    (hreplaces : target.isInsertion = false) :
    (apply config { path, lineEdits := some [⟨src, Text.unlines ((List.range' target.first
        (target.last + 1 - target.first)).map (LineRef.shownRow image.lines))⟩] } (some content)).result =
      .error (.refused .unchangedByLineEdits) := by
  have hbreak : ∀ l ∈ image.lines, '\n' ∉ l := by
    obtain ⟨text, -, rfl⟩ := Option.map_eq_some_iff.mp himage
    exact (Image.coherent_ofMarkedText text).not_mem
  obtain ⟨done, hdone, hsame⟩ := applyLineEdits_own_rows h hfew hreplaces hbreak
  have hbytes : (image.withLines done.lines).toBytes = content := by
    rw [hsame]
    exact Image.toBytes_ofBytes? himage
  rw [apply_line_edit config path (loadImage_of_ofBytes? hzero himage) hdone, checkChanged, hbytes,
    if_pos ⟨rfl, rfl⟩]
  rfl

end Engine
end LoosePatch
