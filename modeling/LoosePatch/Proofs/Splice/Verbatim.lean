import LoosePatch.Proofs.Indent.Verbatim
import LoosePatch.Proofs.Locate.ExactText
import LoosePatch.Proofs.Splice.Accepted

/-!
A hunk alone whose old lines stand in the file byte for byte: its new lines take their place as they
are.
-/

namespace LoosePatch

/-! ## Emission on consecutive lines -/

namespace Splice

/-- Numbered edits without ellipses, whose old lines stand in the file one after the other from a
line on. -/
structure Consecutive (lines : List Text) (lineOf? : Nat → Option Nat) (cursor : Nat)
    (edits : List (Edit × Nat)) : Prop where
  plain : ∀ x ∈ edits, x.1.isEllipsis = false
  matched : (numberedWhere Edit.isOld edits).map (fun x => lineOf? x.2) =
    (List.range' cursor (textsWhere Edit.isOld edits).length).map some
  occurs : textsWhere Edit.isOld edits <+: lines.drop cursor

variable {lines : List Text} {lineOf? : Nat → Option Nat} {cursor : Nat} {x : Edit × Nat}
  {edits : List (Edit × Nat)}

theorem Consecutive.tail_of_add (h : Consecutive lines lineOf? cursor (x :: edits))
    (hold : x.1.isOld = false) : Consecutive lines lineOf? cursor edits where
  plain := fun y hy => h.plain y (List.mem_cons_of_mem x hy)
  matched := by
    have hmatched := h.matched
    rwa [numberedWhere_cons_neg hold, textsWhere_cons_neg hold] at hmatched
  occurs := by
    have hoccurs := h.occurs
    rwa [textsWhere_cons_neg hold] at hoccurs

theorem Consecutive.head_of_old (h : Consecutive lines lineOf? cursor (x :: edits))
    (hold : x.1.isOld = true) :
    lineOf? x.2 = some cursor ∧ fetch lines cursor = .ok x.1.text ∧
      Consecutive lines lineOf? (cursor + 1) edits := by
  have hmatched := h.matched
  rw [numberedWhere_cons_pos hold, textsWhere_cons_pos hold, List.length_cons, List.range'_succ,
    List.map_cons, List.map_cons, List.cons.injEq] at hmatched
  obtain ⟨after, hafter⟩ := h.occurs
  rw [textsWhere_cons_pos hold, List.cons_append] at hafter
  have hline : lines[cursor]? = some x.1.text := by
    rw [← List.head?_drop, ← hafter, List.head?_cons]
  have hrest : textsWhere Edit.isOld edits ++ after = lines.drop (cursor + 1) := by
    rw [← List.tail_drop, ← hafter, List.tail_cons]
  exact ⟨hmatched.1, fetch_eq_ok.mpr hline, fun y hy => h.plain y (List.mem_cons_of_mem x hy),
    hmatched.2, ⟨after, hrest⟩⟩

/-- Emission writes the new lines of such edits and nothing else. -/
theorem emit_consecutive (h : Consecutive lines lineOf? cursor edits) :
    emit lines lineOf? cursor (textsWhere Edit.isAdd edits) edits =
      .ok (textsWhere Edit.isNew edits, cursor + (textsWhere Edit.isOld edits).length) := by
  induction edits generalizing cursor with
  | nil => rfl
  | cons x edits ih =>
    -- The next old line stands at the cursor, so that nothing is copied in front of it.
    have hslice : slice lines cursor cursor = [] := List.drop_take_self
    cases hkind : x.1.kind with
    | add =>
      have hold : x.1.isOld = false := by rw [Edit.isOld, hkind]; rfl
      have hadd : x.1.isAdd = true := by rw [Edit.isAdd, hkind]; rfl
      have hnew : x.1.isNew = true := by rw [Edit.isNew, hkind]; rfl
      rw [textsWhere_cons_pos hadd, textsWhere_cons_pos hnew, textsWhere_cons_neg hold]
      simp only [emit, hkind, ih (h.tail_of_add hold)]
      rfl
    | ellipsis =>
      have hplain := h.plain x List.mem_cons_self
      rw [Edit.isEllipsis, hkind] at hplain
      cases hplain
    | keep =>
      have hold : x.1.isOld = true := by rw [Edit.isOld, hkind]; rfl
      have hadd : x.1.isAdd = false := by rw [Edit.isAdd, hkind]; rfl
      have hnew : x.1.isNew = true := by rw [Edit.isNew, hkind]; rfl
      obtain ⟨hline, hfetch, hrest⟩ := h.head_of_old hold
      rw [textsWhere_cons_neg hadd, textsWhere_cons_pos hnew, textsWhere_cons_pos hold,
        List.length_cons, Nat.add_comm _ 1, ← Nat.add_assoc]
      simp only [emit, hkind, hline, if_neg (Nat.lt_irrefl cursor), hfetch, ih hrest, hslice]
      rfl
    | remove =>
      have hold : x.1.isOld = true := by rw [Edit.isOld, hkind]; rfl
      have hadd : x.1.isAdd = false := by rw [Edit.isAdd, hkind]; rfl
      have hnew : x.1.isNew = false := by rw [Edit.isNew, hkind]; rfl
      obtain ⟨hline, -, hrest⟩ := h.head_of_old hold
      rw [textsWhere_cons_neg hadd, textsWhere_cons_neg hnew, textsWhere_cons_pos hold,
        List.length_cons, Nat.add_comm _ 1, ← Nat.add_assoc]
      simp only [emit, hkind, hline, if_neg (Nat.lt_irrefl cursor), ih hrest, hslice]
      rfl

end Splice

/-! ## Hunks at a place of their text -/

variable {α : Type} {lines : List Text} {hunk : Hunk} {p : Placement α} {s : Nat}

/-- The old lines of a hunk are matched one after the other from line `s` on. -/
structure Placement.Literal (lines : List Text) (hunk : Hunk) (s : Nat) (p : Placement α) : Prop where
  start_eq : p.start = s
  positions_eq : p.positions = Segment.positionsAt hunk.oldEdits s
  occurs : OccursAt lines hunk.oldLines s

namespace Placement.Literal

theorem consecutive (h : p.Literal lines hunk s) (hfits : p.Fits lines hunk)
    (hplain : hunk.hasEllipsis = false) :
    Splice.Consecutive lines p.lineOf? s hunk.edits.zipIdx where
  plain := by
    rintro ⟨e, i⟩ hmem
    exact Bool.eq_false_iff.mpr (List.any_eq_false.mp hplain e (List.fst_mem_of_mem_zipIdx hmem))
  matched := by
    have hindices : (numberedWhere Edit.isOld hunk.edits.zipIdx).map Prod.snd =
        p.positions.map Prod.fst := by
      rw [h.positions_eq, Segment.positionsAt_map_fst, Hunk.oldEdits_eq, List.map_map]
      rfl
    have hlines : p.positions.map (fun x => p.lineOf? x.1) = p.positions.map fun x => some x.2 :=
      List.map_congr_left fun x hx => hfits.lineOf?_eq_some.mpr hx
    have hrange : p.positions.map Prod.snd =
        List.range' s (textsWhere Edit.isOld hunk.edits.zipIdx).length := by
      rw [h.positions_eq, Segment.positionsAt_map_snd, textsWhere_zipIdx, Hunk.length_oldEdits]
      rfl
    calc (numberedWhere Edit.isOld hunk.edits.zipIdx).map (fun x => p.lineOf? x.2)
        = ((numberedWhere Edit.isOld hunk.edits.zipIdx).map Prod.snd).map p.lineOf? := by
          rw [List.map_map]; rfl
      _ = p.positions.map (fun x => p.lineOf? x.1) := by rw [hindices, List.map_map]; rfl
      _ = (p.positions.map Prod.snd).map some := by rw [hlines, List.map_map]; rfl
      _ = _ := by rw [hrange]
  occurs := by
    rw [textsWhere_zipIdx]
    exact (occursAt_iff lines hunk.oldLines s).mp h.occurs

/-- Every matched edit has the text of its line. -/
theorem getElem?_eq (h : p.Literal lines hunk s) {e : Edit} {i line : Nat}
    (he : hunk.edits[i]? = some e) (hline : (i, line) ∈ p.positions) :
    lines[line]? = some e.text := by
  rw [h.positions_eq] at hline
  obtain ⟨k, old, hk, rfl, rfl⟩ := (Segment.mem_positionsAt _ _ _ _).mp hline
  have hold := ((hunk.mem_oldEdits old).mp (List.mem_of_getElem? hk)).1
  cases Option.some.inj (hold.symm.trans he)
  have htext : hunk.oldLines[k]? = some old.edit.text := by
    rw [← Hunk.texts_oldEdits, Segment.texts, List.getElem?_map, hk]
    rfl
  obtain ⟨actual, hactual, hsame⟩ := h.occurs.getElem? htext
  exact hactual.trans (congrArg some hsame.symm)

/-- The pairs of matched lines are the same on both sides. -/
theorem pairs_eq (h : p.Literal lines hunk s) (hfits : p.Fits lines hunk) :
    ∃ pairs, Splice.pairs lines hunk p = .ok pairs ∧ ∀ x ∈ pairs, x.diff = x.file := by
  let matched := hunk.edits.zipIdx.filterMap fun x => (p.lineOf? x.2).map (x.1, ·)
  have hmatched : ∀ x ∈ matched, lines[x.2]? = some x.1.text := by
    intro x hx
    obtain ⟨⟨e, i⟩, hmem, hx⟩ := List.mem_filterMap.mp hx
    obtain ⟨line, hline, rfl⟩ := Option.map_eq_some_iff.mp hx
    exact h.getElem?_eq (List.mk_mem_zipIdx_iff_getElem?.mp hmem) (hfits.lineOf?_eq_some.mp hline)
  refine ⟨matched.map fun x => ⟨x.1.text, x.1.text, x.1.isRemove⟩, ?_, fun x hx => ?_⟩
  · refine mapM_eq_ok.mpr (List.forall₂_map_right_iff.mpr (List.forall₂_same.mpr fun x hx => ?_))
    exact bind_eq_ok.mpr ⟨x.1.text, fetch_eq_ok.mpr (hmatched x hx), rfl⟩
  · obtain ⟨y, -, rfl⟩ := List.mem_map.mp hx
    rfl

/-- The splice of such a hunk writes its new lines as they are. -/
theorem ofHunk_eq (h : p.Literal lines hunk s) (hfits : p.Fits lines hunk)
    (hplain : hunk.hasEllipsis = false) (hne : hunk.oldLines ≠ [])
    (hstyle : ∀ style, (Indent.profile lines).style = some style →
      Indent.Uniform style hunk.addedLines) :
    Splice.ofHunk lines hunk p (Indent.profile lines) none =
      .ok ⟨s, s + hunk.oldLines.length, hunk.newLines⟩ := by
  obtain ⟨pairs, hpairs, hsame⟩ := h.pairs_eq hfits
  have hadded : Indent.reconcile pairs hunk.addedLines (Indent.profile lines) = hunk.addedLines :=
    Indent.reconcile_eq_added hsame hstyle
  have hmatched : p.positions.isEmpty = false := by
    have hlength : p.positions.length = hunk.oldLines.length := by
      rw [h.positions_eq, Segment.positionsAt, List.length_map, List.length_zipIdx,
        Hunk.length_oldEdits]
    have hpos := List.length_pos_iff.mpr hne
    rw [List.isEmpty_eq_false_iff, ← List.length_pos_iff]
    omega
  have hemit := Splice.emit_consecutive (h.consecutive hfits hplain)
  simp only [textsWhere_zipIdx] at hemit
  refine bind_eq_ok.mpr ⟨pairs, hpairs, ?_⟩
  rw [hadded, hmatched, h.start_eq, if_neg Bool.false_ne_true, Option.getD_none, Nat.max_zero]
  exact bind_eq_ok.mpr ⟨_, hemit, rfl⟩

end Placement.Literal

/-! ## A hunk alone -/

section Alone

variable [Score α] {config : Config α} {number : Nat}

omit [Score α] in
theorem Located.floors_singleton (file : List Text) (x : Located α) :
    Located.floors file [x] = .ok [] := by
  rw [Located.floors, List.mergeSort_singleton]
  rfl

/-- One hunk has no floor, and its splice makes the result. -/
theorem applyHunks_singleton {splice : Splice} (hlocate : hunk.locate config lines 1 = .ok p)
    (hsplice : Splice.ofHunk lines hunk p (Indent.profile lines) none = .ok splice) :
    applyHunks config lines [hunk] = .ok (splice.apply lines, [p]) := by
  have hlocated : locateAll config lines 1 [hunk] = .ok [⟨1, hunk, p⟩] :=
    bind_eq_ok.mpr ⟨p, hlocate, rfl⟩
  have hsplices : ([⟨1, hunk, p⟩] : List (Located α)).mapM (fun x => do
      return (x.number, ← Splice.ofHunk lines x.hunk x.placement (Indent.profile lines)
        (([] : Located.Floors).lookup x.number))) = .ok [(1, splice)] :=
    mapM_eq_ok.mpr (.cons (bind_eq_ok.mpr ⟨splice, hsplice, rfl⟩) .nil)
  have hresult : spliceAll lines [(1, splice)] = splice.apply lines := by
    rw [spliceAll, List.mergeSort_singleton]
    rfl
  rw [← hresult]
  exact bind_eq_ok.mpr ⟨_, hlocated, bind_eq_ok.mpr ⟨[], Located.floors_singleton lines _,
    bind_eq_ok.mpr ⟨_, hsplices, rfl⟩⟩⟩

/-- The new lines of such a hunk take the place of its old lines as they are. -/
theorem applyHunks_unanchored (hanchors : hunk.anchors = []) (hplain : hunk.hasEllipsis = false)
    (hne : hunk.oldLines ≠ []) (h : OccursAt lines hunk.oldLines s)
    (hclue : (∀ i, OccursAt lines hunk.oldLines i → i = s) ∨
      hunk.hint.map LineHint.oldIndex = some (s : Int))
    (hstyle : ∀ style, (Indent.profile lines).style = some style →
      Indent.Uniform style hunk.addedLines) :
    ∃ p : Placement α, applyHunks config lines [hunk] = .ok
      (lines.take s ++ hunk.newLines ++ lines.drop (s + hunk.oldLines.length), [p]) := by
  have hlocate : hunk.locate config lines 1 =
      .ok (Hunk.withNotes none 1 (Segment.placedAt hunk.oldEdits s)) :=
    Hunk.locate_unanchored hanchors hplain hne h hclue
  have hliteral : (Hunk.withNotes none 1 (Segment.placedAt hunk.oldEdits s) :
      Placement α).Literal lines hunk s := ⟨rfl, rfl, h⟩
  have hsplice := hliteral.ofHunk_eq (Hunk.locate_fits hlocate) hplain hne hstyle
  have happlied := applyHunks_singleton hlocate hsplice
  rw [Splice.apply, Nat.max_eq_right (Nat.le_add_right s _)] at happlied
  exact ⟨_, happlied⟩

/-- Exact text without anchors is found where it stands, if this is its only place or the hinted
one, whatever else the header says; and if its added lines are indented as the file is, they go into
the file as they are. -/
theorem applyHunks_verbatim (hanchors : hunk.anchors = []) (hplain : hunk.hasEllipsis = false)
    (hne : hunk.oldLines ≠ []) (h : OccursAt lines hunk.oldLines s)
    (hclue : (∀ i, OccursAt lines hunk.oldLines i → i = s) ∨
      hunk.hint.map LineHint.oldIndex = some (s : Int)) :
    (∃ p : Placement α, hunk.locate config lines number = .ok p ∧ p.start = s ∧
      p.confidence = Score.one ∧ p.positions.map Prod.fst = hunk.oldEdits.map OldLine.index ∧
      p.positions.map Prod.snd = List.range' s hunk.oldLines.length) ∧
    ((∀ style, (Indent.profile lines).style = some style →
        Indent.Uniform style hunk.addedLines) →
      ∃ p : Placement α, applyHunks config lines [hunk] = .ok
        (lines.take s ++ hunk.newLines ++ lines.drop (s + hunk.oldLines.length), [p])) := by
  have hlocate : hunk.locate config lines number =
      .ok (Hunk.withNotes none number (Segment.placedAt hunk.oldEdits s)) :=
    Hunk.locate_unanchored hanchors hplain hne h hclue
  refine ⟨⟨_, hlocate, rfl, rfl, ?_, ?_⟩, fun hstyle => ?_⟩
  · exact Segment.positionsAt_map_fst hunk.oldEdits s
  · rw [← Hunk.length_oldEdits]
    exact Segment.positionsAt_map_snd hunk.oldEdits s
  · exact applyHunks_unanchored hanchors hplain hne h hclue hstyle

end Alone

/-- Text that is in the file once, under a wrong line number and a wrong claim that it ends the
file. -/
theorem applyHunks_verbatim_wrong_hint :
    ∃ p : Placement Rat, applyHunks (Config.usual Score.decimal)
      ["a:".toList, "  b".toList, "  c".toList, "d".toList]
      [{ edits := [⟨.keep, "a:".toList⟩, ⟨.remove, "  b".toList⟩, ⟨.add, "  e".toList⟩]
         hint := some { oldStart := 9, oldLength := some 2 }, endsFile := true }] =
      .ok (["a:".toList, "  e".toList, "  c".toList, "d".toList], [p]) := by
  let lines : List Text := ["a:".toList, "  b".toList, "  c".toList, "d".toList]
  let hunk : Hunk :=
    { edits := [⟨.keep, "a:".toList⟩, ⟨.remove, "  b".toList⟩, ⟨.add, "  e".toList⟩]
      hint := some { oldStart := 9, oldLength := some 2 }, endsFile := true }
  have hne : hunk.oldLines ≠ [] := by decide
  have honce : ∀ i, OccursAt lines hunk.oldLines i → i = 0 := by
    intro i hi
    have hle : i + 2 ≤ 4 := hi.length_le hne
    have hnot : i ≠ 1 ∧ i ≠ 2 :=
      ⟨fun h1 => absurd (h1 ▸ hi) (by decide), fun h2 => absurd (h2 ▸ hi) (by decide)⟩
    omega
  let config : Config Rat := Config.usual Score.decimal
  obtain ⟨-, happlied⟩ : (∃ p, hunk.locate config lines 1 = .ok p ∧ _) ∧ _ :=
    applyHunks_verbatim rfl rfl hne (by decide) (Or.inl honce)
  refine happlied fun style hstyle line hline _ c hc => ?_
  have hspaces : style = .spaces := (Option.some.inj hstyle).symm
  have hlead : Indent.lead "  e".toList = List.replicate 2 ' ' := rfl
  rw [List.mem_singleton.mp hline, hlead] at hc
  rw [hspaces]
  exact List.eq_of_mem_replicate hc

end LoosePatch
