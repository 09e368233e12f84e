import LoosePatch.Proofs.Locate.ExactText
import LoosePatch.Proofs.Locate.Narrower
import LoosePatch.Proofs.Locate.Soundness
import LoosePatch.Proofs.Outcome
import Mathlib.Data.List.TakeWhile

/-!
Context that has changed at an end of a hunk. The lines in front may be left out, and those at the end too
if the hunk removes a line (`Hunk.locate_forgives`). Where it only adds lines between context, all its old
lines are one run of kept lines in front: none of them is left out at the end.
-/

namespace LoosePatch

variable {α : Type} [Score α] {config : Config α} {lines : List Text}

/-! ## Runs of context -/

namespace View

theorem length_le_trimmable_front {context rest : Segment} (h : ∀ o ∈ context, o.edit.isKeep = true)
    (hfew : context.length ≤ mostTrimmed) : context.length ≤ (trimmable (context ++ rest)).1 := by
  refine Nat.le_min.mpr ⟨?_, hfew⟩
  rw [List.takeWhile_append_of_pos h, List.length_append]
  exact Nat.le_add_right _ _

/-- A line that is not kept stops the run in front, so that the run at the end is counted in full. -/
theorem length_le_trimmable_back {context rest : Segment} (h : ∀ o ∈ context, o.edit.isKeep = true)
    (hfew : context.length ≤ mostTrimmed) (hstop : ∃ o ∈ rest, o.edit.isKeep = false) :
    context.length ≤ (trimmable (rest ++ context)).2 := by
  have hlead : ((rest ++ context).takeWhile (·.edit.isKeep)).length ≤ rest.length := by
    rw [List.takeWhile_append]
    split
    · rename_i hall
      obtain ⟨o, ho, hnot⟩ := hstop
      rw [← (List.takeWhile_prefix _).eq_of_length hall] at ho
      rw [isKeep_of_mem_takeWhile ho] at hnot
      cases hnot
    · exact (List.takeWhile_prefix _).length_le
  refine Nat.le_min.mpr ⟨?_, hfew⟩
  rw [List.drop_append_of_le_length hlead, List.reverse_append,
    List.takeWhile_append_of_pos fun o ho => h o (List.mem_reverse.mp ho), List.length_append,
    List.length_reverse]
  exact Nat.le_add_right _ _

/-- Lines that are all kept are all in front, and none is left for the end. -/
theorem trimmable_of_keep {old : Segment} (h : ∀ o ∈ old, o.edit.isKeep = true) :
    trimmable old = (min old.length mostTrimmed, 0) := by
  simp only [trimmable, List.takeWhile_eq_self_iff.mpr h, List.drop_length, List.reverse_nil,
    List.takeWhile_nil, List.length_nil, Nat.zero_min]

theorem suffix_of_mem_trimmed {old view : Segment} (h : ∀ o ∈ old, o.edit.isKeep = true)
    (hview : view ∈ trimmed old) : view <:+ old := by
  obtain ⟨front, back, -, hback, -, rfl, -⟩ := mem_trimmed.mp hview
  rw [trimmable_of_keep h, Nat.le_zero] at hback
  rw [hback, Nat.sub_zero, List.take_length]
  exact List.drop_suffix front old

theorem changedLines?_of_keep {old : Segment} (h : ∀ o ∈ old, o.edit.isKeep = true) :
    changedLines? old = none := by
  simp [changedLines?, List.dropWhile_eq_nil_iff.mpr h]

end View

/-! ## Views with one place -/

theorem Clues.selectNarrow_of_once {clues : Clues α} {old view : Segment} (hne : view ≠ [])
    (hline : clues.anchorLine? = none) (honce : ∃! s, OccursAt lines (Segment.texts view) s) :
    ∃ p, (clues.selectNarrow config lines old view).1 = some p := by
  obtain ⟨s, hs, hunique⟩ := honce
  have hfind : View.find config lines [view] 0 = [view.placedAt s] := by
    rw [View.find_of_occurs config hne (Nat.zero_le s) hs,
      Sequence.equalPlaces_of_unique (View.texts_ne_nil hne) hs hunique]
    rfl
  simp only [selectNarrow, hline, List.isEmpty_nil, if_true, hfind]
  exact ⟨_, rfl⟩

namespace Hunk

variable {hunk : Hunk} {number : Nat}

/-- One view that has a place is enough. -/
theorem locateNarrowed_isSome {clues : Clues α} {old : Segment} {views : List (Narrowing × Segment)}
    {x : Narrowing × Segment} (hx : x ∈ views)
    (hplace : ∃ p, (clues.selectNarrow config lines old x.2).1 = some p)
    (undecided : List (Placement α)) :
    ∃ p, (locateNarrowed config lines clues number old views undecided).1 = some p := by
  induction views generalizing undecided with
  | nil => cases hx
  | cons y views ih =>
    obtain ⟨narrowing, view⟩ := y
    rw [locateNarrowed]
    split
    · exact ⟨_, rfl⟩
    · rename_i hnone
      rcases List.mem_cons.mp hx with rfl | hx
      · obtain ⟨p, hp⟩ := hplace
        rw [hnone] at hp
        cases hp
      · exact ih hx _

/-- A hunk is placed if one of its narrower views stands in the file exactly once. -/
theorem locate_of_narrowing {x : Narrowing × Segment} (hanchors : hunk.anchors = [])
    (hold : hunk.isInsertion = false) (hx : x ∈ View.narrowings hunk.oldView) (hne : x.2 ≠ [])
    (honce : ∃! s, OccursAt lines (Segment.texts x.2) s) :
    ∃ p, hunk.locate config lines number = .ok p := by
  rcases hselect : (hunk.clues config lines).select config lines hunk.oldView with ⟨_ | p, candidates⟩
  · have hline : (hunk.clues config lines).anchorLine? = none := by
      rw [Clues.anchorLine?, clues, hanchors]
      rfl
    obtain ⟨p, hp⟩ : ∃ p, (locateNarrowed config lines (hunk.clues config lines) number
        (hunk.oldView.head?.getD []) (View.narrowings hunk.oldView) candidates).1 = some p :=
      locateNarrowed_isSome hx (Clues.selectNarrow_of_once hne hline honce) candidates
    exact ⟨_, locate_of_undecided hold hselect (Prod.ext hp rfl)⟩
  · exact ⟨_, locate_of_select hold (congrArg Prod.fst hselect)⟩

/-! ## Context at one end -/

/-- The old lines of the first edits come first. -/
theorem oldEdits_append {front back : List Edit} (h : hunk.edits = front ++ back) :
    ∃ before after, hunk.oldEdits = before ++ after ∧
      before.map OldLine.edit = front.filter Edit.isOld ∧
      after.map OldLine.edit = back.filter Edit.isOld := by
  let oldOf (edits : List (Edit × Nat)) : Segment :=
    (numberedWhere Edit.isOld edits).map fun x => ⟨x.2, x.1⟩
  have hedits (edits : List Edit) (first : Nat) :
      (oldOf (edits.zipIdx first)).map OldLine.edit = edits.filter Edit.isOld := by
    rw [← numberedWhere_zipIdx_map_fst Edit.isOld edits first, List.map_map]
    rfl
  refine ⟨oldOf front.zipIdx, oldOf (back.zipIdx front.length), ?_, hedits front 0,
    hedits back front.length⟩
  rw [oldEdits_eq, h, List.zipIdx_append, numberedWhere, List.filter_append, List.map_append, Nat.zero_add]
  rfl

theorem texts_of_map_edit {old : Segment} {edits : List Edit}
    (h : old.map OldLine.edit = edits.filter Edit.isOld) :
    Segment.texts old = Hunk.oldLines { edits } := by
  rw [oldLines, ← h, List.map_map]
  rfl

theorem filter_isOld_of_keep {context : List Edit} (h : ∀ e ∈ context, e.isKeep = true) :
    context.filter Edit.isOld = context := by
  refine List.filter_eq_self.mpr fun e he => ?_
  have hkind : e.kind = .keep := beq_iff_eq.mp (h e he)
  simp [Edit.isOld, hkind]

/-- A hunk is placed if the lines that one of its trimmed views keeps stand in the file once. -/
theorem locate_of_trimmed {view : Segment} (hanchors : hunk.anchors = [])
    (hplain : hunk.hasEllipsis = false) (hview : view ∈ View.trimmed hunk.oldEdits)
    (honce : ∃! s, OccursAt lines (Segment.texts view) s) :
    ∃ p, hunk.locate config lines number = .ok p := by
  obtain ⟨-, -, -, -, -, -, hne⟩ := View.mem_trimmed.mp hview
  have hold : hunk.oldLines ≠ [] := by
    rw [← texts_oldEdits]
    refine View.texts_ne_nil fun hnil => hne ?_
    rw [hnil] at hview
    exact List.sublist_nil.mp (View.trimmed_narrows hview).sublist
  refine locate_of_narrowing (x := (.trimmed, view)) hanchors (isInsertion_of_oldLines hold) ?_ hne honce
  rw [oldView_of_no_ellipsis hplain hold]
  exact List.mem_append_right _ (List.mem_map_of_mem hview)

section Edges

variable {context rest : List Edit} (hanchors : hunk.anchors = []) (hplain : hunk.hasEllipsis = false)
  (hkeep : ∀ e ∈ context, e.isKeep = true) (hsome : context ≠ [])
  (hfew : context.length ≤ View.mostTrimmed) (hne : Hunk.oldLines { edits := rest } ≠ [])
  (honce : ∃! s, OccursAt lines (Hunk.oldLines { edits := rest }) s)

include hanchors hplain hkeep hsome hfew hne honce

theorem locate_without_front (hedits : hunk.edits = context ++ rest) :
    ∃ p, hunk.locate config lines number = .ok p := by
  obtain ⟨lead, view, hold, hlead, hview⟩ := oldEdits_append hedits
  rw [filter_isOld_of_keep hkeep] at hlead
  subst hlead
  rw [← texts_of_map_edit hview] at hne honce
  rw [List.length_map] at hfew
  refine locate_of_trimmed hanchors hplain (View.mem_trimmed.mpr ?_) honce
  refine ⟨lead.length, 0, ?_, Nat.zero_le _, ?_, ?_, fun hnil => hne (congrArg Segment.texts hnil)⟩
  · rw [hold]
    exact View.length_le_trimmable_front (List.forall_mem_map.mp hkeep) hfew
  · exact List.length_pos_iff.mpr (mt List.map_eq_nil_iff.mpr hsome)
  · rw [hold, Nat.sub_zero, List.take_length, List.drop_left]

theorem locate_without_back (hedits : hunk.edits = rest ++ context)
    (hremoves : ∃ e ∈ rest, e.isRemove = true) : ∃ p, hunk.locate config lines number = .ok p := by
  obtain ⟨view, trail, hold, hview, htrail⟩ := oldEdits_append hedits
  rw [filter_isOld_of_keep hkeep] at htrail
  subst htrail
  have hstop : ∃ o ∈ view, o.edit.isKeep = false := by
    obtain ⟨e, he, hremove⟩ := hremoves
    have hmem : e ∈ view.map OldLine.edit := by
      rw [hview]
      exact List.mem_filter.mpr ⟨he, Edit.isOld_of_isRemove hremove⟩
    obtain ⟨o, ho, rfl⟩ := List.mem_map.mp hmem
    exact ⟨o, ho, Bool.eq_false_iff.mpr fun hk => View.not_isRemove_of_isKeep hk hremove⟩
  rw [← texts_of_map_edit hview] at hne honce
  rw [List.length_map] at hfew
  refine locate_of_trimmed hanchors hplain (View.mem_trimmed.mpr ?_) honce
  refine ⟨0, trail.length, Nat.zero_le _, ?_, ?_, ?_, fun hnil => hne (congrArg Segment.texts hnil)⟩
  · rw [hold]
    exact View.length_le_trimmable_back (List.forall_mem_map.mp hkeep) hfew hstop
  · rw [Nat.zero_add]
    exact List.length_pos_iff.mpr (mt List.map_eq_nil_iff.mpr hsome)
  · rw [hold, List.length_append, Nat.add_sub_cancel, List.take_left, List.drop_zero]

end Edges

/-- A hunk that removes nothing and whose context does not repeat itself is placed with its last old line,
whatever else is left out. -/
theorem exists_position_last {p : Placement α} {last : OldLine} (hplain : hunk.hasEllipsis = false)
    (hkeep : ∀ e ∈ hunk.edits, e.isRemove = false) (hcollapsed : View.collapsed? hunk.oldEdits = none)
    (hlast : hunk.oldEdits.getLast? = some last) (h : hunk.locate config lines number = .ok p) :
    ∃ line, (last.index, line) ∈ p.positions := by
  have hkept : ∀ o ∈ hunk.oldEdits, o.edit.isKeep = true := by
    intro o ho
    obtain ⟨hedit, hold⟩ := (hunk.mem_oldEdits o).mp ho
    have hremove := hkeep _ (List.mem_of_getElem? hedit)
    rcases Bool.or_eq_true_iff.mp hold with hkeep | hremove'
    · exact hkeep
    · cases hremove.symm.trans hremove'
  have hold : hunk.oldLines ≠ [] := by
    rw [← texts_oldEdits]
    exact View.texts_ne_nil (List.ne_nil_of_mem (List.mem_of_getLast? hlast))
  have hview := oldView_of_no_ellipsis hplain hold
  obtain ⟨anchor, q, rfl, ⟨start, hq⟩ | ⟨narrowing, view, r, start, hnarrowing, hr, rfl⟩⟩ :=
    locate_eq_ok (isInsertion_of_oldLines hold) h
  · have hlayout := (View.find_layout (View.covers_oldView hunk).nonempty hq).1
    refine hlayout.exists_position ?_
    rw [flatten_oldView]
    exact List.mem_of_getLast? hlast
  · have hlayout := (View.find_layout (View.covers_narrowing hnarrowing).nonempty hr).1
    refine hlayout.exists_position ?_
    rw [List.flatten_singleton]
    rw [hview, View.narrowings, View.changedLines?_of_keep hkept, hcollapsed] at hnarrowing
    obtain ⟨view', hview', heq⟩ := List.mem_map.mp hnarrowing
    cases heq
    obtain ⟨front, hfront⟩ := View.suffix_of_mem_trimmed hkept hview'
    have hne : view ≠ [] := (View.trimmed_narrows hview').nonempty
    rw [← hfront, List.getLast?_append_of_ne_nil front hne] at hlast
    exact List.mem_of_getLast? hlast

/-- **Stale context at the ends.** Where the rest of a hunk stands in the file exactly once, up to three
lines of context in front of it are forgiven, and up to three at its end if the hunk removes a line. If it
only adds lines, those at its end are not: wherever it is placed, its last old line was found. -/
theorem locate_forgives {context rest : List Edit} (hanchors : hunk.anchors = [])
    (hplain : hunk.hasEllipsis = false) (hkeep : ∀ e ∈ context, e.isKeep = true) (hsome : context ≠ [])
    (hfew : context.length ≤ View.mostTrimmed) (hne : Hunk.oldLines { edits := rest } ≠ [])
    (honce : ∃! s, OccursAt lines (Hunk.oldLines { edits := rest }) s) :
    (hunk.edits = context ++ rest → ∃ p, hunk.locate config lines number = .ok p) ∧
    (hunk.edits = rest ++ context → (∃ e ∈ rest, e.isRemove = true) →
      ∃ p, hunk.locate config lines number = .ok p) ∧
    (hunk.edits = rest ++ context → (∀ e ∈ rest, e.isRemove = false) →
      View.collapsed? hunk.oldEdits = none → ∀ p, hunk.locate config lines number = .ok p →
      ∀ last, hunk.oldEdits.getLast? = some last → ∃ line, (last.index, line) ∈ p.positions) := by
  refine ⟨locate_without_front hanchors hplain hkeep hsome hfew hne honce,
    locate_without_back hanchors hplain hkeep hsome hfew hne honce,
    fun hedits hadds hcollapsed p hp last hlast => ?_⟩
  refine exists_position_last hplain (fun e he => ?_) hcollapsed hlast hp
  rw [hedits] at he
  rcases List.mem_append.mp he with he | he
  · exact hadds e he
  · exact Bool.eq_false_iff.mpr (View.not_isRemove_of_isKeep (hkeep e he))

/-- A changed line in front of an added one, and a changed line below a removed one. -/
theorem locate_forgives_both_ends :
    let lines : List Text := [['z'], ['b'], ['y']]
    let adds : Hunk := { edits := [⟨.keep, ['a']⟩, ⟨.keep, ['b']⟩, ⟨.add, ['x']⟩] }
    let removes : Hunk := { edits := [⟨.remove, ['b']⟩, ⟨.keep, ['c']⟩] }
    (∃ p, adds.locate (Config.usual Score.decimal : Config Rat) lines 1 = .ok p) ∧
      ∃ p, removes.locate (Config.usual Score.decimal : Config Rat) lines 1 = .ok p := by
  intro lines adds removes
  have honce : ∃! s, OccursAt lines [['b']] s := by
    refine ⟨1, by decide, fun s hs => ?_⟩
    have hle : s + 1 ≤ 3 := StandsAt.length_le hs (by decide)
    have hfew : ∀ s < 3, OccursAt lines [['b']] s → s = 1 := by decide
    exact hfew s (by omega) hs
  constructor
  · exact (@locate_forgives Rat _ (Config.usual Score.decimal) lines adds 1 [⟨.keep, ['a']⟩]
      [⟨.keep, ['b']⟩, ⟨.add, ['x']⟩] rfl rfl (by decide) (by decide) (by decide) (by decide) honce).1 rfl
  · exact (@locate_forgives Rat _ (Config.usual Score.decimal) lines removes 1 [⟨.keep, ['c']⟩]
      [⟨.remove, ['b']⟩] rfl rfl (by decide) (by decide) (by decide) (by decide) honce).2.1 rfl
      ⟨⟨.remove, ['b']⟩, by decide, rfl⟩

/-- The ends of a hunk that only adds a line are not alike: with a changed line of context below the added
one it is refused, although the line above stands in the file once. -/
theorem stale_line_below_refused :
    ¬ ∀ (lines : List Text) (hunk : Hunk) (context rest : List Edit), hunk.anchors = [] →
        hunk.hasEllipsis = false → hunk.edits = rest ++ context →
        (∃ e ∈ rest, e.isAdd = true ∨ e.isRemove = true) → (∀ e ∈ context, e.isKeep = true) →
        context ≠ [] → context.length ≤ 3 → Hunk.oldLines { edits := rest } ≠ [] →
        (∃! s, OccursAt lines (Hunk.oldLines { edits := rest }) s) →
        ∀ why, hunk.locate (Config.usual Score.decimal : Config Rat) lines 1 = refuse why →
          why.kind ≠ .noMatch ∧ why.kind ≠ .staleContent := by
  intro hclaim
  let lines : List Text := [['a'], ['z']]
  let hunk : Hunk := { edits := [⟨.keep, ['a']⟩, ⟨.add, ['x']⟩, ⟨.keep, ['b']⟩] }
  have honce : ∃! s, OccursAt lines [['a']] s := by
    refine ⟨0, by decide, fun s hs => ?_⟩
    have hle : s + 1 ≤ 2 := StandsAt.length_le hs (by decide)
    have hfew : ∀ s < 2, OccursAt lines [['a']] s → s = 0 := by decide
    exact hfew s (by omega) hs
  have hrefused : refusal? (hunk.locate (Config.usual Score.decimal : Config Rat) lines 1) =
      some (.stale 1 0 [['a'], ['b']] [['a'], ['z']] [2] lines) := by
    decide +kernel
  have hkind := hclaim lines hunk [⟨.keep, ['b']⟩] [⟨.keep, ['a']⟩, ⟨.add, ['x']⟩] rfl rfl rfl
    (by decide) (by decide) (by decide) (by decide) (by decide) honce _
    (refusal?_eq_some.mp hrefused)
  exact hkind.2 rfl

end Hunk
end LoosePatch
