import LoosePatch.Proofs.Locate.ExactText
import LoosePatch.Proofs.Locate.Narrower
import Mathlib.Data.List.Sort

/-!
Hunks without context, which only remove and add lines. No narrower view of such a hunk exists, so
that of several places of its old lines only the line number and the end of the file can choose one
(`Hunk.locate_contextless`).
-/

namespace LoosePatch

/-! ## No narrower views -/

namespace View

variable {old : Segment}

theorem collapseInto_of_no_keep (kept : Segment) (h : ∀ o ∈ old, o.edit.isKeep = false) :
    collapseInto kept old = kept ++ old := by
  induction old generalizing kept with
  | nil => rw [collapseInto, List.append_nil]
  | cons next rest ih =>
    obtain ⟨hnext, hrest⟩ := List.forall_mem_cons.mp h
    have hnone : repeated? kept next rest = none := by
      cases hrepeated : repeated? kept next rest with
      | none => rfl
      | some k =>
        have hkeep := repeated?_isKeep hrepeated next List.mem_cons_self
        rw [hnext] at hkeep
        cases hkeep
    rw [collapseInto, hnone]
    exact (ih (kept ++ [next]) hrest).trans (List.append_cons kept next rest).symm

theorem trimmable_of_no_keep (h : ∀ o ∈ old, o.edit.isKeep = false) : trimmable old = (0, 0) := by
  have hrun {segment : Segment} (hsegment : segment ⊆ old) :
      segment.takeWhile (·.edit.isKeep) = [] :=
    List.takeWhile_eq_nil_iff.mpr fun hlt => by simp [h _ (hsegment (List.getElem_mem hlt))]
  simp only [trimmable, hrun (List.Subset.refl old), List.length_nil, List.drop_zero,
    hrun (List.reverse_subset.mpr (List.Subset.refl old)), Nat.zero_min]

theorem narrowings_of_no_keep (h : ∀ o ∈ old, o.edit.isKeep = false) : narrowings [old] = [] := by
  have hchanged : changedLines? old = none := by
    have hany : old.any (·.edit.isKeep) = false := List.any_eq_false.mpr fun o ho => by simp [h o ho]
    rw [changedLines?]
    simp only [hany, Bool.false_and, Bool.false_eq_true, if_false]
  have hcollapsed : collapsed? old = none := by
    simp only [collapsed?, collapseInto_of_no_keep [] h, List.nil_append, if_true]
  have htrimmed : trimmed old = [] := by simp [trimmed, trimmable_of_no_keep h]
  simp only [narrowings, hchanged, hcollapsed, htrimmed, Option.map_none, Option.toList_none,
    List.map_nil, List.append_nil]

end View

/-! ## Hunks without context -/

namespace Hunk

variable {α : Type} [Score α] {config : Config α} {lines : List Text} {hunk : Hunk} {number : Nat}
  {places : List Nat}

theorem oldLines_ne_nil (h : ∃ e ∈ hunk.edits, e.isRemove = true) : hunk.oldLines ≠ [] := by
  obtain ⟨e, he, hremove⟩ := h
  have hold : e ∈ hunk.edits.filter Edit.isOld :=
    List.mem_filter.mpr ⟨he, Edit.isOld_of_isRemove hremove⟩
  exact List.ne_nil_of_mem (List.mem_map_of_mem hold)

theorem hasEllipsis_of_kinds (h : ∀ e ∈ hunk.edits, e.isRemove = true ∨ e.isAdd = true) :
    hunk.hasEllipsis = false :=
  List.any_eq_false.mpr fun e he hellipsis => by
    have hkind : e.kind = .ellipsis := beq_iff_eq.mp hellipsis
    rcases h e he with h | h <;> simp [Edit.isRemove, Edit.isAdd, hkind] at h

theorem oldEdits_of_kinds (h : ∀ e ∈ hunk.edits, e.isRemove = true ∨ e.isAdd = true) :
    ∀ o ∈ hunk.oldEdits, o.edit.isKeep = false := fun o ho =>
  Bool.eq_false_iff.mpr fun hkeep => by
    have hkind : o.edit.kind = .keep := beq_iff_eq.mp hkeep
    rcases h _ (List.mem_of_getElem? ((mem_oldEdits hunk o).mp ho).1) with h | h <;>
      simp [Edit.isRemove, Edit.isAdd, hkind] at h

/-- The places of exact text are those where the old lines stand, in order. -/
theorem equalPlaces_oldLines (hne : hunk.oldLines ≠ []) (hsorted : places.Pairwise (· < ·))
    (hplaces : ∀ s, s ∈ places ↔ OccursAt lines hunk.oldLines s) :
    Sequence.equalPlaces id lines hunk.oldLines 0 = places := by
  refine (Sequence.equalPlaces_sorted id lines _ 0).eq_of_mem_iff hsorted fun s => ?_
  rw [hplaces, Sequence.mem_equalPlaces id lines _ 0 s hne]
  exact and_iff_right (Nat.zero_le s)

/-! ## The law of ties -/

/-- Without anchors, several places of exact text are left to the line number and the end of the
file. -/
theorem select_unanchored (hanchors : hunk.anchors = []) (hplain : hunk.hasEllipsis = false)
    (hne : hunk.oldLines ≠ []) (hplaces : Sequence.equalPlaces id lines hunk.oldLines 0 = places)
    (hmany : 2 ≤ places.length) :
    (hunk.clues config lines).select config lines hunk.oldView =
      ((hunk.hint.map LineHint.oldIndex).bind
          (Clues.onlyNearest · (places.map (Segment.placedAt hunk.oldEdits)))
        <|> if hunk.endsFile then (places.map (Segment.placedAt hunk.oldEdits)).getLast? else none,
      places.map (Segment.placedAt hunk.oldEdits)) := by
  have hnone : (hunk.clues config lines).anchor = none := by rw [clues, hanchors]; rfl
  have hline : (hunk.clues config lines).anchorLine? = none := by rw [Clues.anchorLine?, hnone]
  have hcandidates : (hunk.clues config lines).anchorCandidates = [] := by
    rw [Clues.anchorCandidates, hnone]
  obtain ⟨s, hs⟩ : ∃ s, s ∈ places := List.exists_mem_of_length_pos (by omega)
  rw [← hplaces, Sequence.mem_equalPlaces id lines _ 0 s hne] at hs
  have hfind : View.find config lines hunk.oldView 0 =
      places.map (Segment.placedAt hunk.oldEdits) := by
    rw [find_oldView hplain hne hs.2, hplaces]
  have hdecide : (hunk.clues config lines).decide? (places.map (Segment.placedAt hunk.oldEdits)) = _ :=
    (Clues.decide?_of_many (by rw [List.length_map]; omega)).trans
      (Clues.breakTie_unanchored hcandidates)
  simp only [Clues.select, hline, hfind, hdecide]
  rfl

/-- **Ties of hunks without context.** Where the old lines of a hunk that only removes and adds lines
stand in several places, and no anchor is given, the place that alone is nearest to the line number
is chosen; if there is none, the last place for a hunk that ends the file; and otherwise the hunk is
refused with exactly these places. -/
theorem locate_contextless (hkinds : ∀ e ∈ hunk.edits, e.isRemove = true ∨ e.isAdd = true)
    (hremoves : ∃ e ∈ hunk.edits, e.isRemove = true) (hanchors : hunk.anchors = [])
    (hsorted : places.Pairwise (· < ·))
    (hplaces : ∀ s, s ∈ places ↔ OccursAt lines hunk.oldLines s) (hmany : 2 ≤ places.length) :
    (∀ hint s, hunk.hint = some hint → Anchor.SoleNearest hint.oldIndex places s →
      ∃ p, hunk.locate config lines number = .ok p ∧ p.start = s ∧ p.confidence = Score.one) ∧
    ((∀ hint s, hunk.hint = some hint → ¬ Anchor.SoleNearest hint.oldIndex places s) →
      (hunk.endsFile = true → ∃ p, hunk.locate config lines number = .ok p ∧
        places.getLast? = some p.start ∧ p.confidence = Score.one) ∧
      (hunk.endsFile = false →
        hunk.locate config lines number = refuse (.ambiguousPlace number places lines))) := by
  have hne := oldLines_ne_nil hremoves
  have hplain := hasEllipsis_of_kinds hkinds
  have hequal := equalPlaces_oldLines hne hsorted hplaces
  have hinsertion := isInsertion_of_oldLines hne
  have hselect : (hunk.clues config lines).select config lines hunk.oldView = _ :=
    select_unanchored hanchors hplain hne hequal hmany
  have hplaced {p : Placement α}
      (h : ((hunk.clues config lines).select config lines hunk.oldView).1 = some p) :
      ∃ q, hunk.locate config lines number = .ok q ∧ q.start = p.start ∧
        q.confidence = p.confidence :=
    ⟨_, locate_of_select hinsertion h, rfl, rfl⟩
  refine ⟨fun hint s hhint hsole => ?_, fun hnone => ?_⟩
  · refine hplaced (p := Segment.placedAt hunk.oldEdits s) ?_
    rw [hselect, hhint, Option.map_some, Option.bind_some,
      (Clues.onlyNearest_placedAt hsorted _).mpr ⟨s, rfl, hsole⟩]
    rfl
  have hsilent : (hunk.hint.map LineHint.oldIndex).bind (Clues.onlyNearest ·
      (places.map (Segment.placedAt hunk.oldEdits : Nat → Placement α))) = none := by
    rw [Option.bind_eq_none_iff]
    intro target htarget
    obtain ⟨hint, hhint, rfl⟩ := Option.map_eq_some_iff.mp htarget
    refine Option.eq_none_iff_forall_ne_some.mpr fun p hp => ?_
    obtain ⟨s, -, hsole⟩ := (Clues.onlyNearest_placedAt hsorted p).mp hp
    exact hnone hint s hhint hsole
  rw [hsilent] at hselect
  refine ⟨fun hend => ?_, fun hend => ?_⟩
  · have hsome : places ≠ [] := List.ne_nil_of_length_pos (by omega)
    have hlast := List.getLast?_eq_some_getLast hsome
    obtain ⟨p, hp, hstart, hone⟩ := hplaced (p := Segment.placedAt hunk.oldEdits (places.getLast hsome))
      (by rw [hselect, if_pos hend, List.getLast?_map, hlast]; rfl)
    exact ⟨p, hp, hlast.trans (congrArg some hstart.symm), hone⟩
  · rw [hend] at hselect
    have hnarrowings : View.narrowings hunk.oldView = [] := by
      rw [oldView_of_no_ellipsis hplain hne, View.narrowings_of_no_keep (oldEdits_of_kinds hkinds)]
    have hstarts : (places.map (Segment.placedAt hunk.oldEdits : Nat → Placement α)).map (·.start) =
        places := by
      rw [List.map_map]
      exact List.map_id' places
    rw [locate_of_undecided hinsertion hselect (by rw [hnarrowings, locateNarrowed])]
    simp only [List.length_map, hstarts]
    rw [if_pos (by omega)]

/-- Two lines in three places, two of which overlap: with a line number, at the end of the file, and
with neither. -/
theorem locate_contextless_overlapping :
    let lines : List Text := [['a'], ['a'], ['a'], ['b'], ['a'], ['a']]
    let hunk : Hunk := { edits := [⟨.remove, ['a']⟩, ⟨.add, ['c']⟩, ⟨.remove, ['a']⟩] }
    let config : Config Rat := Config.usual Score.decimal
    (∃ p, { hunk with hint := some { oldStart := 2 } }.locate config lines 1 = .ok p ∧ p.start = 1) ∧
      (∃ p, { hunk with endsFile := true }.locate config lines 1 = .ok p ∧ p.start = 4) ∧
      hunk.locate config lines 1 = refuse (.ambiguousPlace 1 [0, 1, 4] lines) := by
  intro lines hunk config
  have hkinds : ∀ e ∈ hunk.edits, e.isRemove = true ∨ e.isAdd = true := by decide
  have hremoves : ∃ e ∈ hunk.edits, e.isRemove = true := ⟨⟨.remove, ['a']⟩, by decide, rfl⟩
  have hsorted : [0, 1, 4].Pairwise (· < ·) := by decide
  have hplaces : ∀ s, s ∈ [0, 1, 4] ↔ OccursAt lines hunk.oldLines s := by
    have hfew : ∀ s < 5, s ∈ [0, 1, 4] ↔ OccursAt lines hunk.oldLines s := by decide
    intro s
    by_cases hs : s < 5
    · exact hfew s hs
    · refine iff_of_false (by simp; omega) fun hoccurs => ?_
      have hle : s + 2 ≤ 6 := StandsAt.length_le hoccurs (by decide)
      omega
  refine ⟨?_, ?_, ?_⟩
  · have hsole : Anchor.SoleNearest 1 [0, 1, 4] 1 := Anchor.soleNearest_self (by decide)
    obtain ⟨p, hp, hstart, -⟩ := (@locate_contextless Rat _ config lines
      { hunk with hint := some { oldStart := 2 } } 1 [0, 1, 4] hkinds hremoves rfl hsorted hplaces
        (by decide)).1 _ 1 rfl hsole
    exact ⟨p, hp, hstart⟩
  · obtain ⟨p, hp, hlast, -⟩ := ((@locate_contextless Rat _ config lines
      { hunk with endsFile := true } 1 [0, 1, 4] hkinds hremoves rfl hsorted hplaces
        (by decide)).2 (by rintro _ _ ⟨⟩)).1 rfl
    exact ⟨p, hp, (Option.some.inj hlast).symm⟩
  · exact ((@locate_contextless Rat _ config lines hunk 1 [0, 1, 4] hkinds hremoves rfl hsorted
      hplaces (by decide)).2 (by rintro _ _ ⟨⟩)).2 rfl

end Hunk
end LoosePatch
