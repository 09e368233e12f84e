import LoosePatch.Hunk.Header
import LoosePatch.Proofs.Locate.ExactText

/-!
Anchors against line numbers. The header of a unified hunk may give both; where the old lines stand
at the line given, `Hunk.Outweighed` is exactly when the anchor sends the hunk elsewhere.
-/

namespace LoosePatch.Hunk

variable {α : Type} [Score α] {config : Config α} {lines : List Text} {hunk : Hunk}
  {number s : Nat}

/-- The anchors of a hunk choose another place for its old lines than line `s`. A resolved anchor
takes the first place below it; an undecided one takes the place that is first below each line it
may mean. -/
def Outweighed (config : Config α) (lines : List Text) (hunk : Hunk) (s : Nat) : Prop :=
  match (hunk.clues config lines).anchor with
  | some (.line place _) =>
    (∃ i, place ≤ i ∧ i < s ∧ OccursAt lines hunk.oldLines i) ∨
      (s < place ∧ View.find config lines hunk.oldView place ≠ [])
  | some (.candidates places _) =>
    ∃ i, i ≠ s ∧ (∃ l ∈ places, FirstFrom lines hunk.oldLines l i) ∧
      ∀ l ∈ places, ∀ j, FirstFrom lines hunk.oldLines l j → j = i
  | _ => False

/-- Below a resolved anchor that is above line `s`, the first place of exact text is taken. -/
theorem select_below (config : Config α) {clues : Clues α} {segment : Segment} {place : Nat}
    (hne : segment ≠ []) (hplace : clues.anchorLine? = some place) (hle : place ≤ s)
    (h : OccursAt lines (Segment.texts segment) s) :
    ∃ i, (clues.select config lines [segment]).1 = some (segment.placedAt i) ∧
      FirstFrom lines (Segment.texts segment) place i ∧ i ≤ s := by
  obtain ⟨i, others, hplaces, hfirst, hi⟩ := FirstFrom.exists_cons (View.texts_ne_nil hne) hle h
  have hfind := View.find_of_occurs config hne hle h
  rw [hplaces] at hfind
  exact ⟨i, Clues.select_anchored hplace hfind, hfirst, hi⟩

section Hinted

variable (hplain : hunk.hasEllipsis = false) (hne : hunk.oldLines ≠ [])
  (hhint : (hunk.clues config lines).hint = some (s : Int)) (h : OccursAt lines hunk.oldLines s)

include hplain hne h

include hhint

/-- Where no anchor has a say, the hint decides. -/
theorem select_hinted
    (hline : ∀ place, (hunk.clues config lines).anchorLine? = some place →
      View.find config lines hunk.oldView place = [])
    (hafter : Clues.onlyAfter (hunk.clues config lines).anchorCandidates
      ((Sequence.equalPlaces id lines hunk.oldLines 0).map
        (Segment.placedAt hunk.oldEdits : Nat → Placement α)) = none) :
    ((hunk.clues config lines).select config lines hunk.oldView).1 =
      some (Segment.placedAt hunk.oldEdits s) := by
  rw [Clues.select_everywhere hline, find_oldView hplain hne h]
  rw [← texts_oldEdits] at h hafter ⊢
  exact Clues.decide?_of_hint (oldEdits_ne_nil hne) hhint h hafter

/-- A resolved anchor takes the first place below it, if there is any. -/
theorem select_line {place : Nat} {c : α}
    (hanchor : (hunk.clues config lines).anchor = some (.line place c)) :
    ∃ q, ((hunk.clues config lines).select config lines hunk.oldView).1 = some q ∧
      (¬ hunk.Outweighed config lines s → q.start = s ∧ q.confidence = Score.one) ∧
      (hunk.Outweighed config lines s → q.start ≠ s) := by
  have hline : (hunk.clues config lines).anchorLine? = some place := by
    rw [Clues.anchorLine?, hanchor]
  have hout : hunk.Outweighed config lines s ↔
      (∃ i, place ≤ i ∧ i < s ∧ OccursAt lines hunk.oldLines i) ∨
        (s < place ∧ View.find config lines hunk.oldView place ≠ []) := by
    rw [Outweighed, hanchor]
  rw [hout]
  by_cases hle : place ≤ s
  · rw [← texts_oldEdits] at h
    obtain ⟨i, hselect, hfirst, hi⟩ := select_below config (oldEdits_ne_nil hne) hline hle h
    rw [texts_oldEdits] at hfirst
    rw [oldView_of_no_ellipsis hplain hne]
    refine ⟨_, hselect, fun hnot => ⟨?_, rfl⟩, fun hout => ?_⟩
    · by_contra hlt
      exact hnot (Or.inl ⟨i, hfirst.le, Nat.lt_of_le_of_ne hi hlt, hfirst.occurs⟩)
    · rcases hout with ⟨j, hj, hlt, hoccurs⟩ | ⟨hlt, -⟩
      · rintro rfl
        exact hfirst.first j hj hlt hoccurs
      · omega
  · cases hfind : View.find config lines hunk.oldView place with
    | nil =>
      refine ⟨_, select_hinted hplain hne hhint h ?_ ?_, fun _ => ⟨rfl, rfl⟩, fun hout => ?_⟩
      · intro place' hplace'
        rw [hline] at hplace'
        cases hplace'
        exact hfind
      · rw [Clues.anchorCandidates, hanchor]
        rfl
      · rcases hout with ⟨j, hj, hlt, -⟩ | ⟨-, hsome⟩
        · omega
        · exact absurd rfl hsome
    | cons q others =>
      have hstart := View.find_start_le (fun _ => ne_nil_of_mem_oldView)
        (hfind ▸ List.mem_cons_self : q ∈ View.find config lines hunk.oldView place)
      refine ⟨q, Clues.select_anchored hline hfind, fun hnot => ?_, fun _ => ?_⟩
      · exact absurd (Or.inr ⟨Nat.lt_of_not_le hle, List.cons_ne_nil q others⟩) hnot
      · omega

/-- An undecided anchor takes the place that is first below every line it may mean, if these agree. -/
theorem select_candidates {places : List Nat} {c : α}
    (hanchor : (hunk.clues config lines).anchor = some (.candidates places c)) :
    ∃ q, ((hunk.clues config lines).select config lines hunk.oldView).1 = some q ∧
      (¬ hunk.Outweighed config lines s → q.start = s ∧ q.confidence = Score.one) ∧
      (hunk.Outweighed config lines s → q.start ≠ s) := by
  have hline : (hunk.clues config lines).anchorLine? = none := by
    rw [Clues.anchorLine?, hanchor]
  have hcandidates : (hunk.clues config lines).anchorCandidates = places := by
    rw [Clues.anchorCandidates, hanchor]
  have hout : hunk.Outweighed config lines s ↔
      ∃ i, i ≠ s ∧ (∃ l ∈ places, FirstFrom lines hunk.oldLines l i) ∧
        ∀ l ∈ places, ∀ j, FirstFrom lines hunk.oldLines l j → j = i := by
    rw [Outweighed, hanchor]
  have hiff := Clues.onlyAfter_placedAt (α := α) lines places (oldEdits_ne_nil hne)
  simp only [texts_oldEdits] at hiff
  rw [hout]
  cases hafter : Clues.onlyAfter places ((Sequence.equalPlaces id lines hunk.oldLines 0).map
      (Segment.placedAt hunk.oldEdits : Nat → Placement α)) with
  | none =>
    refine ⟨_, select_hinted hplain hne hhint h (by simp [hline]) ?_, fun _ => ⟨rfl, rfl⟩, ?_⟩
    · rw [hcandidates]
      exact hafter
    · rintro ⟨i, -, hi⟩
      rw [(hiff _).mpr ⟨i, rfl, hi⟩] at hafter
      cases hafter
  | some p =>
    obtain ⟨i, rfl, hsome, hall⟩ := (hiff p).mp hafter
    refine ⟨Segment.placedAt hunk.oldEdits i, ?_, fun hnot => ⟨?_, rfl⟩, fun hout => ?_⟩
    · rw [Clues.select_everywhere (by simp [hline]), find_oldView hplain hne h]
      exact Clues.decide?_of_onlyAfter (hcandidates ▸ hafter)
    · by_contra hi
      exact hnot ⟨i, hi, hsome, hall⟩
    · obtain ⟨j, hj, -, hall'⟩ := hout
      obtain ⟨l, hl, hfirst⟩ := hsome
      rintro rfl
      exact hj (hall' l hl _ hfirst).symm

end Hinted

/-- Where the old lines of a hunk stand at the line that its header gives, they are placed exactly
there with full confidence, unless an anchor outweighs the line number; and then they are placed
elsewhere. -/
theorem locate_hinted {hint : LineHint} (hplain : hunk.hasEllipsis = false)
    (hne : hunk.oldLines ≠ []) (hhint : hunk.hint = some hint) (hs : hint.oldIndex = (s : Int))
    (h : OccursAt lines hunk.oldLines s) :
    ∃ p, hunk.locate config lines number = .ok p ∧
      (¬ hunk.Outweighed config lines s → p.start = s ∧ p.confidence = Score.one) ∧
      (hunk.Outweighed config lines s → p.start ≠ s) := by
  have hcluehint : (hunk.clues config lines).hint = some (s : Int) := by
    rw [clues, hhint]
    exact congrArg some hs
  suffices hselect : ∃ q, ((hunk.clues config lines).select config lines hunk.oldView).1 = some q ∧
      (¬ hunk.Outweighed config lines s → q.start = s ∧ q.confidence = Score.one) ∧
      (hunk.Outweighed config lines s → q.start ≠ s) by
    obtain ⟨q, hq, hrest⟩ := hselect
    exact ⟨_, locate_of_select (isInsertion_of_oldLines hne) hq, hrest⟩
  have hsilent (hnone : (hunk.clues config lines).anchorLine? = none)
      (hcandidates : (hunk.clues config lines).anchorCandidates = []) :
      ((hunk.clues config lines).select config lines hunk.oldView).1 =
        some (Segment.placedAt hunk.oldEdits s) :=
    select_hinted hplain hne hcluehint h (by simp [hnone]) (by rw [hcandidates]; rfl)
  cases hanchor : (hunk.clues config lines).anchor with
  | none =>
    refine ⟨_, hsilent ?_ ?_, fun _ => ⟨rfl, rfl⟩, fun hout => ?_⟩
    · rw [Clues.anchorLine?, hanchor]
    · rw [Clues.anchorCandidates, hanchor]
    · rw [Outweighed, hanchor] at hout
      exact hout.elim
  | some anchoring =>
    cases anchoring with
    | missing anchor =>
      refine ⟨_, hsilent ?_ ?_, fun _ => ⟨rfl, rfl⟩, fun hout => ?_⟩
      · rw [Clues.anchorLine?, hanchor]
      · rw [Clues.anchorCandidates, hanchor]
      · rw [Outweighed, hanchor] at hout
        exact hout.elim
    | line place c => exact select_line hplain hne hcluehint h hanchor
    | candidates places c => exact select_candidates hplain hne hcluehint h hanchor

/-- An anchor between two places of a line that agrees with the line number. -/
theorem locate_hinted_second_place :
    ∃ p : Placement Rat, Hunk.locate (Config.usual Score.decimal) [['a'], ['b'], ['a']]
        { edits := [⟨.remove, ['a']⟩, ⟨.add, ['c']⟩], anchors := [['b']]
          hint := some { oldStart := 3, oldLength := some 1 } } 1 = .ok p ∧
      p.start = 2 ∧ p.confidence = Score.one := by
  let hunk : Hunk :=
    { edits := [⟨.remove, ['a']⟩, ⟨.add, ['c']⟩], anchors := [['b']]
      hint := some { oldStart := 3, oldLength := some 1 } }
  have hne : hunk.oldLines ≠ [] := by decide
  have hoccurs : OccursAt [['a'], ['b'], ['a']] hunk.oldLines 2 := by decide
  let config : Config Rat := Config.usual Score.decimal
  obtain ⟨p, hp, hstart, -⟩ : ∃ p, hunk.locate config _ 1 = .ok p ∧ _ :=
    locate_hinted rfl hne rfl rfl hoccurs
  refine ⟨p, hp, hstart ?_⟩
  rintro (⟨i, hi, hlt, hi'⟩ | ⟨hlt, -⟩)
  · have habove : 1 ≤ i := hi
    have hbelow : i < 2 := hlt
    obtain rfl : i = 1 := by omega
    exact absurd hi' (by decide)
  · exact absurd hlt (by decide)

/-- Line numbers do not always win: of two places of a line below the anchor, the hunk goes to the
first one although its header gives the second. -/
theorem anchor_outweighs_hint :
    ¬ ∀ (lines : List Text) (hunk : Hunk) (hint : LineHint) (s : Nat),
        Header.read hunk.header = .ok (hunk.anchors, hunk.hint) → hunk.anchors ≠ [] →
        hunk.hint = some hint → hunk.hasEllipsis = false → hunk.oldLines ≠ [] →
        hint.oldLength = some hunk.oldLines.length → hint.oldIndex = (s : Int) →
        OccursAt lines hunk.oldLines s →
        ∃ p : Placement Rat, hunk.locate (Config.usual Score.decimal) lines 1 = .ok p ∧
          p.start = s ∧ p.confidence = Score.one := by
  intro hclaim
  let lines : List Text := ["def f():".toList, "    x = 1".toList, "    y = 2".toList,
    "    x = 1".toList]
  let hint : LineHint := { oldStart := 4, oldLength := some 1, newStart := some 4, newLength := some 1 }
  let hunk : Hunk :=
    { edits := [⟨.remove, "    x = 1".toList⟩, ⟨.add, "    x = 3".toList⟩]
      anchors := ["def f():".toList], hint := some hint, header := "@@ -4,1 +4,1 @@ def f():".toList }
  have hplaced : hunk.locate (Config.usual Score.decimal) lines 1 =
      .ok (⟨1, Score.one, .lines .exact, [(0, 1)], none, []⟩ : Placement Rat) := rfl
  obtain ⟨p, hp, hstart, -⟩ := hclaim lines hunk hint 3 rfl (by decide) rfl rfl (by decide) rfl rfl
    (by decide)
  rw [hplaced] at hp
  cases hp
  cases hstart

end LoosePatch.Hunk
