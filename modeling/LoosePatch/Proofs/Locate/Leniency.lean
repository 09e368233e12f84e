import LoosePatch.Proofs.Locate.AmbiguousReports

/-!
Leniency only adds places where there were none. A search that is not lenient looks at its levels before
any other level is looked at, so what it finds is what every search finds (`Sequence.seek_of_strict`). A
hunk whose old lines are placed without leniency keeps its place (`Hunk.locate_of_strict`).
-/

namespace LoosePatch

variable {α : Type} [Score α] {strict : Config α} {lines : List Text} {start : Nat}

/-! ## Searches -/

namespace Sequence

variable {pattern : List Text} {found : Found α}

theorem seekEqual_of_strict (hstrict : strict.allowFuzzy = false)
    (h : seekEqual strict lines pattern start = some found) (config : Config α) :
    seekEqual config lines pattern start = some found := by
  simp only [seekEqual, equalities, List.findSome?_cons, List.findSome?_nil, hstrict, Bool.false_and,
    Bool.not_false, Bool.and_true, Bool.false_eq_true, ↓reduceIte] at h ⊢
  cases hexact : equalPlaces id lines pattern start with
  | cons place places =>
    rw [hexact] at h
    exact h
  | nil =>
    rw [hexact] at h
    cases htrailing : equalPlaces Text.trimEnd lines pattern start with
    | cons place places =>
      rw [htrailing] at h
      exact h
    | nil =>
      rw [htrailing] at h
      cases h

theorem seek_of_strict (hstrict : strict.allowFuzzy = false)
    (h : seek strict lines pattern start = some found) (config : Config α) :
    seek config lines pattern start = some found := by
  unfold seek at h ⊢
  split
  · rename_i hempty
    rwa [if_pos hempty] at h
  · rename_i hempty
    rw [if_neg hempty] at h
    split
    · rename_i hlong
      rw [if_pos hlong] at h
      cases h
    · rename_i hlong
      rw [if_neg hlong, hstrict, if_neg Bool.false_ne_true] at h
      simp only [Option.orElse_eq_orElse, Option.orElse_eq_or, Option.or_none] at h ⊢
      rw [seekEqual_of_strict hstrict h config]
      rfl

end Sequence

theorem View.find_of_strict {segment : Segment} (hstrict : strict.allowFuzzy = false)
    (h : View.find strict lines [segment] start ≠ []) (config : Config α) :
    View.find config lines [segment] start = View.find strict lines [segment] start := by
  unfold View.find at h ⊢
  dsimp only at h ⊢
  cases hseek : Sequence.seek strict lines segment.texts start with
  | none =>
    rw [hseek] at h
    exact absurd rfl h
  | some found =>
    rw [Sequence.seek_of_strict hstrict hseek config]
    rfl

/-! ## Hunks -/

namespace Hunk

variable {hunk : Hunk} {number : Nat} {p : Placement α}

/-- The thresholds matter only to anchors. -/
theorem clues_unanchored (hanchors : hunk.anchors = []) (config : Config α) (lines : List Text) :
    hunk.clues config lines =
      { anchor := none, hint := hunk.hint.map LineHint.oldIndex, endsFile := hunk.endsFile } := by
  rw [clues, hanchors]
  rfl

/-- Without anchors, the placements of the old lines decide on one of them or not, and nothing else does. -/
theorem select_eq (hanchors : hunk.anchors = []) (config : Config α) (lines : List Text) :
    (hunk.clues config lines).select config lines hunk.oldView =
      ((hunk.clues config lines).decide? (View.find config lines hunk.oldView 0),
        View.find config lines hunk.oldView 0) := by
  rw [clues_unanchored hanchors]
  rfl

theorem oldLines_ne_nil_of_find {config : Config α} (h : View.find config lines hunk.oldView start ≠ []) :
    hunk.oldLines ≠ [] := by
  have hview : hunk.oldView ≠ [] := by
    intro hnil
    rw [hnil] at h
    exact h rfl
  obtain ⟨segment, hsegment⟩ := List.exists_mem_of_ne_nil _ hview
  obtain ⟨o, ho⟩ := List.exists_mem_of_ne_nil _ (ne_nil_of_mem_oldView hsegment)
  have hmem : o ∈ hunk.oldEdits := flatten_oldView hunk ▸ List.mem_flatten.mpr ⟨segment, hsegment, ho⟩
  rw [← List.length_pos_iff, ← length_oldEdits]
  exact List.length_pos_of_mem hmem

theorem select_of_strict (hstrict : strict.allowFuzzy = false) (hanchors : hunk.anchors = [])
    (hplain : hunk.hasEllipsis = false) (h : View.find strict lines hunk.oldView 0 ≠ [])
    (config : Config α) :
    (hunk.clues config lines).select config lines hunk.oldView =
      (hunk.clues strict lines).select strict lines hunk.oldView := by
  have hview := oldView_of_no_ellipsis hplain (oldLines_ne_nil_of_find h)
  rw [hview] at h
  rw [select_eq hanchors, select_eq hanchors, clues_unanchored hanchors, clues_unanchored hanchors, hview,
    View.find_of_strict hstrict h]

theorem strategy_of_isInsertion {config : Config α} (hanchors : hunk.anchors = [])
    (hold : hunk.isInsertion = true) (h : hunk.locate config lines number = .ok p) (level : Level) :
    p.strategy ≠ .lines level := by
  have hinsert : locateInsertion lines hunk (none : Option (Anchoring α)) number = .ok p := by
    unfold locate at h
    extract_lets hint anchor at h
    rwa [hold, if_pos rfl, show anchor = none by simp only [anchor, hanchors]; rfl] at h
  unfold locateInsertion at hinsert
  extract_lets inserted at hinsert
  dsimp only at hinsert
  split at hinsert
  · obtain rfl := Except.ok.inj hinsert
    exact nofun
  · split at hinsert
    · cases hinsert
    · split at hinsert
      · obtain rfl := Except.ok.inj hinsert
        exact nofun
      · cases hinsert

/-- A placement by the level of its lines is one of all old lines. -/
theorem select_of_strategy {config : Config α} {level : Level} (hold : hunk.isInsertion = false)
    (h : hunk.locate config lines number = .ok p) (hlines : p.strategy = .lines level) :
    ∃ q, ((hunk.clues config lines).select config lines hunk.oldView).1 = some q := by
  rcases hselect : (hunk.clues config lines).select config lines hunk.oldView with ⟨_ | q, candidates⟩
  · rcases hnarrowed : locateNarrowed config lines (hunk.clues config lines) number
      (hunk.oldView.head?.getD []) (View.narrowings hunk.oldView) candidates with ⟨_ | q, undecided⟩
    · rw [locate_of_undecided hold hselect hnarrowed] at h
      dsimp only at h
      split at h <;> cases h
    · rw [locate_of_undecided hold hselect hnarrowed] at h
      cases h
      obtain ⟨narrowing, view, r, place, hview, hr, rfl⟩ :=
        locateNarrowed_eq_some (congrArg Prod.fst hnarrowed)
      obtain ⟨found, hfound⟩ := View.exists_level config lines [] place
        ((View.covers_narrowing hview).nonempty view (List.mem_singleton_self view))
      have hnarrowed : (narrowed narrowing number r).strategy = .narrowed narrowing found := by
        rw [narrowed, (hfound r hr).1]
      cases hnarrowed.symm.trans hlines
  · exact ⟨q, rfl⟩

/-- **Leniency moves nothing that is placed.** A hunk without anchors and ellipses is looked for in two
ways, once without leniency. If this places its old lines as a whole, the other way gives the same
placement; and if it finds several places for them that it cannot decide between, the other way is left
with the same ones. -/
theorem locate_of_strict (hstrict : strict.allowFuzzy = false) (hanchors : hunk.anchors = [])
    (hplain : hunk.hasEllipsis = false) (config : Config α) :
    (∀ p level, hunk.locate strict lines number = .ok p → p.strategy = .lines level →
      hunk.locate config lines number = .ok p) ∧
    ∀ candidates, (hunk.clues strict lines).select strict lines hunk.oldView = (none, candidates) →
      1 < candidates.length →
      (hunk.clues config lines).select config lines hunk.oldView = (none, candidates) := by
  constructor
  · intro p level h hlines
    cases hold : hunk.isInsertion with
    | true => exact absurd hlines (strategy_of_isInsertion hanchors hold h level)
    | false =>
      obtain ⟨q, hq⟩ := select_of_strategy hold h hlines
      have hfound : View.find strict lines hunk.oldView 0 ≠ [] := by
        rw [select_eq hanchors] at hq
        exact List.ne_nil_of_mem (Clues.mem_of_decide? hq)
      have hsame := select_of_strict hstrict hanchors hplain hfound config
      rw [locate_of_select hold hq, clues_unanchored hanchors] at h
      rw [locate_of_select hold (hsame ▸ hq), clues_unanchored hanchors, h]
  · intro candidates hselect hmany
    have hfound : View.find strict lines hunk.oldView 0 = candidates := by
      rw [select_eq hanchors] at hselect
      exact congrArg Prod.snd hselect
    have hne : candidates ≠ [] := List.ne_nil_of_length_pos (by omega)
    rw [select_of_strict hstrict hanchors hplain (hfound ▸ hne) config, hselect]

/-- A line with a blank behind it, once and twice, beside a threshold that anything reaches. -/
theorem locate_of_strict_trailing_blank :
    let strict : Config Rat := { Config.usual Score.decimal with allowFuzzy := false }
    let lenient : Config Rat := { Config.usual Score.decimal with fuzzyThreshold := 0 }
    let hunk : Hunk := { edits := [⟨.remove, ['a']⟩] }
    let once : List Text := [['a', 'b'], ['a', ' ']]
    let twice : List Text := [['a', ' '], ['b'], ['a', '\t']]
    ∃ p candidates, hunk.locate strict once 1 = .ok p ∧ p.start = 1 ∧ p.strategy = .lines .trailing ∧
      hunk.locate lenient once 1 = .ok p ∧
      (hunk.clues strict twice).select strict twice hunk.oldView = (none, candidates) ∧
      candidates.map (·.start) = [0, 2] ∧
      (hunk.clues lenient twice).select lenient twice hunk.oldView = (none, candidates) := by
  intro strict lenient hunk once twice
  let p : Placement Rat :=
    { start := 1, confidence := Score.decimal 99 2, strategy := .lines .trailing, positions := [(0, 1)]
      notes := [.inexact 1 (.lines .trailing) 1 (Score.decimal 99 2)] }
  let candidates : List (Placement Rat) := [0, 2].map fun place =>
    { start := place, confidence := Score.decimal 99 2, strategy := .lines .trailing
      positions := [(0, place)] }
  have hplaced : hunk.locate strict once 1 = .ok p := rfl
  have hselect : (hunk.clues strict twice).select strict twice hunk.oldView = (none, candidates) := rfl
  have hstrict : strict.allowFuzzy = false := rfl
  have hanchors : hunk.anchors = [] := rfl
  obtain ⟨hkept, -⟩ := @locate_of_strict Rat _ strict once hunk 1 hstrict hanchors rfl lenient
  obtain ⟨-, hsame⟩ := @locate_of_strict Rat _ strict twice hunk 1 hstrict hanchors rfl lenient
  exact ⟨p, candidates, hplaced, rfl, rfl, hkept p .trailing hplaced rfl, hselect, rfl,
    hsame candidates hselect (by decide)⟩

end Hunk
end LoosePatch
