import LoosePatch.Proofs.Locate.Soundness
import LoosePatch.Proofs.Outcome
import Mathlib.Tactic.Linarith

/-!
What a match by similarity is worth. The scores that the levels compute are at most the true means of
their lines (`fuzzyMean`, `coverageMean`) or the true similarity of the whole (`wholeSimilarity`), and
what a level accepts reaches the threshold (`Reaches`), with one exception: places of lines that only
open the file's lines are accepted whatever their scores if there are several (`Hunk.locate_reaches`).
-/

namespace LoosePatch

variable {α : Type} [Score α]

/-! ## Scores as fractions -/

namespace Score

variable [ExactScore α]

theorem exact_zero : Score.exact (Score.zero : α) = 0 := by
  simpa [Score.zero] using ExactScore.exact_natCast (α := α) 0

theorem exact_tolerance : Score.exact (Score.tolerance : α) = 1 / 10 ^ 9 := by
  rw [Score.tolerance, ExactScore.exact_decimal, Rat.mkRat_eq_div]
  norm_num

end Score

namespace Similarity

theorem ratioOf_nonneg (count length : Nat) : (0 : Rat) ≤ ratioOf count length := by
  unfold ratioOf
  split
  · exact zero_le_one
  · exact div_nonneg (Nat.cast_nonneg _) (Nat.cast_nonneg _)

theorem similarity_nonneg (a b : Text) : (0 : Rat) ≤ similarity a b := by
  unfold similarity
  split
  · exact zero_le_one
  · exact ratioOf_nonneg _ _

variable [ExactScore α]

theorem exact_ratioOf (count length : Nat) :
    Score.exact (ratioOf count length : α) = ratioOf count length := by
  unfold ratioOf
  split
  · exact Score.exact_one
  · rw [ExactScore.exact_div, ExactScore.exact_natCast, ExactScore.exact_natCast]

theorem exact_similarity (a b : Text) :
    Score.exact (similarity a b : α) = similarity a b := by
  unfold similarity
  split
  · exact Score.exact_one
  · exact exact_ratioOf _ _

/-- A similarity that is given up counts as zero. -/
theorem exact_similarityAtLeast_le (a b : Text) (floor : α) :
    Score.exact (similarityAtLeast a b floor) ≤ similarity a b := by
  unfold similarityAtLeast
  split
  · rename_i heq
    rw [Score.exact_one, similarity, if_pos heq]
    exact le_refl (1 : Rat)
  · rename_i hne
    split
    · rw [Score.exact_zero]
      exact similarity_nonneg a b
    · rw [similarity, if_neg hne]
      exact (exact_ratioOf _ _).le

end Similarity

/-! ## The scores of a place -/

namespace Sequence

/-- How much of the file's line a line that opens it covers. -/
def coverage (actual expected : Text) : Rat :=
  if actual = expected then 1 else (expected.length : Rat) / actual.length

/-- The mean of a rate over the lines of a pattern and those of the file from its place on. -/
def meanRate (rate : Text → Text → Rat) (lines pattern : List Text) (place : Nat) : Rat :=
  (List.zipWith rate ((lines.drop place).map Text.loose) (pattern.map Text.loose)).sum / pattern.length

/-- The similarity of the lines taken together, without blanks. -/
def wholeSimilarity (lines pattern : List Text) (place : Nat) : Rat :=
  Similarity.similarity (Text.unlines (((lines.drop place).take pattern.length).map Text.bare))
    (Text.unlines (pattern.map Text.bare))

/-- At a level of similarity, the score at the place reaches the threshold; or the lines open those of
the file at another place as well. -/
def Reaches (config : Config α) (lines pattern : List Text) (found : Found α) (place : Nat) : Prop :=
  match found.level with
  | .opening => Score.exact config.fuzzyThreshold ≤ meanRate coverage lines pattern place ∨
      ∃ x ∈ found.places, x.1 ≠ place
  | .fuzzy => Score.exact config.fuzzyThreshold - 1 / 10 ^ 9 ≤
      meanRate Similarity.similarity lines pattern place
  | .character => Score.exact config.fuzzyThreshold - 1 / 10 ^ 9 ≤ wholeSimilarity lines pattern place
  | _ => True

variable [ExactScore α] {config : Config α} {lines pattern : List Text} {start i : Nat}
  {found : Found α} {required total x threshold : α}

theorem exact_openingTotal (h : openingTotal total pattern lines = some x) :
    Score.exact x = Score.exact total + (List.zipWith coverage lines pattern).sum := by
  induction pattern generalizing total lines with
  | nil =>
    cases Option.some.inj h
    simp
  | cons expected pattern ih =>
    cases lines with
    | nil => cases h
    | cons actual lines =>
      rw [List.zipWith_cons_cons, List.sum_cons, ← add_assoc]
      simp only [openingTotal] at h
      split at h
      · rename_i heq
        rw [ih h, ExactScore.exact_add, Score.exact_one, coverage, if_pos heq]
      · rename_i hne
        split at h
        · rw [ih h, ExactScore.exact_add, ExactScore.exact_div, ExactScore.exact_natCast,
            ExactScore.exact_natCast, coverage, if_neg hne]
        · cases h

/-- One line adds at most its similarity, and leaves a total that the lines below can still lift. -/
theorem fuzzyTotal_cons {expected actual : Text}
    (h : fuzzyTotal required total (expected :: pattern) (actual :: lines) = some x) :
    ∃ s, Score.exact s ≤ Similarity.similarity actual expected ∧
      Score.exact required - 1 / 10 ^ 9 ≤ Score.exact (total + s) + pattern.length ∧
      fuzzyTotal required (total + s) pattern lines = some x := by
  simp only [fuzzyTotal] at h
  obtain ⟨hlift, hrest⟩ := Option.ite_none_left_eq_some.mp h
  refine ⟨_, ?_, ?_, hrest⟩
  · split
    · exact Similarity.exact_similarityAtLeast_le actual expected _
    · exact (Similarity.exact_similarity actual expected).le
  · rwa [ExactScore.exact_lt, not_lt, ExactScore.exact_sub, Score.exact_tolerance,
      ExactScore.exact_add _ ((pattern.length : Nat) : α), ExactScore.exact_natCast] at hlift

theorem exact_fuzzyTotal_le (h : fuzzyTotal required total pattern lines = some x) :
    Score.exact x ≤
      Score.exact total + (List.zipWith Similarity.similarity lines pattern : List Rat).sum := by
  induction pattern generalizing total lines with
  | nil =>
    cases Option.some.inj h
    simp
  | cons expected pattern ih =>
    cases lines with
    | nil => cases h
    | cons actual lines =>
      obtain ⟨s, hs, -, hrest⟩ := fuzzyTotal_cons h
      have hle := ih hrest
      rw [ExactScore.exact_add] at hle
      rw [List.zipWith_cons_cons, List.sum_cons]
      linarith

/-- Below the last line there is nothing that could lift a total. -/
theorem required_le_fuzzyTotal (hne : pattern ≠ [])
    (h : fuzzyTotal required total pattern lines = some x) :
    Score.exact required - 1 / 10 ^ 9 ≤ Score.exact x := by
  induction pattern generalizing total lines with
  | nil => exact absurd rfl hne
  | cons expected pattern ih =>
    cases lines with
    | nil => cases h
    | cons actual lines =>
      obtain ⟨s, -, hlift, hrest⟩ := fuzzyTotal_cons h
      cases pattern with
      | nil =>
        cases Option.some.inj hrest
        simpa using hlift
      | cons next pattern => exact ih (List.cons_ne_nil _ _) hrest

theorem exact_mean (total : α) (pattern : List Text) :
    Score.exact (mean total pattern) = Score.exact total / pattern.length := by
  rw [mean, ExactScore.exact_div, ExactScore.exact_natCast]

/-! ## What a level accepts -/

theorem exact_of_mem_openingPlaces
    (h : (i, x) ∈ openingPlaces (lines.map Text.loose) (pattern.map Text.loose) start) :
    Score.exact x = meanRate coverage lines pattern i := by
  simp only [openingPlaces, mem_scanFrom] at h
  obtain ⟨-, -, hsome⟩ := h
  obtain ⟨total, htotal, rfl⟩ := Option.map_eq_some_iff.mp hsome
  rw [exact_mean, exact_openingTotal htotal, Score.exact_zero, zero_add, List.length_map, meanRate,
    List.map_drop]

theorem threshold_le_of_mem_fuzzyPlaces (hne : pattern ≠ [])
    (h : (i, x) ∈ fuzzyPlaces (lines.map Text.loose) (pattern.map Text.loose) start threshold) :
    Score.exact threshold - 1 / 10 ^ 9 ≤ meanRate Similarity.similarity lines pattern i := by
  simp only [fuzzyPlaces, mem_scanFrom] at h
  obtain ⟨-, -, hsome⟩ := h
  obtain ⟨total, htotal, -⟩ := Option.map_eq_some_iff.mp hsome
  have hne' : pattern.map Text.loose ≠ [] := mt List.map_eq_nil_iff.mp hne
  have hpos : (1 : Rat) ≤ pattern.length := by
    exact_mod_cast List.length_pos_iff.mpr hne
  have hrequired := required_le_fuzzyTotal hne' htotal
  have hsum := exact_fuzzyTotal_le htotal
  rw [ExactScore.exact_mul, ExactScore.exact_natCast, List.length_map] at hrequired
  rw [Score.exact_zero, zero_add] at hsum
  rw [meanRate, le_div_iff₀ (by linarith), List.map_drop]
  linarith

theorem threshold_le_of_mem_characterPlaces
    (h : (i, x) ∈ characterPlaces (lines.map Text.bare) (pattern.map Text.bare) start threshold) :
    Score.exact threshold - 1 / 10 ^ 9 ≤ wholeSimilarity lines pattern i := by
  simp only [characterPlaces, mem_scanFrom] at h
  obtain ⟨-, -, hsome⟩ := h
  split at hsome
  · cases hsome
  · obtain ⟨hreach, -⟩ := Option.ite_none_right_eq_some.mp hsome
    rw [ExactScore.exact_le, ExactScore.exact_sub, Score.exact_tolerance] at hreach
    refine hreach.trans ((Similarity.exact_similarityAtLeast_le _ _ _).trans (le_of_eq ?_))
    rw [wholeSimilarity, List.length_map, List.map_take, List.map_drop]

omit [ExactScore α] in
/-- A single place of lines that only open the file's lines has to reach the threshold. -/
theorem seekOpening_reaches {lines pattern : List Text}
    (h : seekOpening config lines pattern start = some found) :
    (∃ i x, openingPlaces lines pattern start = [(i, x)] ∧ config.fuzzyThreshold ≤ x) ∨
      1 < (openingPlaces lines pattern start : List (Nat × α)).length := by
  unfold seekOpening at h
  split at h
  · rename_i i x heq
    obtain ⟨hreach, -⟩ := Option.ite_none_right_eq_some.mp h
    exact .inl ⟨i, x, heq, hreach⟩
  · rename_i hmany
    right
    match hplaces : openingPlaces lines pattern start with
    | [] =>
      rw [hplaces] at h
      cases h
    | [(i, x)] => exact absurd hplaces (hmany i x)
    | _ :: _ :: _ => simp

omit [ExactScore α] in
/-- Of several places of lines that open those of the file, one is another than a given one. -/
theorem exists_openingPlace_ne
    (h : 1 < (openingPlaces lines pattern start : List (Nat × α)).length) (i : Nat) :
    ∃ x ∈ (openingPlaces lines pattern start : List (Nat × α)), x.1 ≠ i := by
  have hsorted : (openingPlaces lines pattern start : List (Nat × α)).Pairwise
      fun x y => x.1 < y.1 := scanFrom_sorted _ _ _
  rcases hplaces : (openingPlaces lines pattern start : List (Nat × α)) with _ | ⟨x, _ | ⟨y, rest⟩⟩
  · rw [hplaces] at h
    cases h
  · rw [hplaces] at h
    exact absurd h (Nat.lt_irrefl 1)
  · rw [hplaces] at hsorted
    have hlt : x.1 < y.1 := List.rel_of_pairwise_cons hsorted List.mem_cons_self
    by_cases hxi : x.1 = i
    · exact ⟨y, List.mem_cons_of_mem x List.mem_cons_self, by omega⟩
    · exact ⟨x, List.mem_cons_self, hxi⟩

theorem seekSimilar_reaches {c : α} (hne : pattern ≠ [])
    (h : seekSimilar config lines pattern start = some found) (hi : (i, c) ∈ found.places) :
    Reaches config lines pattern found i := by
  simp only [seekSimilar, Option.orElse_eq_orElse, Option.orElse_eq_or, Option.or_eq_some_iff] at h
  rcases h with h | ⟨-, h | ⟨-, h⟩⟩
  · have hreach := seekOpening_reaches h
    obtain rfl := seekOpening_eq_some h
    show _ ∨ _
    rcases hreach with ⟨j, x, hplaces, hx⟩ | hmany
    · left
      rw [hplaces] at hi
      obtain rfl : i = j := congrArg Prod.fst (List.mem_singleton.mp hi)
      have hmem : (i, x) ∈ openingPlaces (lines.map Text.loose) (pattern.map Text.loose) start := by
        rw [hplaces]
        exact List.mem_singleton_self _
      rwa [← exact_of_mem_openingPlaces hmem, ← ExactScore.exact_le]
    · right
      obtain ⟨x, hx, hne⟩ := exists_openingPlace_ne hmany i
      exact ⟨_, List.mem_map_of_mem hx, hne⟩
  · obtain rfl := capped_eq_some h
    obtain ⟨⟨j, x⟩, hmem, heq⟩ := List.mem_map.mp hi
    cases heq
    exact threshold_le_of_mem_fuzzyPlaces hne (mem_of_mem_winners hmem)
  · obtain rfl := capped_eq_some h
    obtain ⟨⟨j, x⟩, hmem, heq⟩ := List.mem_map.mp hi
    cases heq
    exact threshold_le_of_mem_characterPlaces (mem_of_mem_winners hmem)

theorem seek_reaches {c : α} (hne : pattern ≠ []) (h : seek config lines pattern start = some found)
    (hi : (i, c) ∈ found.places) : Reaches config lines pattern found i := by
  simp only [seek, List.isEmpty_iff, hne, ↓reduceIte] at h
  split at h
  · cases h
  · simp only [Option.orElse_eq_orElse, Option.orElse_eq_or, Option.or_eq_some_iff] at h
    rcases h with h | ⟨-, h⟩
    · obtain ⟨e, he, -, rfl⟩ := seekEqual_eq_some h
      simp only [equalities, List.mem_cons, List.not_mem_nil, or_false] at he
      rcases he with rfl | rfl | rfl | rfl <;> trivial
    · obtain ⟨-, h⟩ := Option.ite_none_right_eq_some.mp h
      exact seekSimilar_reaches hne h hi

end Sequence

/-! ## Placements -/

namespace View

/-- A search found the segment at the place, where its score reaches the threshold if it has one. -/
def Suits (config : Config α) (lines : List Text) (segment : Segment) (place : Nat) : Prop :=
  ∃ start found c, Sequence.seek config lines (Segment.texts segment) start = some found ∧
    (place, c) ∈ found.places ∧ Sequence.Reaches config lines (Segment.texts segment) found place

variable [ExactScore α] {config : Config α} {lines : List Text}

theorem FoundAt.suits {c : α} {segment : Segment} {place : Nat} (hne : segment ≠ [])
    (h : FoundAt config lines c segment place) : Suits config lines segment place := by
  obtain ⟨start, found, d, hfound, hmem, -⟩ := h
  exact ⟨start, found, d, hfound, hmem, Sequence.seek_reaches (texts_ne_nil hne) hfound hmem⟩

end View

namespace Hunk

variable [ExactScore α] {config : Config α} {lines : List Text} {hunk : Hunk} {number : Nat}
  {p : Placement α}

omit [Score α] [ExactScore α] in
theorem oldView_of_isInsertion (hold : hunk.isInsertion = true) : hunk.oldView = [] := by
  have hnone : hunk.oldView.flatten = [] := by
    rw [flatten_oldView, ← List.length_eq_zero_iff, length_oldEdits, oldLines, List.length_map,
      List.length_eq_zero_iff, List.filter_eq_nil_iff]
    simpa [isInsertion] using hold
  refine List.eq_nil_iff_forall_not_mem.mpr fun segment hsegment => ?_
  exact ne_nil_of_mem_oldView hsegment (List.flatten_eq_nil_iff.mp hnone segment hsegment)

/-- Wherever a hunk is placed, and whatever broke a tie, each segment of its old lines that was found
by similarity reaches the threshold there, unless it is at one of several places of lines that only
open those of the file. -/
theorem locate_reaches (h : hunk.locate config lines number = .ok p) :
    ∃ segments start, View.Covers hunk segments ∧
      Layout (View.Suits config lines) segments start p.positions := by
  cases hold : hunk.isInsertion with
  | true =>
    unfold locate at h
    extract_lets hint anchor at h
    rw [hold, if_pos rfl] at h
    obtain ⟨hpositions, -⟩ := locateInsertion_fits hold (fun place c => Anchor.resolve_line_lt) h
    refine ⟨hunk.oldView, 0, View.covers_oldView hunk, ?_⟩
    rw [oldView_of_isInsertion hold, hpositions]
    exact .nil 0
  | false =>
    obtain ⟨segments, start, q, hc, hq, -, hpositions, -, -⟩ := locate_eq_found hold h
    obtain ⟨hlayout, -⟩ := View.find_found hc.nonempty hq
    refine ⟨segments, start, hc, ?_⟩
    rw [hpositions]
    exact hlayout.imp fun segment hsegment _ hfound => hfound.suits (hc.nonempty segment hsegment)

/-- A line that opens the only line of the file and covers nearly all of it. -/
theorem locate_reaches_opening :
    ∃ (hunk : Hunk) (p : Placement Rat), hunk.oldLines = ["abcdefghijklmnopqrst".toList] ∧
      hunk.locate (Config.usual Score.decimal) ["abcdefghijklmnopqrstu".toList] 1 = .ok p ∧
      p.strategy = .lines .opening ∧ ∃ segments start, View.Covers hunk segments ∧
        Layout (View.Suits (Config.usual Score.decimal : Config Rat) ["abcdefghijklmnopqrstu".toList])
          segments start p.positions := by
  let hunk : Hunk := { edits := [⟨.remove, "abcdefghijklmnopqrst".toList⟩] }
  have hplaced : (hunk.locate (Config.usual Score.decimal : Config Rat)
      ["abcdefghijklmnopqrstu".toList] 1).toOption.map (·.strategy) = some (.lines .opening) := by
    decide +kernel
  obtain ⟨p, hp, hstrategy⟩ := Option.map_eq_some_iff.mp hplaced
  have hlocate := toOption_eq_some.mp hp
  exact ⟨hunk, p, rfl, hlocate, hstrategy, locate_reaches hlocate⟩

/-- A hint can choose a place that would not be accepted if it were the only one. -/
theorem hint_chooses_poor_opening :
    ¬ ∀ (lines : List Text) (hunk : Hunk) (p : Placement Rat),
        hunk.locate (Config.usual Score.decimal) lines 1 = .ok p → hunk.hasEllipsis = false →
        p.strategy = .lines .opening →
        (Config.usual Score.decimal : Config Rat).fuzzyThreshold - 1 / 10 ^ 9 ≤
          Sequence.meanRate Sequence.coverage lines hunk.oldLines p.start := by
  intro hclaim
  let lines : List Text := ["x = compute(alpha, beta)".toList, "x = load(gamma)".toList]
  let hunk : Hunk :=
    { edits := [⟨.remove, "x =".toList⟩, ⟨.add, ['y']⟩]
      hint := some { oldStart := 2, oldLength := some 1, newStart := some 2, newLength := some 1 } }
  have hplaced : (hunk.locate (Config.usual Score.decimal : Config Rat) lines 1).toOption.map
      (fun p => (p.strategy, p.start)) = some (.lines .opening, 1) := by
    decide +kernel
  obtain ⟨p, hp, heq⟩ := Option.map_eq_some_iff.mp hplaced
  obtain ⟨hstrategy, hstart⟩ := Prod.mk.inj heq
  have hle := hclaim lines hunk p (toOption_eq_some.mp hp) rfl hstrategy
  rw [hstart] at hle
  exact absurd hle (by decide +kernel)

end Hunk
end LoosePatch
