import LoosePatch.Proofs.Locate.Threshold
import LoosePatch.Proofs.Text.Similarity

/-!
Searching for similar lines without computing every similarity. A similarity is computed only while it can
still lift a place to the threshold, and a place is left as soon as nothing can. `Finds` says what a search
that computes all of them would list; both searches by similarity list it (`similar_places_eq_plain`).
-/

namespace LoosePatch.Sequence

variable {lines pattern : List Text} {start i : Nat} {required total threshold : Rat}

/-! ## Plain scores -/

/-- The pattern has a line of the file for each of its own from line `i` on, and `i` is in the range. -/
def IsWindow (lines pattern : List Text) (start i : Nat) : Prop :=
  start ≤ i ∧ i + pattern.length ≤ lines.length

/-- The sum of the similarities, line by line. -/
def totalSimilarity (lines pattern : List Text) (i : Nat) : Rat :=
  (List.zipWith Similarity.similarity (lines.drop i) pattern).sum

def meanSimilarity (lines pattern : List Text) (i : Nat) : Rat :=
  totalSimilarity lines pattern i / pattern.length

/-- The similarity of the lines taken together. -/
def jointSimilarity (lines pattern : List Text) (i : Nat) : Rat :=
  Similarity.similarity (Text.unlines ((lines.drop i).take pattern.length)) (Text.unlines pattern)

/-- The places are windows in file order. Those whose score reaches the threshold are among them, each with
its score, and no score is overstated. -/
structure Finds (places : List (Nat × Rat)) (isWindow : Nat → Prop) (score : Nat → Rat)
    (threshold : Rat) : Prop where
  ascending : places.Pairwise fun x y => x.1 < y.1
  complete : ∀ i, isWindow i → threshold ≤ score i → (i, score i) ∈ places
  sound : ∀ i x, (i, x) ∈ places → isWindow i ∧ x ≤ score i

theorem tolerance_eq : (Score.tolerance : Rat) = 1 / 10 ^ 9 := Score.exact_tolerance (α := Rat)

theorem sum_similarity_le (lines pattern : List Text) :
    (List.zipWith Similarity.similarity lines pattern : List Rat).sum ≤ pattern.length := by
  induction pattern generalizing lines with
  | nil => simp
  | cons expected pattern ih =>
    cases lines with
    | nil => simpa using add_nonneg (Nat.cast_nonneg (α := Rat) pattern.length) zero_le_one
    | cons actual lines =>
      rw [List.zipWith_cons_cons, List.sum_cons, List.length_cons, Nat.cast_succ, add_comm]
      exact add_le_add (ih lines) (Similarity.similarity_le_one actual expected)

/-- Every line adds its similarity as long as the lines together reach what is required: none of them is
below its floor, and the total with all that can still come is never short. -/
theorem fuzzyTotal_eq_some (hlength : pattern.length ≤ lines.length)
    (h : required ≤ total + (List.zipWith Similarity.similarity lines pattern : List Rat).sum) :
    fuzzyTotal required total pattern lines =
      some (total + (List.zipWith Similarity.similarity lines pattern).sum) := by
  induction pattern generalizing total lines with
  | nil => simp [fuzzyTotal]
  | cons expected pattern ih =>
    cases lines with
    | nil => cases hlength
    | cons actual lines =>
      have hrest := sum_similarity_le lines pattern
      rw [List.zipWith_cons_cons, List.sum_cons, ← add_assoc] at h ⊢
      let floor := required - total - pattern.length
      let added := if Score.zero < floor then Similarity.similarityAtLeast actual expected floor
        else Similarity.similarity actual expected
      have hadded : added = Similarity.similarity actual expected := by
        -- The lines below add at most one each, so this one has to reach its floor.
        have hfloor : floor ≤ Similarity.similarity actual expected := by
          change required - total - pattern.length ≤ _
          linarith
        simp only [added, Similarity.similarityAtLeast_eq hfloor, ite_self]
      have hlift : ¬ total + added + pattern.length < required - Score.tolerance := by
        rw [hadded, tolerance_eq]
        linarith
      calc fuzzyTotal required total (expected :: pattern) (actual :: lines)
          = fuzzyTotal required (total + added) pattern lines := if_neg hlift
        _ = fuzzyTotal required (total + Similarity.similarity actual expected) pattern lines := by
          rw [hadded]
        _ = _ := ih (Nat.le_of_succ_le_succ hlength) h

/-! ## Both searches -/

theorem mem_fuzzyPlaces {x : Rat} : (i, x) ∈ fuzzyPlaces lines pattern start threshold ↔
    start ≤ i ∧ i < lines.length ∧ ∃ total,
      fuzzyTotal (threshold * pattern.length) 0 pattern (lines.drop i) = some total ∧
      total / pattern.length = x := by
  simp only [fuzzyPlaces, mem_scanFrom, Option.map_eq_some_iff]
  rfl

theorem total_le_totalSimilarity {x : Rat}
    (h : fuzzyTotal required 0 pattern (lines.drop i) = some x) : x ≤ totalSimilarity lines pattern i := by
  have hle : x ≤ 0 + totalSimilarity lines pattern i := exact_fuzzyTotal_le h
  rwa [zero_add] at hle

theorem finds_fuzzyPlaces (hne : pattern ≠ []) : Finds (fuzzyPlaces lines pattern start threshold)
    (IsWindow lines pattern start) (meanSimilarity lines pattern) threshold := by
  have hpos : 0 < pattern.length := List.length_pos_iff.mpr hne
  have hcast : (0 : Rat) < pattern.length := Nat.cast_pos.mpr hpos
  refine ⟨scanFrom_sorted _ _ _, fun i hwindow hreach => ?_, fun i x hmem => ?_⟩
  · obtain ⟨hstart, hend⟩ := hwindow
    have hrequired : threshold * pattern.length ≤ 0 + totalSimilarity lines pattern i := by
      rw [zero_add]
      exact (le_div_iff₀ hcast).mp hreach
    have htotal := fuzzyTotal_eq_some (by rw [List.length_drop]; omega) hrequired
    refine mem_fuzzyPlaces.mpr ⟨hstart, by omega, _, htotal, ?_⟩
    rw [zero_add]
    rfl
  · obtain ⟨hstart, hi, total, htotal, rfl⟩ := mem_fuzzyPlaces.mp hmem
    have hlength := fuzzyTotal_length htotal
    rw [List.length_drop] at hlength
    exact ⟨⟨hstart, by omega⟩, div_le_div_of_nonneg_right (total_le_totalSimilarity htotal) hcast.le⟩

theorem required_le_of_mem_fuzzyPlaces (hne : pattern ≠ []) {x : Rat}
    (h : (i, x) ∈ fuzzyPlaces lines pattern start threshold) :
    threshold * pattern.length - 1 / 10 ^ 9 ≤ totalSimilarity lines pattern i := by
  obtain ⟨-, -, total, htotal, -⟩ := mem_fuzzyPlaces.mp h
  exact (required_le_fuzzyTotal hne htotal).trans (total_le_totalSimilarity htotal)

theorem mem_characterPlaces {x : Rat} : (i, x) ∈ characterPlaces lines pattern start threshold ↔
    start ≤ i ∧ i < lines.length ∧ pattern.length ≤ lines.length - i ∧ threshold - 1 / 10 ^ 9 ≤ x ∧
      Similarity.similarityAtLeast (Text.unlines ((lines.drop i).take pattern.length))
        (Text.unlines pattern) threshold = x := by
  simp only [characterPlaces, mem_scanFrom, List.length_drop, Option.ite_none_left_eq_some,
    Option.ite_none_right_eq_some, not_lt, Option.some.injEq, tolerance_eq]
  refine and_congr_right' (and_congr_right' (and_congr_right' (and_congr_left fun heq => ?_)))
  rw [heq]

theorem finds_characterPlaces (hne : pattern ≠ []) :
    Finds (characterPlaces lines pattern start threshold) (IsWindow lines pattern start)
      (jointSimilarity lines pattern) threshold := by
  have hpos : 0 < pattern.length := List.length_pos_iff.mpr hne
  refine ⟨scanFrom_sorted _ _ _, fun i hwindow hreach => ?_, fun i x hmem => ?_⟩
  · obtain ⟨hstart, hend⟩ := hwindow
    refine mem_characterPlaces.mpr ⟨hstart, by omega, by omega, ?_, Similarity.similarityAtLeast_eq hreach⟩
    linarith
  · obtain ⟨hstart, hi, hlength, -, rfl⟩ := mem_characterPlaces.mp hmem
    exact ⟨⟨hstart, by omega⟩, Similarity.exact_similarityAtLeast_le (α := Rat) _ _ _⟩

theorem threshold_le_jointSimilarity {x : Rat}
    (h : (i, x) ∈ characterPlaces lines pattern start threshold) :
    threshold - 1 / 10 ^ 9 ≤ jointSimilarity lines pattern i := by
  obtain ⟨-, -, -, hreach, rfl⟩ := mem_characterPlaces.mp h
  exact hreach.trans (Similarity.exact_similarityAtLeast_le (α := Rat) _ _ _)

/-- **Nothing is lost.** Both searches list, in file order, every window whose plain similarity reaches the
threshold, with that similarity, whatever they skip on the way: the mean over the lines, or the similarity of
the lines taken together. A window that falls short by more than the tolerance is not listed. -/
theorem similar_places_eq_plain (lines : List Text) (hne : pattern ≠ []) (start : Nat) (threshold : Rat) :
    Finds (fuzzyPlaces lines pattern start threshold) (IsWindow lines pattern start)
        (meanSimilarity lines pattern) threshold ∧
      (∀ i x, (i, x) ∈ fuzzyPlaces lines pattern start threshold →
        threshold * pattern.length - 1 / 10 ^ 9 ≤ totalSimilarity lines pattern i) ∧
      Finds (characterPlaces lines pattern start threshold) (IsWindow lines pattern start)
        (jointSimilarity lines pattern) threshold ∧
      ∀ i x, (i, x) ∈ characterPlaces lines pattern start threshold →
        threshold - 1 / 10 ^ 9 ≤ jointSimilarity lines pattern i :=
  ⟨finds_fuzzyPlaces hne, fun _ _ => required_le_of_mem_fuzzyPlaces hne, finds_characterPlaces hne,
    fun _ _ => threshold_le_jointSimilarity⟩

/-- A window at the threshold in one way and above it in the other, and the next one, below it in both. -/
theorem similar_places_eq_plain_half :
    let lines : List Text := ["ab".toList, "cx".toList, "cd".toList, "ab".toList, "cd".toList]
    let pattern : List Text := ["ab".toList, "cd".toList]
    (1, (1 / 2 : Rat)) ∈ fuzzyPlaces lines pattern 0 (1 / 2) ∧
      (∀ x, (2, x) ∉ fuzzyPlaces lines pattern 0 (1 / 2 : Rat)) ∧
      (1, (3 / 5 : Rat)) ∈ characterPlaces lines pattern 0 (1 / 2) ∧
      ∀ x, (2, x) ∉ characterPlaces lines pattern 0 (1 / 2 : Rat) := by
  intro lines pattern
  obtain ⟨hfuzzy, hshort, hjoint, hjointShort⟩ :=
    similar_places_eq_plain lines (by decide : pattern ≠ []) 0 (1 / 2)
  have hwindow : IsWindow lines pattern 0 1 := ⟨Nat.zero_le 1, by decide⟩
  have hmean : meanSimilarity lines pattern 1 = 1 / 2 := by decide +kernel
  have hwhole : jointSimilarity lines pattern 1 = 3 / 5 := by decide +kernel
  refine ⟨hmean ▸ hfuzzy.complete 1 hwindow hmean.ge, fun x hx => ?_,
    hwhole ▸ hjoint.complete 1 hwindow ?_, fun x hx => ?_⟩
  · exact absurd (hshort 2 x hx) (by decide +kernel)
  · decide +kernel
  · exact absurd (hjointShort 2 x hx) (by decide +kernel)

end LoosePatch.Sequence
