import LoosePatch.Proofs.Locate.Occurrence
import LoosePatch.Proofs.Numeric.Exact

/-!
What the levels of the search answer. `seek_eq_some` says once what an answer can be: all places of
equal lines at one level of equality, or all places that one level of similarity scored. From it
follow the promises of a single place (`Hit`) and the answer on exact text (`seek_of_occurs`).
-/

namespace LoosePatch.Sequence

variable {α : Type} [Score α] {config : Config α} {lines pattern : List Text} {start : Nat}
  {found : Found α}

/-! ## Scored places lie in the file -/

theorem openingTotal_length {total x : α} {pattern lines : List Text}
    (h : openingTotal total pattern lines = some x) : pattern.length ≤ lines.length := by
  induction pattern generalizing total lines with
  | nil => exact Nat.zero_le _
  | cons expected pattern ih =>
    cases lines with
    | nil => simp [openingTotal] at h
    | cons actual lines =>
      simp only [openingTotal] at h
      split at h
      · exact Nat.succ_le_succ (ih h)
      · split at h
        · exact Nat.succ_le_succ (ih h)
        · cases h

theorem fuzzyTotal_length {required total x : α} {pattern lines : List Text}
    (h : fuzzyTotal required total pattern lines = some x) : pattern.length ≤ lines.length := by
  induction pattern generalizing total lines with
  | nil => exact Nat.zero_le _
  | cons expected pattern ih =>
    cases lines with
    | nil => simp [fuzzyTotal] at h
    | cons actual lines =>
      simp only [fuzzyTotal] at h
      split at h <;> split at h
      · cases h
      · exact Nat.succ_le_succ (ih h)
      · cases h
      · exact Nat.succ_le_succ (ih h)

theorem mem_of_mem_winners {scored : List (Nat × α)} {place : Nat × α}
    (h : place ∈ winners scored) : place ∈ scored := by
  unfold winners at h
  split at h
  · simp at h
  · exact (List.mem_filter.mp h).1

/-- The places that a level of similarity scored, with their scores. Levels of equality score
nothing. -/
def similarPlaces (config : Config α) (lines pattern : List Text) (start : Nat) :
    Level → List (Nat × α)
  | .opening => openingPlaces (lines.map Text.loose) (pattern.map Text.loose) start
  | .fuzzy =>
    winners (fuzzyPlaces (lines.map Text.loose) (pattern.map Text.loose) start config.fuzzyThreshold)
  | .character =>
    winners (characterPlaces (lines.map Text.bare) (pattern.map Text.bare) start
      config.fuzzyThreshold)
  | _ => []

theorem similarPlaces_within {level : Level} {i : Nat} {x : α}
    (h : (i, x) ∈ similarPlaces config lines pattern start level) :
    start ≤ i ∧ i + pattern.length ≤ lines.length := by
  cases level with
  | opening =>
    simp only [similarPlaces, openingPlaces, mem_scanFrom, List.length_map] at h
    obtain ⟨hstart, hlt, hsome⟩ := h
    obtain ⟨total, htotal, -⟩ := Option.map_eq_some_iff.mp hsome
    have hlen := openingTotal_length htotal
    simp only [List.length_map, List.length_drop] at hlen
    exact ⟨hstart, by omega⟩
  | fuzzy =>
    have h := mem_of_mem_winners h
    simp only [fuzzyPlaces, mem_scanFrom, List.length_map] at h
    obtain ⟨hstart, hlt, hsome⟩ := h
    obtain ⟨total, htotal, -⟩ := Option.map_eq_some_iff.mp hsome
    have hlen := fuzzyTotal_length htotal
    simp only [List.length_map, List.length_drop] at hlen
    exact ⟨hstart, by omega⟩
  | character =>
    have h := mem_of_mem_winners h
    simp only [characterPlaces, mem_scanFrom, List.length_map] at h
    obtain ⟨hstart, hlt, hsome⟩ := h
    split at hsome
    · cases hsome
    · rename_i hlen
      simp only [List.length_drop, List.length_map, Nat.not_lt] at hlen
      exact ⟨hstart, by omega⟩
  | exact => simp [similarPlaces] at h
  | trailing => simp [similarPlaces] at h
  | surrounding => simp [similarPlaces] at h
  | loose => simp [similarPlaces] at h

/-! ## What an answer can be -/

theorem capped_eq_some {level : Level} {scored : List (Nat × α)}
    (h : capped level scored = some found) :
    found = ⟨level, scored.map fun (i, x) => (i, Score.least x similarityCap)⟩ := by
  unfold capped at h
  split at h
  · cases h
  · exact (Option.some.inj h).symm

theorem seekOpening_eq_some (h : seekOpening config lines pattern start = some found) :
    found = ⟨.opening, (openingPlaces lines pattern start).map fun (i, x) =>
      (i, Score.least x similarityCap)⟩ := by
  unfold seekOpening at h
  split at h
  · rename_i i x heq
    split at h
    · rw [heq]
      exact capped_eq_some h
    · cases h
  · exact capped_eq_some h

theorem seekSimilar_eq_some (h : seekSimilar config lines pattern start = some found) :
    found.places = (similarPlaces config lines pattern start found.level).map fun (i, x) =>
      (i, Score.least x similarityCap) := by
  simp only [seekSimilar, Option.orElse_eq_orElse, Option.orElse_eq_or, Option.or_eq_some_iff] at h
  rcases h with h | ⟨-, h | ⟨-, h⟩⟩
  · rw [seekOpening_eq_some h]
    rfl
  · rw [capped_eq_some h]
    rfl
  · rw [capped_eq_some h]
    rfl

theorem seekEqual_eq_some (h : seekEqual config lines pattern start = some found) :
    ∃ e ∈ (equalities : List (Equality α)), (e.lenient = true → config.allowFuzzy = true) ∧
      found = ⟨e.level, (equalPlaces e.reading lines pattern start).map (·, e.confidence)⟩ := by
  obtain ⟨e, he, hsome⟩ := List.exists_of_findSome?_eq_some h
  refine ⟨e, he, ?_⟩
  split at hsome
  · cases hsome
  · rename_i hlenient
    simp only [Bool.and_eq_true, Bool.not_eq_true', not_and, Bool.not_eq_false] at hlenient
    split at hsome
    · cases hsome
    · exact ⟨hlenient, (Option.some.inj hsome).symm⟩

/-- The answer is all places of the first level that may be used and has any. -/
theorem seek_of_first {stricter weaker : List (Equality α)} {e : Equality α} (hne : pattern ≠ [])
    (hsplit : equalities = stricter ++ e :: weaker)
    (hnone : ∀ e' ∈ stricter, (e'.lenient = true → config.allowFuzzy = true) →
      equalPlaces e'.reading lines pattern start = [])
    (hlenient : e.lenient = true → config.allowFuzzy = true) {i : Nat} (hi : start ≤ i)
    (h : StandsAt e.reading lines pattern i) :
    seek config lines pattern start =
      some ⟨e.level, (equalPlaces e.reading lines pattern start).map (·, e.confidence)⟩ := by
  have hmem := (mem_equalPlaces e.reading lines pattern start i hne).mpr ⟨hi, h⟩
  have hequal : seekEqual config lines pattern start =
      some ⟨e.level, (equalPlaces e.reading lines pattern start).map (·, e.confidence)⟩ := by
    refine List.findSome?_eq_some_iff.mpr ⟨stricter, e, weaker, hsplit, ?_, fun e' he' => ?_⟩
    · rw [if_neg (by simpa using hlenient)]
      cases hplaces : equalPlaces e.reading lines pattern start with
      | nil => rw [hplaces] at hmem; cases hmem
      | cons place places => rfl
    · split
      · rfl
      · rename_i hused
        rw [hnone e' he' (by simpa using hused)]
  have hlen := h.length_le hne
  simp only [seek, List.isEmpty_iff, hne, ↓reduceIte]
  rw [if_neg (by omega), hequal]
  rfl

/-- An answer is all places of a level of equality that may be used, or the scored places of a
level of similarity. -/
theorem seek_eq_some (hne : pattern ≠ []) (h : seek config lines pattern start = some found) :
    (∃ e ∈ (equalities : List (Equality α)), (e.lenient = true → config.allowFuzzy = true) ∧
      found = ⟨e.level, (equalPlaces e.reading lines pattern start).map (·, e.confidence)⟩) ∨
    (config.allowFuzzy = true ∧
      found.places = (similarPlaces config lines pattern start found.level).map fun (i, x) =>
        (i, Score.least x similarityCap)) := by
  simp only [seek, List.isEmpty_iff, hne, ↓reduceIte] at h
  split at h
  · cases h
  · simp only [Option.orElse_eq_orElse, Option.orElse_eq_or, Option.or_eq_some_iff] at h
    rcases h with h | ⟨-, h⟩
    · exact Or.inl (seekEqual_eq_some h)
    · split at h
      · rename_i hfuzzy
        exact Or.inr ⟨hfuzzy, seekSimilar_eq_some h⟩
      · cases h

/-! ## What a place promises -/

/-- What it means that a pattern was found at line `i` with confidence `c`. -/
structure Hit (config : Config α) (lines pattern : List Text) (start i : Nat) (c : α) : Prop where
  start_le : start ≤ i
  inside : i + pattern.length ≤ lines.length
  /-- Without leniency only trailing blanks may differ. -/
  strict : config.allowFuzzy = false → StandsAt Text.trimEnd lines pattern i
  le_one : ExactScore α → Score.exact c ≤ 1
  /-- Full confidence stands for exact text. -/
  occurs : ExactScore α → Score.exact c = 1 → OccursAt lines pattern i

theorem exact_confidence [ExactScore α] {e : Equality α} (he : e ∈ equalities) :
    e.level = .exact ∧ e.reading = id ∧ Score.exact e.confidence = 1 ∨
      Score.exact e.confidence < 1 := by
  simp only [equalities, List.mem_cons, List.not_mem_nil, or_false] at he
  rcases he with rfl | rfl | rfl | rfl
  · exact Or.inl ⟨rfl, rfl, Score.exact_one⟩
  · exact Or.inr (Score.exact_decimal_lt_one (by decide))
  · exact Or.inr (Score.exact_decimal_lt_one (by decide))
  · exact Or.inr (Score.exact_decimal_lt_one (by decide))

theorem trimEnd_of_strict {e : Equality α} (he : e ∈ equalities) (hs : e.lenient = false)
    {a b : Text} (h : e.reading a = e.reading b) : a.trimEnd = b.trimEnd := by
  simp only [equalities, List.mem_cons, List.not_mem_nil, or_false] at he
  rcases he with rfl | rfl | rfl | rfl
  · exact congrArg Text.trimEnd h
  · exact h
  · cases hs
  · cases hs

theorem exact_similarityCap_lt_one [ExactScore α] (x : α) :
    Score.exact (Score.least x similarityCap) < 1 := by
  rw [Score.exact_least]
  exact lt_of_le_of_lt (min_le_right _ _) (Score.exact_decimal_lt_one (by decide))

theorem seek_hit (hne : pattern ≠ []) (h : seek config lines pattern start = some found)
    {i : Nat} {c : α} (hi : (i, c) ∈ found.places) : Hit config lines pattern start i c := by
  rcases seek_eq_some hne h with ⟨e, he, hlenient, rfl⟩ | ⟨hfuzzy, hplaces⟩
  · obtain ⟨i', hi', heq⟩ := List.mem_map.mp hi
    cases heq
    obtain ⟨hstart, hstands⟩ := (mem_equalPlaces _ _ _ _ _ hne).mp hi'
    refine ⟨hstart, hstands.length_le hne, fun hstrict => ?_, fun _ => ?_, fun _ hone => ?_⟩
    · have hs : e.lenient = false := by
        cases hl : e.lenient with
        | false => rfl
        | true => rw [hlenient hl] at hstrict; cases hstrict
      exact hstands.imp (fun a b => trimEnd_of_strict he hs) hne
    · rcases exact_confidence he with ⟨-, -, hone⟩ | hlt
      · exact hone.le
      · exact hlt.le
    · rcases exact_confidence he with ⟨-, hid, -⟩ | hlt
      · rwa [hid] at hstands
      · exact absurd hone hlt.ne
  · rw [hplaces] at hi
    obtain ⟨⟨i', x⟩, hmem, heq⟩ := List.mem_map.mp hi
    cases heq
    obtain ⟨hstart, hinside⟩ := similarPlaces_within hmem
    refine ⟨hstart, hinside, fun hstrict => ?_, fun _ => ?_, fun _ hone => ?_⟩
    · rw [hfuzzy] at hstrict
      cases hstrict
    · exact (exact_similarityCap_lt_one x).le
    · exact absurd hone (exact_similarityCap_lt_one x).ne

/-! ## Exact text -/

/-- Where a pattern occurs byte for byte, the answer is all such places and no other level is
looked at. -/
theorem seek_of_occurs {i : Nat} (hne : pattern ≠ []) (hi : start ≤ i)
    (h : OccursAt lines pattern i) :
    seek config lines pattern start =
      some ⟨.exact, (equalPlaces id lines pattern start).map (·, Score.one)⟩ :=
  seek_of_first hne (List.nil_append equalities).symm (fun _ he => absurd he List.not_mem_nil)
    (fun hlenient => absurd hlenient Bool.false_ne_true) hi h

end LoosePatch.Sequence
