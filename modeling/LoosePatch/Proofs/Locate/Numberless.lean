import LoosePatch.Proofs.Locate.Soundness

/-!
The number of a hunk is told in notes and refusals only: whatever number a hunk has, it is placed at
the same lines or not at all (`Hunk.locate_unnoted`). For hunks that only insert this is one line
(`Hunk.insertionLine?`).
-/

namespace LoosePatch

variable {α : Type}

/-- A placement without what is worth knowing about it. -/
def Placement.unnoted (p : Placement α) : Placement α := { p with notes := [] }

namespace Hunk

variable [Score α] {config : Config α} {lines : List Text} {hunk : Hunk} {number : Nat}
  {p : Placement α}

theorem locateInsertion_number {anchor : Option (Anchoring α)} (number' : Nat)
    (h : locateInsertion lines hunk anchor number = .ok p) :
    locateInsertion lines hunk anchor number' = .ok p := by
  unfold locateInsertion at h ⊢
  extract_lets at h ⊢
  split at h
  · exact h
  · cases h
  · cases h
  · split at h
    · rename_i hend
      rw [if_pos hend]
      exact h
    · rename_i hend
      rw [if_neg hend]
      split at h
      · cases h
      · extract_lets at h ⊢
        split at h
        · rename_i hinside
          rw [if_pos hinside]
          exact h
        · cases h

theorem locateNarrowed_number (config : Config α) (lines : List Text) (clues : Clues α)
    (number number' : Nat) (old : Segment) (views : List (Narrowing × Segment))
    (undecided : List (Placement α)) :
    ((locateNarrowed config lines clues number old views undecided).1.map Placement.unnoted,
      (locateNarrowed config lines clues number old views undecided).2) =
    ((locateNarrowed config lines clues number' old views undecided).1.map Placement.unnoted,
      (locateNarrowed config lines clues number' old views undecided).2) := by
  induction views generalizing undecided with
  | nil => rfl
  | cons x views ih =>
    obtain ⟨narrowing, view⟩ := x
    rw [locateNarrowed, locateNarrowed]
    split
    · rfl
    · exact ih _

/-- Under another number a hunk is placed at the same lines. -/
theorem locate_unnoted (number' : Nat) (h : hunk.locate config lines number = .ok p) :
    ∃ q, hunk.locate config lines number' = .ok q ∧ q.unnoted = p.unnoted := by
  unfold locate at h ⊢
  extract_lets _ _ clues segments at h
  extract_lets
  split at h
  · rename_i hinsertion
    rw [if_pos hinsertion]
    exact ⟨p, locateInsertion_number number' h, rfl⟩
  · rename_i hinsertion
    rw [if_neg hinsertion]
    cases hwhole : clues.select config lines segments with
    | mk whole candidates =>
    cases whole with
    | some q =>
      simp only [hwhole] at h ⊢
      cases Except.ok.inj h
      exact ⟨_, rfl, rfl⟩
    | none =>
      have hsame := locateNarrowed_number config lines clues number number'
        (segments.head?.getD []) (View.narrowings segments) candidates
      simp only [hwhole] at h ⊢
      cases hchosen : (locateNarrowed config lines clues number (segments.head?.getD [])
        (View.narrowings segments) candidates).1 with
      | none =>
        simp only [hchosen] at h
        split at h <;> cases h
      | some q =>
        simp only [hchosen] at h hsame
        cases Except.ok.inj h
        obtain ⟨q', hq', heq⟩ := Option.map_eq_some_iff.mp (congrArg Prod.fst hsame).symm
        simp only [hq']
        exact ⟨_, rfl, heq⟩

/-! ## Insertions -/

theorem positions_eq_nil_iff (h : hunk.locate config lines number = .ok p) :
    p.positions = [] ↔ hunk.isInsertion = true := by
  cases hold : hunk.isInsertion with
  | true =>
    unfold locate at h
    extract_lets at h
    rw [hold, if_pos rfl] at h
    exact iff_of_true (locateInsertion_fits hold (fun _ _ => Anchor.resolve_line_lt) h).1 rfl
  | false =>
    obtain ⟨segments, start, q, hc, hq, -, hpositions, -⟩ := locate_eq_found hold h
    rw [hpositions]
    exact iff_of_false (View.find_positions_ne_nil hc hq) Bool.false_ne_true

/-- The line that a hunk without old lines inserts at, if it is placed at all. -/
def insertionLine? (config : Config α) (lines : List Text) (hunk : Hunk) : Option Nat :=
  if hunk.isInsertion then
    match hunk.locate config lines 1 with
    | .ok p => some p.start
    | .error _ => none
  else none

theorem insertionLine?_of_insertion (h : hunk.locate config lines number = .ok p)
    (hinsertion : hunk.isInsertion = true) : hunk.insertionLine? config lines = some p.start := by
  obtain ⟨q, hq, hsame⟩ := locate_unnoted 1 h
  rw [insertionLine?, if_pos hinsertion, hq]
  have hstart : q.unnoted.start = p.unnoted.start := congrArg Placement.start hsame
  exact congrArg some hstart

theorem insertionLine?_of_not_insertion (hinsertion : hunk.isInsertion = false) :
    hunk.insertionLine? config lines = none := by
  rw [insertionLine?, hinsertion, if_neg Bool.false_ne_true]

end Hunk
end LoosePatch
