import LoosePatch.Proofs.Locate.Levels
import LoosePatch.Proofs.Text.Loose
import Mathlib.Data.List.Sort
import Mathlib.Tactic.IntervalCases

/-!
Levels of equality. Each reading of lines tells less of them apart than the one before
(`equalities_nested`), so that lines which stand somewhere at one level stand there at all later ones. A
search answers with all places of the first level that has any (`seek_equalities`).
-/

namespace LoosePatch

/-! ## Lines -/

namespace Text

variable {a b : Text}

theorem trim_eq_of_trimEnd (h : a.trimEnd = b.trimEnd) : a.trim = b.trim := by
  rw [← trim_trimEnd a, h, trim_trimEnd]

theorem loose_eq_of_trim (h : a.trim = b.trim) : a.loose = b.loose := by
  rw [← loose_trim a, h, loose_trim]

theorem bare_eq_of_loose (h : a.loose = b.loose) : a.bare = b.bare := by
  rw [← withoutBlanks_loose a, h, withoutBlanks_loose]

end Text

/-! ## Runs of lines -/

namespace Sequence

variable {α : Type} [Score α] {lines pattern : List Text} {start : Nat}

/-- Lines that are equal at one level are equal at all later levels. -/
theorem equalities_nested : (equalities : List (Equality α)).Pairwise fun e e' =>
    e'.reading.FactorsThrough e.reading := by
  have hchain : (equalities : List (Equality α)).IsChain fun e e' =>
      e'.reading.FactorsThrough e.reading := by
    refine .cons_cons (fun a b h => congrArg Text.trimEnd h) ?_
    refine .cons_cons (fun a b h => Text.trim_eq_of_trimEnd h) ?_
    exact .cons_cons (fun a b h => Text.loose_eq_of_trim h) (.singleton _)
  have : IsTrans (Equality α) fun e e' => e'.reading.FactorsThrough e.reading :=
    ⟨fun _ _ _ hab hbc _ _ h => hbc (hab h)⟩
  exact List.isChain_iff_pairwise.mp hchain

theorem equalPlaces_subset {reading weaker : Text → Text} (h : weaker.FactorsThrough reading)
    (hne : pattern ≠ []) :
    equalPlaces reading lines pattern start ⊆ equalPlaces weaker lines pattern start := by
  intro i hi
  obtain ⟨hstart, hstands⟩ := (mem_equalPlaces reading lines pattern start i hne).mp hi
  exact (mem_equalPlaces weaker lines pattern start i hne).mpr
    ⟨hstart, hstands.imp (fun _ _ hread => h hread) hne⟩

/-- **Equality is nested and searched for exhaustively.** Equal lines are equal when blanks at the end do
not count, then when blanks on both sides do not, then in the loose reading, which is settled once it is
made, and then without any blank. A search answers with exactly the places, in file order and from `start`
on, at which the lines of the pattern are equal to those of the file at the first level that may be used
and has such a place; and a later level has all places of an earlier one. -/
theorem seek_equalities (config : Config α) (lines : List Text) (start : Nat) (hne : pattern ≠ []) :
    (∀ a b : Text, (a = b → a.trimEnd = b.trimEnd) ∧ (a.trimEnd = b.trimEnd → a.trim = b.trim) ∧
      (a.trim = b.trim → a.loose = b.loose) ∧ (a.loose = b.loose → a.bare = b.bare) ∧
      a.loose.loose = a.loose) ∧
    (∀ (stricter weaker : List (Equality α)) (e : Equality α), equalities = stricter ++ e :: weaker →
      (e.lenient = true → config.allowFuzzy = true) →
      (∀ e' ∈ stricter, (e'.lenient = true → config.allowFuzzy = true) →
        ∀ i, start ≤ i → ¬ StandsAt e'.reading lines pattern i) →
      (∃ i, start ≤ i ∧ StandsAt e.reading lines pattern i) →
      ∃ places : List Nat,
        seek config lines pattern start = some ⟨e.level, places.map (·, e.confidence)⟩ ∧
        places.Pairwise (· < ·) ∧
        ∀ i, i ∈ places ↔ start ≤ i ∧ StandsAt e.reading lines pattern i) ∧
    (equalities : List (Equality α)).Pairwise fun e e' =>
      equalPlaces e.reading lines pattern start ⊆ equalPlaces e'.reading lines pattern start := by
  refine ⟨fun a b => ⟨congrArg Text.trimEnd, Text.trim_eq_of_trimEnd, Text.loose_eq_of_trim,
    Text.bare_eq_of_loose, Text.loose_loose a⟩, ?_, ?_⟩
  · intro stricter weaker e hsplit hlenient hnone hsome
    obtain ⟨i, hi, hstands⟩ := hsome
    have hempty : ∀ e' ∈ stricter, (e'.lenient = true → config.allowFuzzy = true) →
        equalPlaces e'.reading lines pattern start = [] := by
      intro e' he' hused
      refine List.eq_nil_iff_forall_not_mem.mpr fun j hj => ?_
      obtain ⟨hj, hstands⟩ := (mem_equalPlaces e'.reading lines pattern start j hne).mp hj
      exact hnone e' he' hused j hj hstands
    exact ⟨_, seek_of_first hne hsplit hempty hlenient hi hstands, equalPlaces_sorted _ _ _ _,
      fun j => mem_equalPlaces _ _ _ _ j hne⟩
  · exact equalities_nested.imp fun h => equalPlaces_subset h hne

/-- Two places that overlap, where the lines end in a blank. -/
theorem seek_equalities_overlapping :
    let lines : List Text := List.replicate 3 ['a', ' ']
    let pattern : List Text := List.replicate 2 ['a']
    let config : Config Rat := Config.usual Score.decimal
    pattern ≠ [] ∧ ∃ confidence, seek config lines pattern 0 =
      some ⟨.trailing, [(0, confidence), (1, confidence)]⟩ := by
  intro lines pattern config
  have hne : pattern ≠ [] := by decide
  have hbound {reading : Text → Text} {i : Nat} (h : StandsAt reading lines pattern i) : i < 2 := by
    have hlen : i + 2 ≤ 3 := h.length_le hne
    omega
  have hexact (i : Nat) : ¬ OccursAt lines pattern i := by
    intro h
    have hi := hbound h
    revert h
    interval_cases i
    · decide
    · decide
  have htrailing {i : Nat} (hi : i < 2) : StandsAt Text.trimEnd lines pattern i := by
    rw [StandsAt]
    interval_cases i
    · decide
    · decide
  obtain ⟨places, hseek, hsorted, hplaces⟩ := (seek_equalities config lines 0 hne).2.1 _ _
    ⟨.trailing, Text.trimEnd, Score.decimal 99 2, false⟩ (List.singleton_append.symm) (fun h => by cases h)
    (fun e he _ i _ => by rw [List.mem_singleton.mp he]; exact hexact i)
    ⟨0, Nat.zero_le 0, htrailing (by decide)⟩
  have hequal : places = [0, 1] := by
    refine hsorted.eq_of_mem_iff (by decide) fun i => ?_
    rw [hplaces]
    constructor
    · rintro ⟨-, h⟩
      have hi := hbound h
      interval_cases i
      · decide
      · decide
    · intro hi
      exact ⟨Nat.zero_le i, htrailing (by simp at hi; omega)⟩
  rw [hequal] at hseek
  exact ⟨hne, _, hseek⟩

end Sequence
end LoosePatch
