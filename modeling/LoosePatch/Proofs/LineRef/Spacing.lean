import LoosePatch.Proofs.LineRef.Blocks

/-!
Blanks that are put back into lines sent again. When the number of lines changes, each new line is
looked up by what it is without its blanks, and another old line of that shape takes its place. So
a line stays as it is exactly if no other old line has its shape (`keepSpacing_resent`): of old
lines that differ in their blanks only, none stays.
-/

namespace LoosePatch.LineRef

variable {old new : List Text} {line : Text}

theorem twin?_eq_none_iff :
    twin? old line = none ↔ ∀ o ∈ old, o.withoutBlanks = line.withoutBlanks → o = line := by
  rw [twin?, List.find?_eq_none]
  refine forall₂_congr fun o _ => ?_
  rw [Bool.and_eq_true, sameShape_iff, bne_iff_ne, not_and, Decidable.not_not]

theorem keepSpacing_of_length_ne (h : old.length ≠ new.length) :
    keepSpacing old new = new.map fun line => (twin? old line).getD line :=
  if_neg h

/-- A new line stays as it is exactly if all old lines of its shape are this line. -/
theorem twin?_getD_eq_self_iff :
    (twin? old line).getD line = line ↔
      ∀ o ∈ old, o.withoutBlanks = line.withoutBlanks → o = line := by
  rw [← twin?_eq_none_iff]
  cases htwin : twin? old line with
  | none => simp
  | some twin => simp [(of_twin?_eq_some htwin).2.2]

/-- When the number of lines changes, there is one line for each new one, the same up to blanks. It
is the new line itself exactly if no other old line has its shape, and an old line if it is not. -/
theorem keepSpacing_resent (h : old.length ≠ new.length) :
    (keepSpacing old new).length = new.length ∧
      ∀ i (hi : i < new.length) (hi' : i < (keepSpacing old new).length),
        (keepSpacing old new)[i].withoutBlanks = new[i].withoutBlanks ∧
        ((keepSpacing old new)[i] = new[i] ↔
          ∀ o ∈ old, o.withoutBlanks = new[i].withoutBlanks → o = new[i]) ∧
        ((keepSpacing old new)[i] ≠ new[i] → (keepSpacing old new)[i] ∈ old) := by
  have hlength := (keepSpacing_shapes old new).length_eq
  refine ⟨hlength.symm, fun i hi hi' => ⟨?_, ?_, ?_⟩⟩
  · exact ((keepSpacing_shapes old new).get hi hi').symm
  · simp only [keepSpacing_of_length_ne h, List.getElem_map]
    exact twin?_getD_eq_self_iff
  · simp only [keepSpacing_of_length_ne h, List.getElem_map]
    intro hne
    cases htwin : twin? old new[i] with
    | none => simp [htwin] at hne
    | some twin => exact (of_twin?_eq_some htwin).1

/-- A block of three lines sent again with one more. -/
theorem keepSpacing_resent_block :
    let old : List Text := ["if a:".toList, "  b".toList, "c".toList]
    let new : List Text := ["if a:".toList, "  b".toList, "d".toList, "c".toList]
    old.length ≠ new.length ∧ keepSpacing old new = new := by
  intro old new
  have hlength : old.length ≠ new.length := by decide
  have hold : ∀ line ∈ new, ∀ o ∈ old, o.withoutBlanks = line.withoutBlanks → o = line := by
    decide
  obtain ⟨hsame, hlines⟩ := keepSpacing_resent hlength
  refine ⟨hlength, List.ext_getElem hsame fun i hi' hi => ?_⟩
  exact (hlines i hi hi').2.1.mpr (hold _ (List.getElem_mem hi))

/-- Two closing braces that are sent again with a line more change their places. -/
theorem keepSpacing_swaps_braces :
    keepSpacing ["\x7d".toList, "  \x7d".toList] ["\x7d".toList, "  \x7d".toList, "x".toList] =
      ["  \x7d".toList, "\x7d".toList, "x".toList] := by
  decide

end LoosePatch.LineRef
