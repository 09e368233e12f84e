import Mathlib.Data.List.Basic

/-!
What lists of keys and values hold for a key after one entry is added or all entries of a key are
taken out.
-/

namespace LoosePatch

variable {κ β : Type} [BEq κ] [LawfulBEq κ] [DecidableEq κ]

theorem lookup_cons_eq_ite (k key : κ) (value : β) (rest : List (κ × β)) :
    ((k, value) :: rest).lookup key = if key = k then some value else rest.lookup key := by
  rw [List.lookup_cons]
  by_cases h : key = k
  · rw [if_pos h, beq_iff_eq.mpr h]
  · rw [if_neg h, beq_eq_false_iff_ne.mpr h]

theorem lookup_filter_ne (k key : κ) (entries : List (κ × β)) :
    (entries.filter fun entry => entry.1 ≠ k).lookup key =
      if key = k then none else entries.lookup key := by
  induction entries with
  | nil => exact (ite_self _).symm
  | cons entry rest ih =>
    obtain ⟨k', value⟩ := entry
    rw [lookup_cons_eq_ite]
    by_cases hk : k' = k
    · rw [List.filter_cons_of_neg (by simpa using hk), ih, hk]
      split <;> rfl
    · rw [List.filter_cons_of_pos (by simpa using hk), lookup_cons_eq_ite, ih]
      split
      · rename_i hkey
        rw [if_neg (hkey ▸ hk)]
      · rfl

end LoosePatch
