import LoosePatch.Text.Blank
import Mathlib.Data.List.DropRight

/-!
Texts that are trimmed, and texts that trimming leaves as they are.
-/

namespace LoosePatch

theorem isBlank_of_isIndent {c : Char} (h : isIndent c = true) : isBlank c = true := by
  rcases Bool.or_eq_true_iff.mp h with h | h <;> rw [beq_iff_eq.mp h] <;> rfl

namespace Text

variable {s : Text} {c : Char}

/-- Only the first and the last character decide whether anything is trimmed. -/
theorem trimBy_eq_self {p : Char → Bool} (hhead : ∀ c, s.head? = some c → p c = false)
    (hlast : ∀ c, s.getLast? = some c → p c = false) : s.trimBy p = s := by
  have hdrop : s.dropWhile p = s := by
    cases s with
    | nil => rfl
    | cons c s => exact List.dropWhile_cons_of_neg (Bool.eq_false_iff.mp (hhead c rfl))
  rw [trimBy, hdrop]
  exact List.rdropWhile_eq_self_iff.mpr fun hne =>
    Bool.eq_false_iff.mp (hlast _ (List.getLast?_eq_some_getLast hne))

theorem trim_isInfix (s : Text) : s.trim <:+: s :=
  (List.rdropWhile_prefix isBlank _).isInfix.trans (List.dropWhile_suffix isBlank).isInfix

theorem trim_of_not_blank (h : ∀ c ∈ s, isBlank c = false) : s.trim = s :=
  trimBy_eq_self (fun c hc => h c (List.mem_of_head? hc)) fun c hc => h c (List.mem_of_getLast? hc)

theorem trimEnd_of_getLast (h : ∀ hne : s ≠ [], isBlank (s.getLast hne) = false) : s.trimEnd = s :=
  List.rdropWhile_eq_self_iff.mpr fun hne => Bool.eq_false_iff.mp (h hne)

theorem trimStart_of_trim_eq (h : s.trim = s) : s.trimStart = s := by
  have hlength : s.length ≤ s.trimStart.length := by
    conv_lhs => rw [← h]
    exact (List.rdropWhile_prefix isBlank s.trimStart).length_le
  exact (List.dropWhile_suffix isBlank).eq_of_length_le hlength

theorem getLast_of_trim_eq (h : s.trim = s) (hne : s ≠ []) : isBlank (s.getLast hne) = false := by
  have htrim : s.trimStart.rdropWhile isBlank = s := h
  rw [trimStart_of_trim_eq h] at htrim
  exact Bool.eq_false_iff.mpr (List.rdropWhile_eq_self_iff.mp htrim hne)

/-- Blanks in front are trimmed off. -/
theorem trim_blank_cons (h : isBlank c = true) (s : Text) : Text.trim (c :: s) = s.trim := by
  rw [trim, trim, trimBy, trimBy, List.dropWhile_cons_of_pos h]

/-- A text that begins with no blank is trimmed at its end. -/
theorem trim_cons (h : isBlank c = false) (s : Text) :
    Text.trim (c :: s) = c :: Text.trimEnd s := by
  have hlead : (c :: s).dropWhile isBlank = c :: s := List.dropWhile_cons_of_neg (by simp [h])
  rw [Text.trim, Text.trimBy, hlead]
  show (c :: s).rdropWhile isBlank = c :: s.rdropWhile isBlank
  induction s using List.reverseRecOn with
  | nil => rw [List.rdropWhile_singleton, h]; rfl
  | append_singleton s last ih =>
    rw [← List.cons_append, List.rdropWhile_concat, List.rdropWhile_concat]
    split
    · exact ih (List.dropWhile_cons_of_neg (by simp [h]))
    · rfl

/-! ## Lists cut at their end -/

section Cut

variable {β : Type} {p : β → Bool} {x : β} {xs ys : List β}

theorem rdropWhile_append_of_all (h : ∀ y ∈ ys, p y = true) (xs : List β) :
    (xs ++ ys).rdropWhile p = xs.rdropWhile p := by
  rw [List.rdropWhile, List.reverse_append,
    List.dropWhile_append_of_pos fun y hy => h y (List.mem_reverse.mp hy), List.rdropWhile]

theorem rdropWhile_append_of_exists (h : ∃ y ∈ ys, p y = false) (xs : List β) :
    (xs ++ ys).rdropWhile p = xs ++ ys.rdropWhile p := by
  have hsome : (ys.reverse.dropWhile p).isEmpty = false := by
    obtain ⟨y, hy, hp⟩ := h
    refine Bool.eq_false_iff.mpr fun hempty => Bool.eq_false_iff.mp hp ?_
    exact List.dropWhile_eq_nil_iff.mp (List.isEmpty_iff.mp hempty) y (List.mem_reverse.mpr hy)
  rw [List.rdropWhile, List.reverse_append, List.dropWhile_append, hsome, if_neg Bool.false_ne_true,
    List.reverse_append, List.reverse_reverse, List.rdropWhile]

theorem rdropWhile_cons (h : p x = false) (xs : List β) :
    (x :: xs).rdropWhile p = x :: xs.rdropWhile p := by
  by_cases hall : ∀ y ∈ xs, p y = true
  · rw [← List.singleton_append, rdropWhile_append_of_all hall, List.rdropWhile_eq_nil_iff.mpr hall,
      List.rdropWhile_singleton, h, if_neg Bool.false_ne_true]
  · rw [← List.singleton_append, rdropWhile_append_of_exists (by simpa using hall),
      List.singleton_append]

end Cut

end Text
end LoosePatch
