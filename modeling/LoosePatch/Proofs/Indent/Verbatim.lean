import LoosePatch.Indent.Reconcile
import Mathlib.Data.List.Basic

/-!
When added lines go into the file as the hunk has them: the matched lines are the same on both sides,
and no added line is indented in another style than the file.
-/

namespace LoosePatch.Indent

/-! ## Lines of one style -/

/-- Every indented line is indented with the character of the style only. -/
def Uniform (style : IndentStyle) (lines : List Text) : Prop :=
  ∀ line ∈ lines, isIndented line = true → ∀ c ∈ lead line, c = style.char

theorem lead_ne_nil {line : Text} (h : isIndented line = true) : lead line ≠ [] := by
  have hlead := (Bool.and_eq_true_iff.mp h).2
  simpa using hlead

/-- A line indented with one character only has this one and no other. -/
theorem contains_lead {style : IndentStyle} {line : Text} (h : isIndented line = true)
    (hlead : ∀ c ∈ lead line, c = style.char) (d : Char) :
    (lead line).contains d = decide (d = style.char) := by
  rw [Bool.eq_iff_iff, List.contains_iff_mem, decide_eq_true_eq]
  constructor
  · exact hlead d
  · rintro rfl
    obtain ⟨c, hc⟩ := List.exists_mem_of_ne_nil _ (lead_ne_nil h)
    exact hlead c hc ▸ hc

theorem profile_of_uniform {style : IndentStyle} {lines : List Text} (h : Uniform style lines)
    (hsome : ∃ line ∈ lines, isIndented line = true) :
    (profile lines).style = some style ∧ (profile lines).mixed = false := by
  let indented := lines.filter isIndented
  have hne : indented ≠ [] := by
    obtain ⟨line, hline, hindented⟩ := hsome
    exact List.ne_nil_of_mem (List.mem_filter.mpr ⟨hline, hindented⟩)
  have hprofile : (profile lines).style =
        some (if indented.countP hasSpace < indented.countP hasTab then .tabs else .spaces) ∧
      (profile lines).mixed =
        (decide (0 < indented.countP hasSpace) && decide (0 < indented.countP hasTab)) := by
    simp only [profile, indented] at hne ⊢
    rw [if_neg (by simpa using hne)]
    exact ⟨rfl, rfl⟩
  have hcontains (d : Char) {line : Text} (hline : line ∈ indented) :
      (lead line).contains d = decide (d = style.char) := by
    obtain ⟨hmem, hindented⟩ := List.mem_filter.mp hline
    exact contains_lead hindented (h line hmem hindented) d
  rw [hprofile.1, hprofile.2]
  cases style with
  | spaces =>
    have htabs : indented.countP hasTab = 0 := by
      refine List.countP_eq_zero.mpr fun line hline => ?_
      rw [hasTab, hcontains '\t' hline]
      decide
    rw [htabs, if_neg (Nat.not_lt_zero _)]
    exact ⟨rfl, Bool.and_false _⟩
  | tabs =>
    have hspaces : indented.countP hasSpace = 0 := by
      refine List.countP_eq_zero.mpr fun line hline => ?_
      rw [hasSpace, hcontains ' ' hline]
      decide
    have htabs : indented.countP hasTab = indented.length := by
      refine List.countP_eq_length.mpr fun line hline => ?_
      rw [hasTab, hcontains '\t' hline]
      decide
    rw [hspaces, htabs, if_pos (List.length_pos_iff.mpr hne)]
    exact ⟨rfl, rfl⟩

theorem profile_style {style : IndentStyle} {lines : List Text} (h : Uniform style lines) :
    (profile lines).style = none ∨ (profile lines).style = some style := by
  by_cases hsome : ∃ line ∈ lines, isIndented line = true
  · exact .inr (profile_of_uniform h hsome).1
  · have hnil : lines.filter isIndented = [] :=
      List.filter_eq_nil_iff.mpr fun line hline hindented => hsome ⟨line, hline, hindented⟩
    left
    rw [profile, hnil]
    rfl

/-! ## Nothing to reconcile -/

/-- Added lines in the style of the file stay as they are below lines that match as they are. -/
theorem reconcile_eq_added {pairs : List Pair} {added : List Text} {file : Profile}
    (hsame : ∀ p ∈ pairs, p.diff = p.file)
    (hadded : ∀ style, file.style = some style → Uniform style added) :
    reconcile pairs added file = added := by
  have hstyle : (file.style.isNone || (profile added).style.isNone ||
      (profile added).style == file.style) = true := by
    cases hfile : file.style with
    | none => rfl
    | some style =>
      rcases profile_style (hadded style hfile) with hnone | hsome
      · rw [hnone]
        rfl
      · rw [hsome, beq_self_eq_true, Bool.or_true]
  have hverbatim : isVerbatim pairs added file = true := by
    rw [isVerbatim, hstyle, Bool.and_true, List.all_eq_true]
    exact fun p hp => decide_eq_true (hsame p hp)
  unfold reconcile
  extract_lets removed
  rw [hverbatim, Bool.true_or, if_pos rfl]

end LoosePatch.Indent
