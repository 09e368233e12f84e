import LoosePatch.Text.Basic

/-!
Line breaks: a line feed, a carriage return, or both in that order end a line. On a screen more
characters do.
-/

namespace LoosePatch.Text

/-- One character from the right: the text so far with line feeds for breaks, and whether the
character to the right was a line feed. -/
private def unifyStep (c : Char) : Text × Bool → Text × Bool
  | (rest, feedFollows) =>
    if c = '\r' then (if feedFollows then rest else '\n' :: rest, false)
    else (c :: rest, c = '\n')

/-- Every line break as a single line feed. -/
def unifyBreaks (s : Text) : Text := (s.foldr unifyStep ([], false)).1

theorem unifyBreaks_of_not_mem {s : Text} (h : '\r' ∉ s) : s.unifyBreaks = s := by
  unfold unifyBreaks
  induction s with
  | nil => rfl
  | cons c s ih =>
    have hc : c ≠ '\r' := fun heq => h (heq ▸ List.mem_cons_self)
    have hs : '\r' ∉ s := fun hmem => h (List.mem_cons_of_mem c hmem)
    rw [List.foldr_cons, unifyStep, if_neg hc, ih hs]

/-- No break is left that holds a carriage return. -/
theorem not_mem_unifyBreaks (s : Text) : '\r' ∉ s.unifyBreaks := by
  unfold unifyBreaks
  induction s with
  | nil => exact List.not_mem_nil
  | cons c s ih =>
    rw [List.foldr_cons, unifyStep]
    split
    · split
      · exact ih
      · exact List.not_mem_cons_of_ne_of_not_mem (by decide) ih
    · rename_i hc
      exact List.not_mem_cons_of_ne_of_not_mem (Ne.symm hc) ih

/-- A text with something in it has something left when its breaks are unified. -/
theorem unifyBreaks_ne_nil {s : Text} (h : s ≠ []) : s.unifyBreaks ≠ [] := by
  unfold unifyBreaks
  induction s with
  | nil => exact absurd rfl h
  | cons c s ih =>
    rw [List.foldr_cons, unifyStep]
    split
    · split
      · refine ih fun hs => ?_
        rename_i hfeed
        rw [hs] at hfeed
        cases hfeed
      · exact List.cons_ne_nil _ _
    · exact List.cons_ne_nil _ _

private theorem feedFollows_eq (s : Text) :
    (s.foldr unifyStep ([], false)).2 = decide (s.head? = some '\n') := by
  cases s with
  | nil => rfl
  | cons c s =>
    rw [List.foldr_cons, unifyStep]
    split
    · rename_i hc
      simp [hc]
    · simp

theorem unifyBreaks_cons {c : Char} (h : c ≠ '\r') (s : Text) :
    unifyBreaks (c :: s) = c :: unifyBreaks s := by
  rw [unifyBreaks, List.foldr_cons, unifyStep, if_neg h, unifyBreaks]

theorem unifyBreaks_return {s : Text} (h : s.head? ≠ some '\n') :
    unifyBreaks ('\r' :: s) = '\n' :: unifyBreaks s := by
  rw [unifyBreaks, List.foldr_cons, unifyStep, if_pos rfl, feedFollows_eq, decide_eq_false h,
    if_neg Bool.false_ne_true, unifyBreaks]

theorem unifyBreaks_return_feed (s : Text) :
    unifyBreaks ('\r' :: '\n' :: s) = '\n' :: unifyBreaks s := by
  have hfeed : decide (('\n' :: s).head? = some '\n') = true := decide_eq_true rfl
  rw [← unifyBreaks_cons (by decide) s, unifyBreaks, List.foldr_cons, unifyStep, if_pos rfl,
    feedFollows_eq, hfeed, if_pos rfl, unifyBreaks]

/-- The lines of a text in which any of the three breaks may end a line. -/
def anyLines (s : Text) : List Text := s.unifyBreaks.lines

/-- The characters besides the carriage return and the line feed that end a row. -/
def endsRow (c : Char) : Bool :=
  let n := c.toNat
  (10 ≤ n && n ≤ 12) || (28 ≤ n && n ≤ 30) || n == 0x85 || n == 0x2028 || n == 0x2029

/-- The rows of a text as a screen shows them. A break at the end of the text opens no new row. -/
def rows (s : Text) : List Text :=
  match (s.unifyBreaks.splitOnP endsRow).reverse with
  | [] :: pieces => pieces.reverse
  | pieces => pieces.reverse

theorem rows_ne_nil {s : Text} (h : s ≠ []) : s.rows ≠ [] := by
  obtain ⟨c, rest, hunified⟩ := List.exists_cons_of_ne_nil (unifyBreaks_ne_nil h)
  obtain ⟨piece, pieces, hrest⟩ := List.exists_cons_of_ne_nil (List.splitOnP_ne_nil endsRow rest)
  have hpieces : s.unifyBreaks.splitOnP endsRow ≠ [[]] := by
    rw [hunified, List.splitOnP_cons_eq_if_modifyHead, hrest]
    split <;> simp
  rw [rows]
  split
  · rename_i heq
    intro hnil
    rw [List.reverse_eq_nil_iff.mp hnil] at heq
    exact hpieces (List.reverse_eq_iff.mp heq)
  · rw [List.reverse_reverse]
    exact List.splitOnP_ne_nil endsRow _

end LoosePatch.Text
