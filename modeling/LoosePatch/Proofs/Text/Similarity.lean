import LoosePatch.Text.Similarity
import Mathlib.Algebra.Order.Field.Basic
import Mathlib.Algebra.Order.Group.Multiset
import Mathlib.Algebra.Order.Ring.Rat

/-!
How far a similarity can be bounded without computing it. A run that is found is common to both texts
(`longest_isCommon`), so the matched characters are characters that the texts share (`matched_le_shared`),
and neither bound is below the ratio.
-/

namespace LoosePatch.Similarity

variable {a b past rest : Text} {row : List Nat} {j n : Nat} {best : Run}

/-! ## The longest common run -/

/-- Both texts end in one run of length `n`. -/
def EndAlike (a b : Text) (n : Nat) : Prop := ∃ run, run.length = n ∧ run <:+ a ∧ run <:+ b

/-- The run stands in both texts. -/
def Run.IsCommon (a b : Text) (r : Run) : Prop :=
  ∃ run, run.length = r.size ∧ run <+: a.drop r.left ∧ run <+: b.drop r.right

/-- The row's lengths are those of runs that end where `past` ends, and at each character of `b`. -/
def IsRow (past b : Text) (row : List Nat) : Prop :=
  ∀ j n, row[j]? = some n → j < b.length ∧ EndAlike past (b.take (j + 1)) n

theorem endAlike_zero (a b : Text) : EndAlike a b 0 := ⟨[], rfl, List.nil_suffix, List.nil_suffix⟩

theorem EndAlike.concat (h : EndAlike a b n) (c : Char) : EndAlike (a ++ [c]) (b ++ [c]) (n + 1) := by
  obtain ⟨run, hlength, ha, hb⟩ := h
  exact ⟨run ++ [c], by rw [List.length_append, hlength]; rfl, List.suffix_append_self_iff.mpr ha,
    List.suffix_append_self_iff.mpr hb⟩

theorem EndAlike.isCommon (h : EndAlike past (b.take j) n) (hj : j ≤ b.length) :
    Run.IsCommon (past ++ rest) b ⟨past.length - n, j - n, n⟩ := by
  obtain ⟨run, rfl, ⟨before, rfl⟩, ⟨before', hb⟩⟩ := h
  have hlength : j - run.length = before'.length := by
    have htake := congrArg List.length hb
    rw [List.length_append, List.length_take, min_eq_left hj] at htake
    omega
  refine ⟨run, rfl, ?_, ?_⟩
  · simp only [List.length_append, Nat.add_sub_cancel, List.append_assoc, List.drop_left]
    exact List.prefix_append run rest
  · rw [← List.take_append_drop j b, ← hb, hlength, List.append_assoc, List.drop_left]
    exact List.prefix_append run _

theorem isRow_zero (b : Text) : IsRow [] b (b.map fun _ => 0) := by
  intro j n hn
  rw [List.getElem?_map] at hn
  obtain ⟨_, hj, rfl⟩ := Option.map_eq_some_iff.mp hn
  exact ⟨(List.getElem?_eq_some_iff.mp hj).1, endAlike_zero _ _⟩

theorem IsRow.next (h : IsRow past b row) (c : Char) : IsRow (past ++ [c]) b (nextRow c b row) := by
  intro j n hn
  obtain ⟨d, m, hd, hm, rfl⟩ := List.getElem?_zipWith_eq_some.mp hn
  refine ⟨(List.getElem?_eq_some_iff.mp hd).1, ?_⟩
  split
  · rename_i heq
    rw [List.take_add_one, hd, Option.toList_some, ← eq_of_beq heq]
    refine EndAlike.concat ?_ c
    cases j with
    | zero =>
      cases hm
      exact endAlike_zero _ _
    | succ j => exact (h j m hm).2
  · exact endAlike_zero _ _

theorem improve_cases (i j : Nat) (row : List Nat) (best : Run) : improve i j row best = best ∨
    ∃ k n, row[k]? = some n ∧ improve i j row best = ⟨i + 1 - n, j + k + 1 - n, n⟩ := by
  induction row generalizing j best with
  | nil => exact .inl rfl
  | cons n row ih =>
    rw [improve]
    obtain heq | ⟨k, m, hm, heq⟩ := ih (j + 1)
      (if best.size < n then ⟨i + 1 - n, j + 1 - n, n⟩ else best)
    · rw [heq]
      split
      · exact .inr ⟨0, n, rfl, rfl⟩
      · exact .inl rfl
    · exact .inr ⟨k + 1, m, hm, by rw [heq, Nat.add_right_comm j 1 k, Nat.add_assoc j k 1]⟩

theorem longestFrom_isCommon (hrow : IsRow past b row) (hbest : best.IsCommon (past ++ rest) b) :
    (longestFrom b past.length rest row best).IsCommon (past ++ rest) b := by
  -- The text moves from `rest` to `past` one character at a time; the row keeps up with `past`.
  induction rest generalizing past row best with
  | nil => exact hbest
  | cons c rest ih =>
    have hnext := hrow.next c
    have hlength : (past ++ [c]).length = past.length + 1 := List.length_append
    have hsplit : past ++ c :: rest = past ++ [c] ++ rest := by rw [List.append_assoc]; rfl
    rw [longestFrom, hsplit, ← hlength]
    refine ih hnext ?_
    obtain heq | ⟨j, n, hn, heq⟩ := improve_cases past.length 0 (nextRow c b row) best
    · rwa [heq, ← hsplit]
    · obtain ⟨hj, hends⟩ := hnext j n hn
      rw [heq, Nat.zero_add, ← hlength]
      exact hends.isCommon hj

theorem longest_isCommon (a b : Text) : (longest a b).IsCommon a b :=
  longestFrom_isCommon (isRow_zero b) ⟨[], rfl, List.nil_prefix, List.nil_prefix⟩

/-- What stands before a run of both texts, the run, and what stands behind it. -/
theorem Run.IsCommon.split {r : Run} (h : r.IsCommon a b) : ∃ run, run.length = r.size ∧
    a = a.take r.left ++ run ++ a.drop (r.left + r.size) ∧
    b = b.take r.right ++ run ++ b.drop (r.right + r.size) := by
  obtain ⟨run, hlength, ha, hb⟩ := h
  have hside : ∀ {s : Text} {k : Nat}, run <+: s.drop k → s = s.take k ++ run ++ s.drop (k + r.size) := by
    intro s k hs
    rw [← hlength, ← List.drop_drop, List.append_assoc, List.prefix_iff_eq_append.mp hs,
      List.take_append_drop]
  exact ⟨run, hlength, hside ha, hside hb⟩

/-! ## Matched characters -/

/-- Every occurrence of a character in one text is paired with at most one in the other. -/
theorem shared_eq_card (a b : Text) : shared a b = ((a : Multiset Char) ∩ b).card := by
  rw [Multiset.coe_inter, Multiset.coe_card]
  induction a generalizing b with
  | nil => rfl
  | cons c a ih =>
    rw [shared, List.contains_eq_mem]
    by_cases hc : c ∈ b
    · rw [if_pos (decide_eq_true hc), ih, List.cons_bagInter_of_mem a hc, List.length_cons]
    · rw [if_neg (by simpa using hc), ih, List.cons_bagInter_of_not_mem a hc]

theorem shared_le_min (a b : Text) : shared a b ≤ min a.length b.length := by
  rw [shared_eq_card]
  exact le_min (Multiset.card_le_card Multiset.inter_le_left) (Multiset.card_le_card Multiset.inter_le_right)

/-- What is shared on either side of a run is shared, and the run with it. -/
theorem shared_append_le (a b a' b' run : Text) :
    shared a b + run.length + shared a' b' ≤ shared (a ++ run ++ a') (b ++ run ++ b') := by
  simp only [shared_eq_card, ← Multiset.coe_add, ← Multiset.coe_card run, ← Multiset.card_add]
  refine Multiset.card_le_card (Multiset.le_inter ?_ ?_)
  · exact add_le_add (add_le_add Multiset.inter_le_left le_rfl) Multiset.inter_le_left
  · exact add_le_add (add_le_add Multiset.inter_le_right le_rfl) Multiset.inter_le_right

theorem matched_le_shared (a b : Text) : matched a b ≤ shared a b := by
  induction a, b using matched.induct with
  | case1 a b i j k hlongest h ihbefore ihafter =>
    obtain ⟨run, hlength, ha, hb⟩ := (longest_isCommon a b).split
    simp only [hlongest] at hlength ha hb
    rw [matched, hlongest]
    simp only [h, and_self, dif_pos]
    calc matched (a.take i) (b.take j) + k + matched (a.drop (i + k)) (b.drop (j + k))
        ≤ shared (a.take i) (b.take j) + run.length + shared (a.drop (i + k)) (b.drop (j + k)) := by
          omega
      _ ≤ shared a b := (shared_append_le ..).trans_eq (by rw [← ha, ← hb])
  | case2 a b i j k hlongest h =>
    rw [matched, hlongest]
    simp only [dif_neg h, Nat.zero_le]

/-! ## Bounds on the ratio -/

theorem ratioOf_mono {count count' : Nat} (h : count ≤ count') (length : Nat) :
    (ratioOf count length : Rat) ≤ ratioOf count' length := by
  unfold ratioOf
  split
  · exact le_rfl
  · exact div_le_div_of_nonneg_right (Nat.cast_le.mpr (Nat.mul_le_mul_left 2 h)) (Nat.cast_nonneg _)

theorem ratio_le_sharedBound (a b : Text) : (ratio a b : Rat) ≤ sharedBound a b :=
  ratioOf_mono (matched_le_shared a b) _

theorem sharedBound_le_lengthBound (a b : Text) : (sharedBound a b : Rat) ≤ lengthBound a b :=
  ratioOf_mono (shared_le_min a b) _

theorem lengthBound_le_one (a b : Text) : (lengthBound a b : Rat) ≤ 1 := by
  unfold lengthBound ratioOf
  split
  · exact le_rfl
  · have hmin : 2 * min a.length b.length ≤ a.length + b.length := by omega
    exact div_le_one_of_le₀ (Nat.cast_le.mpr hmin) (Nat.cast_nonneg _)

theorem similarity_le_one (a b : Text) : (similarity a b : Rat) ≤ 1 := by
  unfold similarity
  split
  · exact le_refl (1 : Rat)
  · exact ((ratio_le_sharedBound a b).trans (sharedBound_le_lengthBound a b)).trans (lengthBound_le_one a b)

/-- A similarity that reaches the floor is never given up. -/
theorem similarityAtLeast_eq {floor : Rat} (h : floor ≤ similarity a b) :
    similarityAtLeast a b floor = similarity a b := by
  by_cases heq : a = b
  · rw [similarityAtLeast, if_pos heq, similarity, if_pos heq]
  · rw [similarity, if_neg heq] at h ⊢
    have hshared : floor ≤ sharedBound a b := h.trans (ratio_le_sharedBound a b)
    have hlength : floor ≤ lengthBound a b := hshared.trans (sharedBound_le_lengthBound a b)
    rw [similarityAtLeast, if_neg heq, if_neg (not_or.mpr ⟨not_lt.mpr hlength, not_lt.mpr hshared⟩)]

end LoosePatch.Similarity
