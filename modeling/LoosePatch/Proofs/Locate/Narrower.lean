import LoosePatch.Locate.Narrowing
import Mathlib.Data.List.TakeWhile

/-!
What the narrower views of a hunk leave out. `Narrows` says that a view drops kept lines only, so
that every removed line still has to be found; all three kinds of view do.
-/

namespace LoosePatch

/-- A view of old lines in their order that leaves out nothing but kept lines. -/
structure Narrows (old view : Segment) : Prop where
  sublist : view.Sublist old
  removes : ∀ o ∈ old, o.edit.isRemove = true → o ∈ view
  nonempty : view ≠ []

namespace View

theorem not_isRemove_of_isKeep {e : Edit} (h : e.isKeep = true) : ¬ e.isRemove = true := by
  have hk : e.kind = .keep := beq_iff_eq.mp h
  simp [Edit.isRemove, hk]

/-- A run of kept lines in front is all that the lines before the first other one can be. -/
theorem isKeep_of_mem_takeWhile {old : Segment} {o : OldLine}
    (h : o ∈ old.takeWhile (·.edit.isKeep)) : o.edit.isKeep = true :=
  List.mem_takeWhile_imp (p := fun o : OldLine => o.edit.isKeep) h

/-! ## Removed lines only -/

theorem changedLines?_narrows {old view : Segment} (h : changedLines? old = some view) :
    Narrows old view := by
  obtain ⟨hcond, hview⟩ := Option.ite_none_right_eq_some.mp h
  simp only [Bool.and_eq_true, Bool.not_eq_true', List.all_eq_true] at hcond
  obtain ⟨⟨-, hne⟩, hrest⟩ := hcond
  cases hview
  refine ⟨?_, fun o ho hr => ?_, by simpa using hne⟩
  · exact (List.takeWhile_sublist _).trans (List.dropWhile_sublist _)
  · rw [← List.takeWhile_append_dropWhile (p := fun o : OldLine => o.edit.isKeep) (l := old)] at ho
    rcases List.mem_append.mp ho with ho | ho
    · exact absurd hr (not_isRemove_of_isKeep (isKeep_of_mem_takeWhile ho))
    · rw [← List.takeWhile_append_dropWhile (p := fun o : OldLine => o.edit.isRemove)
        (l := old.dropWhile _)] at ho
      rcases List.mem_append.mp ho with ho | ho
      · exact ho
      · exact absurd hr (not_isRemove_of_isKeep (hrest o ho))

/-! ## Repeated context once -/

theorem repeated?_isKeep {kept rest : Segment} {next : OldLine} {k : Nat}
    (h : repeated? kept next rest = some k) : ∀ o ∈ next :: rest.take k, o.edit.isKeep = true := by
  have hblock := List.find?_some h
  simp only [Bool.and_eq_true, List.all_eq_true] at hblock
  exact hblock.1

theorem repeated?_nil (next : OldLine) (rest : Segment) : repeated? [] next rest = none := rfl

/-- What is already kept stays in front. -/
theorem prefix_collapseInto (kept old : Segment) : kept <+: collapseInto kept old := by
  induction kept, old using collapseInto.induct with
  | case1 kept =>
    have hkept : collapseInto kept [] = kept := collapseInto.eq_1 kept
    exact hkept.symm ▸ List.prefix_rfl
  | case2 kept next rest k hk ih =>
    rw [collapseInto, hk]
    exact ih
  | case3 kept next rest hk ih =>
    rw [collapseInto, hk]
    exact (List.prefix_append _ _).trans ih

theorem collapseInto_sublist (kept old : Segment) :
    (collapseInto kept old).Sublist (kept ++ old) := by
  induction kept, old using collapseInto.induct with
  | case1 kept =>
    have hkept : kept ++ [] = collapseInto kept [] := by rw [collapseInto, List.append_nil]
    exact hkept ▸ List.Sublist.refl (kept ++ [])
  | case2 kept next rest k hk ih =>
    rw [collapseInto, hk]
    have hdrop : (rest.drop k).Sublist (next :: rest) := (List.drop_sublist _ _).cons next
    exact ih.trans (List.Sublist.append_left hdrop kept)
  | case3 kept next rest hk ih =>
    rw [collapseInto, hk]
    simpa using ih

theorem mem_collapseInto {kept old : Segment} {o : OldLine} (h : o ∈ kept ++ old)
    (hr : o.edit.isRemove = true) : o ∈ collapseInto kept old := by
  induction kept, old using collapseInto.induct with
  | case1 kept => rwa [collapseInto, ← List.append_nil kept]
  | case2 kept next rest k hk ih =>
    rw [collapseInto, hk]
    refine ih ?_
    rw [← List.take_append_drop k rest, ← List.cons_append] at h
    rcases List.mem_append.mp h with h | h
    · exact List.mem_append_left _ h
    · rcases List.mem_append.mp h with h | h
      · exact absurd hr (not_isRemove_of_isKeep (repeated?_isKeep hk o h))
      · exact List.mem_append_right _ h
  | case3 kept next rest hk ih =>
    rw [collapseInto, hk]
    exact ih (by simpa using h)

theorem collapsed?_narrows {old view : Segment} (hne : old ≠ []) (h : collapsed? old = some view) :
    Narrows old view := by
  obtain ⟨-, hview⟩ := Option.ite_none_left_eq_some.mp h
  cases hview
  refine ⟨collapseInto_sublist [] old, fun o ho hr => mem_collapseInto ho hr, ?_⟩
  obtain ⟨first, rest, rfl⟩ := List.exists_cons_of_ne_nil hne
  rw [collapseInto, repeated?_nil]
  exact List.ne_nil_of_mem ((prefix_collapseInto [first] rest).subset (List.mem_singleton_self first))

/-! ## Context left out at the ends -/

theorem isKeep_of_mem_take {old : Segment} {front : Nat} (h : front ≤ (trimmable old).1)
    {o : OldLine} (ho : o ∈ old.take front) : o.edit.isKeep = true := by
  have hle : front ≤ (old.takeWhile (·.edit.isKeep)).length := le_trans h (Nat.min_le_left _ _)
  have hlead := List.prefix_iff_eq_take.mp (List.takeWhile_prefix (fun o : OldLine => o.edit.isKeep)
    (l := old))
  have hlead' : o ∈ old.takeWhile (·.edit.isKeep) := by
    rw [hlead]
    exact List.take_subset_take_left _ hle ho
  exact isKeep_of_mem_takeWhile hlead'

theorem isKeep_of_mem_drop {old : Segment} {back : Nat} (h : back ≤ (trimmable old).2)
    {o : OldLine} (ho : o ∈ old.drop (old.length - back)) : o.edit.isKeep = true := by
  let core := old.drop (old.takeWhile (·.edit.isKeep)).length
  have hle : back ≤ (core.reverse.takeWhile (·.edit.isKeep)).length := le_trans h (Nat.min_le_left _ _)
  have hcore : back ≤ core.length := by
    have := (List.takeWhile_prefix (fun o : OldLine => o.edit.isKeep) (l := core.reverse)).length_le
    rw [List.length_reverse] at this
    omega
  have hdrop : old.drop (old.length - back) = core.drop (core.length - back) := by
    rw [List.drop_drop]
    congr 1
    have hlead := (List.takeWhile_sublist (fun o : OldLine => o.edit.isKeep) (l := old)).length_le
    simp only [core, List.length_drop] at hcore ⊢
    omega
  have htrail := List.prefix_iff_eq_take.mp (List.takeWhile_prefix
    (fun o : OldLine => o.edit.isKeep) (l := core.reverse))
  have htrail' : o ∈ core.reverse.takeWhile (·.edit.isKeep) := by
    rw [htrail]
    refine List.take_subset_take_left _ hle ?_
    rw [hdrop] at ho
    rw [List.take_reverse, List.mem_reverse]
    exact ho
  exact isKeep_of_mem_takeWhile htrail'

/-- The trimmed views are all those without some lines at the ends, up to as many as may be left out
there. -/
theorem mem_trimmed {old view : Segment} : view ∈ trimmed old ↔
    ∃ front back, front ≤ (trimmable old).1 ∧ back ≤ (trimmable old).2 ∧ 1 ≤ front + back ∧
      view = (old.take (old.length - back)).drop front ∧ view ≠ [] := by
  simp only [trimmed, List.mem_filter, List.mem_map, List.mem_flatMap, List.mem_filterMap,
    List.mem_range'_1, List.mem_range, Option.ite_none_right_eq_some, Option.some.injEq, Prod.exists,
    Prod.mk.injEq, Bool.not_eq_true', List.isEmpty_eq_false_iff]
  constructor
  · rintro ⟨⟨_, _, ⟨total, htotal, front, hfront, hback, rfl, rfl⟩, rfl⟩, hne⟩
    exact ⟨front, total - front, by omega, hback, by omega, rfl, hne⟩
  · rintro ⟨front, back, hfront, hback, hsome, rfl, hne⟩
    refine ⟨⟨front, back, ?_, rfl⟩, hne⟩
    exact ⟨front + back, by omega, front, by omega, by omega, rfl, by omega⟩

theorem trimmed_narrows {old view : Segment} (h : view ∈ trimmed old) : Narrows old view := by
  obtain ⟨front, back, hlead, hback, -, rfl, hne⟩ := mem_trimmed.mp h
  refine ⟨(List.drop_sublist _ _).trans (List.take_sublist _ _), fun o ho hr => ?_, hne⟩
  rw [← List.take_append_drop (old.length - back) old] at ho
  rcases List.mem_append.mp ho with ho | ho
  · rw [← List.take_append_drop front (old.take _)] at ho
    rcases List.mem_append.mp ho with ho | ho
    · rw [List.take_take, Nat.min_comm, ← List.take_take] at ho
      have ho' : o ∈ old.take front := List.take_subset _ _ ho
      exact absurd hr (not_isRemove_of_isKeep (isKeep_of_mem_take hlead ho'))
    · exact ho
  · exact absurd hr (not_isRemove_of_isKeep (isKeep_of_mem_drop hback ho))

/-- Every narrower view of a hunk leaves out kept lines only. -/
theorem narrowings_narrows {segments : List Segment} {narrowing : Narrowing} {view : Segment}
    (hne : ∀ segment ∈ segments, segment ≠ []) (h : (narrowing, view) ∈ narrowings segments) :
    ∃ old, segments = [old] ∧ Narrows old view := by
  unfold narrowings at h
  split at h
  · rename_i old
    refine ⟨old, rfl, ?_⟩
    simp only [List.mem_append, Option.mem_toList, Option.map_eq_some_iff, Prod.mk.injEq,
      List.mem_map] at h
    rcases h with (⟨view', hview, -, rfl⟩ | ⟨view', hview, -, rfl⟩) | ⟨view', hview, -, rfl⟩
    · exact changedLines?_narrows hview
    · exact collapsed?_narrows (hne old (by simp)) hview
    · exact trimmed_narrows hview
  · cases h

end View
end LoosePatch
