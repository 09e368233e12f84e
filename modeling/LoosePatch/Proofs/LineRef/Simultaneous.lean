import LoosePatch.Proofs.LineRef.Faults
import LoosePatch.Proofs.LineRef.Kept
import LoosePatch.Proofs.LineRef.Trace
import Mathlib.Algebra.Ring.Nat
import Mathlib.Data.List.Pairwise

/-!
Line edits that do not meet. Made one after the other from the bottom up they are one change: every
block stands in the file as it was, in place of its lines or in its gap, in whatever order the edits
were given (`applyLineEdits_simultaneous`).
-/

namespace LoosePatch

namespace LineOutcome

variable {done : LineOutcome} {made : List MadeEdit}

theorem lines_foldl_make (done : LineOutcome) (made : List MadeEdit) :
    (made.foldl make done).lines =
      (made.map MadeEdit.splice).foldl Splice.apply done.lines := by
  induction made generalizing done with
  | nil => rfl
  | cons m made ih => exact ih (done.make m)

/-- Made from the bottom up, edits that lie one below the other are one change. -/
theorem lines_foldl_make_of_stacked {cursor : Nat}
    (h : Stacked done.lines.length cursor (made.reverse.map MadeEdit.region)) :
    (made.foldl make done).lines = done.lines.take cursor ++
      assemble done.lines cursor (made.reverse.map MadeEdit.region) := by
  have hsplices : Stacked done.lines.length cursor
      ((made.reverse.map MadeEdit.splice).map Splice.region) := by
    rwa [List.map_map]
  have hfold := foldr_apply hsplices
  rw [List.map_map] at hfold
  rw [lines_foldl_make, ← List.foldr_reverse, ← List.map_reverse]
  exact hfold

theorem added_foldl_make (done : LineOutcome) (made : List MadeEdit) :
    (made.foldl make done).added = done.added + (made.map (·.block.length)).sum := by
  induction made generalizing done with
  | nil => rfl
  | cons m made ih =>
    rw [List.foldl_cons, ih, List.map_cons, List.sum_cons, ← Nat.add_assoc]
    rfl

theorem removed_foldl_make (done : LineOutcome) (made : List MadeEdit) :
    (made.foldl make done).removed = done.removed + (made.map (·.edit.count)).sum := by
  induction made generalizing done with
  | nil => rfl
  | cons m made ih =>
    rw [List.foldl_cons, ih, List.map_cons, List.sum_cons, ← Nat.add_assoc]
    rfl

theorem firstChanged_foldl_make {k : Nat} (hfirst : done.firstChanged = some (k + 1)) :
    ∃ least, (made.foldl make done).firstChanged = some (least + 1) ∧ least ≤ k ∧
      (∀ m ∈ made, least ≤ m.edit.place) ∧ (least = k ∨ ∃ m ∈ made, m.edit.place = least) := by
  induction made generalizing done k with
  | nil => exact ⟨k, hfirst, Nat.le_refl k, by simp, .inl rfl⟩
  | cons m made ih =>
    have hnext : (done.make m).firstChanged = some (min k m.edit.place + 1) := by
      simp only [make, hfirst, Option.map_some, Option.getD_some]
      congr 1
      omega
    obtain ⟨least, hleast, hle, hall, hone⟩ := ih hnext
    refine ⟨least, hleast, by omega, List.forall_mem_cons.mpr ⟨by omega, hall⟩, ?_⟩
    rcases hone with heq | ⟨m', hm', heq⟩
    · rcases Nat.le_total k m.edit.place with hk | hk
      · exact .inl (by omega)
      · exact .inr ⟨m, List.mem_cons_self, by omega⟩
    · exact .inr ⟨m', List.mem_cons_of_mem m hm', heq⟩

/-- The first changed line is that of the uppermost edit. -/
theorem firstChanged_of_made (lines : List Text) (h : made ≠ []) :
    ∃ least, (made.foldl make { lines }).firstChanged = some (least + 1) ∧
      (∀ m ∈ made, least ≤ m.edit.place) ∧ ∃ m ∈ made, m.edit.place = least := by
  cases made with
  | nil => exact absurd rfl h
  | cons m made =>
    obtain ⟨least, hleast, hle, habove, hone⟩ :=
      @firstChanged_foldl_make (make { lines } m) made m.edit.place rfl
    refine ⟨least, hleast, List.forall_mem_cons.mpr ⟨hle, habove⟩, ?_⟩
    rcases hone with rfl | ⟨m', hm', rfl⟩
    · exact ⟨m, List.mem_cons_self, rfl⟩
    · exact ⟨m', List.mem_cons_of_mem m hm', rfl⟩

end LineOutcome

namespace TargetEdit

variable {file : List Text} {edits : List TargetEdit} {e x y : TargetEdit}

/-! ## Edits that do not meet -/

/-- No line is replaced by two edits; and what is inserted goes above or below the lines that
another edit replaces, and is not addressed by the first of them. -/
structure Separate (edits : List TargetEdit) : Prop where
  disjoint : edits.Pairwise Disjoint
  outside : ∀ x ∈ edits, ∀ y ∈ edits, x.target.isInsertion = true → y.target.isInsertion = false →
    x.place ≤ y.target.first - 1 ∨ y.target.last ≤ x.place
  beside : ∀ x ∈ edits, ∀ y ∈ edits, ∀ ref, x.target = .before ref → y.target.isInsertion = false →
    ref.line ≠ y.target.first

/-- Where an insertion goes: below the line it names, or above it. -/
theorem place_of_insertion (h : e.target.isInsertion = true) :
    e.target.rank = 0 ∧ e.place = e.target.last ∨
      (∃ ref, e.target = .before ref ∧ ref.line = e.target.last) ∧ e.target.rank = 2 ∧
        e.place = e.target.last - 1 := by
  cases htarget : e.target with
  | after ref => exact .inl ⟨rfl, by simp [place, htarget, LineTarget.last]⟩
  | before ref => exact .inr ⟨⟨ref, rfl, rfl⟩, rfl, by simp [place, htarget, LineTarget.last]⟩
  | single ref | range ref other => simp [htarget, LineTarget.isInsertion] at h

theorem first_eq_last_of_insertion (h : e.target.isInsertion = true) :
    e.target.first = e.target.last := by
  cases htarget : e.target <;>
    simp [htarget, LineTarget.isInsertion, LineTarget.first, LineTarget.last] at h ⊢

/-- Of two edits that do not meet, the one made first is not above the lines of the other. -/
theorem place_add_count_le_place (hle : le x y = true) (hx : x.Fits file) (hy : y.Fits file)
    (hdisjoint : Disjoint x y)
    (houtside : y.target.isInsertion = true → x.target.isInsertion = false →
      y.place ≤ x.target.first - 1 ∨ x.target.last ≤ y.place) :
    y.place + y.count ≤ x.place := by
  cases hyi : y.target.isInsertion with
  | false =>
    rw [place_add_count hy hyi]
    exact last_le_place hle hdisjoint hx hy hyi
  | true =>
    rw [count_of_isInsertion hyi, Nat.add_zero]
    have hpos := hy.first_pos
    have hlines := hy.first_le_last
    have hlast := last_le_last hle
    have hrank (h : y.target.rank < x.target.rank) := last_lt_last hle h
    cases hxi : x.target.isInsertion with
    | true =>
      rcases place_of_insertion hyi with ⟨hy0, hyp⟩ | ⟨-, hy2, hyp⟩ <;>
        rcases place_of_insertion hxi with ⟨hx0, hxp⟩ | ⟨-, hx2, hxp⟩ <;> omega
    | false =>
      have hx1 := rank_of_replacement hxi
      rw [place_of_replacement hxi]
      rcases houtside hyi hxi with h | h
      · exact h
      · rcases place_of_insertion hyi with ⟨hy0, hyp⟩ | ⟨-, hy2, hyp⟩ <;> omega

theorem Fits.place_add_count_le (hfits : e.Fits file) : e.place + e.count ≤ file.length := by
  cases h : e.target.isInsertion with
  | true =>
    rw [count_of_isInsertion h]
    exact hfits.place_le
  | false =>
    rw [place_add_count hfits h]
    exact hfits.last_le

theorem Separate.not_undercuts (h : Separate edits) (hfits : ∀ e ∈ edits, e.Fits file)
    (hx : x ∈ edits) (hy : y ∈ edits) : ¬ x.Undercuts y := by
  rintro ⟨hle, hreplaces⟩
  obtain ⟨hxi, hfirst, hlast⟩ := replaces_eq_true.mp hreplaces
  have hyfits := hfits y hy
  have hpos := hyfits.first_pos
  have hlines := hyfits.first_le_last
  have hbound := last_le_last hle
  cases hyi : y.target.isInsertion with
  | true =>
    have hreach : y.reach = y.target.first := by rw [reach, if_pos hyi]
    have hone := first_eq_last_of_insertion hyi
    have hx1 := rank_of_replacement hxi
    have hrank (h : y.target.rank < x.target.rank) := last_lt_last hle h
    have hout := h.outside y hy x hx hyi hxi
    rcases place_of_insertion hyi with ⟨hy0, hyp⟩ | ⟨⟨ref, hbefore, href⟩, hy2, hyp⟩
    · omega
    · have hne := h.beside y hy x hx ref hbefore hxi
      have hxpos := (hfits x hx).first_pos
      omega
  | false =>
    have hreach : y.reach = y.target.first - 1 := by rw [reach, if_neg (by simp [hyi])]
    -- the first line of the other edit is replaced by this one as well
    have hboth : x.replaces y.target.first = true ∧ y.replaces y.target.first = true :=
      ⟨replaces_eq_true.mpr ⟨hxi, by omega, by omega⟩,
        replaces_eq_true.mpr ⟨hyi, Nat.le_refl _, hlines⟩⟩
    have hxy : x ≠ y := by
      rintro rfl
      omega
    have hsymm : Std.Symm Disjoint := ⟨fun _ _ => Disjoint.symm⟩
    exact h.disjoint.forall hx hy hxy _ hboth

end TargetEdit

/-! ## One change -/

/-- The outcome is the file with every block in place of the lines of its edit or in its gap, the
blocks and the lines that gave way are counted, and the first change is at the uppermost edit. -/
structure LineOutcome.Simultaneous (file : List Text) (edits : List TargetEdit) (done : LineOutcome)
    (made : List MadeEdit) : Prop where
  perm : (made.map MadeEdit.edit).Perm edits
  blocks : ∀ m ∈ made, BlockOf m.edit.lines m.block
  stacked : Stacked file.length 0 (made.map MadeEdit.region)
  lines_eq : done.lines = assemble file 0 (made.map MadeEdit.region)
  added_eq : done.added = (made.map (·.block.length)).sum
  removed_eq : done.removed = (edits.map (·.count)).sum
  first : ∃ k, done.firstChanged = some (k + 1) ∧ (∀ e ∈ edits, k ≤ e.place) ∧
    (∃ e ∈ edits, e.place = k) ∧ done.lines.take k = file.take k

namespace TargetEdit

variable {file : List Text} {edits : List TargetEdit} {done : LineOutcome} {made : List MadeEdit}

/-- Of edits that do not meet, each is made above those that are made before it. -/
theorem Separate.pairwise_mergeSort (h : Separate edits) (hfits : ∀ e ∈ edits, e.Fits file) :
    (edits.mergeSort le).Pairwise fun x y => y.place + y.count ≤ x.place := by
  have hperm : (edits.mergeSort le).Perm edits := List.mergeSort_perm _ _
  have hdisjoint := hperm.symm.pairwise h.disjoint Disjoint.symm
  refine ((pairwise_mergeSort_le edits).and hdisjoint).imp_of_mem fun {x y} hx hy hxy => ?_
  have hx' := hperm.mem_iff.mp hx
  have hy' := hperm.mem_iff.mp hy
  exact place_add_count_le_place hxy.1 (hfits x hx') (hfits y hy') hxy.2 (h.outside y hy' x hx')

/-- Edits of which each is made above those before it lie one below the other, from the last that is
made to the first. -/
theorem stacked_reverse {n cursor : Nat} (hcursor : cursor ≤ n)
    (hin : ∀ e ∈ made.map MadeEdit.edit, cursor ≤ e.place ∧ e.place + e.count ≤ n)
    (hmade : (made.map MadeEdit.edit).Pairwise fun x y => y.place + y.count ≤ x.place) :
    Stacked n cursor (made.reverse.map MadeEdit.region) := by
  refine Stacked.of_pairwise hcursor ?_ ?_
  · intro r hr
    obtain ⟨m, hm, rfl⟩ := List.mem_map.mp hr
    obtain ⟨hplace, hend⟩ := hin m.edit (List.mem_map_of_mem (List.mem_reverse.mp hm))
    exact ⟨hplace, Nat.le_add_right _ _, hend⟩
  · rw [List.pairwise_map] at hmade
    exact List.pairwise_map.mpr (List.pairwise_reverse.mpr hmade)

theorem Separate.stacked_reverse (h : Separate edits) (hfits : ∀ e ∈ edits, e.Fits file)
    (hmade : made.map MadeEdit.edit = edits.mergeSort le) :
    Stacked file.length 0 (made.reverse.map MadeEdit.region) := by
  refine TargetEdit.stacked_reverse (Nat.zero_le _) ?_ (hmade ▸ h.pairwise_mergeSort hfits)
  intro e he
  rw [hmade, List.mem_mergeSort] at he
  exact ⟨Nat.zero_le _, (hfits e he).place_add_count_le⟩

/-- Edits of lines as they are that do not meet are made, one above the other. -/
theorem Separate.applyLineEdits_makes {given : List LineEdit}
    (hread : given.mapM LineEdit.read = .ok edits) (hcurrent : ∀ e ∈ edits, e.Current file)
    (h : Separate edits) : ∃ done made, applyLineEdits file given = .ok done ∧
      made.map MadeEdit.edit = edits.mergeSort le ∧ Makes { lines := file } made done := by
  have hfits : ∀ e ∈ edits, e.Fits file := fun e he => (hcurrent e he).toFits
  obtain ⟨done, hrun⟩ := mergeSort_run_eq_ok hfits fun x hx y hy => h.not_undercuts hfits hx hy
  obtain ⟨made, hmade, hmakes⟩ := run_iff_makes.mp hrun
  exact ⟨done, made, (applyLineEdits_of_current hread hcurrent).trans hrun, hmade, hmakes⟩

end TargetEdit

open TargetEdit in
/-- Line edits of lines as they are that do not meet are one change, in whatever order they are
given. -/
theorem applyLineEdits_simultaneous {file : List Text} {given : List LineEdit}
    {edits : List TargetEdit} (hread : given.mapM LineEdit.read = .ok edits) (hne : edits ≠ [])
    (hcurrent : ∀ e ∈ edits, e.Current file) (h : Separate edits) :
    ∃ done made, applyLineEdits file given = .ok done ∧ done.Simultaneous file edits made := by
  have hfits : ∀ e ∈ edits, e.Fits file := fun e he => (hcurrent e he).toFits
  have hperm : (edits.mergeSort le).Perm edits := List.mergeSort_perm _ _
  obtain ⟨done, made, hdone, hmade, hmakes⟩ := h.applyLineEdits_makes hread hcurrent
  obtain rfl := hmakes.eq_foldl
  refine ⟨_, made.reverse, hdone, ?_⟩
  have hstacked := h.stacked_reverse hfits hmade
  have hmap : (made.map MadeEdit.edit).Perm edits := hmade ▸ hperm
  have hmade_ne : made ≠ [] := by
    rintro rfl
    exact hne (List.nil_perm.mp hmap)
  refine {
    perm := ?_
    blocks := fun m hm => hmakes.blocks m (List.mem_reverse.mp hm)
    stacked := hstacked
    lines_eq := ?_
    added_eq := ?_
    removed_eq := ?_
    first := ?_ }
  · rw [List.map_reverse]
    exact (List.reverse_perm _).trans hmap
  · rw [LineOutcome.lines_foldl_make_of_stacked hstacked, List.take_zero, List.nil_append]
  · rw [LineOutcome.added_foldl_make, Nat.zero_add, List.map_reverse, List.sum_reverse]
  · rw [LineOutcome.removed_foldl_make, Nat.zero_add, ← (hmap.map _).sum_nat, List.map_map]
    rfl
  · obtain ⟨k, hk, habove, hone⟩ := LineOutcome.firstChanged_of_made file hmade_ne
    have habove' : ∀ e ∈ edits, k ≤ e.place := by
      intro e he
      obtain ⟨m, hm, rfl⟩ := List.mem_map.mp (hmap.mem_iff.mpr he)
      exact habove m hm
    obtain ⟨m, hm, rfl⟩ := hone
    have hedit : m.edit ∈ edits := hmap.mem_iff.mp (List.mem_map_of_mem hm)
    refine ⟨_, hk, habove', ⟨_, hedit, rfl⟩, ?_⟩
    exact run_take (fun e he => habove' e (hperm.mem_iff.mp he)) (hfits _ hedit).place_le
      (run_iff_makes.mpr ⟨made, hmade, hmakes⟩)

open TargetEdit in
/-- Two lines replaced and a line inserted right above them, after one above the file. -/
theorem applyLineEdits_simultaneous_three :
    ∃ done edits made, applyLineEdits [['a'], ['b'], ['c']]
        [⟨"..1:03a9".toList, ['h']⟩, ⟨"2:c19f..3:4670".toList, ['x']⟩,
          ⟨"1:03a9..".toList, ['m']⟩] = .ok done ∧
      (∀ e ∈ edits, e.Current [['a'], ['b'], ['c']]) ∧ Separate edits ∧ edits.length = 3 ∧
      done.Simultaneous [['a'], ['b'], ['c']] edits made := by
  let before : TargetEdit := ⟨.before ⟨1, "03a9".toList⟩, [['h']]⟩
  let range : TargetEdit := ⟨.range ⟨2, "c19f".toList⟩ ⟨3, "4670".toList⟩, [['x']]⟩
  let after : TargetEdit := ⟨.after ⟨1, "03a9".toList⟩, [['m']]⟩
  have ha : LineRef.hashOf 1 ['a'] = "03a9".toList := by decide +kernel
  have hb : LineRef.hashOf 2 ['b'] = "c19f".toList := by decide +kernel
  have hc : LineRef.hashOf 3 ['c'] = "4670".toList := by decide +kernel
  have hread : [(⟨"..1:03a9".toList, ['h']⟩ : LineEdit), ⟨"2:c19f..3:4670".toList, ['x']⟩,
      ⟨"1:03a9..".toList, ['m']⟩].mapM LineEdit.read = .ok [before, range, after] := by
    decide +kernel
  have hcurrent : ∀ e ∈ [before, range, after], e.Current [['a'], ['b'], ['c']] := by
    simp only [List.forall_mem_cons, List.not_mem_nil, false_implies, implies_true, and_true]
    refine ⟨⟨⟨by decide, by decide, by decide⟩, by simp [before, LineTarget.refs, ha], by decide⟩,
      ⟨⟨by decide, by decide, by decide⟩, by simp [range, LineTarget.refs, hb, hc], by decide⟩,
      ⟨⟨by decide, by decide, by decide⟩, by simp [after, LineTarget.refs, ha], by decide⟩⟩
  have hseparate : Separate [before, range, after] := by
    refine ⟨?_, by decide, ?_⟩
    · simp [TargetEdit.Disjoint, before, range, after, replaces, LineTarget.isInsertion]
    · simp [before, range, after, LineTarget.first, LineTarget.isInsertion]
  obtain ⟨done, made, hdone, hmade⟩ :=
    applyLineEdits_simultaneous hread (by simp) hcurrent hseparate
  exact ⟨done, _, made, hdone, hcurrent, hseparate, rfl, hmade⟩

end LoosePatch
