import LoosePatch.Proofs.LineRef.Checked

/-!
Line edits one after the other. `TargetEdit.place` and `TargetEdit.count` say where an edit goes and
how many lines give way, and `step_eq_ok` that this is all a step does. Of two edits without a line
that both replace, the one made first is not above the lines of the other (`last_le_place`).
-/

namespace LoosePatch.TargetEdit

/-! ## One edit -/

/-- How many lines stand above the lines of an edit. -/
def place (e : TargetEdit) : Nat :=
  match e.target with
  | .after ref => ref.line
  | .before ref | .single ref | .range ref _ => ref.line - 1

/-- How many lines give way to those of an edit. -/
def count (e : TargetEdit) : Nat :=
  if e.target.isInsertion then 0 else e.target.last - e.target.first + 1

/-- Whether the edit replaces or deletes the line of this number. -/
def replaces (e : TargetEdit) (line : Nat) : Bool :=
  !e.target.isInsertion && (e.target.first ≤ line && line ≤ e.target.last)

variable {file : List Text} {e x y : TargetEdit} {done done' : LineOutcome}

theorem replaces_eq_true {line : Nat} :
    e.replaces line = true ↔
      e.target.isInsertion = false ∧ e.target.first ≤ line ∧ line ≤ e.target.last := by
  simp [replaces]

theorem replaces_of_isInsertion (h : e.target.isInsertion = true) (line : Nat) :
    e.replaces line = false := by
  simp [replaces, h]

theorem count_of_isInsertion (h : e.target.isInsertion = true) : e.count = 0 := by
  simp [count, h]

theorem place_of_replacement (h : e.target.isInsertion = false) : e.place = e.target.first - 1 := by
  cases htarget : e.target <;> simp [place, LineTarget.first, LineTarget.isInsertion, htarget] at h ⊢

theorem place_add_count (hfits : e.Fits file) (h : e.target.isInsertion = false) :
    e.place + e.count = e.target.last := by
  have hpos := hfits.first_pos
  have hle := hfits.first_le_last
  have hcount : e.count = e.target.last - e.target.first + 1 := by simp [count, h]
  rw [place_of_replacement h, hcount]
  omega

theorem Fits.place_le (hfits : e.Fits file) : e.place ≤ file.length := by
  have hle := hfits.first_le_last
  have hlast := hfits.last_le
  cases htarget : e.target <;>
    simp only [place, LineTarget.first, LineTarget.last, htarget] at hle hlast ⊢ <;> omega

theorem change_eq_ok {lines new : List Text} {place count : Nat}
    (h : change lines e = .ok (place, count, new)) : place = e.place ∧ count = e.count := by
  cases htarget : e.target with
  | after ref =>
    simp only [change, htarget] at h
    obtain ⟨anchor, -, h⟩ := bind_eq_ok.mp h
    cases Except.ok.inj h
    simp [TargetEdit.place, TargetEdit.count, LineTarget.isInsertion, htarget]
  | before ref =>
    simp only [change, htarget] at h
    obtain ⟨anchor, -, h⟩ := bind_eq_ok.mp h
    cases Except.ok.inj h
    simp [TargetEdit.place, TargetEdit.count, LineTarget.isInsertion, htarget]
  | single ref =>
    simp only [change, htarget] at h
    obtain ⟨written, -, h⟩ := bind_eq_ok.mp h
    cases Except.ok.inj h
    simp [TargetEdit.place, TargetEdit.count, LineTarget.isInsertion, LineTarget.first,
      LineTarget.last, htarget]
  | range first last =>
    simp only [change, htarget] at h
    obtain ⟨written, -, h⟩ := bind_eq_ok.mp h
    cases Except.ok.inj h
    simp [TargetEdit.place, TargetEdit.count, LineTarget.isInsertion, LineTarget.first,
      LineTarget.last, htarget]

/-- A step puts some lines in place of those that give way, and counts both. -/
theorem step_eq_ok (h : step done e = .ok done') :
    ∃ new, change done.lines e = .ok (e.place, e.count, new) ∧
      done'.lines = done.lines.take e.place ++ new ++ done.lines.drop (e.place + e.count) ∧
      done'.added = done.added + new.length ∧ done'.removed = done.removed + e.count := by
  obtain ⟨⟨place, count, new⟩, hchange, h⟩ := bind_eq_ok.mp h
  obtain ⟨rfl, rfl⟩ := change_eq_ok hchange
  cases Except.ok.inj h
  exact ⟨new, hchange, rfl, rfl, rfl⟩

/-! ## The order of edits -/

theorem le_total (x y : TargetEdit) : (le x y || le y x) = true := by
  simp only [le, Bool.or_eq_true, Bool.and_eq_true, decide_eq_true_eq, beq_iff_eq]
  omega

theorem le_trans (x y z : TargetEdit) (hxy : le x y = true) (hyz : le y z = true) :
    le x z = true := by
  simp only [le, Bool.or_eq_true, Bool.and_eq_true, decide_eq_true_eq, beq_iff_eq] at *
  omega

theorem pairwise_mergeSort_le (edits : List TargetEdit) :
    (edits.mergeSort le).Pairwise fun x y => le x y = true :=
  List.pairwise_mergeSort le_trans le_total edits

theorem last_le_last (h : le x y = true) : y.target.last ≤ x.target.last := by
  simp only [le, Bool.or_eq_true, Bool.and_eq_true, decide_eq_true_eq, beq_iff_eq] at h
  omega

theorem last_lt_last (h : le x y = true) (hrank : y.target.rank < x.target.rank) :
    y.target.last < x.target.last := by
  simp only [le, Bool.or_eq_true, Bool.and_eq_true, decide_eq_true_eq, beq_iff_eq] at h
  omega

theorem rank_of_replacement (h : e.target.isInsertion = false) : e.target.rank = 1 := by
  cases htarget : e.target <;> simp [LineTarget.rank, LineTarget.isInsertion, htarget] at h ⊢

/-- No line is replaced by both edits. -/
def Disjoint (x y : TargetEdit) : Prop :=
  ∀ line, ¬ (x.replaces line = true ∧ y.replaces line = true)

theorem Disjoint.symm (h : Disjoint x y) : Disjoint y x := fun line hline => h line hline.symm

/-- Lines that an edit replaces are above every edit made before, if no line is replaced twice. -/
theorem last_le_place (hle : le x y = true) (hdisjoint : Disjoint x y) (hx : x.Fits file)
    (hy : y.Fits file) (hreplaces : y.target.isInsertion = false) : y.target.last ≤ x.place := by
  have hlast := last_le_last hle
  cases htarget : x.target with
  | after ref =>
    have hplace : x.place = x.target.last := by simp [place, LineTarget.last, htarget]
    omega
  | before ref =>
    have hrank : y.target.rank < x.target.rank := by
      rw [rank_of_replacement hreplaces, htarget]
      exact Nat.lt_add_one 1
    have hlt := last_lt_last hle hrank
    have hplace : x.place = x.target.last - 1 := by simp [place, LineTarget.last, htarget]
    omega
  | single ref | range ref other =>
    have hx' : x.target.isInsertion = false := by simp [htarget, LineTarget.isInsertion]
    rw [place_of_replacement hx']
    by_contra hlt
    have hpos := hx.first_pos
    have hyline := hy.first_le_last
    refine hdisjoint y.target.last ⟨replaces_eq_true.mpr ⟨hx', by omega, hlast⟩, ?_⟩
    exact replaces_eq_true.mpr ⟨hreplaces, hyline, Nat.le_refl _⟩

end LoosePatch.TargetEdit
