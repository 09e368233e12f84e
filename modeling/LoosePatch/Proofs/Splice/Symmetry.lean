import LoosePatch.Proofs.Splice.Sharing

/-!
Conflicts whatever the order of the hunks. Which of two hunks is the upper one is up to their ranges,
so that hunks are in no conflict if every two of them agree (`floors_isOk_iff`); and the beginning of
a splice is found in the ranges of all hunks (`beginning_eq_opening`).
-/

namespace LoosePatch.Located

variable {α : Type}

/-- The first hunk is the upper one in the file, whatever their numbers. -/
def isAbove (x y : Located α) : Bool :=
  x.start < y.start || (x.start == y.start && x.stop < y.stop)

/-- The lower hunk begins below the upper one, or both share lines without a conflict. -/
def Clear (upper lower : Located α) : Prop :=
  upper.stop ≤ lower.start ∨ conflict? upper lower = .ok none

/-- Two hunks are in no conflict, whichever is the upper one. -/
def Agree (x y : Located α) : Prop :=
  (y.isAbove x = false → Clear x y) ∧ (x.isAbove y = false → Clear y x)

theorem Agree.symm {x y : Located α} (h : Agree x y) : Agree y x := ⟨h.2, h.1⟩

variable {file : List Text} {floors : Floors} {u x y lower : Located α}
  {above rest others located : List (Located α)}

theorem isAbove_eq_true : x.isAbove y = true ↔
    x.start < y.start ∨ x.start = y.start ∧ x.stop < y.stop := by
  simp [isAbove]

theorem isAbove_eq_false : x.isAbove y = false ↔
    y.start < x.start ∨ y.start = x.start ∧ y.stop ≤ x.stop := by
  rw [← Bool.not_eq_true, isAbove_eq_true]
  omega

theorem isAbove_of_le (h : le x y = true) : y.isAbove x = false := by
  simp only [le, Bool.or_eq_true, Bool.and_eq_true, decide_eq_true_eq, beq_iff_eq] at h
  rw [isAbove_eq_false]
  omega

/-- Of two hunks with one range, one is in conflict with the other if this is with it. -/
theorem Clear.symm_of_range (h : Clear x y) (hstart : x.start = y.start) (hstop : x.stop = y.stop) :
    Clear y x := by
  rcases h with hbelow | hshares
  · left
    omega
  · have hlt := (conflict?_eq_none hshares).stop_lt
    omega

/-- Hunks in file order are in no conflict if they agree. -/
theorem clear_iff_agree (hle : le x y = true) : Clear x y ↔ Agree x y := by
  have habove := isAbove_of_le hle
  constructor
  · intro h
    refine ⟨fun _ => h, fun hnot => ?_⟩
    rw [isAbove_eq_false] at habove hnot
    exact h.symm_of_range (by omega) (by omega)
  · exact fun h => h.1 habove

/-! ## Whether there are floors -/

theorem floor?_isOk_iff {given : Option Nat} :
    (∃ floor, floor? file lower others given = .ok floor) ↔ ∀ u ∈ others, Clear u lower := by
  induction others generalizing given with
  | nil => exact iff_of_true ⟨given, rfl⟩ (by simp)
  | cons u others ih =>
    rw [floor?, List.forall_mem_cons]
    by_cases hbelow : u.stop ≤ lower.start
    · rw [if_pos hbelow, ih]
      exact (and_iff_right (.inl hbelow)).symm
    · rw [if_neg hbelow]
      constructor
      · rintro ⟨floor, h⟩
        obtain ⟨found, hfound, h⟩ := bind_eq_ok.mp h
        cases found with
        | some line => cases h
        | none => exact ⟨.inr hfound, ih.mp ⟨floor, h⟩⟩
      · rintro ⟨hclear, hothers⟩
        obtain ⟨floor, h⟩ := ih.mpr hothers
        exact ⟨floor, bind_eq_ok.mpr ⟨none, hclear.resolve_left hbelow, h⟩⟩

theorem floorsBelow_isOk_iff :
    (∃ out, floorsBelow file above floors rest = .ok out) ↔
      (∀ x ∈ rest, ∀ u ∈ above, Clear u x) ∧ rest.Pairwise Clear := by
  induction rest generalizing above floors with
  | nil => exact iff_of_true ⟨floors, rfl⟩ ⟨by simp, .nil⟩
  | cons x rest ih =>
    rw [floorsBelow, List.pairwise_cons, List.forall_mem_cons]
    constructor
    · rintro ⟨out, h⟩
      obtain ⟨floor, hfloor, h⟩ := bind_eq_ok.mp h
      obtain ⟨habove, hrest⟩ := ih.mp ⟨out, h⟩
      refine ⟨⟨floor?_isOk_iff.mp ⟨floor, hfloor⟩, ?_⟩, ?_, hrest⟩
      · intro y hy u hu
        exact habove y hy u (List.mem_append_left _ hu)
      · intro y hy
        exact habove y hy x (List.mem_append_right _ (List.mem_singleton_self x))
    · rintro ⟨⟨hx, habove⟩, hbelow, hrest⟩
      obtain ⟨floor, hfloor⟩ := floor?_isOk_iff.mpr hx
      have hall : ∀ y ∈ rest, ∀ u ∈ above ++ [x], Clear u y := by
        intro y hy u hu
        rcases List.mem_append.mp hu with hu | hu
        · exact habove y hy u hu
        · rw [List.mem_singleton.mp hu]
          exact hbelow y hy
      obtain ⟨out, h⟩ := ih.mpr ⟨hall, hrest⟩
      exact ⟨out, bind_eq_ok.mpr ⟨floor, hfloor, h⟩⟩

theorem le_total (x y : Located α) : (le x y || le y x) = true := by
  simp only [le, Bool.or_eq_true, Bool.and_eq_true, decide_eq_true_eq, beq_iff_eq]
  omega

theorem le_trans (x y z : Located α) (hxy : le x y = true) (hyz : le y z = true) :
    le x z = true := by
  simp only [le, Bool.or_eq_true, Bool.and_eq_true, decide_eq_true_eq, beq_iff_eq] at *
  omega

theorem pairwise_mergeSort_le (located : List (Located α)) :
    (located.mergeSort le).Pairwise fun x y => le x y = true :=
  List.pairwise_mergeSort le_trans le_total located

/-- There are floors if the hunks agree two by two. -/
theorem floors_isOk_iff :
    (∃ floors, Located.floors file located = .ok floors) ↔ located.Pairwise Agree := by
  have hperm : (located.mergeSort le).Perm located := List.mergeSort_perm _ _
  rw [Located.floors, floorsBelow_isOk_iff, ← hperm.pairwise_iff fun h => Agree.symm h]
  rw [and_iff_right (by simp)]
  have hsorted := pairwise_mergeSort_le located
  constructor
  · intro h
    exact (h.and hsorted).imp fun h => (clear_iff_agree h.2).mp h.1
  · intro h
    exact (h.and hsorted).imp fun h => (clear_iff_agree h.2).mpr h.1

/-! ## Where splices begin -/

/-- The end of the lowest of the hunks above, but not above the hunk's own start. -/
def opening (located : List (Located α)) (x : Located α) : Nat :=
  ((located.filter (·.isAbove x)).map stop).foldr max x.start

theorem opening_le_iff {n : Nat} :
    opening located x ≤ n ↔ x.start ≤ n ∧ ∀ u ∈ located, u.isAbove x = true → u.stop ≤ n := by
  induction located with
  | nil => simp [opening]
  | cons u located ih =>
    rw [List.forall_mem_cons]
    cases habove : u.isAbove x with
    | false => simpa [opening, habove] using ih
    | true =>
      simp only [opening, List.filter_cons, habove, if_true, List.map_cons, List.foldr_cons,
        Nat.max_le] at ih ⊢
      rw [ih]
      tauto

/-- In file order, a hunk begins below all hunks that come before it, at its own start or at the end
of one that is above it. -/
theorem sorted_begins (hnumbers : (located.map number).Nodup)
    (hfits : ∀ x ∈ located, x.placement.Fits file x.hunk)
    (h : Located.floors file located = .ok floors) :
    (located.mergeSort le).Pairwise (fun u x => u.stop ≤ beginning floors x) ∧
    ∀ x ∈ located, beginning floors x ≤ x.stop ∧ (beginning floors x = x.start ∨
      ∃ u ∈ located, Shares u x ∧ beginning floors x = u.stop) := by
  have hperm : (located.mergeSort le).Perm located := List.mergeSort_perm _ _
  obtain ⟨-, -, hbelow, hbegin⟩ :=
    floorsBelow_spec ((hperm.map number).nodup_iff.mpr hnumbers) (fun _ _ => rfl) h
  refine ⟨hbelow, fun x hx => ?_⟩
  rcases hbegin x (hperm.mem_iff.mpr hx) with hstart | ⟨u, hu, hmeet, hshares, hstop⟩
  · exact ⟨(begins_beginning (hfits x hx) (.inl hstart)).le_stop (hfits x hx), .inl hstart⟩
  · have hbegins := begins_beginning (hfits x hx) (.inr ⟨u, hmeet, hshares, hstop⟩)
    exact ⟨hbegins.le_stop (hfits x hx), .inr ⟨u, hperm.mem_iff.mp hu, hshares, hstop⟩⟩

/-- The beginning of a hunk's splice is found without the numbers of the hunks. -/
theorem beginning_eq_opening (hnumbers : (located.map number).Nodup)
    (hfits : ∀ x ∈ located, x.placement.Fits file x.hunk)
    (h : Located.floors file located = .ok floors) (hx : x ∈ located) :
    beginning floors x = opening located x := by
  obtain ⟨hbelow, hbegin⟩ := sorted_begins hnumbers hfits h
  have hsorted := hbelow.and (pairwise_mergeSort_le located)
  have hmem {y : Located α} (hy : y ∈ located) : y ∈ located.mergeSort le := List.mem_mergeSort.mpr hy
  have hirrefl (y : Located α) : y.isAbove y = false := isAbove_eq_false.mpr (.inr ⟨rfl, le_rfl⟩)
  have hend : ∀ u ∈ located, u.isAbove x = true → u.stop ≤ beginning floors x := by
    have habove : (located.mergeSort le).Pairwise fun u y =>
        u.isAbove y = true → u.stop ≤ beginning floors y := hsorted.imp fun h _ => h.1
    intro u hu
    refine habove.forall_of_forall_of_flip ?_ ?_ (hmem hu) (hmem hx)
    · intro y _ hself
      rw [hirrefl y] at hself
      cases hself
    · refine hsorted.imp fun {a b} hab hba => ?_
      rw [isAbove_of_le hab.2] at hba
      cases hba
  -- A hunk that comes later in file order begins below this one, and does not end above its end.
  have hupper : ∀ u ∈ located, Shares u x → u.isAbove x = true := by
    have hshares : (located.mergeSort le).Pairwise fun u y => Shares u y → u.isAbove y = true := by
      refine hsorted.imp fun {a b} hab hshare => ?_
      have hle := isAbove_eq_false.mp (isAbove_of_le hab.2)
      have hlt := hshare.stop_lt
      rw [isAbove_eq_true]
      omega
    intro u hu
    refine hshares.forall_of_forall_of_flip ?_ ?_ (hmem hu) (hmem hx)
    · exact fun y _ hself => absurd hself.stop_lt (Nat.lt_irrefl _)
    · refine hsorted.imp_of_mem fun {a b} _ hb hab hba => ?_
      have hlt := hba.stop_lt
      have hle := (hbegin b (List.mem_mergeSort.mp hb)).1
      have hend := hab.1
      omega
  refine eq_of_forall_ge_iff fun n => ?_
  rw [opening_le_iff]
  constructor
  · intro hle
    exact ⟨(Nat.le_max_left _ _).trans hle, fun u hu habove => (hend u hu habove).trans hle⟩
  · rintro ⟨hstart, hall⟩
    rcases (hbegin x hx).2 with heq | ⟨u, hu, hshare, heq⟩
    · exact heq ▸ hstart
    · rw [heq]
      exact hall u hu (hupper u hu hshare)

end LoosePatch.Located
