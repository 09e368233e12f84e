import LoosePatch.Proofs.Locate.ExactText
import LoosePatch.Proofs.Splice.Faultless

/-!
What conflicts are about. The line that is named belongs to both hunks, and one of them is in the way of
the other: it removes a line that the other spans, adds lines among those, or lies inside it; or the lower
one adds lines right below those that both share, which belong to the upper one (`floors_conflict`).
-/

namespace LoosePatch

theorem Edit.isOld_eq_false_of_isAdd {e : Edit} (h : e.isAdd = true) : e.isOld = false := by
  have hkind : e.kind = .add := beq_iff_eq.mp h
  simp [isOld, hkind]

/-- An edit that adds a line matches none. -/
theorem Placement.Fits.ne_of_isAdd {α : Type} {lines : List Text} {hunk : Hunk} {p : Placement α}
    (h : p.Fits lines hunk) {x : Nat × Nat} (hx : x ∈ p.positions) {j : Nat} {e : Edit}
    (he : hunk.edits[j]? = some e) (hadd : e.isAdd = true) : x.1 ≠ j := by
  rintro rfl
  obtain ⟨e', he', hold⟩ := h.old x hx
  cases he.symm.trans he'
  rw [Edit.isOld_eq_false_of_isAdd hadd] at hold
  cases hold

/-- The old lines of a hunk are matched where they stand in a file. -/
theorem Hunk.fits_placedAt {α : Type} [Score α] {lines : List Text} {hunk : Hunk} {i : Nat}
    (hplain : hunk.hasEllipsis = false) (hne : hunk.oldLines ≠ []) (h : OccursAt lines hunk.oldLines i) :
    (Segment.placedAt hunk.oldEdits i : Placement α).Fits lines hunk := by
  have hview := oldView_of_no_ellipsis hplain hne
  have hsegment : hunk.oldEdits ≠ [] := by
    rw [← List.length_pos_iff, length_oldEdits]
    exact List.length_pos_iff.mpr hne
  have hplaces := (Sequence.mem_equalPlaces id lines _ 0 i hne).mpr ⟨Nat.zero_le i, h⟩
  rw [← texts_oldEdits] at h hplaces
  have hfound : Segment.placedAt hunk.oldEdits i ∈
      View.find (Config.usual Score.decimal : Config α) lines [hunk.oldEdits] 0 := by
    rw [View.find_of_occurs _ hsegment (Nat.zero_le i) h]
    exact List.mem_map_of_mem hplaces
  exact View.find_fits (View.covers_oldView hunk) (hview ▸ hfound)

namespace Located

variable {α : Type}

/-! ## Hunks in each other's way -/

/-- The line lies between the first and the last matched line of the hunk, or is one of them. -/
def Spans (x : Located α) (line : Nat) : Prop := x.start ≤ line ∧ line < x.stop

/-- The line is one that the hunk spans, or the one that added lines alone are put in front of. -/
def Meets (x : Located α) (line : Nat) : Prop :=
  x.Spans line ∨ x.placement.positions = [] ∧ line = x.start

def Removes (x : Located α) (line : Nat) : Prop :=
  ∃ i e, (i, line) ∈ x.placement.positions ∧ x.hunk.edits[i]? = some e ∧ e.isRemove = true

/-- The hunk adds a line somewhere below line `above` and above line `below` of the file. -/
def AddsBetween (x : Located α) (above below : Nat) : Prop :=
  ∃ j e, x.hunk.edits[j]? = some e ∧ e.isAdd = true ∧
    (above < x.start ∨ ∃ y ∈ x.placement.positions, y.1 < j ∧ above ≤ y.2) ∧
    ∃ y ∈ x.placement.positions, j < y.1 ∧ y.2 ≤ below

/-- The range of the hunk is part of that of the other; added lines alone go between two lines of it. -/
def IsInside (x y : Located α) : Prop :=
  y.start ≤ x.start ∧ x.stop ≤ y.stop ∧
    (x.placement.positions = [] → y.start < x.start ∧ x.stop < y.stop)

/-- The first hunk is in the way of the second one. -/
inductive Interferes (x y : Located α) : Prop
  | removes {line : Nat} : x.Removes line → y.Spans line → Interferes x y
  | adds {above below : Nat} : y.Spans above → above < below → y.Spans below →
      x.AddsBetween above below → Interferes x y
  | inside : x.IsInside y → Interferes x y

/-- The lower hunk adds a line after the last of its lines that the upper one spans, and before its first
line below the upper one. -/
def AddsPast (lower upper : Located α) : Prop :=
  ∃ j e, lower.hunk.edits[j]? = some e ∧ e.isAdd = true ∧
    (∃ y ∈ lower.placement.positions, y.1 < j ∧ upper.Spans y.2) ∧
    (∃ y ∈ lower.placement.positions, j < y.1) ∧
    ∀ y ∈ lower.placement.positions, j < y.1 → upper.stop ≤ y.2

/-- What it means that two hunks, the upper one first, are in conflict about a line. Where the lower one
lies inside the upper one, this may be any line that the upper one removes from there on. -/
structure Clash (upper lower : Located α) (line : Nat) : Prop where
  upper_spans : upper.Spans line
  lower_meets : lower.Meets line ∨ lower.IsInside upper ∧ upper.Removes line
  cause : Interferes upper lower ∨ Interferes lower upper ∨ lower.AddsPast upper

/-! ## Two hunks -/

variable {file : List Text} {upper lower : Located α} {line : Nat}

theorem removedIn_eq_some {low high : Nat} {hunk : Hunk} {positions : List (Nat × Nat)}
    (h : removedIn low high hunk positions = .ok (some line)) :
    low ≤ line ∧ line < high ∧
      ∃ i e, (i, line) ∈ positions ∧ hunk.edits[i]? = some e ∧ e.isRemove = true := by
  induction positions with
  | nil => cases h
  | cons x positions ih =>
    have hlater (h : removedIn low high hunk positions = .ok (some line)) : low ≤ line ∧ line < high ∧
        ∃ i e, (i, line) ∈ x :: positions ∧ hunk.edits[i]? = some e ∧ e.isRemove = true := by
      obtain ⟨hlow, hhigh, i, e, hmem, hrest⟩ := ih h
      exact ⟨hlow, hhigh, i, e, List.mem_cons_of_mem x hmem, hrest⟩
    obtain ⟨i, first⟩ := x
    rw [removedIn] at h
    split at h
    · rename_i hin
      obtain ⟨e, he, h⟩ := bind_eq_ok.mp h
      split at h
      · rename_i hremove
        cases h
        exact ⟨hin.1, hin.2, i, e, List.mem_cons_self, fetch_eq_ok.mp he, hremove⟩
      · exact hlater h
    · exact hlater h

theorem exists_line_of_lastMatched {i : Nat} {x : Located α} (h : x.lastMatched = .ok i) :
    ∃ line, (i, line) ∈ x.placement.positions := by
  obtain ⟨⟨j, line⟩, hmem, rfl⟩ := List.mem_map.mp (List.max?_mem (chosen_eq_ok.mp h))
  exact ⟨line, hmem⟩

/-- The ways in which two hunks can be found in conflict, with the line that is named. -/
inductive ConflictAt (upper lower : Located α) : (line : Nat) → Prop
  | removed {line : Nat} : lower.start ≤ line → line < upper.stop →
      upper.Removes line ∨ lower.Removes line → ConflictAt upper lower line
  | inside : lower.stop ≤ upper.stop → ConflictAt upper lower lower.start
  /-- The upper hunk adds a line between two that both share. -/
  | adds {shared last j : Nat} {e : Edit} : upper.stop < lower.stop →
      firstEditFrom lower.start upper = .ok shared → upper.lastMatched = .ok last →
      shared ≤ j → j < last → upper.hunk.edits[j]? = some e → e.isAdd = true →
      ConflictAt upper lower lower.start
  /-- The lower hunk changes something before its first line below the upper one. -/
  | opens {own j : Nat} {e : Edit} : upper.stop < lower.stop →
      firstEditFrom upper.stop lower = .ok own → j < own → lower.hunk.edits[j]? = some e →
      e.isAdd = true ∨ e.isRemove = true → ConflictAt upper lower (upper.stop - 1)

theorem conflictAt_of_eq_some (h : conflict? upper lower = .ok (some line)) :
    ConflictAt upper lower line := by
  unfold conflict? at h
  extract_lets low high rest at h
  obtain ⟨found, hupper, h⟩ := bind_eq_ok.mp h
  cases found with
  | some removed =>
    cases h
    obtain ⟨hlow, hhigh, hremoves⟩ := removedIn_eq_some hupper
    exact .removed hlow hhigh (.inl hremoves)
  | none =>
  obtain ⟨found, hlower, h⟩ := bind_eq_ok.mp h
  cases found with
  | some removed =>
    cases h
    obtain ⟨hlow, hhigh, hremoves⟩ := removedIn_eq_some hlower
    exact .removed hlow hhigh (.inr hremoves)
  | none =>
  simp only at h
  split at h
  · rename_i hstop
    obtain rfl : lower.start = line := Option.some.inj (Except.ok.inj h)
    exact .inside hstop
  rename_i hstop
  have hbelow : upper.stop < lower.stop := Nat.lt_of_not_le hstop
  obtain ⟨shared, hshared, h⟩ := bind_eq_ok.mp h
  obtain ⟨last, hlast, h⟩ := bind_eq_ok.mp h
  split at h
  · rename_i hadds
    obtain rfl : lower.start = line := Option.some.inj (Except.ok.inj h)
    obtain ⟨e, hmem, hadd⟩ := List.any_eq_true.mp hadds
    obtain ⟨k, hk⟩ := List.mem_iff_getElem?.mp hmem
    rw [List.getElem?_drop, List.getElem?_take] at hk
    obtain ⟨hlt, he⟩ := Option.ite_none_right_eq_some.mp hk
    exact .adds hbelow hshared hlast (Nat.le_add_right shared k) hlt he hadd
  obtain ⟨own, hown, h⟩ := bind_eq_ok.mp h
  split at h
  · rename_i hopens
    obtain rfl : upper.stop - 1 = line := Option.some.inj (Except.ok.inj h)
    obtain ⟨e, hmem, hchange⟩ := List.any_eq_true.mp hopens
    obtain ⟨j, hj⟩ := List.mem_iff_getElem?.mp hmem
    rw [List.getElem?_take] at hj
    obtain ⟨hlt, he⟩ := Option.ite_none_right_eq_some.mp hj
    exact .opens hbelow hown hlt he (Bool.or_eq_true_iff.mp hchange)
  · split at h
    · cases h
    · cases h

theorem meets_start {x : Located α} (h : x.placement.Fits file x.hunk) : x.Meets x.start := by
  by_cases hnil : x.placement.positions = []
  · exact .inr ⟨hnil, rfl⟩
  · obtain ⟨y, hy, hstart⟩ := List.mem_map.mp (h.start_mem hnil)
    have hstop : y.2 < x.stop := Placement.lt_stop hy
    exact .inl ⟨Nat.le_refl _, Nat.lt_of_le_of_lt hstart.ge hstop⟩

/-- A lower hunk that ends no lower than the upper one lies inside it. -/
theorem isInside_of_stop_le (hle : le upper lower = true) (hmeet : lower.start < upper.stop)
    (hstop : lower.stop ≤ upper.stop) : lower.IsInside upper := by
  have horder := isAbove_eq_false.mp (isAbove_of_le hle)
  refine ⟨by omega, hstop, fun hnil => ?_⟩
  have hempty : lower.stop = lower.start := Placement.stop_of_nil hnil
  omega

/-- Where the upper hunk adds lines between lines that both share, it is in the way of the lower one. -/
theorem interferes_of_adds (hupper : upper.placement.Fits file upper.hunk)
    (hbelow : upper.stop < lower.stop) {shared last j : Nat} {e : Edit}
    (hshared : firstEditFrom lower.start upper = .ok shared) (hlast : upper.lastMatched = .ok last)
    (hle : shared ≤ j) (hlt : j < last) (he : upper.hunk.edits[j]? = some e) (hadd : e.isAdd = true) :
    Interferes upper lower := by
  obtain ⟨⟨above, habove, hstart⟩, -⟩ := firstEditFrom_eq_ok hshared
  obtain ⟨below, hend⟩ := exists_line_of_lastMatched hlast
  have hne : shared ≠ j := hupper.ne_of_isAdd habove he hadd
  have hlines : above < below := (hupper.lt_iff_lt habove hend).mp (by omega)
  have hstop : below < upper.stop := Placement.lt_stop hend
  exact .adds ⟨hstart, by omega⟩ hlines ⟨by omega, by omega⟩
    ⟨j, e, he, hadd, .inr ⟨_, habove, by omega, Nat.le_refl _⟩, _, hend, hlt, Nat.le_refl _⟩

/-- Where the lower hunk adds lines in front of all that it matches, one of the hunks is in the way of the
other. -/
theorem interferes_of_front (hlower : lower.placement.Fits file lower.hunk) (hle : le upper lower = true)
    (hmeet : lower.start < upper.stop) (hne : lower.placement.positions ≠ []) {j : Nat} {e : Edit}
    (he : lower.hunk.edits[j]? = some e) (hadd : e.isAdd = true)
    (hfront : ∀ y ∈ lower.placement.positions, j < y.1) :
    Interferes upper lower ∨ Interferes lower upper := by
  rcases isAbove_eq_false.mp (isAbove_of_le hle) with hstart | ⟨hstart, hstop⟩
  · obtain ⟨y, hy, hfirst⟩ := List.mem_map.mp (hlower.start_mem hne)
    have habove : lower.start - 1 < lower.start := Nat.sub_one_lt_of_lt hstart
    exact .inr (.adds ⟨by omega, by omega⟩ habove ⟨hstart.le, hmeet⟩
      ⟨j, e, he, hadd, .inl habove, y, hy, hfront y hy, hfirst.le⟩)
  · refine .inl (.inside ⟨hstart.ge, hstop, fun hnil => ?_⟩)
    have hempty : upper.stop = upper.start := Placement.stop_of_nil hnil
    omega

/-- Where the lower hunk changes something before its first line below the upper one, one is in the way of
the other, or the lower one adds lines right below those that both share. -/
theorem interferes_of_opens (hlower : lower.placement.Fits file lower.hunk) (hle : le upper lower = true)
    (hmeet : lower.start < upper.stop) {own j : Nat} {e : Edit}
    (hown : firstEditFrom upper.stop lower = .ok own) (hlt : j < own)
    (he : lower.hunk.edits[j]? = some e) (hchange : e.isAdd = true ∨ e.isRemove = true) :
    Interferes upper lower ∨ Interferes lower upper ∨ lower.AddsPast upper := by
  have horder := isAbove_eq_false.mp (isAbove_of_le hle)
  obtain ⟨⟨ownLine, hownLine, -⟩, hfirst⟩ := firstEditFrom_eq_ok hown
  -- What is matched before the first line below the upper hunk is a line that the upper hunk spans.
  have hspans {y : Nat × Nat} (hy : y ∈ lower.placement.positions) (hbefore : y.1 < own) :
      upper.Spans y.2 := by
    have hstart : lower.start ≤ y.2 := hlower.start_least y hy
    have hstop : ¬ upper.stop ≤ y.2 := fun hpast => Nat.not_le_of_lt hbefore (hfirst y hy hpast)
    exact ⟨by omega, by omega⟩
  rcases hchange with hadd | hremove
  · by_cases habove : ∃ y ∈ lower.placement.positions, y.1 < j
    · obtain ⟨y, hy, hyj⟩ := habove
      have hyspans := hspans hy (hyj.trans hlt)
      by_cases hunder : ∃ z ∈ lower.placement.positions, j < z.1 ∧ z.2 < upper.stop
      · obtain ⟨z, hz, hjz, hstop⟩ := hunder
        have hlines : y.2 < z.2 := (hlower.lt_iff_lt hy hz).mp (hyj.trans hjz)
        exact .inr (.inl (.adds hyspans hlines ⟨hyspans.1.trans hlines.le, hstop⟩
          ⟨j, e, he, hadd, .inr ⟨y, hy, hyj, Nat.le_refl _⟩, z, hz, hjz, Nat.le_refl _⟩))
      · exact .inr (.inr ⟨j, e, he, hadd, ⟨y, hy, hyj, hyspans⟩, ⟨_, hownLine, hlt⟩, fun z hz hjz =>
          Nat.le_of_not_lt fun hstop => hunder ⟨z, hz, hjz, hstop⟩⟩)
    · have hfront : ∀ y ∈ lower.placement.positions, j < y.1 := fun y hy =>
        Nat.lt_of_le_of_ne (Nat.le_of_not_lt fun hyj => habove ⟨y, hy, hyj⟩)
          (hlower.ne_of_isAdd hy he hadd).symm
      exact (interferes_of_front hlower hle hmeet (List.ne_nil_of_mem hownLine) he hadd hfront).imp_right
        .inl
  · obtain ⟨removed, hremoved⟩ := hlower.removes j e he hremove
    exact .inr (.inl (.removes ⟨j, e, hremoved, he, hremove⟩ (hspans hremoved hlt)))

/-- Two hunks in file order that meet clash where they are found in conflict. -/
theorem ConflictAt.clash (h : ConflictAt upper lower line) (hupper : upper.placement.Fits file upper.hunk)
    (hlower : lower.placement.Fits file lower.hunk) (hle : le upper lower = true)
    (hmeet : lower.start < upper.stop) : Clash upper lower line := by
  have horder := isAbove_eq_false.mp (isAbove_of_le hle)
  have hstart : upper.Spans lower.start := ⟨by omega, hmeet⟩
  cases h with
  | removed hlow hhigh hremoves =>
    have hspans : upper.Spans line := ⟨hstart.1.trans hlow, hhigh⟩
    by_cases hin : line < lower.stop
    · have hlower' : lower.Spans line := ⟨hlow, hin⟩
      exact ⟨hspans, .inl (.inl hlower'), hremoves.imp (.removes · hlower') fun hremoves =>
        .inl (.removes hremoves hspans)⟩
    · have hinside := isInside_of_stop_le hle hmeet (by omega)
      refine ⟨hspans, .inr ⟨hinside, hremoves.resolve_right ?_⟩, .inr (.inl (.inside hinside))⟩
      rintro ⟨i, e, hmem, -⟩
      exact hin (Placement.lt_stop hmem)
  | inside hstop =>
    exact ⟨hstart, .inl (meets_start hlower), .inr (.inl (.inside (isInside_of_stop_le hle hmeet hstop)))⟩
  | adds hbelow hshared hlast hj hlt he hadd =>
    exact ⟨hstart, .inl (meets_start hlower),
      .inl (interferes_of_adds hupper hbelow hshared hlast hj hlt he hadd)⟩
  | opens hbelow hown hlt he hchange =>
    exact ⟨⟨by omega, by omega⟩, .inl (.inl ⟨by omega, by omega⟩),
      interferes_of_opens hlower hle hmeet hown hlt he hchange⟩

/-! ## All hunks -/

variable {above rest others located : List (Located α)} {floors : Floors}

/-- What a refusal for two hunks says. -/
def conflictOf (file : List Text) (upper lower : Located α) (line : Nat) : Refusal :=
  .conflict upper.number lower.number line lower.hunk.oldLines ((file.take lower.stop).drop lower.start)

/-- A hunk has no floor if it is in conflict with one of the others that it meets. -/
theorem floor?_eq_refuse (hlower : lower.placement.Fits file lower.hunk)
    (hfits : ∀ u ∈ others, u.placement.Fits file u.hunk) (hle : ∀ u ∈ others, le u lower = true)
    {given : Option Nat} {why : Refusal} (h : floor? file lower others given = refuse why) :
    ∃ upper ∈ others, lower.start < upper.stop ∧ ∃ line, conflict? upper lower = .ok (some line) ∧
      why = conflictOf file upper lower line := by
  induction others generalizing given with
  | nil => cases h
  | cons upper others ih =>
    obtain ⟨hupper, hfits⟩ := List.forall_mem_cons.mp hfits
    obtain ⟨hbefore, hle⟩ := List.forall_mem_cons.mp hle
    have hlater {given : Option Nat} (h : floor? file lower others given = refuse why) :
        ∃ u ∈ upper :: others, lower.start < u.stop ∧
          ∃ line, conflict? u lower = .ok (some line) ∧ why = conflictOf file u lower line := by
      obtain ⟨u, hu, hrest⟩ := ih hfits hle h
      exact ⟨u, List.mem_cons_of_mem upper hu, hrest⟩
    rw [floor?] at h
    split at h
    · exact hlater h
    · rename_i hmeet
      have hmeet : lower.start < upper.stop := Nat.lt_of_not_le hmeet
      cases hfound : conflict? upper lower with
      | error failure =>
        exact (conflict?_failsOnly (P := fun _ => False) hupper hlower hbefore hmeet failure hfound).elim
      | ok found =>
        rw [hfound] at h
        cases found with
        | none => exact hlater h
        | some line =>
          cases h
          exact ⟨upper, List.mem_cons_self, hmeet, line, hfound, rfl⟩

/-- Floors are refused for two hunks in file order that are in conflict. -/
theorem floorsBelow_eq_refuse (hfits : ∀ x ∈ above ++ rest, x.placement.Fits file x.hunk)
    (hsorted : (above ++ rest).Pairwise fun x y => le x y = true) {why : Refusal}
    (h : floorsBelow file above floors rest = refuse why) :
    ∃ upper lower, [upper, lower].Sublist (above ++ rest) ∧ lower.start < upper.stop ∧
      ∃ line, conflict? upper lower = .ok (some line) ∧ why = conflictOf file upper lower line := by
  induction rest generalizing above floors with
  | nil => cases h
  | cons x rest ih =>
    rw [floorsBelow] at h
    cases hfloor : floor? file x above (floors.lookup x.number) with
    | error failure =>
      rw [hfloor] at h
      cases h
      obtain ⟨upper, hupper, hrest⟩ := floor?_eq_refuse
        (hfits x (List.mem_append_right above List.mem_cons_self))
        (fun u hu => hfits u (List.mem_append_left _ hu))
        (fun u hu => (List.pairwise_append.mp hsorted).2.2 u hu x List.mem_cons_self) hfloor
      refine ⟨upper, x, ?_, hrest⟩
      exact (List.singleton_sublist.mpr hupper).append (List.singleton_sublist.mpr List.mem_cons_self)
    | ok floor =>
      rw [hfloor] at h
      have happend : (above ++ [x]) ++ rest = above ++ x :: rest := by
        rw [List.append_assoc, List.singleton_append]
      rw [← happend] at hfits hsorted ⊢
      exact ih hfits hsorted h

/-- **Conflicts are where they are said to be.** If hunks are refused for a conflict, the line that is
named lies in the range of the first of the two hunks, and is one that the second meets as well, unless
that one lies inside the first, which removes the line. One of them removes a line that the other spans,
adds lines among those, or lies inside it; or the second adds lines below those that both share, before
its first line below the first. -/
theorem floors_conflict (hfits : ∀ x ∈ located, x.placement.Fits file x.hunk)
    {first second line : Nat} {expected actual : List Text}
    (h : Located.floors file located = refuse (.conflict first second line expected actual)) :
    ∃ upper lower, [upper, lower].Subperm located ∧ upper.number = first ∧ lower.number = second ∧
      Clash upper lower line := by
  have hperm : (located.mergeSort le).Perm located := List.mergeSort_perm _ _
  have hsorted := pairwise_mergeSort_le located
  obtain ⟨upper, lower, hsublist, hmeet, line', hconflict, hwhy⟩ :=
    floorsBelow_eq_refuse (fun x hx => hfits x (hperm.mem_iff.mp hx)) hsorted h
  rw [List.nil_append] at hsublist
  have hmem {x : Located α} (hx : x ∈ [upper, lower]) : x ∈ located :=
    hperm.mem_iff.mp (hsublist.subset hx)
  have hle : le upper lower = true :=
    List.rel_of_pairwise_cons (hsorted.sublist hsublist) List.mem_cons_self
  obtain ⟨hfirst, hsecond, rfl, -, -⟩ := Refusal.conflict.inj hwhy
  refine ⟨upper, lower, hsublist.subperm.trans hperm.subperm, hfirst.symm, hsecond.symm, ?_⟩
  exact (conflictAt_of_eq_some hconflict).clash (hfits upper (hmem (by simp)))
    (hfits lower (hmem (by simp))) hle hmeet

/-- A line added between two kept lines of the hunk above. -/
theorem floors_conflict_shared_context :
    let file : List Text := [['a'], ['b'], ['c'], ['d']]
    let first : Hunk :=
      { edits := [⟨.remove, ['a']⟩, ⟨.add, ['A']⟩, ⟨.keep, ['b']⟩, ⟨.keep, ['c']⟩] }
    let second : Hunk :=
      { edits := [⟨.keep, ['b']⟩, ⟨.add, ['n']⟩, ⟨.keep, ['c']⟩, ⟨.remove, ['d']⟩] }
    let located : List (Located Rat) :=
      [⟨1, first, Segment.placedAt first.oldEdits 0⟩, ⟨2, second, Segment.placedAt second.oldEdits 1⟩]
    (∀ x ∈ located, x.placement.Fits file x.hunk) ∧
      Located.floors file located =
        refuse (.conflict 1 2 2 [['b'], ['c'], ['d']] [['b'], ['c'], ['d']]) ∧
      ∃ upper lower, [upper, lower].Subperm located ∧ upper.number = 1 ∧ lower.number = 2 ∧
        Clash upper lower 2 := by
  intro file first second located
  have hfits : ∀ x ∈ located, x.placement.Fits file x.hunk :=
    List.forall_mem_cons.mpr ⟨Hunk.fits_placedAt rfl (by decide) (by decide),
      List.forall_mem_singleton.mpr (Hunk.fits_placedAt rfl (by decide) (by decide))⟩
  have hrefused : Located.floors file located =
      refuse (.conflict 1 2 2 [['b'], ['c'], ['d']] [['b'], ['c'], ['d']]) := by
    rw [Located.floors, List.mergeSort_of_pairwise (by decide)]
    decide +kernel
  exact ⟨hfits, hrefused, floors_conflict hfits hrefused⟩

/-- Where one hunk lies inside the other, the line that is named may be below it. -/
example :
    let outer : Hunk := { edits := [⟨.keep, ['a']⟩, ⟨.keep, ['b']⟩, ⟨.remove, ['c']⟩] }
    let inner : Hunk := { edits := [⟨.keep, ['b']⟩, ⟨.add, ['x']⟩] }
    let located : List (Located Rat) :=
      [⟨1, outer, Segment.placedAt outer.oldEdits 0⟩, ⟨2, inner, Segment.placedAt inner.oldEdits 1⟩]
    Located.floors [['a'], ['b'], ['c']] located = refuse (.conflict 1 2 2 [['b']] [['b']]) := by
  cbv

/-- Two hunks that share one line, which both keep, are not in each other's way, unless the lower one adds
lines above it. -/
theorem not_interferes_of_shared_line (hupper : upper.placement.Fits file upper.hunk)
    (hlower : lower.placement.Fits file lower.hunk) (habove : upper.start < lower.start)
    (hshare : upper.stop = lower.start + 1) (hbelow : upper.stop < lower.stop)
    (hfirst : (0, lower.start) ∈ lower.placement.positions)
    (hkeepUpper : ¬ upper.Removes lower.start) (hkeepLower : ¬ lower.Removes lower.start) :
    ¬ (Interferes upper lower ∨ Interferes lower upper) := by
  have hupperStop {y : Nat × Nat} (hy : y ∈ upper.placement.positions) : y.2 < upper.stop :=
    Placement.lt_stop hy
  have hlowerStart {y : Nat × Nat} (hy : y ∈ lower.placement.positions) : lower.start ≤ y.2 :=
    hlower.start_least y hy
  rintro (hways | hways)
  · cases hways with
    | @removes line hremoves hspans =>
      obtain ⟨i, e, hmem, hremove⟩ := hremoves
      obtain rfl : line = lower.start :=
        Nat.le_antisymm (Nat.le_of_lt_succ ((hupperStop hmem).trans_eq hshare)) hspans.1
      exact hkeepUpper ⟨i, e, hmem, hremove⟩
    | @adds first last hspans hlt hspans' hadds =>
      obtain ⟨j, e, -, -, hover, z, hz, hjz, -⟩ := hadds
      obtain ⟨y, hy, hyj, hfirst⟩ := hover.resolve_left fun hstart =>
        Nat.not_lt_of_le (habove.le.trans hspans.1) hstart
      have hlines : y.2 < z.2 := (hupper.lt_iff_lt hy hz).mp (hyj.trans hjz)
      have hstop := hupperStop hz
      have hstart := hspans.1
      omega
    | inside hinside => exact Nat.not_le_of_lt habove hinside.1
  · cases hways with
    | @removes line hremoves hspans =>
      obtain ⟨i, e, hmem, hremove⟩ := hremoves
      obtain rfl : line = lower.start :=
        Nat.le_antisymm (Nat.le_of_lt_succ (hspans.2.trans_eq hshare)) (hlowerStart hmem)
      exact hkeepLower ⟨i, e, hmem, hremove⟩
    | @adds first last hspans hlt hspans' hadds =>
      obtain ⟨j, e, -, -, -, z, hz, hjz, hlast⟩ := hadds
      have hlines : lower.start < z.2 := (hlower.lt_iff_lt hfirst hz).mp (Nat.zero_lt_of_lt hjz)
      have hstop := hspans'.2
      omega
    | inside hinside => exact Nat.not_le_of_lt hbelow hinside.2.1

/-- A conflict does not need one hunk in the way of the other. A line added below the one line that two
hunks share is refused, although no line of the upper hunk comes after it. -/
theorem conflict_below_shared_line :
    ¬ ∀ (file : List Text) (located : List (Located Rat)) (first second line : Nat)
        (expected actual : List Text), (∀ x ∈ located, x.placement.Fits file x.hunk) →
        Located.floors file located = refuse (.conflict first second line expected actual) →
        ∃ x y, [x, y].Subperm located ∧ x.number = first ∧ y.number = second ∧
          x.Meets line ∧ y.Meets line ∧ (Interferes x y ∨ Interferes y x) := by
  intro hclaim
  let file : List Text := [['a'], ['b'], ['c']]
  let first : Hunk := { edits := [⟨.remove, ['a']⟩, ⟨.add, ['A']⟩, ⟨.keep, ['b']⟩] }
  let second : Hunk := { edits := [⟨.keep, ['b']⟩, ⟨.add, ['n']⟩, ⟨.keep, ['c']⟩] }
  let upper : Located Rat := ⟨1, first, Segment.placedAt first.oldEdits 0⟩
  let lower : Located Rat := ⟨2, second, Segment.placedAt second.oldEdits 1⟩
  have hupper : upper.placement.Fits file upper.hunk :=
    Hunk.fits_placedAt rfl (by decide) (by decide)
  have hlower : lower.placement.Fits file lower.hunk :=
    Hunk.fits_placedAt rfl (by decide) (by decide)
  have hfits : ∀ x ∈ [upper, lower], x.placement.Fits file x.hunk :=
    List.forall_mem_cons.mpr ⟨hupper, List.forall_mem_singleton.mpr hlower⟩
  have hrefused : Located.floors file [upper, lower] =
      refuse (.conflict 1 2 1 [['b'], ['c']] [['b'], ['c']]) := by
    rw [Located.floors, List.mergeSort_of_pairwise (by decide)]
    decide +kernel
  -- The upper hunk matches lines 0 and 1, the lower one lines 1 and 2; only line 0 is removed.
  have hkeepUpper : ¬ upper.Removes 1 := by
    rintro ⟨i, e, hmem, he, hremove⟩
    obtain ⟨⟩ | ⟨_, ⟨⟩ | ⟨_, ⟨⟩⟩⟩ := hmem
    cases he
    cases hremove
  have hkeepLower : ¬ lower.Removes 1 := by
    rintro ⟨i, e, hmem, he, hremove⟩
    obtain ⟨⟩ | ⟨_, ⟨⟩ | ⟨_, ⟨⟩⟩⟩ := hmem
    cases he
    cases hremove
  have hapart := not_interferes_of_shared_line hupper hlower (by decide) rfl (by decide) (by decide)
    hkeepUpper hkeepLower
  obtain ⟨x, y, hsubperm, hx, hy, -, -, hways⟩ := hclaim file _ 1 2 1 _ _ hfits hrefused
  have hsub := hsubperm.subset
  simp only [List.cons_subset, List.mem_cons, List.not_mem_nil, or_false, List.nil_subset,
    and_true] at hsub
  obtain ⟨rfl | rfl, rfl | rfl⟩ := hsub
  · cases hy
  · exact hapart hways
  · cases hx
  · cases hx

end Located
end LoosePatch
