import LoosePatch.Proofs.Locate.Soundness
import LoosePatch.Proofs.Lookup
import LoosePatch.Proofs.Outcome
import LoosePatch.Splice.Floor

/-!
Hunks that meet. `Shares` says once what it means that two of them are in no conflict; `floors_spec`
says where the floors put the beginning of a hunk: below every hunk above it, and never below a line
that the hunk changes.
-/

namespace LoosePatch.Located

variable {α : Type}

/-! ## Two hunks -/

/-- The hunk removes no line from `low` up to but not including `high`. -/
def KeepsIn (low high : Nat) (hunk : Hunk) (positions : List (Nat × Nat)) : Prop :=
  ∀ x ∈ positions, low ≤ x.2 → x.2 < high → ∀ e, hunk.edits[x.1]? = some e → e.isRemove = false

theorem removedIn_eq_none {low high : Nat} {hunk : Hunk} {positions : List (Nat × Nat)}
    (h : removedIn low high hunk positions = .ok none) : KeepsIn low high hunk positions := by
  induction positions with
  | nil => simp [KeepsIn]
  | cons x positions ih =>
    obtain ⟨i, line⟩ := x
    rw [removedIn] at h
    intro y hy hlow hhigh e he
    split at h
    · obtain ⟨e', he', hrest⟩ := bind_eq_ok.mp h
      split at hrest
      · cases hrest
      · rename_i hkept
        rcases List.mem_cons.mp hy with rfl | hy
        · rw [fetch_eq_ok.mp he'] at he
          cases he
          exact Bool.not_eq_true _ ▸ hkept
        · exact ih hrest y hy hlow hhigh e he
    · rename_i hout
      rcases List.mem_cons.mp hy with rfl | hy
      · exact absurd ⟨hlow, hhigh⟩ hout
      · exact ih h y hy hlow hhigh e he

theorem firstEditFrom_eq_ok {low i : Nat} {x : Located α} (h : firstEditFrom low x = .ok i) :
    (∃ line, (i, line) ∈ x.placement.positions ∧ low ≤ line) ∧
      ∀ y ∈ x.placement.positions, low ≤ y.2 → i ≤ y.1 := by
  have hmin := chosen_eq_ok.mp h
  constructor
  · obtain ⟨⟨j, line⟩, hmem, rfl⟩ := List.mem_map.mp (List.min?_mem hmin)
    obtain ⟨hmem, hlow⟩ := List.mem_filter.mp hmem
    exact ⟨line, hmem, of_decide_eq_true hlow⟩
  · intro y hy hlow
    refine (List.le_min?_iff hmin).mp le_rfl y.1 (List.mem_map_of_mem ?_)
    exact List.mem_filter.mpr ⟨hy, decide_eq_true hlow⟩

theorem lastMatched_eq_ok {i : Nat} {x : Located α} (h : x.lastMatched = .ok i) :
    ∀ y ∈ x.placement.positions, y.1 ≤ i := by
  intro y hy
  exact (List.max?_le_iff (chosen_eq_ok.mp h)).mp le_rfl y.1 (List.mem_map_of_mem hy)

/-- Two hunks that meet are in no conflict: both keep the lines they share, and the upper one ends
inside the lower one. -/
structure Shares (upper lower : Located α) : Prop where
  upper_keeps : KeepsIn lower.start upper.stop upper.hunk upper.placement.positions
  lower_keeps : KeepsIn lower.start upper.stop lower.hunk lower.placement.positions
  stop_lt : upper.stop < lower.stop
  /-- From its first shared line on, the upper hunk adds lines only after its last matched one. -/
  upper_adds : ∀ x ∈ upper.placement.positions, lower.start ≤ x.2 →
    ∀ (j : Nat) (e : Edit), x.1 ≤ j → upper.hunk.edits[j]? = some e → e.isAdd = true →
      ∀ y ∈ upper.placement.positions, y.1 ≤ j
  /-- Up to its first own line, the lower hunk only keeps lines. -/
  lower_opens : ∃ own line, (own, line) ∈ lower.placement.positions ∧ upper.stop ≤ line ∧
    (∀ y ∈ lower.placement.positions, upper.stop ≤ y.2 → own ≤ y.1) ∧
    ∀ (j : Nat) (e : Edit), j < own → lower.hunk.edits[j]? = some e →
      e.isAdd = false ∧ e.isRemove = false

theorem conflict?_eq_none {upper lower : Located α} (h : conflict? upper lower = .ok none) :
    Shares upper lower := by
  unfold conflict? at h
  extract_lets low high rest at h
  obtain ⟨found, hupper, h⟩ := bind_eq_ok.mp h
  cases found with
  | some line => cases h
  | none =>
  obtain ⟨found, hlower, h⟩ := bind_eq_ok.mp h
  cases found with
  | some line => cases h
  | none =>
  simp only at h
  split at h
  · cases h
  rename_i hstop
  obtain ⟨shared, hshared, h⟩ := bind_eq_ok.mp h
  obtain ⟨last, hlast, h⟩ := bind_eq_ok.mp h
  split at h
  · cases h
  rename_i hadds
  obtain ⟨own, hown, h⟩ := bind_eq_ok.mp h
  split at h
  · cases h
  rename_i hopens
  refine ⟨removedIn_eq_none hupper, removedIn_eq_none hlower, Nat.lt_of_not_le hstop, ?_, ?_⟩
  · intro x hx hlow j e hj he hadd y hy
    by_contra hlt
    have hfirst := (firstEditFrom_eq_ok hshared).2 x hx hlow
    have hy' := lastMatched_eq_ok hlast y hy
    refine hadds (List.any_eq_true.mpr ⟨e, List.mem_of_getElem? (i := j - shared) ?_, hadd⟩)
    rw [List.getElem?_drop, Nat.add_sub_cancel' (by omega), List.getElem?_take, if_pos (by omega), he]
  · obtain ⟨⟨line, hline, hhigh⟩, hleast⟩ := firstEditFrom_eq_ok hown
    refine ⟨own, line, hline, hhigh, hleast, fun j e hj he => ?_⟩
    have hmem : e ∈ lower.hunk.edits.take own := by
      refine List.mem_of_getElem? (i := j) ?_
      rw [List.getElem?_take, if_pos hj, he]
    have hquiet := mt (fun hany => List.any_eq_true.mpr ⟨e, hmem, hany⟩) hopens
    simpa using hquiet

/-! ## Floors -/

/-- Where the splice of a hunk begins. -/
def beginning (floors : Floors) (x : Located α) : Nat :=
  max x.start ((floors.lookup x.number).getD 0)

theorem lookup_setFloor_self {number : Nat} {floor : Option Nat} {floors : Floors}
    (h : floors.lookup number = none) : (setFloor number floor floors).lookup number = floor := by
  cases floor with
  | none => exact h
  | some line => exact List.lookup_cons_self

theorem lookup_setFloor_ne {number other : Nat} (hne : other ≠ number) (floor : Option Nat)
    (floors : Floors) : (setFloor number floor floors).lookup other = floors.lookup other := by
  cases floor with
  | none => rfl
  | some line =>
    rw [setFloor, lookup_cons_eq_ite, if_neg hne, lookup_filter_ne, if_neg hne]

/-- A floor is the end of a hunk above that is met without a conflict, and no such hunk ends below
it. -/
theorem floor?_eq_ok {file : List Text} {lower : Located α} {others : List (Located α)}
    {given floor : Option Nat} (h : floor? file lower others given = .ok floor) :
    (∀ upper ∈ others, upper.stop ≤ lower.start ∨
      Shares upper lower ∧ ∃ line, floor = some line ∧ upper.stop ≤ line) ∧
    (∀ line, given = some line → ∃ line', floor = some line' ∧ line ≤ line') ∧
    (∀ line, floor = some line → given = some line ∨
      ∃ upper ∈ others, lower.start < upper.stop ∧ Shares upper lower ∧ line = upper.stop) := by
  induction others generalizing given with
  | nil =>
    cases Except.ok.inj h
    exact ⟨by simp, fun line hline => ⟨line, hline, le_rfl⟩, fun line hline => Or.inl hline⟩
  | cons upper others ih =>
    rw [floor?] at h
    split at h
    · rename_i hapart
      obtain ⟨hall, hgiven, hfloor⟩ := ih h
      refine ⟨?_, hgiven, fun line hline => (hfloor line hline).imp_right ?_⟩
      · rintro u hu
        rcases List.mem_cons.mp hu with rfl | hu
        · exact Or.inl hapart
        · exact hall u hu
      · rintro ⟨u, hu, hrest⟩
        exact ⟨u, List.mem_cons_of_mem upper hu, hrest⟩
    · rename_i hmeet
      obtain ⟨found, hfound, h⟩ := bind_eq_ok.mp h
      cases found with
      | some line => cases h
      | none =>
        have hshares := conflict?_eq_none hfound
        obtain ⟨hall, hgiven, hfloor⟩ := ih h
        obtain ⟨low, hlow, hmax⟩ := hgiven _ rfl
        refine ⟨?_, fun line hline => ⟨low, hlow, ?_⟩, fun line hline => ?_⟩
        · intro u hu
          rcases List.mem_cons.mp hu with rfl | hu
          · exact Or.inr ⟨hshares, low, hlow, le_trans (Nat.le_max_right _ _) hmax⟩
          · exact hall u hu
        · rw [hline] at hmax
          exact le_trans (Nat.le_max_left _ _) hmax
        · rcases hfloor line hline with heq | ⟨u, hu, hrest⟩
          · have hupper : ∃ u ∈ upper :: others, lower.start < u.stop ∧ Shares u lower ∧
                upper.stop = u.stop :=
              ⟨upper, List.mem_cons_self, Nat.lt_of_not_le hmeet, hshares, rfl⟩
            cases given with
            | none =>
              have hline' : line = upper.stop := by
                rw [Option.getD_none] at heq
                have := Option.some.inj heq
                omega
              exact Or.inr (hline' ▸ hupper)
            | some line' =>
              have hline' : max line' upper.stop = line := Option.some.inj heq
              rcases Nat.le_total line' upper.stop with hle | hle
              · rw [Nat.max_eq_right hle] at hline'
                exact Or.inr (hline' ▸ hupper)
              · rw [Nat.max_eq_left hle] at hline'
                exact Or.inl (congrArg some hline')
          · exact Or.inr ⟨u, List.mem_cons_of_mem upper hu, hrest⟩

/-- The step for one hunk: it begins below all hunks above it, at its own start or at the end of a
hunk that it shares lines with. -/
theorem beginning_of_floor? {file : List Text} {floors : Floors} {x : Located α}
    {above : List (Located α)} (h : floor? file x above none = .ok (floors.lookup x.number)) :
    (∀ u ∈ above, u.stop ≤ beginning floors x) ∧
      (beginning floors x = x.start ∨
        ∃ u ∈ above, x.start < u.stop ∧ Shares u x ∧ beginning floors x = u.stop) := by
  obtain ⟨hall, -, hfloor⟩ := floor?_eq_ok h
  constructor
  · intro u hu
    rcases hall u hu with hapart | ⟨-, line, hline, hle⟩
    · exact le_trans hapart (Nat.le_max_left _ _)
    · rw [beginning, hline, Option.getD_some]
      exact le_trans hle (Nat.le_max_right _ _)
  · cases hlookup : floors.lookup x.number with
    | none =>
      rw [beginning, hlookup]
      exact Or.inl (Nat.max_zero _)
    | some line =>
      rcases hfloor line hlookup with hnone | ⟨u, hu, hmeet, hshares, rfl⟩
      · cases hnone
      · refine Or.inr ⟨u, hu, hmeet, hshares, ?_⟩
        rw [beginning, hlookup]
        exact Nat.max_eq_right hmeet.le

theorem floorsBelow_spec {file : List Text} {above rest : List (Located α)} {floors out : Floors}
    (hnumbers : (rest.map number).Nodup) (hnew : ∀ x ∈ rest, floors.lookup x.number = none)
    (h : floorsBelow file above floors rest = .ok out) :
    (∀ k, k ∉ rest.map number → out.lookup k = floors.lookup k) ∧
    (∀ x ∈ rest, ∀ u ∈ above, u.stop ≤ beginning out x) ∧
    rest.Pairwise (fun u x => u.stop ≤ beginning out x) ∧
    (∀ x ∈ rest, beginning out x = x.start ∨
      ∃ u ∈ above ++ rest, x.start < u.stop ∧ Shares u x ∧ beginning out x = u.stop) := by
  induction rest generalizing above floors with
  | nil =>
    cases Except.ok.inj h
    exact ⟨fun k _ => rfl, by simp, List.Pairwise.nil, by simp⟩
  | cons x rest ih =>
    rw [List.map_cons, List.nodup_cons] at hnumbers
    obtain ⟨hx, hnumbers⟩ := hnumbers
    obtain ⟨floor, hfloor, h⟩ := bind_eq_ok.mp h
    rw [hnew x List.mem_cons_self] at hfloor
    have hne {y : Located α} (hy : y ∈ rest) : y.number ≠ x.number := fun heq =>
      hx (heq ▸ List.mem_map_of_mem hy)
    have hnew' : ∀ y ∈ rest, (setFloor x.number floor floors).lookup y.number = none := by
      intro y hy
      rw [lookup_setFloor_ne (hne hy)]
      exact hnew y (List.mem_cons_of_mem x hy)
    obtain ⟨hlookup, habove, hpairwise, hbegin⟩ := ih hnumbers hnew' h
    have hxfloor : out.lookup x.number = floor := by
      rw [hlookup x.number hx]
      exact lookup_setFloor_self (hnew x List.mem_cons_self)
    rw [← hxfloor] at hfloor
    obtain ⟨hxabove, hxbegin⟩ := beginning_of_floor? hfloor
    refine ⟨fun k hk => ?_, fun y hy u hu => ?_, ?_, fun y hy => ?_⟩
    · rw [List.map_cons, List.mem_cons, not_or] at hk
      rw [hlookup k hk.2]
      exact lookup_setFloor_ne hk.1 floor floors
    · rcases List.mem_cons.mp hy with rfl | hy
      · exact hxabove u hu
      · exact habove y hy u (List.mem_append_left _ hu)
    · refine List.pairwise_cons.mpr ⟨fun y hy => ?_, hpairwise⟩
      exact habove y hy x (List.mem_append_right _ (List.mem_singleton_self x))
    · rcases List.mem_cons.mp hy with rfl | hy
      · exact hxbegin.imp_right fun ⟨u, hu, hrest⟩ => ⟨u, List.mem_append_left _ hu, hrest⟩
      · have hrest := hbegin y hy
        rwa [List.append_assoc, List.singleton_append] at hrest

/-- Hunks without a conflict begin one below the end of the other, each at its own start or at the
end of a hunk that it shares lines with. -/
theorem floors_spec {file : List Text} {located : List (Located α)} {floors : Floors}
    (hnumbers : (located.map number).Nodup) (h : Located.floors file located = .ok floors) :
    ∃ sorted : List (Located α), sorted.Perm located ∧
      sorted.Pairwise (fun u x => u.stop ≤ beginning floors x) ∧
      ∀ x ∈ located, beginning floors x = x.start ∨
        ∃ u ∈ located, x.start < u.stop ∧ Shares u x ∧ beginning floors x = u.stop := by
  have hperm : (located.mergeSort le).Perm located := List.mergeSort_perm _ _
  obtain ⟨-, -, hpairwise, hbegin⟩ :=
    floorsBelow_spec ((hperm.map number).nodup_iff.mpr hnumbers) (fun _ _ => rfl) h
  refine ⟨located.mergeSort le, hperm, hpairwise, fun x hx => ?_⟩
  rcases hbegin x (hperm.mem_iff.mpr hx) with hstart | ⟨u, hu, hrest⟩
  · exact Or.inl hstart
  · exact Or.inr ⟨u, hperm.mem_iff.mp hu, hrest⟩

/-! ## The beginning of one splice -/

/-- A place from which the splice of a hunk may begin: of the matched lines above it none is
removed, and added lines come after them only. -/
structure Begins (hunk : Hunk) (p : Placement α) (first : Nat) : Prop where
  start_le : p.start ≤ first
  lt_stop : p.positions ≠ [] → first < p.stop
  eq_start : p.positions = [] → first = p.start
  keeps : ∀ x ∈ p.positions, x.2 < first → ∀ e, hunk.edits[x.1]? = some e → e.isRemove = false
  adds : ∀ x ∈ p.positions, x.2 < first → ∀ (j : Nat) (e : Edit), hunk.edits[j]? = some e →
    e.isAdd = true → x.1 < j

theorem Begins.le_stop {file : List Text} {hunk : Hunk} {p : Placement α} {first : Nat}
    (h : Begins hunk p first) (hfits : p.Fits file hunk) : first ≤ p.stop := by
  by_cases hnil : p.positions = []
  · rw [h.eq_start hnil]
    exact hfits.start_le_stop
  · exact Nat.le_of_lt (h.lt_stop hnil)

theorem begins_start {file : List Text} {hunk : Hunk} {p : Placement α} (h : p.Fits file hunk) :
    Begins hunk p p.start where
  start_le := le_rfl
  lt_stop hne := by
    obtain ⟨x, hx, hstop⟩ := Placement.exists_stop hne
    have hleast := h.start_least x hx
    omega
  eq_start _ := rfl
  keeps x hx hlt := absurd hlt (Nat.not_lt_of_le (h.start_least x hx))
  adds x hx hlt := absurd hlt (Nat.not_lt_of_le (h.start_least x hx))

theorem Shares.begins {file : List Text} {upper lower : Located α} (h : Shares upper lower)
    (hfits : lower.placement.Fits file lower.hunk) (hmeet : lower.start < upper.stop) :
    Begins lower.hunk lower.placement upper.stop := by
  obtain ⟨own, line, hown, hline, -, hquiet⟩ := h.lower_opens
  refine ⟨hmeet.le, fun _ => h.stop_lt, fun hnil => ?_, fun x hx hlt => ?_,
    fun x hx hlt j e he hadd => ?_⟩
  · rw [hnil] at hown
    cases hown
  · exact h.lower_keeps x hx (hfits.start_least x hx) hlt
  · have hxown := (hfits.lt_iff_lt hx hown).mpr (Nat.lt_of_lt_of_le hlt hline)
    by_contra hle
    have hquiet' := (hquiet j e (by omega) he).1
    rw [hadd] at hquiet'
    cases hquiet'

/-- Splices of hunks without a conflict begin where they may. -/
theorem begins_beginning {file : List Text} {floors : Floors} {x : Located α}
    (hfits : x.placement.Fits file x.hunk)
    (h : beginning floors x = x.start ∨
      ∃ u, x.start < u.stop ∧ Shares u x ∧ beginning floors x = u.stop) :
    Begins x.hunk x.placement (beginning floors x) := by
  rcases h with hstart | ⟨u, hmeet, hshares, hstop⟩
  · rw [hstart]
    exact begins_start hfits
  · rw [hstop]
    exact hshares.begins hfits hmeet

end LoosePatch.Located
