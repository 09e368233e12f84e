import LoosePatch.Proofs.Splice.Accepted
import LoosePatch.Proofs.Splice.Symmetry

/-!
Hunks are applied or refused, and nothing else. That a line is looked up in the file, or an edit among
those that match a line, is safe by two facts about hunks in file order: a hunk that ends below the
start of another matches a line from there on, and one that ends below another matches a line of its
own (`conflict?_failsOnly`).
-/

namespace LoosePatch

variable {α : Type}

namespace Located

variable {file : List Text} {upper lower x : Located α} {above rest others located : List (Located α)}
  {P : Failure → Prop}

theorem removedIn_failsOnly {hunk : Hunk} {positions : List (Nat × Nat)}
    (hold : ∀ x ∈ positions, ∃ e, hunk.edits[x.1]? = some e ∧ e.isOld = true) (low high : Nat) :
    FailsOnly P (removedIn low high hunk positions) := by
  induction positions with
  | nil => exact failsOnly_ok _
  | cons x positions ih =>
    obtain ⟨⟨e, he, -⟩, hold⟩ := List.forall_mem_cons.mp hold
    rw [removedIn]
    split
    · rw [fetch_eq_ok.mpr he]
      refine (failsOnly_ok e).bind fun e _ => ?_
      split
      · exact failsOnly_ok _
      · exact ih hold
    · exact ih hold

/-- A hunk that ends below a line from its start on matches a line from there on. -/
theorem exists_matched {low : Nat} (hstart : x.start ≤ low) (hstop : low < x.stop) :
    ∃ y ∈ x.placement.positions, low ≤ y.2 := by
  have hne : x.placement.positions ≠ [] := by
    intro hnil
    rw [start] at hstart
    rw [stop, Placement.stop_of_nil hnil] at hstop
    omega
  obtain ⟨y, hy, hlast⟩ := Placement.exists_stop hne
  rw [stop, hlast] at hstop
  exact ⟨y, hy, Nat.le_of_lt_succ hstop⟩

theorem exists_firstEditFrom {low : Nat} (hstart : x.start ≤ low) (hstop : low < x.stop) :
    ∃ i, firstEditFrom low x = .ok i := by
  obtain ⟨y, hy, hlow⟩ := exists_matched hstart hstop
  have hmem : y.1 ∈ (x.placement.positions.filter fun x => low ≤ x.2).map Prod.fst :=
    List.mem_map_of_mem (List.mem_filter.mpr ⟨hy, decide_eq_true hlow⟩)
  obtain ⟨i, hi⟩ := Option.isSome_iff_exists.mp (List.isSome_min?_of_mem hmem)
  exact ⟨i, chosen_eq_ok.mpr hi⟩

theorem exists_lastMatched {low : Nat} (hstart : x.start ≤ low) (hstop : low < x.stop) :
    ∃ i, x.lastMatched = .ok i := by
  obtain ⟨y, hy, -⟩ := exists_matched hstart hstop
  obtain ⟨i, hi⟩ := Option.isSome_iff_exists.mp
    (List.isSome_max?_of_mem (List.mem_map_of_mem (f := Prod.fst) hy))
  exact ⟨i, chosen_eq_ok.mpr hi⟩

/-- Two hunks in file order can be compared where they meet, without any failure. -/
theorem conflict?_failsOnly (hupper : upper.placement.Fits file upper.hunk)
    (hlower : lower.placement.Fits file lower.hunk) (hle : le upper lower = true)
    (hmeet : lower.start < upper.stop) : FailsOnly P (conflict? upper lower) := by
  have horder : upper.start ≤ lower.start := by
    simp only [le, Bool.or_eq_true, Bool.and_eq_true, decide_eq_true_eq, beq_iff_eq] at hle
    omega
  unfold conflict?
  extract_lets low high rest
  refine (removedIn_failsOnly hupper.old _ _).bind fun found _ => ?_
  cases found with
  | some line => exact failsOnly_ok _
  | none =>
  refine (removedIn_failsOnly hlower.old _ _).bind fun found _ => ?_
  cases found with
  | some line => exact failsOnly_ok _
  | none =>
  dsimp only
  split
  · exact failsOnly_ok _
  rename_i hstop
  obtain ⟨shared, hshared⟩ := exists_firstEditFrom horder hmeet
  obtain ⟨last, hlast⟩ := exists_lastMatched horder hmeet
  obtain ⟨own, hown⟩ := exists_firstEditFrom (Nat.le_of_lt hmeet) (Nat.lt_of_not_le hstop)
  refine (failsOnly_of_eq_ok hshared).bind fun _ _ => (failsOnly_of_eq_ok hlast).bind fun _ _ => ?_
  split
  · exact failsOnly_ok _
  refine (failsOnly_of_eq_ok hown).bind fun own hown => ?_
  split
  · exact failsOnly_ok _
  have hinside : own < lower.hunk.edits.length := by
    obtain ⟨⟨line, hline, -⟩, -⟩ := firstEditFrom_eq_ok hown
    obtain ⟨e, he, -⟩ := hlower.old _ hline
    exact (List.getElem?_eq_some_iff.mp he).1
  rw [if_neg (Nat.not_lt_of_lt hinside)]
  exact failsOnly_ok _

theorem floor?_failsOnly (hlower : lower.placement.Fits file lower.hunk)
    (hfits : ∀ u ∈ others, u.placement.Fits file u.hunk) (hle : ∀ u ∈ others, le u lower = true)
    (given : Option Nat) : FailsOnly Failure.IsRefusal (floor? file lower others given) := by
  induction others generalizing given with
  | nil => exact failsOnly_ok _
  | cons u others ih =>
    obtain ⟨hufits, hfits⟩ := List.forall_mem_cons.mp hfits
    obtain ⟨hule, hle⟩ := List.forall_mem_cons.mp hle
    rw [floor?]
    split
    · exact ih hfits hle given
    · rename_i hmeet
      refine (conflict?_failsOnly hufits hlower hule (Nat.lt_of_not_le hmeet)).bind fun found _ => ?_
      cases found with
      | some line => exact refuse_failsOnly _
      | none => exact ih hfits hle _

theorem floorsBelow_failsOnly (hfits : ∀ x ∈ above ++ rest, x.placement.Fits file x.hunk)
    (hsorted : (above ++ rest).Pairwise fun x y => le x y = true) (floors : Floors) :
    FailsOnly Failure.IsRefusal (floorsBelow file above floors rest) := by
  induction rest generalizing above floors with
  | nil => exact failsOnly_ok _
  | cons x rest ih =>
    have hx := hfits x (List.mem_append_right above List.mem_cons_self)
    have habove : ∀ u ∈ above, le u x = true := fun u hu =>
      (List.pairwise_append.mp hsorted).2.2 u hu x List.mem_cons_self
    have hu : ∀ u ∈ above, u.placement.Fits file u.hunk := fun u hu =>
      hfits u (List.mem_append_left _ hu)
    refine (floor?_failsOnly hx hu habove _).bind fun _ _ => ?_
    rw [← List.singleton_append, ← List.append_assoc] at hfits hsorted
    exact ih hfits hsorted _

/-- Two hunks are in conflict, or all have their floors. -/
theorem floors_failsOnly (hfits : ∀ x ∈ located, x.placement.Fits file x.hunk) :
    FailsOnly Failure.IsRefusal (Located.floors file located) := by
  have hperm : (located.mergeSort le).Perm located := List.mergeSort_perm _ _
  have hsorted : ∀ x ∈ [] ++ located.mergeSort le, x.placement.Fits file x.hunk := fun x hx =>
    hfits x (hperm.mem_iff.mp hx)
  exact floorsBelow_failsOnly hsorted (pairwise_mergeSort_le located) []

end Located

/-! ## Splices -/

variable {lines : List Text} {hunks : List Hunk} {located : List (Located α)}
  {floors : Located.Floors} {x : Located α}

theorem Splice.exists_pairs {hunk : Hunk} {p : Placement α} (hfits : p.Fits lines hunk) :
    ∃ pairs, Splice.pairs lines hunk p = .ok pairs := by
  obtain ⟨pairs, hpairs⟩ : ∃ pairs, List.Forall₂
      (fun (x : Edit × Nat) y => (do return (⟨x.1.text, ← fetch lines x.2, x.1.isRemove⟩ : Indent.Pair) :
        Outcome Indent.Pair) = .ok y)
      (hunk.edits.zipIdx.filterMap fun x => (p.lineOf? x.2).map (x.1, ·)) pairs := by
    refine exists_forall₂ fun x hx => ?_
    obtain ⟨⟨e, i⟩, -, hx⟩ := List.mem_filterMap.mp hx
    obtain ⟨line, hline, rfl⟩ := Option.map_eq_some_iff.mp hx
    have hinside : line < lines.length := hfits.inside _ (hfits.lineOf?_eq_some.mp hline)
    exact ⟨_, bind_eq_ok.mpr ⟨_, fetch_of_lt hinside, rfl⟩⟩
  exact ⟨pairs, mapM_eq_ok.mpr hpairs⟩

/-- A hunk is rendered from any line of the file on. -/
theorem Splice.exists_ofHunk {hunk : Hunk} {p : Placement α} {floor : Option Nat}
    (hfits : p.Fits lines hunk) (hcursor : max p.start (floor.getD 0) ≤ lines.length)
    (profile : Indent.Profile) : ∃ s, Splice.ofHunk lines hunk p profile floor = .ok s := by
  obtain ⟨pairs, hpairs⟩ := Splice.exists_pairs hfits
  by_cases hnil : p.positions.isEmpty = true
  · exact ⟨_, bind_eq_ok.mpr ⟨pairs, hpairs, if_pos hnil⟩⟩
  · let lineAt? : Nat → Nat → Option Nat := fun _ => p.lineOf?
    have hmatching : Splice.Matching lines.length (lineAt? 0) _ hunk.edits.zipIdx :=
      hfits.matching (max p.start (floor.getD 0))
    obtain ⟨out, stop, horigins, -⟩ := Splice.emit_origins hcursor hmatching
    obtain ⟨written, hwritten, -⟩ := Splice.emit_forall₂ (Splice.fileOrigins_spell lines [hunk])
      (Splice.addedOrigins_spell rfl pairs profile) horigins
    refine ⟨⟨max p.start (floor.getD 0), stop, written⟩,
      bind_eq_ok.mpr ⟨pairs, hpairs, (if_neg hnil).trans ?_⟩⟩
    exact bind_eq_ok.mpr ⟨(written, stop), hwritten, rfl⟩

theorem Accepted.ofHunk_failsOnly (h : Accepted lines hunks located floors) (hx : x ∈ located)
    (profile : Indent.Profile) :
    FailsOnly Failure.IsRefusal
      (Splice.ofHunk lines x.hunk x.placement profile (floors.lookup x.number)) := by
  have hfits := h.fits x hx
  have hcursor : Located.beginning floors x ≤ lines.length :=
    (h.beginning_le_stop hx).trans hfits.stop_le
  obtain ⟨s, hs⟩ := Splice.exists_ofHunk hfits hcursor profile
  exact failsOnly_of_eq_ok hs

/-! ## Hunks -/

variable [Score α] {config : Config α} {hunk : Hunk}

theorem Hunk.locate_failsOnly (number : Nat) :
    FailsOnly Failure.IsRefusal (hunk.locate config lines number) := by
  unfold locate
  extract_lets hint anchor clues segments
  split
  · refine (locateInsertion_failsOnly hunk anchor number).imp ?_
    rintro failure ⟨why, rfl, -⟩
    exact ⟨why, rfl⟩
  · dsimp only
    split
    · exact failsOnly_ok _
    · exact iteInduction (fun _ => refuse_failsOnly _) fun _ => refuse_failsOnly _

theorem locateAll_failsOnly (number : Nat) (hunks : List Hunk) :
    FailsOnly Failure.IsRefusal (locateAll config lines number hunks) := by
  induction hunks generalizing number with
  | nil => exact failsOnly_ok _
  | cons hunk hunks ih =>
    exact (Hunk.locate_failsOnly number).bind fun _ _ => (ih (number + 1)).bind fun _ _ => failsOnly_ok _

/-- Hunks that cannot all be applied are refused. -/
theorem applyHunks_failsOnly (hunks : List Hunk) :
    FailsOnly Failure.IsRefusal (applyHunks config lines hunks) := by
  refine (locateAll_failsOnly 1 hunks).bind fun located hlocated => ?_
  have hfits : ∀ x ∈ located, x.placement.Fits lines x.hunk := fun x hx =>
    Hunk.locate_fits ((locateAll_eq_ok hlocated).2.2 x hx)
  refine (Located.floors_failsOnly hfits).bind fun floors hfloors => ?_
  have haccepted := accepted_of_floors hlocated hfloors
  refine FailsOnly.bind (FailsOnly.mapM fun x hx => ?_) fun _ _ => failsOnly_ok _
  exact (haccepted.ofHunk_failsOnly hx (Indent.profile lines)).bind fun _ _ => failsOnly_ok _

end LoosePatch
