import LoosePatch.Proofs.Splice.Conflicts

/-!
The ranges of accepted hunks. A hunk takes the lines from its beginning, which its floor may put below
its first matched line, to its last matched one (`exists_takes`). The ranges of all hunks that are in
no conflict stand apart (`floors_apart`), so that their splices can be made one after the other.
-/

namespace LoosePatch.Located

variable {α : Type} {file : List Text} {located : List (Located α)} {floors : Floors} {x : Located α}

/-- The range that a hunk takes: from its start, or from its floor if that is further down, to its end.
Only a hunk without matched lines takes no line. -/
structure Takes (file : List Text) (x : Located α) (floor : Option Nat) (s : Splice) : Prop where
  start_eq : s.start = max x.start (floor.getD 0)
  stop_eq : s.stop = x.stop
  start_le_stop : s.start ≤ s.stop
  stop_le : s.stop ≤ file.length
  start_lt_stop : x.placement.positions ≠ [] → s.start < s.stop

/-- A hunk that begins where it may is rendered, and takes its range. -/
theorem exists_takes {floor : Option Nat} (hfits : x.placement.Fits file x.hunk)
    (hbegins : Begins x.hunk x.placement (max x.start (floor.getD 0))) (profile : Indent.Profile) :
    ∃ s, Splice.ofHunk file x.hunk x.placement profile floor = .ok s ∧ Takes file x floor s := by
  have hle : max x.start (floor.getD 0) ≤ x.stop := hbegins.le_stop hfits
  have hin : x.stop ≤ file.length := hfits.stop_le
  obtain ⟨s, hs⟩ := Splice.exists_ofHunk hfits (hle.trans hin) profile
  have hhunk : [x.hunk][0]? = some x.hunk := rfl
  let lineAt? : Nat → Nat → Option Nat := fun _ => x.placement.lineOf?
  have hline : lineAt? 0 = x.placement.lineOf? := rfl
  obtain ⟨r, hr, hstart, hstop, -⟩ := Splice.ofHunk_region hhunk hline hfits hbegins hs
  have hstart : s.start = max x.start (floor.getD 0) := hstart.symm.trans hr.start_eq
  have hstop : s.stop = x.stop := hstop.symm.trans hr.stop_eq
  refine ⟨s, hs, hstart, hstop, by omega, by omega, fun hne => ?_⟩
  rw [hstart, hstop]
  exact hbegins.lt_stop hne

/-- **Accepted hunks give splices that stand apart.** Where hunks, told apart by their numbers, are in
no conflict, each is rendered with its floor, over the range that it takes; and of any two ranges one
ends no later than the other begins. So no line is in both, and no place for added lines alone is
strictly inside a range. -/
theorem floors_apart (hnumbers : (located.map number).Nodup)
    (hfits : ∀ x ∈ located, x.placement.Fits file x.hunk)
    (h : Located.floors file located = .ok floors) (profile : Indent.Profile) :
    ∃ splices : List Splice,
      List.Forall₂ (fun x s =>
        Splice.ofHunk file x.hunk x.placement profile (floors.lookup x.number) = .ok s ∧
          Takes file x (floors.lookup x.number) s) located splices ∧
      splices.Pairwise fun s t => s.stop ≤ t.start ∨ t.stop ≤ s.start := by
  obtain ⟨sorted, hperm, hbelow, hbegins⟩ := floors_spec hnumbers h
  have htakes : ∀ x ∈ located, ∃ s,
      Splice.ofHunk file x.hunk x.placement profile (floors.lookup x.number) = .ok s ∧
        Takes file x (floors.lookup x.number) s := by
    intro x hx
    have hbegin : Begins x.hunk x.placement (beginning floors x) := by
      refine begins_beginning (hfits x hx) ((hbegins x hx).imp_right ?_)
      rintro ⟨upper, -, hrest⟩
      exact ⟨upper, hrest⟩
    exact exists_takes (hfits x hx) hbegin profile
  have hapart : located.Pairwise fun x y => x.stop ≤ beginning floors y ∨ y.stop ≤ beginning floors x :=
    hperm.pairwise (hbelow.imp Or.inl) Or.symm
  obtain ⟨splices, hsplices⟩ := exists_forall₂ htakes
  refine ⟨splices, hsplices, pairwise_of_forall₂ hsplices hapart ?_⟩
  rintro x y s t ⟨-, hs⟩ ⟨-, ht⟩ hxy
  have hsstart : s.start = beginning floors x := hs.start_eq
  have htstart : t.start = beginning floors y := ht.start_eq
  have hsstop := hs.stop_eq
  have htstop := ht.stop_eq
  omega

/-- Two hunks share the line `b`, which goes to the upper one, and a third adds a line at the end. -/
theorem floors_apart_shared_line :
    let file : List Text := [['a'], ['b'], ['c']]
    let first : Hunk := { edits := [⟨.remove, ['a']⟩, ⟨.keep, ['b']⟩] }
    let second : Hunk := { edits := [⟨.keep, ['b']⟩, ⟨.remove, ['c']⟩] }
    let last : Hunk := { edits := [⟨.add, ['d']⟩] }
    let bottom : Placement Rat :=
      { start := 3, confidence := 1, strategy := .endOfFile, insertAt := some 3 }
    let located : List (Located Rat) := [⟨1, first, Segment.placedAt first.oldEdits 0⟩,
      ⟨2, second, Segment.placedAt second.oldEdits 1⟩, ⟨3, last, bottom⟩]
    let profile := Indent.profile file
    let floors : Floors := [(2, 2)]
    (located.map number).Nodup ∧ (∀ x ∈ located, x.placement.Fits file x.hunk) ∧
      Located.floors file located = .ok floors ∧
      ∃ splices : List Splice,
        List.Forall₂ (fun x s =>
          Splice.ofHunk file x.hunk x.placement profile (floors.lookup x.number) = .ok s ∧
            Takes file x (floors.lookup x.number) s) located splices ∧
        splices.Pairwise fun s t => s.stop ≤ t.start ∨ t.stop ≤ s.start := by
  intro file first second last bottom located profile floors
  have hnumbers : (located.map number).Nodup := by decide
  have hbottom : bottom.Fits file last := by
    refine ⟨List.Pairwise.nil, by simp [bottom], fun i e he hremove => ?_, by simp [bottom], le_rfl,
      fun hne => absurd rfl hne, by simp [bottom], fun _ => rfl⟩
    obtain rfl : e = ⟨.add, ['d']⟩ := List.mem_singleton.mp (List.mem_of_getElem? he)
    cases hremove
  have hfits : ∀ x ∈ located, x.placement.Fits file x.hunk :=
    List.forall_mem_cons.mpr ⟨Hunk.fits_placedAt rfl (by decide) (by decide),
      List.forall_mem_cons.mpr ⟨Hunk.fits_placedAt rfl (by decide) (by decide),
        List.forall_mem_singleton.mpr hbottom⟩⟩
  have hfloors : Located.floors file located = .ok floors := by
    rw [Located.floors, List.mergeSort_of_pairwise (by decide)]
    decide +kernel
  exact ⟨hnumbers, hfits, hfloors, floors_apart hnumbers hfits hfloors profile⟩

end LoosePatch.Located
