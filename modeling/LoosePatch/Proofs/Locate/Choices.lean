import LoosePatch.Locate.Hunk
import LoosePatch.Proofs.Outcome

/-!
What is chosen among placements is one of them. `Hunk.locate_eq_ok` says once where the placement
of a hunk with old lines comes from: a search for its whole view, or a search for a narrower one.
-/

namespace LoosePatch

variable {α : Type}

/-! ## Ties -/

namespace Clues

theorem mem_of_onlyAfter {ls : List Nat} {placements : List (Placement α)} {p : Placement α}
    (h : onlyAfter ls placements = some p) : p ∈ placements := by
  unfold onlyAfter at h
  split at h
  · cases h
  · rename_i q picks hpicks
    obtain ⟨-, heq⟩ := Option.ite_none_right_eq_some.mp h
    cases heq
    have hmem : p ∈ ls.filterMap fun line => placements.find? fun p => line ≤ p.start := by
      rw [hpicks]
      exact List.mem_cons_self
    obtain ⟨line, -, hfind⟩ := List.mem_filterMap.mp hmem
    exact List.mem_of_find?_eq_some hfind

theorem mem_of_onlyNearest {target : Int} {placements : List (Placement α)} {p : Placement α}
    (h : onlyNearest target placements = some p) : p ∈ placements := by
  unfold onlyNearest at h
  split at h
  · exact List.mem_of_find?_eq_some h
  · cases h

theorem mem_of_breakTie {clues : Clues α} {placements : List (Placement α)} {p : Placement α}
    (h : clues.breakTie placements = some p) : p ∈ placements := by
  simp only [breakTie, Option.orElse_eq_orElse, Option.orElse_eq_or, Option.or_eq_some_iff] at h
  rcases h with h | ⟨-, h | ⟨-, h⟩⟩
  · exact mem_of_onlyAfter h
  · obtain ⟨target, -, hnearest⟩ := Option.bind_eq_some_iff.mp h
    exact mem_of_onlyNearest hnearest
  · obtain ⟨-, hlast⟩ := Option.ite_none_right_eq_some.mp h
    exact List.mem_of_getLast? hlast

theorem mem_of_decide? {clues : Clues α} {placements : List (Placement α)} {p : Placement α}
    (h : clues.decide? placements = some p) : p ∈ placements := by
  unfold decide? at h
  split at h
  · cases h
  · cases h
    exact List.mem_singleton_self p
  · exact mem_of_breakTie h

theorem decide?_of_many {clues : Clues α} {placements : List (Placement α)}
    (h : 1 < placements.length) : clues.decide? placements = clues.breakTie placements := by
  match placements, h with
  | _ :: _ :: _, _ => rfl

theorem breakTie_unanchored {clues : Clues α} {placements : List (Placement α)}
    (h : clues.anchorCandidates = []) :
    clues.breakTie placements =
      (clues.hint.bind (onlyNearest · placements)
        <|> if clues.endsFile then placements.getLast? else none) := by
  rw [breakTie, h]
  rfl

/-! ## Views -/

variable [Score α] {clues : Clues α} {config : Config α} {lines : List Text}

theorem select_mem {segments : List Segment} {p : Placement α}
    (h : (clues.select config lines segments).1 = some p) :
    ∃ start, p ∈ View.find config lines segments start := by
  unfold select at h
  simp only at h
  split at h
  · rename_i q others hbelow
    cases h
    split at hbelow
    · rename_i place _
      exact ⟨place, by rw [hbelow]; exact List.mem_cons_self⟩
    · cases hbelow
  · exact ⟨0, mem_of_decide? h⟩

omit [Score α] in
theorem leaders_sublist (fit : Placement α → Nat × Nat) (placements : List (Placement α)) :
    (View.leaders (placements.map fun p => (fit p, p))).Sublist placements := by
  have hplacements : (placements.map fun p => (fit p, p)).map Prod.snd = placements := by
    rw [List.map_map]
    exact List.map_id placements
  have hleaders (scored : List ((Nat × Nat) × Placement α)) :
      (View.leaders scored).Sublist (scored.map Prod.snd) := by
    unfold View.leaders
    split
    · exact List.nil_sublist _
    · exact List.filter_sublist.map Prod.snd
  simpa only [hplacements] using hleaders (placements.map fun p => (fit p, p))

/-- The placement of a narrower view is one of those that it was chosen from, and these come from one
search, in its order. -/
theorem selectNarrow_sublist (clues : Clues α) (config : Config α) (lines : List Text) (old view : Segment) :
    (∃ start, (clues.selectNarrow config lines old view).2.Sublist (View.find config lines [view] start)) ∧
      ∀ p, (clues.selectNarrow config lines old view).1 = some p →
        p ∈ (clues.selectNarrow config lines old view).2 := by
  unfold selectNarrow
  extract_lets below
  split
  rename_i floor placements hfound
  have hplaced : ∃ start, placements = View.find config lines [view] start := by
    split at hfound
    · cases hfound
      exact ⟨0, rfl⟩
    · rename_i hsome
      simp only [below] at hsome hfound
      split at hsome
      · rename_i place hanchor
        rw [hanchor] at hfound
        cases hfound
        exact ⟨floor, rfl⟩
      · simp at hsome
  obtain ⟨start, rfl⟩ := hplaced
  split
  · refine ⟨⟨start, List.nil_sublist _⟩, fun p hp => ?_⟩
    cases hp
  · rename_i q hq
    exact ⟨⟨start, hq ▸ List.Sublist.refl _⟩, fun p hp =>
      Option.some.inj hp ▸ List.mem_singleton_self q⟩
  · exact ⟨⟨start, leaders_sublist _ _⟩, fun p => mem_of_decide?⟩

theorem selectNarrow_mem {old view : Segment} {p : Placement α}
    (h : (clues.selectNarrow config lines old view).1 = some p) :
    ∃ start, p ∈ View.find config lines [view] start := by
  obtain ⟨⟨start, hsublist⟩, hmem⟩ := selectNarrow_sublist clues config lines old view
  exact ⟨start, hsublist.subset (hmem p h)⟩

end Clues

/-! ## Hunks -/

namespace Hunk

variable [Score α] {config : Config α} {lines : List Text} {number : Nat}

theorem locateNarrowed_eq_some {clues : Clues α} {old : Segment}
    {views : List (Narrowing × Segment)} {undecided : List (Placement α)} {p : Placement α}
    (h : (locateNarrowed config lines clues number old views undecided).1 = some p) :
    ∃ narrowing view q start, (narrowing, view) ∈ views ∧ q ∈ View.find config lines [view] start ∧
      p = narrowed narrowing number q := by
  induction views generalizing undecided with
  | nil => cases h
  | cons x views ih =>
    obtain ⟨narrowing, view⟩ := x
    simp only [locateNarrowed] at h
    split at h
    · rename_i q leaders hselect
      cases h
      obtain ⟨start, hq⟩ := Clues.selectNarrow_mem (by rw [hselect])
      exact ⟨narrowing, view, q, start, List.mem_cons_self, hq, rfl⟩
    · obtain ⟨narrowing', view', q, start, hmem, hrest⟩ := ih h
      exact ⟨narrowing', view', q, start, List.mem_cons_of_mem _ hmem, hrest⟩

/-- Added lines alone are refused as ambiguous for the lines that their anchors may mean, and else because
no anchor or line number names a place in the file. -/
theorem locateInsertion_failsOnly (hunk : Hunk) (anchor : Option (Anchoring α)) (number : Nat) :
    FailsOnly (fun failure => ∃ why, failure = .refused why ∧
      ((∃ places c, anchor = some (.candidates places c) ∧ why = .ambiguousAnchor number places lines) ∨
        why.kind = .noMatch ∨ why.kind = .invalidAnchor))
      (locateInsertion lines hunk anchor number) := by
  unfold locateInsertion
  extract_lets inserted
  split
  · exact failsOnly_ok _
  · exact failsOnly_error ⟨_, rfl, .inl ⟨_, _, rfl, rfl⟩⟩
  · exact failsOnly_error ⟨_, rfl, .inr (.inl rfl)⟩
  · split
    · exact failsOnly_ok _
    · split
      · exact failsOnly_error ⟨_, rfl, .inr (.inr rfl)⟩
      · extract_lets place
        split
        · exact failsOnly_ok _
        · exact failsOnly_error ⟨_, rfl, .inr (.inr rfl)⟩

/-- What a hunk says about its place besides its old lines. -/
def clues (config : Config α) (lines : List Text) (hunk : Hunk) : Clues α :=
  let hint := hunk.hint.map LineHint.oldIndex
  { anchor := Anchor.resolve config lines hunk.anchors hint, hint, endsFile := hunk.endsFile }

theorem locate_of_select {hunk : Hunk} {p : Placement α} (hold : hunk.isInsertion = false)
    (h : ((hunk.clues config lines).select config lines hunk.oldView).1 = some p) :
    hunk.locate config lines number =
      .ok (withNotes (hunk.clues config lines).anchor number p) := by
  unfold locate
  extract_lets hint anchor clues segments
  rw [hold, if_neg Bool.false_ne_true]
  have hselect : clues.select config lines segments =
      (some p, (clues.select config lines segments).2) := Prod.ext h rfl
  rw [hselect]
  rfl

/-- Where the whole view is not decided on, a narrower view is placed, or the hunk is refused. -/
theorem locate_of_undecided {hunk : Hunk} {candidates undecided : List (Placement α)}
    {placement : Option (Placement α)} (hold : hunk.isInsertion = false)
    (hselect : (hunk.clues config lines).select config lines hunk.oldView = (none, candidates)) :
    locateNarrowed config lines (hunk.clues config lines) number (hunk.oldView.head?.getD [])
      (View.narrowings hunk.oldView) candidates = (placement, undecided) →
    hunk.locate config lines number =
      match placement with
      | some p => .ok (withNotes (hunk.clues config lines).anchor number p)
      | none =>
        if 1 < undecided.length then refuse (.ambiguousPlace number (undecided.map (·.start)) lines)
        else refuse (Diagnosis.explain lines hunk.oldView (hunk.clues config lines) number) := by
  intro hnarrowed
  unfold locate
  extract_lets hint anchor clues segments
  have hselect' : clues.select config lines segments = (none, candidates) := hselect
  have hnarrowed' : locateNarrowed config lines clues number (segments.head?.getD [])
      (View.narrowings segments) candidates = (placement, undecided) := hnarrowed
  rw [hold, if_neg Bool.false_ne_true, hselect']
  simp only [hnarrowed']
  rfl

/-- A hunk with old lines is refused where neither its whole view nor a narrower one is decided on. -/
theorem locate_eq_refuse {hunk : Hunk} {why : Refusal} (hold : hunk.isInsertion = false)
    (h : hunk.locate config lines number = refuse why) :
    ∃ candidates undecided,
      (hunk.clues config lines).select config lines hunk.oldView = (none, candidates) ∧
      locateNarrowed config lines (hunk.clues config lines) number (hunk.oldView.head?.getD [])
        (View.narrowings hunk.oldView) candidates = (none, undecided) ∧
      why = if 1 < undecided.length then .ambiguousPlace number (undecided.map (·.start)) lines
        else Diagnosis.explain lines hunk.oldView (hunk.clues config lines) number := by
  rcases hselect : (hunk.clues config lines).select config lines hunk.oldView with ⟨_ | p, candidates⟩
  · rcases hnarrowed : locateNarrowed config lines (hunk.clues config lines) number
      (hunk.oldView.head?.getD []) (View.narrowings hunk.oldView) candidates with ⟨_ | p, undecided⟩
    · refine ⟨candidates, undecided, rfl, hnarrowed, ?_⟩
      rw [locate_of_undecided hold hselect hnarrowed] at h
      dsimp only at h
      split at h
      · rename_i hmany
        rw [if_pos hmany]
        cases h
        rfl
      · rename_i hfew
        rw [if_neg hfew]
        cases h
        rfl
    · rw [locate_of_undecided hold hselect hnarrowed] at h
      cases h
  · rw [locate_of_select hold (congrArg Prod.fst hselect)] at h
    cases h

/-- The placement of a hunk with old lines is one of its whole view or of a narrower view, with
notes on it. -/
theorem locate_eq_ok {hunk : Hunk} {p : Placement α} (hold : hunk.isInsertion = false)
    (h : hunk.locate config lines number = .ok p) :
    ∃ anchor q, p = withNotes anchor number q ∧
      ((∃ start, q ∈ View.find config lines hunk.oldView start) ∨
        ∃ narrowing view r start, (narrowing, view) ∈ View.narrowings hunk.oldView ∧
          r ∈ View.find config lines [view] start ∧ q = narrowed narrowing number r) := by
  unfold locate at h
  extract_lets hint anchor clues segments at h
  rw [hold, if_neg Bool.false_ne_true] at h
  split at h
  rename_i whole candidates hselect
  split at h
  rename_i placement undecided hchosen
  cases placement with
  | some q =>
    refine ⟨anchor, q, (Except.ok.inj h).symm, ?_⟩
    cases whole with
    | some q' =>
      cases hchosen
      exact Or.inl (Clues.select_mem (by rw [hselect]))
    | none => exact Or.inr (locateNarrowed_eq_some (congrArg Prod.fst hchosen))
  | none =>
    simp only at h
    split at h <;> cases h

end Hunk
end LoosePatch
