import LoosePatch.Locate.Hunk
import LoosePatch.Proofs.Locate.Leaders
import LoosePatch.Proofs.Locate.Soundness

/-!
What the search for a hunk takes for granted. It takes the first of some segments, places, lines or
placements, the least or the greatest of some numbers, and divides by numbers of lines; `Grounded`
says that there is always one, and that all lines it looks at are lines of the file.
-/

namespace LoosePatch

variable {α : Type} [Score α] {config : Config α} {lines pattern : List Text} {start : Nat}

/-! ## Places -/

namespace Sequence

theorem seekEqual_places_ne_nil {found : Found α} (h : seekEqual config lines pattern start = some found) :
    found.places ≠ [] := by
  obtain ⟨e, -, h⟩ := List.exists_of_findSome?_eq_some h
  split at h
  · cases h
  · split at h
    · cases h
    · rename_i hplaces
      cases h
      simpa using hplaces

theorem capped_places_ne_nil {level : Level} {scored : List (Nat × α)} {found : Found α}
    (h : capped level scored = some found) : found.places ≠ [] := by
  unfold capped at h
  split at h
  · cases h
  · rename_i hscored
    cases h
    simpa using hscored

theorem seekSimilar_places_ne_nil {found : Found α}
    (h : seekSimilar config lines pattern start = some found) : found.places ≠ [] := by
  simp only [seekSimilar, Option.orElse_eq_orElse, Option.orElse_eq_or, Option.or_eq_some_iff] at h
  rcases h with h | ⟨-, h | ⟨-, h⟩⟩
  · unfold seekOpening at h
    split at h
    · split at h
      · exact capped_places_ne_nil h
      · cases h
    · exact capped_places_ne_nil h
  · exact capped_places_ne_nil h
  · exact capped_places_ne_nil h

/-- An answer of the search names a place. -/
theorem seek_places_ne_nil {found : Found α} (h : seek config lines pattern start = some found) :
    found.places ≠ [] := by
  unfold seek at h
  split at h
  · cases h
    exact List.cons_ne_nil _ _
  · split at h
    · cases h
    · simp only [Option.orElse_eq_orElse, Option.orElse_eq_or, Option.or_eq_some_iff] at h
      rcases h with h | ⟨-, h⟩
      · exact seekEqual_places_ne_nil h
      · split at h
        · exact seekSimilar_places_ne_nil h
        · cases h

end Sequence

/-! ## Placements -/

namespace View

omit [Score α] in
theorem leaders_ne_nil {scored : List ((Nat × Nat) × Placement α)} (hne : scored ≠ []) :
    leaders scored ≠ [] := by
  obtain ⟨first, rest, rfl⟩ := List.exists_cons_of_ne_nil hne
  obtain ⟨hone, hfirst, hrest⟩ := bestFit_spec rest first.1
  obtain ⟨x, hx, hbest⟩ : ∃ x ∈ first :: rest, x.1 = bestFit rest first.1 := by
    rcases hone with heq | ⟨x, hx, heq⟩
    · exact ⟨first, List.mem_cons_self, heq.symm⟩
    · exact ⟨x, List.mem_cons_of_mem first hx, heq⟩
  refine List.ne_nil_of_mem (mem_leaders.mpr ⟨x.1, hx, ?_⟩)
  rw [hbest]
  exact List.forall_mem_cons.mpr ⟨hfirst, hrest⟩

end View

/-- Of the placements of a narrower view some lead. -/
theorem Clues.selectNarrow_ne_nil {view : Segment} (clues : Clues α) (old : Segment)
    (h : View.find config lines [view] 0 ≠ []) : (clues.selectNarrow config lines old view).2 ≠ [] := by
  unfold Clues.selectNarrow
  extract_lets below
  split
  rename_i floor placements hchosen
  have hne : placements ≠ [] := by
    split at hchosen
    · cases hchosen
      exact h
    · rename_i hbelow
      rw [hchosen] at hbelow
      simpa using hbelow
  split
  · exact absurd rfl hne
  · exact List.cons_ne_nil _ _
  · exact View.leaders_ne_nil (by simpa using hne)

/-! ## The closest lines -/

namespace Diagnosis

theorem similaritySum_length {total x : α} {pattern lines : List Text}
    (h : similaritySum total pattern lines = some x) : pattern.length ≤ lines.length := by
  induction pattern generalizing total lines with
  | nil => exact Nat.zero_le _
  | cons expected pattern ih =>
    cases lines with
    | nil => cases h
    | cons actual lines => exact Nat.succ_le_succ (ih h)

/-- What keeps one of two entries at each step ends with one of all. -/
theorem foldl_mem_cons {β : Type} {f : β → β → β} (hf : ∀ x y, f x y = x ∨ f x y = y) (first : β)
    (rest : List β) : rest.foldl f first ∈ first :: rest := by
  induction rest generalizing first with
  | nil => exact List.mem_singleton_self first
  | cons y rest ih =>
    rw [List.foldl_cons]
    rcases hf first y with heq | heq
    · rw [heq]
      have hsublist : (first :: rest).Sublist (first :: y :: rest) :=
        (List.sublist_cons_self y rest).cons_cons first
      exact hsublist.subset (ih first)
    · rw [heq]
      exact List.mem_cons_of_mem first (ih y)

/-- The lines that resemble the pattern most are lines of the file. -/
theorem closest_within {place : Nat} {x : α} (h : closest lines pattern = some (place, x)) :
    place + pattern.length ≤ lines.length := by
  unfold closest at h
  simp only at h
  split at h
  · cases h
  · rename_i first rest hscored
    have hmem : (place, x) ∈ first :: rest := by
      rw [← Option.some.inj h]
      exact foldl_mem_cons (fun best y => (ite_eq_or_eq _ _ _).symm) first rest
    rw [← hscored, Sequence.mem_scanFrom] at hmem
    obtain ⟨-, hplace, hsome⟩ := hmem
    obtain ⟨total, htotal, -⟩ := Option.map_eq_some_iff.mp hsome
    have hlen := similaritySum_length htotal
    simp only [List.length_map, List.length_drop] at hlen hplace
    omega

end Diagnosis

/-! ## All of the search -/

namespace Hunk

variable {hunk : Hunk} {view : List Segment}

/-- The views that are looked for: the old lines as a whole, and narrower views of them. -/
def views (hunk : Hunk) : List (List Segment) :=
  hunk.oldView :: (View.narrowings hunk.oldView).map fun x => [x.2]

theorem covers_of_mem_views (h : view ∈ hunk.views) : View.Covers hunk view := by
  rcases List.mem_cons.mp h with rfl | h
  · exact View.covers_oldView hunk
  · obtain ⟨⟨narrowing, segment⟩, hmem, rfl⟩ := List.mem_map.mp h
    exact View.covers_narrowing hmem

theorem oldView_ne_nil (hold : hunk.isInsertion = false) : hunk.oldView ≠ [] := by
  intro hnil
  have hflat := hunk.flatten_oldView
  rw [hnil, List.flatten_nil] at hflat
  have hany : hunk.edits.any Edit.isOld = true := by simpa [isInsertion] using hold
  obtain ⟨e, he, hisOld⟩ := List.any_eq_true.mp hany
  obtain ⟨i, hi⟩ := List.mem_iff_getElem?.mp he
  have hmem := (hunk.mem_oldEdits ⟨i, e⟩).mpr ⟨hi, hisOld⟩
  rw [← hflat] at hmem
  cases hmem

theorem ne_nil_of_mem_views (hold : hunk.isInsertion = false) (h : view ∈ hunk.views) : view ≠ [] := by
  rcases List.mem_cons.mp h with rfl | h
  · exact oldView_ne_nil hold
  · obtain ⟨x, -, rfl⟩ := List.mem_map.mp h
    exact List.cons_ne_nil _ _

/-- What the search for a hunk in a file takes for granted. -/
structure Grounded (config : Config α) (lines : List Text) (hunk : Hunk) : Prop where
  /-- A view has a first segment. -/
  views : hunk.isInsertion = false → ∀ view ∈ hunk.views, view ≠ []
  /-- A segment has a first and a last line, and the means over its lines are defined. -/
  segments : ∀ view ∈ hunk.views, ∀ segment ∈ view, segment ≠ []
  /-- An answer of the search for a segment has a first place, and all are places for the whole
  segment. -/
  places : ∀ view ∈ hunk.views, ∀ segment ∈ view, ∀ start found,
    Sequence.seek config lines segment.texts start = some found → found.places ≠ [] ∧
      ∀ x ∈ found.places, start ≤ x.1 ∧ x.1 + segment.length ≤ lines.length
  /-- A line that another one opens is not empty, so the share it covers is defined. -/
  opened : ∀ expected actual : Text, (!expected.isEmpty && expected.isPrefixOf actual) = true →
    actual.length ≠ 0
  /-- A placement has matched lines, all of them in the file. -/
  placements : ∀ view ∈ hunk.views, ∀ start, ∀ p ∈ View.find config lines view start,
    p.positions ≠ [] ∧ start ≤ p.start ∧ p.start < p.stop ∧ p.stop ≤ lines.length ∧
      p.Fits lines hunk
  /-- Of several placements one is nearest to a line. -/
  nearest : ∀ view ∈ hunk.views, View.find config lines view 0 ≠ [] → ∀ target,
    Anchor.nearest target ((View.find config lines view 0).map (·.start)) ≠ []
  /-- Of the placements of a narrower view some lead. -/
  leaders : ∀ x ∈ View.narrowings hunk.oldView, View.find config lines [x.2] 0 ≠ [] →
    ∀ clues : Clues α, (clues.selectNarrow config lines (hunk.oldView.head?.getD []) x.2).2 ≠ []
  /-- A resolved anchor is a line of the file, and has a confidence. -/
  anchorLine : ∀ hint place c, Anchor.resolve config lines hunk.anchors hint = some (.line place c) →
    place < lines.length ∧
      ∃ first rest, hunk.anchors = first :: rest ∧ Anchor.Leads config lines first rest (place, c)
  /-- An anchor that is not resolved has several lines of the file to choose from. -/
  anchorLines : ∀ hint places c,
    Anchor.resolve config lines hunk.anchors hint = some (.candidates places c) →
      2 ≤ places.length ∧ ∀ place ∈ places, place < lines.length
  /-- The lines reported as changed are lines of the file. -/
  closest : ∀ segment ∈ hunk.oldView, ∀ place (x : α),
    Diagnosis.closest lines segment.texts = some (place, x) → place + segment.length ≤ lines.length

/-- The search for a hunk is grounded in every file. -/
theorem grounded (config : Config α) (lines : List Text) (hunk : Hunk) : hunk.Grounded config lines where
  views hold _ := ne_nil_of_mem_views hold
  segments _ hview := (covers_of_mem_views hview).nonempty
  places view hview segment hsegment start found hfound := by
    have hne : segment.texts ≠ [] :=
      mt List.map_eq_nil_iff.mp ((covers_of_mem_views hview).nonempty segment hsegment)
    refine ⟨Sequence.seek_places_ne_nil hfound, fun x hx => ?_⟩
    have hhit := Sequence.seek_hit hne hfound hx
    have hinside := hhit.inside
    rw [Segment.texts, List.length_map] at hinside
    exact ⟨hhit.start_le, hinside⟩
  opened expected actual h := by
    obtain ⟨hne, hbefore⟩ := Bool.and_eq_true_iff.mp h
    have hle := (List.isPrefixOf_iff_prefix.mp hbefore).length_le
    have hpos := List.length_pos_iff.mpr (List.isEmpty_eq_false_iff.mp (Bool.not_eq_true' _ ▸ hne))
    omega
  placements view hview start p hp := by
    have hcovers := covers_of_mem_views hview
    have hne := View.find_positions_ne_nil hcovers hp
    have hfits := View.find_fits hcovers hp
    obtain ⟨x, hx, hstart⟩ := List.mem_map.mp (hfits.start_mem hne)
    refine ⟨hne, View.find_start_le hcovers.nonempty hp, ?_, hfits.stop_le, hfits⟩
    rw [← hstart]
    exact Placement.lt_stop hx
  nearest view hview hne target := Anchor.nearest_ne_nil target (mt List.map_eq_nil_iff.mp hne)
  leaders x hx hne clues := clues.selectNarrow_ne_nil _ hne
  anchorLine hint place c h := ⟨Anchor.resolve_line_lt h, Anchor.resolve_line_leads h⟩
  anchorLines hint places c := Anchor.resolve_candidates
  closest segment hsegment place x h := by
    have hwithin := Diagnosis.closest_within h
    rwa [Segment.texts, List.length_map] at hwithin

end Hunk
end LoosePatch
