import LoosePatch.Locate.View
import LoosePatch.Proofs.Hunk.Numbered
import LoosePatch.Proofs.Locate.Levels

/-!
How the segments of a view lie in a file. A `Layout` puts segments one after the other on runs of
consecutive lines; every placement that `View.find` gives is one, whichever levels found its
segments.
-/

namespace LoosePatch

/-! ## The old lines of a hunk -/

/-- The old lines of a hunk with the indices of their edits, ellipses left aside. -/
def Hunk.oldEdits (hunk : Hunk) : List OldLine :=
  hunk.edits.zipIdx.filterMap fun (e, i) => if e.isOld then some ⟨i, e⟩ else none

namespace Hunk

theorem oldEdits_eq (hunk : Hunk) :
    hunk.oldEdits = (numberedWhere Edit.isOld hunk.edits.zipIdx).map fun x => ⟨x.2, x.1⟩ := by
  rw [numberedWhere, ← List.filterMap_eq_map, List.filterMap_filter]
  rfl

theorem mem_oldEdits (hunk : Hunk) (old : OldLine) :
    old ∈ hunk.oldEdits ↔ hunk.edits[old.index]? = some old.edit ∧ old.edit.isOld = true := by
  rw [oldEdits_eq, List.mem_map]
  constructor
  · rintro ⟨x, hx, rfl⟩
    exact mem_numberedWhere_zipIdx.mp hx
  · intro h
    exact ⟨(old.edit, old.index), mem_numberedWhere_zipIdx.mpr h, rfl⟩

theorem oldEdits_sorted (hunk : Hunk) :
    hunk.oldEdits.Pairwise (fun a b => a.index < b.index) := by
  rw [oldEdits_eq, List.pairwise_map]
  exact (zipIdx_sorted hunk.edits 0).filter _

theorem texts_oldEdits (hunk : Hunk) : Segment.texts hunk.oldEdits = hunk.oldLines := by
  rw [Segment.texts, oldEdits_eq, List.map_map]
  exact textsWhere_zipIdx Edit.isOld hunk.edits 0

theorem length_oldEdits (hunk : Hunk) : hunk.oldEdits.length = hunk.oldLines.length := by
  rw [← texts_oldEdits, Segment.texts, List.length_map]

/-- Cutting a list at elements that a selection passes over loses nothing that it selects. -/
private theorem filterMap_flatten_splitOnP {β γ : Type} (p : β → Bool) (f : β → Option γ)
    (h : ∀ x, p x = true → f x = none) (xs : List β) :
    (xs.splitOnP p).flatten.filterMap f = xs.filterMap f := by
  induction xs with
  | nil => rfl
  | cons x xs ih =>
    rw [List.splitOnP_cons_eq_if_modifyHead]
    cases hx : p x with
    | true => simp only [↓reduceIte, List.flatten_cons, List.nil_append, ih, List.filterMap_cons,
        h x hx]
    | false =>
      obtain ⟨piece, pieces, heq⟩ := List.exists_cons_of_ne_nil (List.splitOnP_ne_nil p xs)
      rw [heq, List.flatten_cons] at ih
      simp only [Bool.false_eq_true, ↓reduceIte, heq, List.modifyHead_cons, List.flatten_cons,
        List.cons_append, List.filterMap_cons, ih]

theorem flatten_oldView (hunk : Hunk) : hunk.oldView.flatten = hunk.oldEdits := by
  simp only [oldView, List.flatten_filter_not_isEmpty, oldEdits]
  rw [← List.filterMap_flatten]
  refine filterMap_flatten_splitOnP _ _ ?_ _
  rintro ⟨e, i⟩ he
  have hkind : e.kind = .ellipsis := beq_iff_eq.mp he
  simp [Edit.isOld, hkind]

theorem ne_nil_of_mem_oldView {hunk : Hunk} {segment : Segment} (h : segment ∈ hunk.oldView) :
    segment ≠ [] := by
  have := (List.mem_filter.mp h).2
  simpa using this

theorem oldView_of_no_ellipsis {hunk : Hunk} (he : hunk.hasEllipsis = false)
    (hne : hunk.oldLines ≠ []) : hunk.oldView = [hunk.oldEdits] := by
  have hsplit : hunk.edits.zipIdx.splitOnP (fun (e, _) => e.isEllipsis) = [hunk.edits.zipIdx] := by
    refine List.splitOnP_eq_singleton ?_
    rintro ⟨e, i⟩ hmem
    have hplain := List.any_eq_false.mp he e (List.fst_mem_of_mem_zipIdx hmem)
    simpa using hplain
  have hold : hunk.oldEdits ≠ [] := by
    rw [← List.length_pos_iff, length_oldEdits]
    exact List.length_pos_iff.mpr hne
  simp only [oldView, hsplit, List.map_cons, List.map_nil]
  change [hunk.oldEdits].filter _ = [hunk.oldEdits]
  simp [hold]

end Hunk

/-! ## Positions of one segment -/

namespace Segment

theorem mem_positionsAt (segment : Segment) (place i line : Nat) :
    (i, line) ∈ positionsAt segment place ↔
      ∃ k old, segment[k]? = some old ∧ old.index = i ∧ line = place + k := by
  simp only [positionsAt, List.mem_map, Prod.exists, Prod.mk.injEq,
    List.mk_mem_zipIdx_iff_le_and_getElem?_sub]
  constructor
  · rintro ⟨old, line', ⟨hle, hk⟩, rfl, rfl⟩
    exact ⟨line' - place, old, hk, rfl, by omega⟩
  · rintro ⟨k, old, hk, rfl, rfl⟩
    exact ⟨old, place + k, ⟨by omega, by rwa [Nat.add_sub_cancel_left]⟩, rfl, rfl⟩

theorem positionsAt_map_fst (segment : Segment) (place : Nat) :
    (positionsAt segment place).map Prod.fst = segment.map OldLine.index := by
  rw [positionsAt, List.map_map]
  change (segment.zipIdx place).map (OldLine.index ∘ Prod.fst) = _
  rw [← List.map_map, List.zipIdx_map_fst]

theorem positionsAt_map_snd (segment : Segment) (place : Nat) :
    (positionsAt segment place).map Prod.snd = List.range' place segment.length := by
  rw [positionsAt, List.map_map]
  exact List.zipIdx_map_snd place segment

end Segment

/-! ## Layouts -/

/-- Segments one after the other from line `cursor` on, each on consecutive lines from a place that
suits it. -/
inductive Layout (suits : Segment → Nat → Prop) : List Segment → Nat → List (Nat × Nat) → Prop
  | nil (cursor : Nat) : Layout suits [] cursor []
  | cons {segment : Segment} {segments : List Segment} {cursor place : Nat}
      {positions : List (Nat × Nat)} : cursor ≤ place → suits segment place →
      Layout suits segments (place + segment.length) positions →
      Layout suits (segment :: segments) cursor (Segment.positionsAt segment place ++ positions)

namespace Layout

variable {suits : Segment → Nat → Prop} {segments : List Segment} {cursor : Nat}
  {positions : List (Nat × Nat)}

theorem imp {suits' : Segment → Nat → Prop} (h : Layout suits segments cursor positions)
    (himp : ∀ segment ∈ segments, ∀ place, suits segment place → suits' segment place) :
    Layout suits' segments cursor positions := by
  induction h with
  | nil cursor => exact .nil cursor
  | cons hle hs _ ih =>
    obtain ⟨hfirst, hlater⟩ := List.forall_mem_cons.mp himp
    exact .cons hle (hfirst _ hs) (ih hlater)

theorem map_fst (h : Layout suits segments cursor positions) :
    positions.map Prod.fst = segments.flatten.map OldLine.index := by
  induction h with
  | nil => rfl
  | cons _ _ _ ih =>
    rw [List.map_append, Segment.positionsAt_map_fst, ih, List.flatten_cons, List.map_append]

theorem lines_sorted (h : Layout suits segments cursor positions) :
    (positions.map Prod.snd).Pairwise (· < ·) ∧ ∀ line ∈ positions.map Prod.snd, cursor ≤ line := by
  induction h with
  | nil => exact ⟨List.Pairwise.nil, by simp⟩
  | @cons segment segments cursor place positions hplace _ _ ih =>
    obtain ⟨hsorted, hbelow⟩ := ih
    rw [List.map_append, Segment.positionsAt_map_snd]
    refine ⟨List.pairwise_append.mpr ⟨List.pairwise_lt_range', hsorted, ?_⟩, ?_⟩
    · intro a ha b hb
      have hb' := hbelow b hb
      rw [List.mem_range'_1] at ha
      omega
    · intro line hline
      rcases List.mem_append.mp hline with hline | hline
      · rw [List.mem_range'_1] at hline
        omega
      · have hline' := hbelow line hline
        omega

/-- Every position belongs to a line of a segment. -/
theorem exists_of_mem (h : Layout suits segments cursor positions) {i line : Nat}
    (hmem : (i, line) ∈ positions) :
    ∃ segment ∈ segments, ∃ place k old, suits segment place ∧ segment[k]? = some old ∧
      old.index = i ∧ line = place + k := by
  induction h with
  | nil => cases hmem
  | @cons segment segments cursor place positions _ hs _ ih =>
    rcases List.mem_append.mp hmem with hmem | hmem
    · obtain ⟨k, old, hk, hi, hline⟩ := (Segment.mem_positionsAt _ _ _ _).mp hmem
      exact ⟨segment, by simp, place, k, old, hs, hk, hi, hline⟩
    · obtain ⟨segment', hsegment', hrest⟩ := ih hmem
      exact ⟨segment', List.mem_cons_of_mem _ hsegment', hrest⟩

/-- Every line of a segment has a position. -/
theorem exists_position (h : Layout suits segments cursor positions) {old : OldLine}
    (hmem : old ∈ segments.flatten) : ∃ line, (old.index, line) ∈ positions := by
  have hindex : old.index ∈ positions.map Prod.fst := by
    rw [h.map_fst]
    exact List.mem_map_of_mem hmem
  obtain ⟨⟨i, line⟩, hpos, rfl⟩ := List.mem_map.mp hindex
  exact ⟨line, hpos⟩

end Layout

/-! ## Placements are layouts -/

namespace View

variable {α : Type} [Score α] {config : Config α} {lines : List Text}

/-- A search found the segment at the place, with no less confidence than `c`. -/
def FoundAt (config : Config α) (lines : List Text) (c : α) (segment : Segment) (place : Nat) : Prop :=
  ∃ start found d, Sequence.seek config lines (Segment.texts segment) start = some found ∧
    (place, d) ∈ found.places ∧ (ExactScore α → Score.exact c ≤ Score.exact d)

/-- A segment was found at a place with no less confidence than `c`, and what that promises holds. -/
def Sits (config : Config α) (lines : List Text) (c : α) (segment : Segment) (place : Nat) : Prop :=
  ∃ start d, Sequence.Hit config lines (Segment.texts segment) start place d ∧
    (ExactScore α → Score.exact c ≤ Score.exact d)

theorem texts_ne_nil {segment : Segment} (h : segment ≠ []) : Segment.texts segment ≠ [] := by
  simpa [Segment.texts] using h

theorem FoundAt.sits {c : α} {segment : Segment} {place : Nat} (hne : segment ≠ [])
    (h : FoundAt config lines c segment place) : Sits config lines c segment place := by
  obtain ⟨start, found, d, hfound, hmem, hle⟩ := h
  exact ⟨start, d, Sequence.seek_hit (texts_ne_nil hne) hfound hmem, hle⟩

theorem followSegments_found {segments : List Segment} {cursor : Nat} {c c' : α}
    {positions : List (Nat × Nat)} (hne : ∀ segment ∈ segments, segment ≠ [])
    (h : followSegments config lines segments cursor c = some (positions, c')) :
    Layout (FoundAt config lines c') segments cursor positions ∧
      (ExactScore α → Score.exact c' ≤ Score.exact c) := by
  induction segments generalizing cursor c positions with
  | nil =>
    simp only [followSegments, Option.some.injEq, Prod.mk.injEq] at h
    obtain ⟨rfl, rfl⟩ := h
    exact ⟨Layout.nil cursor, fun _ => le_rfl⟩
  | cons segment segments ih =>
    simp only [followSegments] at h
    split at h
    · cases h
    · rename_i place d hseek
      obtain ⟨⟨rest, c''⟩, hrest, heq⟩ := Option.map_eq_some_iff.mp h
      obtain ⟨rfl, rfl⟩ := Prod.mk.inj heq
      obtain ⟨found, hfound, hhead⟩ := Option.bind_eq_some_iff.mp hseek
      have hmem := List.mem_of_head? hhead
      have hhit := Sequence.seek_hit (texts_ne_nil (hne segment List.mem_cons_self)) hfound hmem
      obtain ⟨hlayout, hconf⟩ := ih (fun s hs => hne s (List.mem_cons_of_mem _ hs)) hrest
      have hle : ExactScore α → Score.exact c'' ≤ min (Score.exact c) (Score.exact d) := by
        intro _
        rw [← Score.exact_least]
        exact hconf inferInstance
      exact ⟨.cons hhit.start_le ⟨cursor, found, d, hfound, hmem, fun hx => (le_min_iff.mp (hle hx)).2⟩
        hlayout, fun hx => (le_min_iff.mp (hle hx)).1⟩

/-- A placement of a view lays out its segments, and starts where the first of them does. -/
theorem find_found {segments : List Segment} {start : Nat} {p : Placement α}
    (hne : ∀ segment ∈ segments, segment ≠ []) (h : p ∈ find config lines segments start) :
    Layout (FoundAt config lines p.confidence) segments start p.positions ∧
      (p.positions.map Prod.snd).head? = some p.start := by
  unfold find at h
  split at h
  · cases h
  · rename_i first later
    split at h
    · cases h
    · rename_i found hfound
      obtain ⟨⟨place, d⟩, hplace, hp⟩ := List.mem_filterMap.mp h
      obtain ⟨⟨positions, c⟩, hfollow, rfl⟩ := Option.map_eq_some_iff.mp hp
      have hfirst := hne first List.mem_cons_self
      have hhit := Sequence.seek_hit (texts_ne_nil hfirst) hfound hplace
      obtain ⟨hlayout, hconf⟩ :=
        followSegments_found (fun s hs => hne s (List.mem_cons_of_mem _ hs)) hfollow
      refine ⟨.cons hhit.start_le ⟨start, found, d, hfound, hplace, hconf⟩ hlayout, ?_⟩
      obtain ⟨old, rest, rfl⟩ := List.exists_cons_of_ne_nil hfirst
      rfl

theorem find_layout {segments : List Segment} {start : Nat} {p : Placement α}
    (hne : ∀ segment ∈ segments, segment ≠ []) (h : p ∈ find config lines segments start) :
    Layout (Sits config lines p.confidence) segments start p.positions ∧
      (p.positions.map Prod.snd).head? = some p.start := by
  obtain ⟨hlayout, hhead⟩ := find_found hne h
  exact ⟨hlayout.imp fun segment hsegment _ hfound => hfound.sits (hne segment hsegment), hhead⟩

theorem find_start_le {segments : List Segment} {start : Nat} {p : Placement α}
    (hne : ∀ segment ∈ segments, segment ≠ []) (h : p ∈ find config lines segments start) :
    start ≤ p.start := by
  obtain ⟨hlayout, hhead⟩ := find_layout hne h
  exact hlayout.lines_sorted.2 p.start (List.mem_of_head? hhead)

end View
end LoosePatch
