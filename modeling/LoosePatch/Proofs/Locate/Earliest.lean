import LoosePatch.Proofs.Locate.ExactText

/-!
Views of several segments on exact text. Each segment is taken at its first place below the one before
and no choice is ever taken back; still, wherever the segments stand one below the other, the search finds
them (`View.find_of_layout`), since the first places of the later ones end no lower than any others.
-/

namespace LoosePatch

variable {α : Type} [Score α] {config : Config α} {lines : List Text}

/-- The lines of a segment stand at a place of the file byte for byte. -/
abbrev Segment.Stands (lines : List Text) (segment : Segment) (place : Nat) : Prop :=
  OccursAt lines (Segment.texts segment) place

/-- The matches of segments one after the other from line `cursor` on, each segment at the first place of
its text below the one before. -/
inductive Earliest (lines : List Text) : List Segment → (cursor : Nat) → List (Nat × Nat) → Prop
  | nil (cursor : Nat) : Earliest lines [] cursor []
  | cons {segment : Segment} {segments : List Segment} {cursor place : Nat}
      {positions : List (Nat × Nat)} : FirstFrom lines (Segment.texts segment) cursor place →
      Earliest lines segments (place + segment.length) positions →
      Earliest lines (segment :: segments) cursor (Segment.positionsAt segment place ++ positions)

theorem Score.least_self (x : α) : Score.least x x = x := ite_self x

namespace View

/-- The search for the later segments stays ahead: it finds them from any line that is not below one from
which they can be laid out. -/
theorem followSegments_of_layout (config : Config α) {segments : List Segment} {cursor below : Nat}
    {positions : List (Nat × Nat)} (hne : ∀ segment ∈ segments, segment ≠ []) (hle : cursor ≤ below)
    (h : Layout (Segment.Stands lines) segments below positions) :
    ∃ found, followSegments config lines segments cursor Score.one = some (found, Score.one) ∧
      Earliest lines segments cursor found := by
  induction h generalizing cursor with
  | nil => exact ⟨[], rfl, .nil cursor⟩
  | @cons segment segments below place positions hplace hstands _ ih =>
    obtain ⟨hsegment, hsegments⟩ := List.forall_mem_cons.mp hne
    have htexts := texts_ne_nil hsegment
    obtain ⟨i, others, hplaces, hfirst, hi⟩ :=
      FirstFrom.exists_cons htexts (hle.trans hplace) hstands
    obtain ⟨found, hfollow, hearliest⟩ :=
      ih hsegments (Nat.add_le_add_right hi segment.length)
    refine ⟨Segment.positionsAt segment i ++ found, ?_, .cons hfirst hearliest⟩
    rw [followSegments, Sequence.seek_of_occurs htexts (hle.trans hplace) hstands, hplaces]
    simp only [Option.bind_some, List.map_cons, List.head?_cons, Score.least_self, hfollow, Option.map_some]

/-- **Exact text is found across gaps.** Where segments stand in the file in order and without overlap, one
of the placements of the view starts where the first of them does, with full confidence and with every later
segment at the first place of its text below the one before. -/
theorem find_of_layout (config : Config α) (lines : List Text) {first : Segment}
    {later : List Segment} {b : Nat} {positions : List (Nat × Nat)}
    (hne : ∀ segment ∈ first :: later, segment ≠ []) (hfirst : first.Stands lines b)
    (hlater : Layout (Segment.Stands lines) later (b + first.length) positions) :
    ∃ p ∈ find config lines (first :: later) 0, p.start = b ∧ p.confidence = Score.one ∧
      p.strategy = .lines .exact ∧
      ∃ found, p.positions = Segment.positionsAt first b ++ found ∧
        Earliest lines later (b + first.length) found := by
  obtain ⟨hsegment, hsegments⟩ := List.forall_mem_cons.mp hne
  have htexts := texts_ne_nil hsegment
  obtain ⟨found, hfollow, hearliest⟩ := followSegments_of_layout config hsegments le_rfl hlater
  let p : Placement α :=
    { start := b, confidence := Score.one, strategy := .lines .exact
      positions := Segment.positionsAt first b ++ found }
  have hb : b ∈ Sequence.equalPlaces id lines (Segment.texts first) 0 :=
    (Sequence.mem_equalPlaces id lines _ 0 b htexts).mpr ⟨Nat.zero_le b, hfirst⟩
  refine ⟨p, ?_, rfl, rfl, rfl, found, rfl, hearliest⟩
  rw [find, Sequence.seek_of_occurs htexts (Nat.zero_le b) hfirst]
  refine List.mem_filterMap.mpr ⟨(b, Score.one), List.mem_map_of_mem hb, ?_⟩
  simp only [hfollow, Option.map_some, p]

/-- Three segments in a file that holds the last of them in two places below the second. -/
theorem find_of_layout_two_gaps :
    let lines : List Text := [['c'], ['a'], ['x'], ['b'], ['c'], ['y'], ['c']]
    let segments : List Segment :=
      [[⟨0, ⟨.keep, ['a']⟩⟩], [⟨2, ⟨.remove, ['b']⟩⟩], [⟨4, ⟨.keep, ['c']⟩⟩]]
    ∃ p ∈ find (Config.usual Score.decimal : Config Rat) lines segments 0,
      p.start = 1 ∧ p.confidence = Score.one ∧
        Layout (Segment.Stands lines) segments 1 [(0, 1), (2, 3), (4, 6)] ∧
        ∃ found, p.positions = [(0, 1)] ++ found ∧ Earliest lines segments.tail 2 found := by
  intro lines segments
  have hlater : Layout (Segment.Stands lines) segments.tail 2 [(2, 3), (4, 6)] :=
    .cons (show 2 ≤ 3 by decide) (by decide) (.cons (show 4 ≤ 6 by decide) (by decide) (.nil 7))
  have hfirst : Segment.Stands lines [⟨0, ⟨.keep, ['a']⟩⟩] 1 := by decide
  obtain ⟨p, hp, hstart, hone, -, hpositions⟩ :=
    find_of_layout (Config.usual Score.decimal : Config Rat) lines (by decide) hfirst hlater
  exact ⟨p, hp, hstart, hone, .cons (le_refl 1) hfirst hlater, hpositions⟩

end View
end LoosePatch
