import LoosePatch.Proofs.Splice.Sites

/-!
Hunks in another order. They are refused or applied all the same, and their results are the same but
for lines that several hunks insert at one line: there they stand in the order of the hunks
(`applyHunks_perm`).
-/

namespace LoosePatch

variable {α : Type} [Score α]

/-- What hunks without old lines insert at a line, in the order of the hunks. -/
def insertedAt (config : Config α) (lines : List Text) (hunks : List Hunk) (line : Nat) :
    List Text :=
  (hunks.filter fun hunk => hunk.insertionLine? config lines = some line).flatMap
    (Hunk.inserted lines)

/-- A region with the inserted lines of some hunks, if its range is empty. -/
def Region.fill (config : Config α) (lines : List Text) (hunks : List Hunk) (r : Region Text) :
    Region Text :=
  if r.start = r.stop then { r with body := insertedAt config lines hunks r.start } else r

variable {config : Config α} {lines new : List Text} {hunks hunks' : List Hunk}
  {sites : List (Located α)} {splices splices' : List Splice} {range : Nat ×ₗ Nat}

/-! ## Inserted lines -/

theorem groupAt_insertions (h : List.Forall₂ (Hunk.Makes config lines) hunks splices) (line : Nat) :
    (groupAt splices (toLex (line, line))).flatMap Splice.replacement =
      insertedAt config lines hunks line := by
  induction h with
  | nil => rfl
  | @cons hunk s hunks splices hmakes _ ih =>
    -- A splice is in the group of the line if its hunk inserts there.
    have hsame : s.range = toLex (line, line) ↔ hunk.insertionLine? config lines = some line := by
      rw [Splice.range_eq_iff]
      cases hline : hunk.insertionLine? config lines with
      | none =>
        rw [Hunk.Makes, hline] at hmakes
        have hlt : s.start < s.stop := hmakes
        exact iff_of_false (fun h => hlt.ne (h.1.trans h.2.symm)) (by simp)
      | some place =>
        rw [Hunk.Makes, hline] at hmakes
        have hs : s = ⟨place, place, hunk.inserted lines⟩ := hmakes
        rw [hs, Option.some.injEq]
        exact and_self_iff
    by_cases hline : hunk.insertionLine? config lines = some line
    · rw [Hunk.Makes, hline] at hmakes
      have hs : s.replacement = hunk.inserted lines := congrArg Splice.replacement hmakes
      rw [groupAt, List.filter_cons_of_pos (by simpa using hsame.mpr hline), insertedAt,
        List.filter_cons_of_pos (by simpa using hline), List.flatMap_cons, List.flatMap_cons, hs]
      exact congrArg (hunk.inserted lines ++ ·) ih
    · rw [groupAt, List.filter_cons_of_neg (by simpa using mt hsame.mp hline), insertedAt,
        List.filter_cons_of_neg (by simpa using hline)]
      exact ih

/-- Different hunks insert at different lines. -/
def InsertApart (config : Config α) (lines : List Text) (hunks : List Hunk) : Prop :=
  hunks.Pairwise fun hunk other => ∀ line, hunk.insertionLine? config lines = some line →
    other.insertionLine? config lines ≠ some line

/-- Where hunks insert at different lines, their order does not tell. -/
theorem InsertApart.insertedAt_eq (h : InsertApart config lines hunks) (hperm : hunks.Perm hunks')
    (line : Nat) : insertedAt config lines hunks line = insertedAt config lines hunks' line := by
  let here (hunk : Hunk) : Bool := hunk.insertionLine? config lines = some line
  have hone : (hunks.filter here).Pairwise fun _ _ => False := by
    refine (h.filter here).imp_of_mem ?_
    intro hunk other hhunk hother hne
    exact hne line (of_decide_eq_true (List.mem_filter.mp hhunk).2)
      (of_decide_eq_true (List.mem_filter.mp hother).2)
  have hperm' : (hunks.filter here).Perm (hunks'.filter here) := hperm.filter here
  have hsame : hunks.filter here = hunks'.filter here := by
    refine List.Perm.eq_of_pairwise ?_ hone (hperm'.pairwise hone id) hperm'
    exact fun _ _ _ _ h => h.elim
  exact congrArg (List.flatMap (Hunk.inserted lines)) hsame

/-! ## One order and another -/

theorem layer_eq_fill (hmakes : List.Forall₂ (Hunk.Makes config lines) hunks splices)
    (hempty : (ofLex range).1 = (ofLex range).2) (body : List Text) :
    layer splices range =
      Region.fill config lines hunks ⟨(ofLex range).1, (ofLex range).2, body⟩ := by
  have hrange : range = toLex ((ofLex range).1, (ofLex range).1) := by
    conv_lhs => rw [← toLex_ofLex range, ← Prod.eta (ofLex range), ← hempty]
  rw [Region.fill, if_pos hempty, layer]
  conv_lhs => rw [hrange, groupAt_insertions hmakes]
  rw [hempty]
  rfl

theorem layer_of_perm (hapart : splices.Pairwise Splice.Apart) (hperm : splices.Perm splices')
    (hlt : (ofLex range).1 < (ofLex range).2) (hrange : range ∈ ranges splices) :
    layer splices' range = layer splices range := by
  obtain ⟨s, hs⟩ := groupAt_eq_singleton hapart hlt hrange
  have hgroup : (groupAt splices range).Perm (groupAt splices' range) := hperm.filter _
  rw [hs] at hgroup
  rw [layer, layer, hs, List.perm_singleton.mp hgroup.symm]

/-- The regions of other hunks with the same splices differ by inserted lines only. -/
theorem Sited.layers_eq_fill {sites' : List (Located α)}
    (h : Sited config lines hunks sites splices) (h' : Sited config lines hunks' sites' splices')
    (hperm : splices.Perm splices') :
    (ranges splices').map (layer splices') =
      ((ranges splices).map (layer splices)).map (Region.fill config lines hunks') := by
  obtain ⟨hin, hapart⟩ := h.apart
  rw [← ranges_of_perm hperm, List.map_map]
  refine List.map_congr_left fun range hrange => ?_
  rw [Function.comp_apply]
  obtain ⟨s, hs, hsrange⟩ := mem_ranges.mp hrange
  obtain ⟨hstart, hstop⟩ := Splice.range_eq_iff.mp hsrange
  have hle := (hin s hs).1
  rw [hstart, hstop] at hle
  rcases Nat.lt_or_eq_of_le hle with hlt | hempty
  · rw [layer_of_perm hapart hperm hlt hrange, Region.fill]
    exact (if_neg hlt.ne).symm
  · exact layer_eq_fill h'.makes hempty _

/-- The regions of hunks that apply together stand one below the other. -/
theorem Sited.stacked_layers (h : Sited config lines hunks sites splices) :
    Stacked lines.length 0 ((ranges splices).map (layer splices)) := by
  obtain ⟨hin, hapart⟩ := h.apart
  have hbelow : (ranges splices).Pairwise fun range range' =>
      (layer splices range).stop ≤ (layer splices range').start := by
    refine (ranges_lt splices).imp_of_mem ?_
    intro range range' hrange hrange' hlt
    obtain ⟨s, hs, rfl⟩ := mem_ranges.mp hrange
    obtain ⟨t, ht, rfl⟩ := mem_ranges.mp hrange'
    have hne : s ≠ t := fun heq => hlt.ne (congrArg Splice.range heq)
    have hsin := hin s hs
    have htin := hin t ht
    have hlt' : s.start < t.start ∨ s.start = t.start ∧ s.stop < t.stop := Prod.Lex.lt_iff.mp hlt
    show s.stop ≤ t.start
    rcases hapart.forall hs ht hne with hle | hle <;> omega
  refine Stacked.of_pairwise (Nat.zero_le _) ?_ (List.pairwise_map.mpr hbelow)
  intro r hr
  obtain ⟨range, hrange, rfl⟩ := List.mem_map.mp hr
  obtain ⟨s, hs, rfl⟩ := mem_ranges.mp hrange
  exact ⟨Nat.zero_le _, hin s hs⟩

theorem applyHunks_isOk_of_perm (hperm : hunks.Perm hunks')
    (h : ∃ r, applyHunks config lines hunks = .ok r) :
    ∃ r, applyHunks config lines hunks' = .ok r := by
  obtain ⟨⟨new, placements⟩, h⟩ := h
  obtain ⟨sites, splices, hsited, -⟩ := applyHunks_iff_sited.mp ⟨placements, h⟩
  obtain ⟨sites', splices', hsited', -⟩ := hsited.perm hperm
  obtain ⟨placements', h'⟩ := applyHunks_iff_sited.mpr ⟨sites', splices', hsited', rfl⟩
  exact ⟨_, h'⟩

/-- The order of hunks is about nothing but the lines that several of them insert at one line. -/
theorem applyHunks_perm (config : Config α) (lines : List Text) (hperm : hunks.Perm hunks') :
    ((∃ e, applyHunks config lines hunks = .error e) ↔
      ∃ e, applyHunks config lines hunks' = .error e) ∧
    ∀ new new' placements placements', applyHunks config lines hunks = .ok (new, placements) →
      applyHunks config lines hunks' = .ok (new', placements') →
      (∃ frame : List (Region Text), Stacked lines.length 0 frame ∧
        (frame.Pairwise fun r r' => r.start < r'.start ∨ r.start = r'.start ∧ r.stop < r'.stop) ∧
        new = assemble lines 0 (frame.map (Region.fill config lines hunks)) ∧
        new' = assemble lines 0 (frame.map (Region.fill config lines hunks'))) ∧
      (InsertApart config lines hunks → new' = new) := by
  constructor
  · rw [exists_error_iff, exists_error_iff]
    exact not_congr ⟨applyHunks_isOk_of_perm hperm, applyHunks_isOk_of_perm hperm.symm⟩
  · intro new new' placements placements' h h'
    obtain ⟨sites, splices, hsited, hnew⟩ := applyHunks_iff_sited.mp ⟨placements, h⟩
    obtain ⟨sites', splices', hsited', hsplices⟩ := hsited.perm hperm
    obtain ⟨placements'', h''⟩ := applyHunks_iff_sited.mpr ⟨sites', splices', hsited', rfl⟩
    cases Except.ok.inj (h'.symm.trans h'')
    obtain ⟨hin, hapart⟩ := hsited.apart
    obtain ⟨hin', hapart'⟩ := hsited'.apart
    let frame := (ranges splices).map (layer splices)
    have hnew' : spliceAll lines (numbered splices') =
        assemble lines 0 (frame.map (Region.fill config lines hunks')) := by
      rw [spliceAll_numbered hin' hapart', hsited.layers_eq_fill hsited' hsplices]
    have hnew : new = assemble lines 0 (frame.map (Region.fill config lines hunks)) := by
      rw [hnew, spliceAll_numbered hin hapart, hsited.layers_eq_fill hsited (.refl _)]
    have hascending :
        frame.Pairwise fun r r' => r.start < r'.start ∨ r.start = r'.start ∧ r.stop < r'.stop :=
      List.pairwise_map.mpr ((ranges_lt splices).imp fun hlt => Prod.Lex.lt_iff.mp hlt)
    constructor
    · exact ⟨frame, hsited.stacked_layers, hascending, hnew, hnew'⟩
    · intro hdistinct
      have hfill : Region.fill config lines hunks' = Region.fill config lines hunks := by
        funext r
        rw [Region.fill, Region.fill, hdistinct.insertedAt_eq hperm]
      rw [hnew', hnew, hfill]

/-- Two hunks that insert at one line trade their lines there when they trade places; a hunk that
inserts and one that replaces a line can come in either order. -/
theorem applyHunks_perm_same_line :
    (∃ (placements placements' : List (Placement Rat)) (frame : List (Region Text)),
      applyHunks (Config.usual Score.decimal) [['a'], ['b']]
        [{ edits := [⟨.add, ['x']⟩], hint := some { oldStart := 2 } },
          { edits := [⟨.add, ['y']⟩], hint := some { oldStart := 2 } }] =
        .ok ([['a'], ['x'], ['y'], ['b']], placements) ∧
      applyHunks (Config.usual Score.decimal) [['a'], ['b']]
        [{ edits := [⟨.add, ['y']⟩], hint := some { oldStart := 2 } },
          { edits := [⟨.add, ['x']⟩], hint := some { oldStart := 2 } }] =
        .ok ([['a'], ['y'], ['x'], ['b']], placements') ∧
      Stacked 2 0 frame) ∧
    ∃ placements placements' : List (Placement Rat),
      applyHunks (Config.usual Score.decimal) [['a'], ['b']]
        [{ edits := [⟨.add, ['x']⟩], hint := some { oldStart := 2 } },
          { edits := [⟨.remove, ['a']⟩, ⟨.add, ['A']⟩] }] =
        .ok ([['A'], ['x'], ['b']], placements) ∧
      applyHunks (Config.usual Score.decimal) [['a'], ['b']]
        [{ edits := [⟨.remove, ['a']⟩, ⟨.add, ['A']⟩] },
          { edits := [⟨.add, ['x']⟩], hint := some { oldStart := 2 } }] =
        .ok ([['A'], ['x'], ['b']], placements') := by
  let config : Config Rat := Config.usual Score.decimal
  let upper : Hunk := { edits := [⟨.add, ['x']⟩], hint := some { oldStart := 2 } }
  let lower : Hunk := { edits := [⟨.add, ['y']⟩], hint := some { oldStart := 2 } }
  let change : Hunk := { edits := [⟨.remove, ['a']⟩, ⟨.add, ['A']⟩] }
  let inserted : Placement Rat := ⟨1, Score.one, .lineHint, [], some 1, []⟩
  let changed : Placement Rat := ⟨0, Score.one, .lines .exact, [(0, 0)], none, []⟩
  have hboth : applyHunks config [['a'], ['b']] [upper, lower] =
      .ok ([['a'], ['x'], ['y'], ['b']], [inserted, inserted]) :=
    applyHunks_of_ascending [⟨1, upper, inserted⟩, ⟨2, lower, inserted⟩] []
      [(1, ⟨1, 1, [['x']]⟩), (2, ⟨1, 1, [['y']]⟩)]
      (by decide +kernel) (by decide) (by decide) (by decide +kernel) (by decide)
  have hturned : applyHunks config [['a'], ['b']] [lower, upper] =
      .ok ([['a'], ['y'], ['x'], ['b']], [inserted, inserted]) :=
    applyHunks_of_ascending [⟨1, lower, inserted⟩, ⟨2, upper, inserted⟩] []
      [(1, ⟨1, 1, [['y']]⟩), (2, ⟨1, 1, [['x']]⟩)]
      (by decide +kernel) (by decide) (by decide) (by decide +kernel) (by decide)
  have hone : applyHunks config [['a'], ['b']] [change, upper] =
      .ok ([['A'], ['x'], ['b']], [changed, inserted]) :=
    applyHunks_of_ascending [⟨1, change, changed⟩, ⟨2, upper, inserted⟩] []
      [(1, ⟨0, 1, [['A']]⟩), (2, ⟨1, 1, [['x']]⟩)]
      (by decide +kernel) (by decide) (by decide) (by decide +kernel) (by decide)
  have hdistinct : InsertApart config [['a'], ['b']] [change, upper] := by
    refine List.pairwise_pair.mpr fun line hline => ?_
    rw [Hunk.insertionLine?_of_not_insertion rfl] at hline
    cases hline
  obtain ⟨-, hperm⟩ := applyHunks_perm config [['a'], ['b']] (.swap lower upper [])
  obtain ⟨⟨frame, hframe, -⟩, -⟩ := hperm _ _ _ _ hboth hturned
  obtain ⟨herror, hsame⟩ := applyHunks_perm config [['a'], ['b']] (.swap upper change [])
  refine ⟨⟨_, _, frame, hboth, hturned, hframe⟩, ?_⟩
  cases hother : applyHunks config [['a'], ['b']] [upper, change] with
  | error e =>
    obtain ⟨e', he'⟩ := herror.mpr ⟨e, hother⟩
    rw [hone] at he'
    cases he'
  | ok result =>
    obtain ⟨new, placements⟩ := result
    obtain ⟨-, hnew⟩ := hsame _ _ _ _ hone hother
    exact ⟨placements, _, by rw [hnew hdistinct], hone⟩

end LoosePatch
