import LoosePatch.Proofs.Locate.Anchors
import LoosePatch.Proofs.Locate.Choices
import LoosePatch.Proofs.Locate.Layout
import LoosePatch.Proofs.Locate.Narrower

/-!
What the placement of a hunk promises, whichever way it was found. `Placement.Fits` is the shape of
every placement; `Placement.Reads` compares the texts of the matched edits with the file.
-/

namespace LoosePatch

variable {α : Type}

/-- The matched edits are old lines of the hunk and include every removed one; they and their lines
ascend together, inside the file and from the start of the placement on. -/
structure Placement.Fits (lines : List Text) (hunk : Hunk) (p : Placement α) : Prop where
  ascending : p.positions.Pairwise fun x y => x.1 < y.1 ∧ x.2 < y.2
  old : ∀ x ∈ p.positions, ∃ e, hunk.edits[x.1]? = some e ∧ e.isOld = true
  removes : ∀ (i : Nat) (e : Edit), hunk.edits[i]? = some e → e.isRemove = true →
    ∃ line, (i, line) ∈ p.positions
  inside : ∀ x ∈ p.positions, x.2 < lines.length
  start_le : p.start ≤ lines.length
  start_mem : p.positions ≠ [] → p.start ∈ p.positions.map Prod.snd
  start_least : ∀ x ∈ p.positions, p.start ≤ x.2
  insertAt : p.positions = [] → p.insertAt.getD p.start = p.start

/-- The text of every matched edit equals its file line under a reading of lines. -/
def Placement.Reads (reading : Text → Text) (lines : List Text) (hunk : Hunk) (p : Placement α) :
    Prop :=
  ∀ x ∈ p.positions, ∃ e actual, hunk.edits[x.1]? = some e ∧ lines[x.2]? = some actual ∧
    reading e.text = reading actual

namespace Placement

theorem stop_of_nil {p : Placement α} (h : p.positions = []) : p.stop = p.start := by
  rw [stop, h]
  rfl

/-- A matched line ends the placement. -/
theorem exists_stop {p : Placement α} (h : p.positions ≠ []) :
    ∃ x ∈ p.positions, p.stop = x.2 + 1 := by
  obtain ⟨last, hlast⟩ := Option.isSome_iff_exists.mp
    (List.isSome_max?_of_ne_nil (l := p.positions.map Prod.snd) (mt List.map_eq_nil_iff.mp h))
  obtain ⟨x, hx, rfl⟩ := List.mem_map.mp (List.max?_mem hlast)
  exact ⟨x, hx, by rw [stop, hlast]⟩

theorem lt_stop {p : Placement α} {x : Nat × Nat} (h : x ∈ p.positions) : x.2 < p.stop := by
  obtain ⟨last, hlast⟩ := Option.isSome_iff_exists.mp
    (List.isSome_max?_of_mem (l := p.positions.map Prod.snd) (List.mem_map_of_mem h))
  rw [stop, hlast]
  exact Nat.lt_succ_of_le ((List.max?_le_iff hlast).mp le_rfl x.2 (List.mem_map_of_mem h))

namespace Fits

variable {lines : List Text} {hunk : Hunk} {p : Placement α}

theorem start_le_stop (h : p.Fits lines hunk) : p.start ≤ p.stop := by
  by_cases hnil : p.positions = []
  · rw [stop_of_nil hnil]
  · obtain ⟨x, hx, hstop⟩ := exists_stop hnil
    have hstart := h.start_least x hx
    omega

theorem stop_le (h : p.Fits lines hunk) : p.stop ≤ lines.length := by
  by_cases hnil : p.positions = []
  · rw [stop_of_nil hnil]
    exact h.start_le
  · obtain ⟨x, hx, hstop⟩ := exists_stop hnil
    have hinside := h.inside x hx
    omega

theorem lt_iff_lt (h : p.Fits lines hunk) {i j a b : Nat} (hi : (i, a) ∈ p.positions)
    (hj : (j, b) ∈ p.positions) : i < j ↔ a < b := by
  have hsame := h.ascending.imp (S := fun x y => x.1 < y.1 ↔ x.2 < y.2) fun hlt =>
    iff_of_true hlt.1 hlt.2
  have hflip := h.ascending.imp (S := fun x y => y.1 < x.1 ↔ y.2 < x.2) fun hlt =>
    iff_of_false hlt.1.not_gt hlt.2.not_gt
  exact hsame.forall_of_forall_of_flip (fun x _ => by simp) hflip hi hj

theorem lineOf?_eq_some (h : p.Fits lines hunk) {i line : Nat} :
    p.lineOf? i = some line ↔ (i, line) ∈ p.positions := by
  have hmem {a : Nat} (ha : p.lineOf? i = some a) : (i, a) ∈ p.positions := by
    obtain ⟨before, after, hsplit, -⟩ := List.lookup_eq_some_iff.mp ha
    rw [hsplit]
    exact List.mem_append_right before List.mem_cons_self
  constructor
  · exact hmem
  · intro hline
    have hsome : (p.lineOf? i).isSome :=
      List.lookup_isSome_iff.mpr ⟨(i, line), hline, beq_self_eq_true i⟩
    obtain ⟨a, ha⟩ := Option.isSome_iff_exists.mp hsome
    have h1 := h.lt_iff_lt hline (hmem ha)
    have h2 := h.lt_iff_lt (hmem ha) hline
    obtain rfl : a = line := by omega
    exact ha

end Fits
end Placement

/-! ## Views of a hunk -/

/-- Segments of a hunk's old lines that leave out nothing but kept lines. -/
structure View.Covers (hunk : Hunk) (segments : List Segment) : Prop where
  sublist : segments.flatten.Sublist hunk.oldEdits
  removes : ∀ o ∈ hunk.oldEdits, o.edit.isRemove = true → o ∈ segments.flatten
  nonempty : ∀ segment ∈ segments, segment ≠ []

namespace View

theorem covers_oldView (hunk : Hunk) : Covers hunk hunk.oldView where
  sublist := by rw [Hunk.flatten_oldView]
  removes o ho _ := by rwa [Hunk.flatten_oldView]
  nonempty _ := Hunk.ne_nil_of_mem_oldView

theorem covers_narrowing {hunk : Hunk} {narrowing : Narrowing} {view : Segment}
    (h : (narrowing, view) ∈ narrowings hunk.oldView) : Covers hunk [view] := by
  obtain ⟨old, hold, hnarrows⟩ := narrowings_narrows (fun _ => Hunk.ne_nil_of_mem_oldView) h
  have hflat : old = hunk.oldEdits := by
    rw [← Hunk.flatten_oldView, hold, List.flatten_singleton]
  subst hflat
  refine ⟨?_, fun o ho hr => ?_, fun segment hsegment => ?_⟩
  · rw [List.flatten_singleton]
    exact hnarrows.sublist
  · rw [List.flatten_singleton]
    exact hnarrows.removes o ho hr
  · rw [List.mem_singleton.mp hsegment]
    exact hnarrows.nonempty

variable [Score α] {config : Config α} {lines : List Text} {segments : List Segment} {start : Nat}
  {hunk : Hunk} {p : Placement α}

theorem find_positions_ne_nil (hc : Covers hunk segments) (h : p ∈ find config lines segments start) :
    p.positions ≠ [] := by
  intro hnil
  have hhead := (find_layout hc.nonempty h).2
  rw [hnil] at hhead
  cases hhead

/-- A position of a placement belongs to an old line of the hunk, found in a run that holds it. -/
theorem exists_hit (hc : Covers hunk segments) (h : p ∈ find config lines segments start)
    {x : Nat × Nat} (hx : x ∈ p.positions) :
    ∃ segment place k old, Sits config lines p.confidence segment place ∧ segment[k]? = some old ∧
      hunk.edits[x.1]? = some old.edit ∧ old.edit.isOld = true ∧ x.2 = place + k := by
  obtain ⟨i, line⟩ := x
  obtain ⟨segment, hsegment, place, k, old, hsits, hk, rfl, rfl⟩ :=
    (find_layout hc.nonempty h).1.exists_of_mem hx
  have hold : old ∈ hunk.oldEdits :=
    hc.sublist.subset (List.mem_flatten.mpr ⟨segment, hsegment, List.mem_of_getElem? hk⟩)
  obtain ⟨hedit, hisOld⟩ := (hunk.mem_oldEdits old).mp hold
  exact ⟨segment, place, k, old, hsits, hk, hedit, hisOld, rfl⟩

theorem find_fits (hc : Covers hunk segments) (h : p ∈ find config lines segments start) :
    p.Fits lines hunk := by
  obtain ⟨hlayout, hhead⟩ := find_layout hc.nonempty h
  have hne := find_positions_ne_nil hc h
  have hlines := hlayout.lines_sorted.1
  have hedits : (p.positions.map Prod.fst).Pairwise (· < ·) := by
    rw [hlayout.map_fst]
    exact List.pairwise_map.mpr (hunk.oldEdits_sorted.sublist hc.sublist)
  have hinside : ∀ x ∈ p.positions, x.2 < lines.length := by
    intro x hx
    obtain ⟨segment, place, k, old, ⟨_, _, hit, -⟩, hk, -, -, hline⟩ := exists_hit hc h hx
    have hlen := hit.inside
    have hlt := (List.getElem?_eq_some_iff.mp hk).1
    rw [Segment.texts, List.length_map] at hlen
    omega
  have hleast : ∀ x ∈ p.positions, p.start ≤ x.2 := by
    intro x hx
    obtain ⟨rest, hrest⟩ := List.head?_eq_some_iff.mp hhead
    rw [hrest] at hlines
    have hline : x.2 ∈ p.start :: rest := hrest ▸ List.mem_map_of_mem hx
    rcases List.mem_cons.mp hline with heq | hline
    · exact heq.ge
    · exact (List.rel_of_pairwise_cons hlines hline).le
  refine ⟨?_, fun x hx => ?_, fun i e he hr => ?_, hinside, ?_, ?_, hleast, fun hnil => absurd hnil hne⟩
  · exact (List.pairwise_map.mp hedits).and (List.pairwise_map.mp hlines)
  · obtain ⟨_, _, _, old, -, -, hedit, hold, -⟩ := exists_hit hc h hx
    exact ⟨old.edit, hedit, hold⟩
  · have hmem : ⟨i, e⟩ ∈ hunk.oldEdits :=
      (hunk.mem_oldEdits ⟨i, e⟩).mpr ⟨he, Edit.isOld_of_isRemove hr⟩
    exact hlayout.exists_position (hc.removes ⟨i, e⟩ hmem hr)
  · obtain ⟨x, hx⟩ := List.exists_mem_of_ne_nil _ hne
    exact (hleast x hx).trans (hinside x hx).le
  · exact fun _ => List.mem_of_head? hhead

/-- Texts agree as far as all places of segments promise it. -/
theorem find_reads {reading : Text → Text} (hc : Covers hunk segments)
    (h : p ∈ find config lines segments start)
    (hstands : ∀ segment place, Sits config lines p.confidence segment place →
      StandsAt reading lines (Segment.texts segment) place) : p.Reads reading lines hunk := by
  intro x hx
  obtain ⟨segment, place, k, old, hsits, hk, hedit, -, hline⟩ := exists_hit hc h hx
  have hk' : (Segment.texts segment)[k]? = some old.edit.text := by
    rw [Segment.texts, List.getElem?_map, hk]
    rfl
  obtain ⟨actual, hactual, hread⟩ := (hstands segment place hsits).getElem? hk'
  exact ⟨old.edit, actual, hedit, hline ▸ hactual, hread⟩

theorem find_strict (hstrict : config.allowFuzzy = false) (hc : Covers hunk segments)
    (h : p ∈ find config lines segments start) : p.Reads Text.trimEnd lines hunk := by
  refine find_reads hc h fun segment place hsits => ?_
  obtain ⟨_, _, hit, -⟩ := hsits
  exact hit.strict hstrict

theorem find_le_one [ExactScore α] (hc : Covers hunk segments)
    (h : p ∈ find config lines segments start) : Score.exact p.confidence ≤ 1 := by
  obtain ⟨x, hx⟩ := List.exists_mem_of_ne_nil _ (find_positions_ne_nil hc h)
  obtain ⟨_, _, _, _, ⟨_, _, hit, hle⟩, -⟩ := exists_hit hc h hx
  exact (hle inferInstance).trans (hit.le_one inferInstance)

/-- Full confidence stands for exact text. -/
theorem find_exact [ExactScore α] (hc : Covers hunk segments)
    (h : p ∈ find config lines segments start) (hone : Score.exact p.confidence = 1) :
    p.Reads id lines hunk := by
  refine find_reads hc h fun segment place hsits => ?_
  obtain ⟨_, _, hit, hle⟩ := hsits
  have hle' := hle inferInstance
  rw [hone] at hle'
  exact hit.occurs inferInstance (le_antisymm (hit.le_one inferInstance) hle')

end View

/-! ## Hunks -/

namespace Hunk

variable [Score α] {config : Config α} {lines : List Text} {hunk : Hunk} {number : Nat}
  {p : Placement α}

theorem exact_narrowedCap_lt_one [ExactScore α] (x : α) :
    Score.exact (Score.least x narrowedCap) < 1 := by
  rw [Score.exact_least]
  exact lt_of_le_of_lt (min_le_right _ _) (Score.exact_decimal_lt_one (by decide))

/-- A placement of a hunk with old lines has the matches of a placement of one of its views, and
full confidence only if this view is the whole one. -/
theorem locate_eq_found (hold : hunk.isInsertion = false)
    (h : hunk.locate config lines number = .ok p) :
    ∃ segments start q, View.Covers hunk segments ∧ q ∈ View.find config lines segments start ∧
      p.start = q.start ∧ p.positions = q.positions ∧ p.insertAt = q.insertAt ∧
      (ExactScore α → Score.exact p.confidence ≤ 1 ∧ (Score.exact p.confidence = 1 →
        segments = hunk.oldView ∧ Score.exact q.confidence = 1)) := by
  obtain ⟨anchor, q, rfl, ⟨start, hq⟩ | ⟨narrowing, view, r, start, hview, hr, rfl⟩⟩ :=
    locate_eq_ok hold h
  · have hc := View.covers_oldView hunk
    refine ⟨hunk.oldView, start, q, hc, hq, rfl, rfl, rfl, fun _ => ?_⟩
    have hle : Score.exact q.confidence ≤ 1 := View.find_le_one hc hq
    exact ⟨hle, fun hone => ⟨rfl, hone⟩⟩
  · refine ⟨[view], start, r, View.covers_narrowing hview, hr, rfl, rfl, rfl, fun _ => ?_⟩
    have hlt : Score.exact (narrowed narrowing number r).confidence < 1 :=
      exact_narrowedCap_lt_one r.confidence
    exact ⟨hlt.le, fun hone => absurd hone hlt.ne⟩

/-- Added lines alone are placed inside the file or at its end. -/
theorem locateInsertion_fits {anchor : Option (Anchoring α)} (hold : hunk.isInsertion = true)
    (hanchor : ∀ place c, anchor = some (.line place c) → place < lines.length)
    (h : locateInsertion lines hunk anchor number = .ok p) :
    p.positions = [] ∧ p.Fits lines hunk := by
  have hplace : ∃ place c strategy, place ≤ lines.length ∧
      p = { start := place, confidence := c, strategy, insertAt := some place } := by
    unfold locateInsertion at h
    extract_lets inserted at h
    split at h
    · rename_i place c
      cases h
      exact ⟨place + 1, c, .anchor, hanchor place c rfl, rfl⟩
    · cases h
    · cases h
    · split at h
      · cases h
        exact ⟨lines.length, Score.one, .endOfFile, le_rfl, rfl⟩
      · split at h
        · cases h
        · extract_lets place at h
          split at h
          · rename_i hinside
            cases h
            exact ⟨place.toNat, Score.one, .lineHint, by omega, rfl⟩
          · cases h
  obtain ⟨place, c, strategy, hle, rfl⟩ := hplace
  refine ⟨rfl, .nil, by simp, fun i e he hr => ?_, by simp, hle, by simp, by simp, by simp⟩
  have hany : hunk.edits.any Edit.isOld = true :=
    List.any_eq_true.mpr ⟨e, List.mem_of_getElem? he, Edit.isOld_of_isRemove hr⟩
  simp [isInsertion, hany] at hold

theorem locate_fits (h : hunk.locate config lines number = .ok p) : p.Fits lines hunk := by
  cases hold : hunk.isInsertion with
  | true =>
    unfold locate at h
    extract_lets hint anchor at h
    rw [hold, if_pos rfl] at h
    exact (locateInsertion_fits hold (fun place c => Anchor.resolve_line_lt) h).2
  | false =>
    obtain ⟨segments, start, q, hc, hq, hstart, hpositions, hinsert, -⟩ := locate_eq_found hold h
    obtain ⟨ascending, old, removes, inside, start_le, start_mem, start_least, insertAt⟩ :=
      View.find_fits hc hq
    rw [← hpositions] at ascending old removes inside start_mem start_least insertAt
    rw [← hstart] at start_le start_mem start_least insertAt
    rw [← hinsert] at insertAt
    exact ⟨ascending, old, removes, inside, start_le, start_mem, start_least, insertAt⟩

/-- Whatever placed a hunk with old lines, its matches are sound: they fit the hunk and the file,
texts differ as far as leniency allows, and full confidence means that every old line was found
byte for byte. -/
theorem locate_sound (hold : hunk.edits.any Edit.isOld = true)
    (h : hunk.locate config lines number = .ok p) :
    p.positions ≠ [] ∧ p.Fits lines hunk ∧
    (config.allowFuzzy = false → p.Reads Text.trimEnd lines hunk) ∧
    (ExactScore α → (p.isFuzzy = false ↔ p.confidence = Score.one) ∧
      (p.confidence = Score.one → ∀ (i : Nat) (e : Edit), hunk.edits[i]? = some e →
        e.isOld = true → ∃ line, (i, line) ∈ p.positions ∧ lines[line]? = some e.text)) := by
  have hold' : hunk.isInsertion = false := by simp [isInsertion, hold]
  obtain ⟨segments, start, q, hc, hq, -, hpositions, -, hconf⟩ := locate_eq_found hold' h
  refine ⟨hpositions ▸ View.find_positions_ne_nil hc hq, locate_fits h, fun hstrict => ?_,
    fun _ => ⟨?_, fun hone i e he hisOld => ?_⟩⟩
  · have hreads := View.find_strict hstrict hc hq
    rwa [Placement.Reads, ← hpositions] at hreads
  · obtain ⟨hle, -⟩ := hconf inferInstance
    rw [Placement.isFuzzy, decide_eq_false_iff_not, Score.lt_one_iff, Score.eq_one_iff, not_lt]
    exact ⟨fun hge => le_antisymm hle hge, fun heq => heq.ge⟩
  · obtain ⟨rfl, hq1⟩ := (hconf inferInstance).2 ((Score.eq_one_iff _).mp hone)
    have hmem : ⟨i, e⟩ ∈ hunk.oldView.flatten := by
      rw [flatten_oldView, mem_oldEdits]
      exact ⟨he, hisOld⟩
    obtain ⟨line, hline⟩ := (View.find_layout hc.nonempty hq).1.exists_position hmem
    obtain ⟨e', actual, he', hactual, hread⟩ := View.find_exact hc hq hq1 (i, line) hline
    rw [he] at he'
    cases he'
    exact ⟨line, hpositions ▸ hline, hactual.trans (congrArg some hread.symm)⟩

/-- A hunk that is found without leniency and with full confidence, in fractions. -/
theorem locate_sound_two_lines :
    ∃ p : Placement Rat, Hunk.locate { Config.usual Score.decimal with allowFuzzy := false }
        [['a'], ['b']] { edits := [⟨.keep, ['a']⟩, ⟨.remove, ['b']⟩, ⟨.add, ['c']⟩] } 1 = .ok p ∧
      p.positions ≠ [] ∧ p.isFuzzy = false ∧
      ∃ line, (1, line) ∈ p.positions ∧ [['a'], ['b']][line]? = some ['b'] := by
  have hplaced : Hunk.locate { Config.usual Score.decimal with allowFuzzy := false }
      [['a'], ['b']] { edits := [⟨.keep, ['a']⟩, ⟨.remove, ['b']⟩, ⟨.add, ['c']⟩] } 1 =
      .ok (⟨0, (Score.one : Rat), .lines .exact, [(0, 0), (1, 1)], none, []⟩ : Placement Rat) := rfl
  obtain ⟨hne, -, -, hexact⟩ := locate_sound (by decide) hplaced
  obtain ⟨hfuzzy, hold⟩ := hexact inferInstance
  exact ⟨_, hplaced, hne, hfuzzy.mpr rfl, hold rfl 1 ⟨.remove, ['b']⟩ rfl rfl⟩

end Hunk
end LoosePatch
