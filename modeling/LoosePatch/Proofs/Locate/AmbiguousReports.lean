import LoosePatch.Proofs.Locate.Chains
import LoosePatch.Proofs.Locate.Grounded
import LoosePatch.Proofs.Locate.StaleReports
import LoosePatch.Tool.Refusal

/-!
What reports of ambiguity say. However the places came about, by a search of the whole file or below an
anchor, for all old lines or for some of them, as the leaders of such a search or as ends of anchors, they
are different places in file order, and one and the same search found them all (`Hunk.locate_ambiguous`).
-/

namespace LoosePatch

variable {α : Type} [Score α] {config : Config α} {lines pattern : List Text} {start : Nat}

/-! ## Searches answer in file order -/

namespace Sequence

theorem similarPlaces_sorted (config : Config α) (lines pattern : List Text) (start : Nat)
    (level : Level) :
    (similarPlaces config lines pattern start level).Pairwise fun x y => x.1 < y.1 := by
  have hwinners {scored : List (Nat × α)} (h : scored.Pairwise fun x y => x.1 < y.1) :
      (winners scored).Pairwise fun x y => x.1 < y.1 := by
    unfold winners
    split
    · exact List.Pairwise.nil
    · exact h.filter _
  cases level with
  | opening => exact scanFrom_sorted _ _ _
  | fuzzy => exact hwinners (scanFrom_sorted _ _ _)
  | character => exact hwinners (scanFrom_sorted _ _ _)
  | exact => exact List.Pairwise.nil
  | trailing => exact List.Pairwise.nil
  | surrounding => exact List.Pairwise.nil
  | loose => exact List.Pairwise.nil

theorem seek_sorted {found : Found α} (hne : pattern ≠ [])
    (h : seek config lines pattern start = some found) :
    found.places.Pairwise fun x y => x.1 < y.1 := by
  rcases seek_eq_some hne h with ⟨e, -, -, rfl⟩ | ⟨-, hplaces⟩
  · exact List.pairwise_map.mpr (equalPlaces_sorted _ _ _ _)
  · rw [hplaces]
    exact List.pairwise_map.mpr (similarPlaces_sorted _ _ _ _ _)

/-- A level finds the pattern at a place: there its lines equal the file's as the level reads them, or they
are among those that are similar enough. -/
def FoundAtLevel (config : Config α) (lines pattern : List Text) (start : Nat) (level : Level)
    (place : Nat) : Prop :=
  (∃ e ∈ (equalities : List (Equality α)), e.level = level ∧
    (e.lenient = true → config.allowFuzzy = true) ∧ StandsAt e.reading lines pattern place) ∨
  config.allowFuzzy = true ∧ ∃ x, (place, x) ∈ similarPlaces config lines pattern start level

theorem seek_foundAtLevel {found : Found α} (hne : pattern ≠ [])
    (h : seek config lines pattern start = some found) {x : Nat × α} (hx : x ∈ found.places) :
    FoundAtLevel config lines pattern start found.level x.1 := by
  rcases seek_eq_some hne h with ⟨e, he, hlenient, rfl⟩ | ⟨hfuzzy, hplaces⟩
  · obtain ⟨i, hi, rfl⟩ := List.mem_map.mp hx
    exact .inl ⟨e, he, rfl, hlenient, ((mem_equalPlaces _ _ _ _ _ hne).mp hi).2⟩
  · rw [hplaces] at hx
    obtain ⟨⟨i, score⟩, hmem, rfl⟩ := List.mem_map.mp hx
    exact .inr ⟨hfuzzy, score, hmem⟩

end Sequence

namespace View

variable {first : Segment} {later : List Segment}

theorem find_sorted (hne : first ≠ []) :
    (find config lines (first :: later) start).Pairwise fun p q => p.start < q.start := by
  unfold find
  dsimp only
  split
  · exact List.Pairwise.nil
  · rename_i found hfound
    refine List.pairwise_filterMap.mpr ((Sequence.seek_sorted (texts_ne_nil hne) hfound).imp ?_)
    rintro x y hlt p hp q hq
    obtain ⟨_, -, rfl⟩ := Option.map_eq_some_iff.mp hp
    obtain ⟨_, -, rfl⟩ := Option.map_eq_some_iff.mp hq
    exact hlt

/-- All placements of a view owe their first segment to one level. -/
theorem exists_level (config : Config α) (lines : List Text) (later : List Segment) (start : Nat)
    (hne : first ≠ []) :
    ∃ level, ∀ p ∈ find config lines (first :: later) start, p.strategy = .lines level ∧
      Sequence.FoundAtLevel config lines (Segment.texts first) start level p.start := by
  unfold find
  dsimp only
  split
  · exact ⟨.exact, nofun⟩
  · rename_i found hfound
    refine ⟨found.level, fun p hp => ?_⟩
    obtain ⟨x, hx, hp⟩ := List.mem_filterMap.mp hp
    obtain ⟨_, -, rfl⟩ := Option.map_eq_some_iff.mp hp
    exact ⟨rfl, Sequence.seek_foundAtLevel (texts_ne_nil hne) hfound hx⟩

end View

/-- Anchors that are not decided on have several ends, in file order. -/
theorem Anchor.ends_of_candidates {anchors : List Text} {hint : Option Int} {places : List Nat} {c : α}
    (h : resolve config lines anchors hint = some (.candidates places c)) :
    2 ≤ places.length ∧ places.Pairwise (· < ·) ∧ Ends config lines anchors hint places := by
  cases anchors with
  | nil => cases h
  | cons first rest =>
    obtain ⟨anchoring, hresolve, hcase⟩ := resolve_cons config lines first rest hint
    cases hresolve.symm.trans h
    obtain ⟨rfl, htwo⟩ := hcase
    exact ⟨htwo, (ends_sorted _).sublist (hinted_sublist hint _), ends_hinted config lines first rest hint⟩

theorem Diagnosis.explain_kind_ne_ambiguousMatch (segments : List Segment) (clues : Clues α) (number : Nat) :
    (explain lines segments clues number).kind ≠ .ambiguousMatch := by
  unfold explain
  extract_lets expected
  split
  · split
    · exact nofun
    · exact nofun
  · exact nofun

namespace Hunk

variable {hunk : Hunk} {number : Nat} {why : Refusal}

/-- Placements that stay undecided are those given, or come from one search for one of the views. -/
theorem locateNarrowed_sublist (config : Config α) (lines : List Text) (clues : Clues α) (number : Nat)
    (old : Segment) (views : List (Narrowing × Segment)) (given : List (Placement α)) :
    (locateNarrowed config lines clues number old views given).2 = given ∨
      ∃ x ∈ views, ∃ start, (locateNarrowed config lines clues number old views given).2.Sublist
        (View.find config lines [x.2] start) := by
  induction views generalizing given with
  | nil => exact .inl rfl
  | cons x views ih =>
    obtain ⟨narrowing, view⟩ := x
    rw [locateNarrowed]
    split
    · exact .inl rfl
    · rename_i leaders hselect
      split
      -- The leaders of this view take the place of what was given.
      · rcases ih leaders with hleaders | ⟨y, hy, hsublist⟩
        · obtain ⟨⟨start, hsublist⟩, -⟩ := clues.selectNarrow_sublist config lines old view
          rw [hselect] at hsublist
          rw [hleaders]
          exact .inr ⟨_, List.mem_cons_self, start, hsublist⟩
        · exact .inr ⟨y, List.mem_cons_of_mem _ hy, hsublist⟩
      · rcases ih given with hgiven | ⟨y, hy, hsublist⟩
        · exact .inl hgiven
        · exact .inr ⟨y, List.mem_cons_of_mem _ hy, hsublist⟩

/-- A hunk is refused as ambiguous for the ends of its anchors if it only adds lines, else for several
placements of one of its views, all from one search. -/
theorem locate_eq_ambiguous (h : hunk.locate config lines number = refuse why)
    (hkind : why.kind = .ambiguousMatch) :
    (hunk.isInsertion = true ∧ ∃ places c, why = .ambiguousAnchor number places lines ∧
        Anchor.resolve config lines hunk.anchors (hunk.hint.map LineHint.oldIndex) =
          some (.candidates places c)) ∨
      hunk.isInsertion = false ∧ ∃ undecided : List (Placement α), 1 < undecided.length ∧
        why = .ambiguousPlace number (undecided.map (·.start)) lines ∧
        ∃ view ∈ hunk.views, ∃ start, undecided.Sublist (View.find config lines view start) := by
  cases hold : hunk.isInsertion with
  | true =>
    refine .inl ⟨rfl, ?_⟩
    unfold locate at h
    extract_lets hint anchor at h
    rw [hold, if_pos rfl] at h
    obtain ⟨why', heq, hcause⟩ := locateInsertion_failsOnly hunk anchor number _ h
    cases heq
    rcases hcause with ⟨places, c, hanchor, rfl⟩ | hother | hother
    · exact ⟨places, c, rfl, hanchor⟩
    · cases hkind.symm.trans hother
    · cases hkind.symm.trans hother
  | false =>
    obtain ⟨candidates, undecided, hselect, hnarrowed, rfl⟩ := locate_eq_refuse hold h
    have hmany : 1 < undecided.length := by
      by_contra hfew
      rw [if_neg hfew] at hkind
      exact Diagnosis.explain_kind_ne_ambiguousMatch _ _ _ hkind
    refine .inr ⟨rfl, undecided, hmany, if_pos hmany, ?_⟩
    have hsublist := locateNarrowed_sublist config lines (hunk.clues config lines) number
      (hunk.oldView.head?.getD []) (View.narrowings hunk.oldView) candidates
    rw [hnarrowed] at hsublist
    rcases hsublist with hwhole | ⟨x, hx, start, hsublist⟩
    · obtain ⟨hfind, -⟩ := Clues.select_eq_none hselect
      have hsame : undecided = View.find config lines hunk.oldView 0 := hwhole.trans hfind
      exact ⟨hunk.oldView, List.mem_cons_self, 0, hsame ▸ List.Sublist.refl _⟩
    · exact ⟨[x.2], List.mem_cons_of_mem _ (List.mem_map_of_mem hx), start, hsublist⟩

/-- The places start placements of one view, all found by one search, with the first segment at one
level. -/
def FoundTogether (config : Config α) (lines : List Text) (hunk : Hunk) (places : List Nat) : Prop :=
  ∃ view ∈ hunk.views, ∃ first later start level, view = first :: later ∧
    ∀ place ∈ places,
      Sequence.FoundAtLevel config lines (Segment.texts first) start level place ∧
      ∃ p ∈ View.find config lines view start,
        p.start = place ∧ p.strategy = .lines level ∧ p.Fits lines hunk

/-- **Ambiguity reports.** A report of an ambiguous match counts the lines it names: two or more, in file
order, and inside the file. If the hunk has old lines, placements of the same view of them start there, all
from one search and with the first segment found at one level. If it only adds lines, its anchors lead
there, and a hint tells none of these lines apart. -/
theorem locate_ambiguous (h : hunk.locate config lines number = refuse why)
    (hkind : why.kind = .ambiguousMatch) :
    ∃ places : List Nat, why.candidateLines? = some (places.map (· + 1)) ∧
      (Tool.Refusal.refused why).extra = [("count", .whole places.length),
        ("candidate_lines", Tool.Refusal.numberList (places.map (· + 1)))] ∧
      2 ≤ places.length ∧ places.Pairwise (· < ·) ∧ (∀ place ∈ places, place < lines.length) ∧
      (hunk.isInsertion = false → why = .ambiguousPlace number places lines ∧
        hunk.FoundTogether config lines places) ∧
      (hunk.isInsertion = true → why = .ambiguousAnchor number places lines ∧
        Anchor.Ends config lines hunk.anchors (hunk.hint.map LineHint.oldIndex) places) := by
  have hextra (places : List Nat) (hlines : why.candidateLines? = some (places.map (· + 1)))
      (hreport : why.staleReport? = none) :
      (Tool.Refusal.refused why).extra = [("count", .whole places.length),
        ("candidate_lines", Tool.Refusal.numberList (places.map (· + 1)))] := by
    simp only [Tool.Refusal.extra, hreport, hlines, List.nil_append, List.length_map]
  rcases locate_eq_ambiguous h hkind with
    ⟨hinsert, places, c, rfl, hresolve⟩ | ⟨hold, undecided, hmany, rfl, view, hview, start, hsublist⟩
  · obtain ⟨htwo, hsorted, hends⟩ := Anchor.ends_of_candidates hresolve
    refine ⟨places, rfl, hextra places rfl rfl, htwo, hsorted, fun place hplace =>
      (hends.within place hplace).2, fun hold => ?_, fun _ => ⟨rfl, hends⟩⟩
    rw [hinsert] at hold
    cases hold
  · obtain ⟨first, later, rfl⟩ := List.exists_cons_of_ne_nil (ne_nil_of_mem_views hold hview)
    have hcovers := covers_of_mem_views hview
    have hfirst : first ≠ [] := hcovers.nonempty first List.mem_cons_self
    have hsorted : (undecided.map (·.start)).Pairwise (· < ·) :=
      List.pairwise_map.mpr ((View.find_sorted hfirst).sublist hsublist)
    have hinside : ∀ place ∈ undecided.map (·.start), place < lines.length := by
      intro place hplace
      obtain ⟨p, hp, rfl⟩ := List.mem_map.mp hplace
      have hfound := hsublist.subset hp
      have hfits := View.find_fits hcovers hfound
      obtain ⟨x, hx, hstart⟩ :=
        List.mem_map.mp (hfits.start_mem (View.find_positions_ne_nil hcovers hfound))
      exact hstart ▸ hfits.inside x hx
    obtain ⟨level, hlevel⟩ := View.exists_level config lines later start hfirst
    refine ⟨undecided.map (·.start), rfl, hextra _ rfl rfl, ?_, hsorted, hinside, fun _ => ⟨rfl, ?_⟩,
      fun hinsert => ?_⟩
    · rwa [List.length_map]
    · refine ⟨first :: later, hview, first, later, start, level, rfl, fun place hplace => ?_⟩
      obtain ⟨p, hp, rfl⟩ := List.mem_map.mp hplace
      have hfound := hsublist.subset hp
      obtain ⟨hstrategy, hat⟩ := hlevel p hfound
      exact ⟨hat, p, hfound, rfl, hstrategy, View.find_fits hcovers hfound⟩
    · rw [hold] at hinsert
      cases hinsert

/-- A removed line that stands twice, below a line that the file does not have. -/
theorem locate_ambiguous_removed_line :
    let lines : List Text := [['a'], ['b'], ['x'], ['b'], ['y']]
    let hunk : Hunk := { edits := [⟨.keep, ['q']⟩, ⟨.remove, ['b']⟩] }
    let config : Config Rat := Config.usual Score.decimal
    hunk.locate config lines 1 = refuse (.ambiguousPlace 1 [1, 3] lines) ∧
      hunk.FoundTogether config lines [1, 3] := by
  intro lines hunk config
  have hrefused : hunk.locate config lines 1 = refuse (.ambiguousPlace 1 [1, 3] lines) := by
    refine refusal?_eq_some.mp ?_
    decide +kernel
  obtain ⟨places, -, -, -, -, -, hold, -⟩ := locate_ambiguous hrefused rfl
  obtain ⟨heq, htogether⟩ := hold rfl
  obtain ⟨-, rfl, -⟩ := Refusal.ambiguousPlace.inj heq
  exact ⟨hrefused, htogether⟩

end Hunk
end LoosePatch
