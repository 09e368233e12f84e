import LoosePatch.Proofs.Locate.Choices
import LoosePatch.Proofs.Locate.Grounded
import LoosePatch.Proofs.Outcome

/-!
What the report of a stale hunk says. It sets the lines of the hunk's first segment against the lines of
the file that resemble them most, and names the lines that differ by more than spacing. So it names none
where the first segment is not what is missing, or differs in spacing alone (`Hunk.locate_reports`).
-/

namespace LoosePatch

variable {α : Type} [Score α] {config : Config α} {lines pattern : List Text}

/-! ## Changed lines -/

namespace Diagnosis

variable {place n : Nat} {expected actual : List Text}

theorem mem_changedLines :
    n ∈ changedLines place expected actual ↔
      ∃ k e a, n = place + 1 + k ∧ expected[k]? = some e ∧ actual[k]? = some a ∧ e.loose ≠ a.loose := by
  simp only [changedLines, List.mem_filterMap, Prod.exists, List.mk_mem_zipIdx_iff_le_and_getElem?_sub,
    List.getElem?_zip_eq_some, Option.ite_none_left_eq_some, Option.some.injEq]
  constructor
  · rintro ⟨e, a, m, ⟨hle, he, ha⟩, hdiffer, rfl⟩
    exact ⟨m - (place + 1), e, a, by omega, he, ha, hdiffer⟩
  · rintro ⟨k, e, a, rfl, he, ha, hdiffer⟩
    rw [← Nat.add_sub_cancel_left (n := place + 1) (m := k)] at he ha
    exact ⟨e, a, place + 1 + k, ⟨Nat.le_add_right _ _, he, ha⟩, hdiffer, rfl⟩

theorem changedLines_sorted : (changedLines place expected actual).Pairwise (· < ·) := by
  refine List.Pairwise.filterMap _ ?_ (zipIdx_sorted (expected.zip actual) (place + 1))
  rintro ⟨⟨e, a⟩, m⟩ ⟨⟨e', a'⟩, m'⟩ hlt b hb b' hb'
  obtain ⟨-, hm⟩ := Option.ite_none_left_eq_some.mp hb
  obtain ⟨-, hm'⟩ := Option.ite_none_left_eq_some.mp hb'
  cases hm
  cases hm'
  exact hlt

/-- No line is named where the lines stand but for spacing. -/
theorem changedLines_eq_nil_iff (h : place + expected.length ≤ lines.length) :
    changedLines place expected ((lines.drop place).take expected.length) = [] ↔
      StandsAt Text.loose lines expected place := by
  rw [List.eq_nil_iff_forall_not_mem]
  constructor
  · intro hnone
    refine List.prefix_iff_getElem?.mpr fun k hk => ?_
    rw [List.length_map] at hk
    have hactual : ((lines.drop place).take expected.length)[k]? = some lines[place + k] := by
      rw [List.getElem?_take_of_lt hk, List.getElem?_drop, List.getElem?_eq_getElem]
    have hsame : expected[k].loose = lines[place + k].loose := by
      by_contra hdiffer
      exact hnone _ (mem_changedLines.mpr
        ⟨k, _, _, rfl, List.getElem?_eq_getElem hk, hactual, hdiffer⟩)
    rw [List.getElem?_drop, List.getElem?_map, List.getElem?_eq_getElem (by omega), List.getElem_map, hsame]
    rfl
  · intro hstands n hn
    obtain ⟨k, e, a, -, he, ha, hdiffer⟩ := mem_changedLines.mp hn
    obtain ⟨a', ha', hsame⟩ := hstands.getElem? he
    rw [List.getElem?_take_of_lt (List.getElem?_eq_some_iff.mp he).1, List.getElem?_drop, ha'] at ha
    exact hdiffer (Option.some.inj ha ▸ hsame)

/-- What a report says about a place: it shows the lines of the file there, one for each expected line,
and names in order lines among them that differ, all of those that differ by more than spacing. -/
structure Describes (lines : List Text) (place : Nat) (expected actual : List Text) (changed : List Nat) :
    Prop where
  length : expected.length = actual.length
  shown : actual = (lines.drop place).take expected.length
  ascending : changed.Pairwise (· < ·)
  inside : ∀ n ∈ changed, place < n ∧ n ≤ place + actual.length
  differ : ∀ n ∈ changed, ∃ e a, expected[n - (place + 1)]? = some e ∧ lines[n - 1]? = some a ∧ e ≠ a
  complete : ∀ k e a, expected[k]? = some e → actual[k]? = some a → e.loose ≠ a.loose →
    place + 1 + k ∈ changed

theorem describes (h : place + expected.length ≤ lines.length) :
    Describes lines place expected ((lines.drop place).take expected.length)
      (changedLines place expected ((lines.drop place).take expected.length)) := by
  have hlength : expected.length = ((lines.drop place).take expected.length).length := by
    rw [List.length_take, List.length_drop, Nat.min_eq_left (by omega)]
  refine ⟨hlength, rfl, changedLines_sorted, fun n hn => ?_, fun n hn => ?_, fun k e a he ha hdiffer => ?_⟩
  · obtain ⟨k, e, a, rfl, he, -, -⟩ := mem_changedLines.mp hn
    have hk := (List.getElem?_eq_some_iff.mp he).1
    rw [← hlength]
    omega
  · obtain ⟨k, e, a, rfl, he, ha, hdiffer⟩ := mem_changedLines.mp hn
    rw [List.getElem?_take_of_lt (List.getElem?_eq_some_iff.mp he).1, List.getElem?_drop] at ha
    refine ⟨e, a, by rwa [Nat.add_sub_cancel_left], ?_, fun hsame => hdiffer (congrArg Text.loose hsame)⟩
    rwa [show place + 1 + k - 1 = place + k by omega]
  · exact mem_changedLines.mpr ⟨k, e, a, rfl, he, ha, hdiffer⟩

/-- What is reported as stale are the lines of the file in place of the first segment. -/
theorem explain_eq_stale {segment : Segment} {later : List Segment} {clues : Clues α} {number : Nat}
    (h : (explain lines (segment :: later) clues number).kind = .staleContent) :
    ∃ place, place + (Segment.texts segment).length ≤ lines.length ∧
      explain lines (segment :: later) clues number =
        let actual := (lines.drop place).take (Segment.texts segment).length
        .stale number place (Segment.texts segment) actual
          (changedLines place (Segment.texts segment) actual) lines := by
  simp only [explain, List.head?_cons, Option.map_some, Option.getD_some] at h ⊢
  split
  · rename_i place x hclosest
    rw [hclosest] at h
    refine ⟨place, closest_within hclosest, ?_⟩
    dsimp only at h
    split
    · rfl
    · rename_i hunlike
      rw [if_neg hunlike] at h
      cases h
  · rename_i hnone
    rw [hnone] at h
    cases h

end Diagnosis

/-! ## Searches without an answer -/

/-- Lines that stand in the file at a level that may be used are found. -/
theorem Sequence.exists_seek {e : Equality α} {place start : Nat} (he : e ∈ equalities)
    (hlenient : e.lenient = true → config.allowFuzzy = true) (hne : pattern ≠ []) (hstart : start ≤ place)
    (h : StandsAt e.reading lines pattern place) :
    ∃ found, seek config lines pattern start = some found := by
  have hlen := h.length_le hne
  have hequal : (seekEqual config lines pattern start).isSome = true := by
    refine List.findSome?_isSome_iff.mpr ⟨e, he, ?_⟩
    rw [if_neg (by simpa using hlenient)]
    cases hplaces : equalPlaces e.reading lines pattern start with
    | nil =>
      have hmem := (mem_equalPlaces e.reading lines pattern start place hne).mpr ⟨hstart, h⟩
      rw [hplaces] at hmem
      cases hmem
    | cons i places => rfl
  obtain ⟨found, hfound⟩ := Option.isSome_iff_exists.mp hequal
  refine ⟨found, ?_⟩
  simp only [seek, List.isEmpty_iff, hne, ↓reduceIte, hfound]
  rw [if_neg (by omega)]
  rfl

theorem View.seek_of_find_nil {segment : Segment} {start : Nat}
    (h : View.find config lines [segment] start = []) :
    Sequence.seek config lines (Segment.texts segment) start = none := by
  cases hseek : Sequence.seek config lines (Segment.texts segment) start with
  | none => rfl
  | some found =>
    simp only [View.find, hseek, followSegments, Option.map_some, List.filterMap_eq_nil_iff] at h
    obtain ⟨x, hx⟩ := List.exists_mem_of_ne_nil _ (Sequence.seek_places_ne_nil hseek)
    cases h x hx

/-- What is chosen from is all that was found in the file. -/
theorem Clues.select_eq_none {clues : Clues α} {segments : List Segment} {candidates : List (Placement α)}
    (h : clues.select config lines segments = (none, candidates)) :
    candidates = View.find config lines segments 0 ∧ clues.decide? candidates = none := by
  unfold select at h
  simp only at h
  split at h
  · cases h
  · obtain ⟨hnone, rfl⟩ := Prod.mk.inj h
    exact ⟨rfl, hnone⟩

namespace Hunk

variable {hunk : Hunk} {number : Nat} {why : Refusal}

/-- Placements of the whole view stay undecided. -/
theorem locateNarrowed_undecided {clues : Clues α} {old : Segment} {undecided : List (Placement α)}
    (views : List (Narrowing × Segment)) (hmany : 1 < undecided.length) :
    (locateNarrowed config lines clues number old views undecided).2 = undecided := by
  induction views with
  | nil => rfl
  | cons x views ih =>
    rw [locateNarrowed]
    split
    · rfl
    · rwa [if_neg (by omega)]

/-- Lines are reported as stale only where the old lines as a whole have no place at all. -/
theorem locate_eq_stale (h : hunk.locate config lines number = refuse why)
    (hkind : why.kind = .staleContent) :
    hunk.isInsertion = false ∧ View.find config lines hunk.oldView 0 = [] ∧
      why = Diagnosis.explain lines hunk.oldView (hunk.clues config lines) number := by
  cases hold : hunk.isInsertion with
  | true =>
    unfold locate at h
    extract_lets hint anchor at h
    rw [hold, if_pos rfl] at h
    obtain ⟨why', heq, hcause⟩ := locateInsertion_failsOnly hunk anchor number _ h
    cases heq
    rcases hcause with ⟨places, c, -, rfl⟩ | hother | hother
    · cases hkind
    · cases hkind.symm.trans hother
    · cases hkind.symm.trans hother
  | false =>
    obtain ⟨candidates, undecided, hselect, hnarrowed, rfl⟩ := locate_eq_refuse hold h
    obtain ⟨hfind, hundecided⟩ := Clues.select_eq_none hselect
    have hfew : ¬ 1 < undecided.length := by
      intro hmany
      rw [if_pos hmany] at hkind
      cases hkind
    refine ⟨rfl, ?_, if_neg hfew⟩
    rw [← hfind]
    match candidates with
    | [] => rfl
    | [p] => cases hundecided
    | p :: q :: others =>
      have hmany : 1 < (p :: q :: others).length := Nat.succ_lt_succ (Nat.succ_pos _)
      have hsame := congrArg Prod.snd hnarrowed
      rw [locateNarrowed_undecided _ hmany] at hsame
      exact absurd (congrArg List.length hsame ▸ hmany) hfew

/-- A lone segment that stands at a level that may be used is not missing. -/
theorem not_standsAt_of_find_nil {segment : Segment} {e : Sequence.Equality α} {place : Nat}
    (he : e ∈ Sequence.equalities) (hlenient : e.lenient = true → config.allowFuzzy = true)
    (hne : Segment.texts segment ≠ []) (h : View.find config lines [segment] 0 = []) :
    ¬ StandsAt e.reading lines (Segment.texts segment) place := by
  intro hstands
  obtain ⟨found, hfound⟩ := Sequence.exists_seek he hlenient hne (Nat.zero_le place) hstands
  rw [View.seek_of_find_nil h] at hfound
  cases hfound

/-- **Stale reports.** A report of stale content shows as many lines of the file as are expected, and names
in order those that differ by more than spacing. It names at least one if the hunk has a single segment and
leniency is on. Without leniency spacing may be all that differs, and with several segments it may be a
later one that is missing: then it names none. -/
theorem locate_reports (h : hunk.locate config lines number = refuse why)
    (hkind : why.kind = .staleContent) :
    ∃ place segment actual changed,
      why = .stale number place (Segment.texts segment) actual changed lines ∧
      why.staleReport? = some (Segment.texts segment, actual, changed) ∧
      hunk.oldView.head? = some segment ∧
      Diagnosis.Describes lines place (Segment.texts segment) actual changed ∧
      (changed = [] ↔ StandsAt Text.loose lines (Segment.texts segment) place) ∧
      (hunk.oldView = [segment] → ¬ StandsAt Text.trimEnd lines (Segment.texts segment) place ∧
        (config.allowFuzzy = true → changed ≠ [])) := by
  obtain ⟨hold, hfind, rfl⟩ := locate_eq_stale h hkind
  obtain ⟨segment, later, hview⟩ := List.exists_cons_of_ne_nil (oldView_ne_nil hold)
  rw [hview] at hkind hfind ⊢
  obtain ⟨place, hinside, heq⟩ := Diagnosis.explain_eq_stale hkind
  have hne : Segment.texts segment ≠ [] :=
    View.texts_ne_nil ((View.covers_oldView hunk).nonempty segment (hview ▸ List.mem_cons_self))
  have hnil := Diagnosis.changedLines_eq_nil_iff hinside
  refine ⟨place, segment, _, _, heq, heq ▸ rfl, rfl, Diagnosis.describes hinside, hnil, fun hsingle => ?_⟩
  rw [hsingle] at hfind
  constructor
  · exact not_standsAt_of_find_nil (e := ⟨.trailing, Text.trimEnd, Score.decimal 99 2, false⟩)
      (by simp [Sequence.equalities]) nofun hne hfind
  · intro hfuzzy hnone
    exact not_standsAt_of_find_nil (e := ⟨.loose, Text.loose, Score.decimal 97 2, true⟩)
      (by simp [Sequence.equalities]) (fun _ => hfuzzy) hne hfind (hnil.mp hnone)

/-- A changed line below an added one is named. -/
theorem locate_reports_changed_line :
    let lines : List Text := [['a'], ['z']]
    let hunk : Hunk := { edits := [⟨.keep, ['a']⟩, ⟨.add, ['x']⟩, ⟨.keep, ['b']⟩] }
    let why : Refusal := .stale 1 0 [['a'], ['b']] [['a'], ['z']] [2] lines
    hunk.locate (Config.usual Score.decimal : Config Rat) lines 1 = refuse why ∧
      Diagnosis.Describes lines 0 [['a'], ['b']] [['a'], ['z']] [2] := by
  intro lines hunk why
  have hrefused : hunk.locate (Config.usual Score.decimal : Config Rat) lines 1 = refuse why := by
    refine refusal?_eq_some.mp ?_
    decide +kernel
  obtain ⟨place, segment, actual, changed, heq, -, -, hdescribes, -⟩ := locate_reports hrefused rfl
  obtain ⟨-, rfl, hexpected, rfl, rfl, -⟩ := Refusal.stale.inj heq
  exact ⟨hrefused, hexpected ▸ hdescribes⟩

/-- Without leniency a line that differs in spacing alone is reported as stale, and no line is named. -/
theorem stale_report_without_lines :
    ¬ ∀ (config : Config Rat) (lines : List Text) (hunk : Hunk) (why : Refusal),
        hunk.locate config lines 1 = refuse why → why.kind = .staleContent →
        ∃ expected actual changed, why.staleReport? = some (expected, actual, changed) ∧ changed ≠ [] := by
  intro hclaim
  let config : Config Rat := { Config.usual Score.decimal with allowFuzzy := false }
  let lines : List Text := [[' ', ' ', 'a']]
  let hunk : Hunk := { edits := [⟨.remove, ['a']⟩, ⟨.add, ['b']⟩] }
  have hrefused : refusal? (hunk.locate config lines 1) =
      some (.stale 1 0 [['a']] [[' ', ' ', 'a']] [] lines) := by
    decide +kernel
  obtain ⟨expected, actual, changed, hreport, hsome⟩ := hclaim config lines hunk _
    (refusal?_eq_some.mp hrefused) rfl
  cases hreport
  exact hsome rfl

/-- The first segment stands in the file, and it is the later one that is missing. -/
example : refusal? (Hunk.locate (Config.usual Score.decimal : Config Rat) [['a']]
    { edits := [⟨.remove, ['a']⟩, ⟨.ellipsis, []⟩, ⟨.remove, ['b']⟩] } 1) =
      some (.stale 1 0 [['a']] [['a']] [] [['a']]) := by
  decide +kernel

end Hunk
end LoosePatch
