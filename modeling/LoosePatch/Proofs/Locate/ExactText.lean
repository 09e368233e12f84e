import LoosePatch.Proofs.Locate.Choices
import LoosePatch.Proofs.Locate.Layout
import Mathlib.Data.List.Nodup

/-!
Hunks whose old lines stand in the file byte for byte. No level but the first one answers then:
every place of the text has full confidence, and only the other clues choose between them.
-/

namespace LoosePatch

/-- The text occurs at `i`, and nowhere else from line `l` up to there. -/
structure FirstFrom (lines pattern : List Text) (l i : Nat) : Prop where
  le : l ≤ i
  occurs : OccursAt lines pattern i
  first : ∀ j, l ≤ j → j < i → ¬ OccursAt lines pattern j

namespace FirstFrom

variable {lines pattern : List Text} {l i j : Nat}

theorem unique (hi : FirstFrom lines pattern l i) (hj : FirstFrom lines pattern l j) : i = j := by
  by_contra hne
  rcases Nat.lt_or_gt_of_ne hne with hlt | hlt
  · exact hj.first i hi.le hlt hi.occurs
  · exact hi.first j hj.le hlt hj.occurs

/-- The first place from `l` on is what a search of all places for one not above `l` finds. -/
theorem find?_equalPlaces (hne : pattern ≠ []) :
    (Sequence.equalPlaces id lines pattern 0).find? (fun i => decide (l ≤ i)) = some i ↔
      FirstFrom lines pattern l i := by
  have hmem (j : Nat) : j ∈ Sequence.equalPlaces id lines pattern 0 ↔ OccursAt lines pattern j := by
    rw [Sequence.mem_equalPlaces _ _ _ _ _ hne]
    exact and_iff_right (Nat.zero_le j)
  have hfound {j : Nat} (h : (Sequence.equalPlaces id lines pattern 0).find?
      (fun i => decide (l ≤ i)) = some j) : FirstFrom lines pattern l j := by
    obtain ⟨hle, before, after, hsplit, hbefore⟩ := List.find?_eq_some_iff_append.mp h
    refine ⟨of_decide_eq_true hle, (hmem j).mp (List.mem_of_find?_eq_some h),
      fun k hk hlt hoccurs => ?_⟩
    have hsorted := Sequence.equalPlaces_sorted id lines pattern 0
    have hk' := (hmem k).mpr hoccurs
    rw [hsplit] at hsorted hk'
    rcases List.mem_append.mp hk' with hk' | hk'
    · have habove := hbefore k hk'
      simp only [decide_eq_true hk, Bool.not_true, Bool.false_eq_true] at habove
    · rcases List.mem_cons.mp hk' with rfl | hk'
      · exact Nat.lt_irrefl k hlt
      · have hbelow := List.rel_of_pairwise_cons (List.pairwise_append.mp hsorted).2.1 hk'
        omega
  constructor
  · exact hfound
  · intro h
    have hsome : ((Sequence.equalPlaces id lines pattern 0).find? (fun i => decide (l ≤ i))).isSome :=
      List.find?_isSome.mpr ⟨i, (hmem i).mpr h.occurs, decide_eq_true h.le⟩
    obtain ⟨j, hj⟩ := Option.isSome_iff_exists.mp hsome
    rw [hj, h.unique (hfound hj)]

/-- Text that stands at line `l` or below has a first place from there on, and a search from there on
finds it first. -/
theorem exists_cons {s : Nat} (hne : pattern ≠ []) (hle : l ≤ s) (h : OccursAt lines pattern s) :
    ∃ i others, Sequence.equalPlaces id lines pattern l = i :: others ∧ FirstFrom lines pattern l i ∧
      i ≤ s := by
  have hsorted := Sequence.equalPlaces_sorted id lines pattern l
  have hmem (j : Nat) := Sequence.mem_equalPlaces id lines pattern l j hne
  have hs := (hmem s).mpr ⟨hle, h⟩
  cases hplaces : Sequence.equalPlaces id lines pattern l with
  | nil =>
    rw [hplaces] at hs
    cases hs
  | cons i others =>
    rw [hplaces] at hsorted hs hmem
    have hleast : ∀ j ∈ i :: others, i ≤ j := by
      intro j hj
      rcases List.mem_cons.mp hj with rfl | hj
      · exact le_rfl
      · exact (List.rel_of_pairwise_cons hsorted hj).le
    obtain ⟨hi, hoccurs⟩ := (hmem i).mp List.mem_cons_self
    refine ⟨i, others, rfl, ⟨hi, hoccurs, fun j hj hlt hj' => ?_⟩, hleast s hs⟩
    exact absurd (hleast j ((hmem j).mpr ⟨hj, hj'⟩)) (Nat.not_le_of_lt hlt)

end FirstFrom

/-! ## The places of exact text -/

variable {α : Type} [Score α] {config : Config α} {lines : List Text} {segment : Segment}

/-- The placement of a segment whose text occurs at line `i`. -/
def Segment.placedAt (segment : Segment) (i : Nat) : Placement α where
  start := i
  confidence := Score.one
  strategy := .lines .exact
  positions := positionsAt segment i

theorem View.find_of_occurs (config : Config α) {start i : Nat} (hne : segment ≠ []) (hi : start ≤ i)
    (h : OccursAt lines (Segment.texts segment) i) :
    find config lines [segment] start =
      (Sequence.equalPlaces id lines (Segment.texts segment) start).map segment.placedAt := by
  rw [find, Sequence.seek_of_occurs (texts_ne_nil hne) hi h]
  simp only [List.filterMap_map]
  refine (List.filterMap_congr fun place _ => ?_).trans (congrFun List.filterMap_eq_map _)
  have hpositions : Segment.positionsAt segment place ++ [] = Segment.positionsAt segment place :=
    List.append_nil _
  exact congrArg (fun positions => some { (segment.placedAt place : Placement α) with positions })
    hpositions

/-! ## Choosing between them -/

namespace Anchor

variable {target : Int} {places : List Nat} {s : Nat}

/-- Of some lines, `s` alone is nearest to the line `target`. -/
structure SoleNearest (target : Int) (places : List Nat) (s : Nat) : Prop where
  mem : s ∈ places
  closer : ∀ i ∈ places, i ≠ s → ((s : Int) - target).natAbs < ((i : Int) - target).natAbs

theorem nearest_eq_singleton_iff (hsorted : places.Pairwise (· < ·)) :
    nearest target places = [s] ↔ SoleNearest target places s := by
  let distance (p : Nat) : Nat := ((p : Int) - target).natAbs
  constructor
  · intro h
    cases hleast : (places.map distance).min? with
    | none =>
      simp only [nearest, distance, hleast] at h
      cases h
    | some least =>
      simp only [nearest, distance, hleast] at h
      have hmem (i : Nat) : i ∈ places ∧ distance i = least ↔ i = s := by
        have hiff : i ∈ places.filter (fun p => decide (distance p = least)) ↔ i ∈ [s] :=
          Iff.of_eq (congrArg (i ∈ ·) h)
        rwa [List.mem_filter, decide_eq_true_eq, List.mem_singleton] at hiff
      obtain ⟨hs, rfl⟩ := (hmem s).mpr rfl
      refine ⟨hs, fun i hi hne => Nat.lt_of_le_of_ne ?_ fun heq => hne ((hmem i).mp ⟨hi, heq.symm⟩)⟩
      exact (List.min?_eq_some_iff.mp hleast).2 _ (List.mem_map_of_mem hi)
  · intro h
    have hle : ∀ i ∈ places, distance s ≤ distance i := by
      intro i hi
      rcases eq_or_ne i s with rfl | hne
      · exact le_rfl
      · exact (h.closer i hi hne).le
    have hleast : (places.map distance).min? = some (distance s) := by
      rw [List.min?_eq_some_iff]
      exact ⟨List.mem_map_of_mem h.mem, List.forall_mem_map.mpr hle⟩
    have hfilter : (places.filter fun p => decide (distance p = distance s)) =
        places.filter (· == s) := by
      refine List.filter_congr fun p hp => ?_
      rw [Bool.eq_iff_iff, decide_eq_true_eq, beq_iff_eq]
      refine ⟨fun heq => ?_, fun heq => by rw [heq]⟩
      by_contra hne
      exact Nat.ne_of_lt (h.closer p hp hne) heq.symm
    simp only [nearest, distance] at hleast hfilter ⊢
    rw [hleast]
    simp only [hfilter]
    rw [List.filter_beq, List.count_eq_one_of_mem hsorted.nodup h.mem]
    rfl

/-- A line is nearest to itself. -/
theorem soleNearest_self (h : s ∈ places) : SoleNearest s places s :=
  ⟨h, fun i _ hne => by omega⟩

end Anchor

namespace Clues

variable {clues : Clues α}

theorem select_anchored {segments : List Segment} {place : Nat} {p : Placement α}
    {others : List (Placement α)} (hplace : clues.anchorLine? = some place)
    (h : View.find config lines segments place = p :: others) :
    (clues.select config lines segments).1 = some p := by
  simp only [select, hplace, h]

theorem select_everywhere {segments : List Segment}
    (h : ∀ place, clues.anchorLine? = some place → View.find config lines segments place = []) :
    (clues.select config lines segments).1 = clues.decide? (View.find config lines segments 0) := by
  cases hplace : clues.anchorLine? with
  | none => simp only [select, hplace]
  | some place => simp only [select, hplace, h place hplace]

omit [Score α] in
theorem decide?_of_onlyAfter {placements : List (Placement α)} {p : Placement α}
    (h : onlyAfter clues.anchorCandidates placements = some p) :
    clues.decide? placements = some p := by
  match placements with
  | [] => cases mem_of_onlyAfter h
  | [q] => rw [List.mem_singleton.mp (mem_of_onlyAfter h), decide?]
  | q :: r :: others =>
    change clues.breakTie (q :: r :: others) = some p
    rw [breakTie, h]
    rfl

/-- Among the places of exact text, an undecided anchor chooses the one that is first below every
line it may mean and that has any below. -/
theorem onlyAfter_placedAt (lines : List Text) (ls : List Nat) (hne : segment ≠ [])
    (p : Placement α) :
    onlyAfter ls ((Sequence.equalPlaces id lines (Segment.texts segment) 0).map segment.placedAt) =
        some p ↔
      ∃ i, p = segment.placedAt i ∧ (∃ l ∈ ls, FirstFrom lines (Segment.texts segment) l i) ∧
        ∀ l ∈ ls, ∀ j, FirstFrom lines (Segment.texts segment) l j → j = i := by
  let starts := Sequence.equalPlaces id lines (Segment.texts segment) 0
  let picks : List (Placement α) := ls.filterMap fun line =>
    (starts.map segment.placedAt).find? fun p => decide (line ≤ p.start)
  have hpicks (q : Placement α) : q ∈ picks ↔
      ∃ l ∈ ls, ∃ j, FirstFrom lines (Segment.texts segment) l j ∧ q = segment.placedAt j := by
    have hfind (l : Nat) : (starts.map (segment.placedAt (α := α))).find?
        (fun p => decide (l ≤ p.start)) =
          (starts.find? fun i => decide (l ≤ i)).map segment.placedAt := List.find?_map ..
    simp only [picks, List.mem_filterMap, hfind, Option.map_eq_some_iff, starts,
      FirstFrom.find?_equalPlaces (View.texts_ne_nil hne), eq_comm (a := q)]
  unfold onlyAfter
  split
  · rename_i hnil
    have hnil : picks = [] := hnil
    refine iff_of_false (by simp) ?_
    rintro ⟨i, -, ⟨l, hl, hi⟩, -⟩
    have hmem := (hpicks (segment.placedAt i)).mpr ⟨l, hl, i, hi, rfl⟩
    rw [hnil] at hmem
    cases hmem
  · rename_i q others hcons
    have hcons : picks = q :: others := hcons
    rw [Option.ite_none_right_eq_some, List.all_eq_true, Option.some.injEq]
    constructor
    · rintro ⟨hall, rfl⟩
      obtain ⟨l, hl, i, hi, hq⟩ := (hpicks q).mp (hcons ▸ List.mem_cons_self)
      refine ⟨i, hq, ⟨l, hl, hi⟩, fun l' hl' j hj => ?_⟩
      have hmem := (hpicks (segment.placedAt j)).mpr ⟨l', hl', j, hj, rfl⟩
      rw [hcons] at hmem
      rcases List.mem_cons.mp hmem with heq | hmem
      · exact congrArg Placement.start (heq.trans hq)
      · exact (of_decide_eq_true (hall _ hmem)).trans (congrArg Placement.start hq)
    · rintro ⟨i, rfl, -, hall⟩
      have hsame {r : Placement α} (hr : r ∈ picks) : r = segment.placedAt i := by
        obtain ⟨l, hl, j, hj, rfl⟩ := (hpicks r).mp hr
        exact congrArg segment.placedAt (hall l hl j hj)
      have hq := hsame (hcons ▸ List.mem_cons_self)
      refine ⟨fun r hr => ?_, hq⟩
      have hr' : r ∈ picks := by
        rw [hcons]
        exact List.mem_cons_of_mem _ hr
      rw [hsame hr', hq]
      exact decide_eq_true rfl

/-- Among the places of exact text, a hint chooses the one that alone is nearest to it. -/
theorem onlyNearest_placedAt {starts : List Nat} {target : Int} (hsorted : starts.Pairwise (· < ·))
    (p : Placement α) :
    onlyNearest target (starts.map segment.placedAt) = some p ↔
      ∃ s, p = segment.placedAt s ∧ Anchor.SoleNearest target starts s := by
  have hstarts : (starts.map (segment.placedAt : Nat → Placement α)).map (·.start) = starts := by
    rw [List.map_map]
    exact List.map_id' starts
  have hfind {s : Nat} (hs : s ∈ starts) : (starts.map (segment.placedAt (α := α))).find?
      (fun q => decide (q.start = s)) = some (segment.placedAt s) := by
    have hfound : starts.find? (fun i => decide (i = s)) = some s := by
      obtain ⟨i, hi⟩ := Option.isSome_iff_exists.mp
        (List.find?_isSome (p := fun i => decide (i = s)).mpr ⟨s, hs, decide_eq_true rfl⟩)
      have his : i = s := by simpa using List.find?_some hi
      rw [hi, his]
    exact (List.find?_map ..).trans (congrArg (Option.map segment.placedAt) hfound)
  rw [onlyNearest, hstarts]
  constructor
  · intro h
    split at h
    · rename_i s hnearest
      have hsole := (Anchor.nearest_eq_singleton_iff hsorted).mp hnearest
      rw [hfind hsole.mem] at h
      exact ⟨s, (Option.some.inj h).symm, hsole⟩
    · cases h
  · rintro ⟨s, rfl, hsole⟩
    rw [(Anchor.nearest_eq_singleton_iff hsorted).mpr hsole]
    exact hfind hsole.mem

/-- A hint at one of the places of exact text chooses it, unless an undecided anchor has. -/
theorem decide?_of_hint {s : Nat} (hne : segment ≠ []) (hhint : clues.hint = some (s : Int))
    (h : OccursAt lines (Segment.texts segment) s)
    (hafter : onlyAfter clues.anchorCandidates ((Sequence.equalPlaces id lines
      (Segment.texts segment) 0).map (segment.placedAt : Nat → Placement α)) = none) :
    clues.decide? ((Sequence.equalPlaces id lines (Segment.texts segment) 0).map segment.placedAt) =
      some (segment.placedAt s) := by
  have hsorted := Sequence.equalPlaces_sorted id lines (Segment.texts segment) 0
  have hmem := (Sequence.mem_equalPlaces id lines (Segment.texts segment) 0 s
    (View.texts_ne_nil hne)).mpr ⟨Nat.zero_le s, h⟩
  match hplaces : Sequence.equalPlaces id lines (Segment.texts segment) 0 with
  | [] =>
    rw [hplaces] at hmem
    cases hmem
  | [i] =>
    rw [hplaces] at hmem
    rw [List.mem_singleton.mp hmem]
    rfl
  | i :: j :: others =>
    change clues.breakTie _ = _
    rw [hplaces] at hsorted hmem hafter
    rw [breakTie, hafter, hhint, Option.bind_some,
      (onlyNearest_placedAt hsorted _).mpr ⟨s, rfl, Anchor.soleNearest_self hmem⟩]
    rfl

end Clues

/-! ## Hunks of exact text -/

namespace Hunk

variable {hunk : Hunk} {number s : Nat}

theorem oldEdits_ne_nil (hne : hunk.oldLines ≠ []) : hunk.oldEdits ≠ [] := by
  rw [← List.length_pos_iff, length_oldEdits]
  exact List.length_pos_iff.mpr hne

theorem isInsertion_of_oldLines (hne : hunk.oldLines ≠ []) : hunk.isInsertion = false := by
  obtain ⟨e, he⟩ := List.exists_mem_of_ne_nil _ (mt List.map_eq_nil_iff.mpr hne)
  have hany : hunk.edits.any Edit.isOld = true :=
    List.any_eq_true.mpr ⟨e, (List.mem_filter.mp he).1, (List.mem_filter.mp he).2⟩
  rw [isInsertion, hany]
  rfl

theorem find_oldView (hplain : hunk.hasEllipsis = false) (hne : hunk.oldLines ≠ [])
    (h : OccursAt lines hunk.oldLines s) : View.find config lines hunk.oldView 0 =
      (Sequence.equalPlaces id lines hunk.oldLines 0).map (Segment.placedAt hunk.oldEdits) := by
  rw [← texts_oldEdits] at h ⊢
  rw [oldView_of_no_ellipsis hplain hne]
  exact View.find_of_occurs config (oldEdits_ne_nil hne) (Nat.zero_le s) h

/-- Without anchors, exact text is placed where it stands if that is its only place or the hinted
one, whatever else the hunk says. -/
theorem locate_unanchored (hanchors : hunk.anchors = []) (hplain : hunk.hasEllipsis = false)
    (hne : hunk.oldLines ≠ []) (h : OccursAt lines hunk.oldLines s)
    (hclue : (∀ i, OccursAt lines hunk.oldLines i → i = s) ∨
      hunk.hint.map LineHint.oldIndex = some (s : Int)) :
    hunk.locate config lines number =
      .ok (withNotes none number (Segment.placedAt hunk.oldEdits s)) := by
  have hnone : (hunk.clues config lines).anchor = none := by rw [clues, hanchors]; rfl
  have hline : (hunk.clues config lines).anchorLine? = none := by rw [Clues.anchorLine?, hnone]
  have hcandidates : (hunk.clues config lines).anchorCandidates = [] := by
    rw [Clues.anchorCandidates, hnone]
  rw [← texts_oldEdits] at h
  have hsegment := oldEdits_ne_nil hne
  rw [← hnone]
  refine locate_of_select (isInsertion_of_oldLines hne) ?_
  rw [oldView_of_no_ellipsis hplain hne, Clues.select_everywhere (by simp [hline]),
    View.find_of_occurs config hsegment (Nat.zero_le s) h]
  rcases hclue with hunique | hhint
  · rw [texts_oldEdits] at h ⊢
    rw [Sequence.equalPlaces_of_unique hne h hunique]
    rfl
  · exact Clues.decide?_of_hint hsegment hhint h (by rw [hcandidates]; rfl)

end Hunk
end LoosePatch
