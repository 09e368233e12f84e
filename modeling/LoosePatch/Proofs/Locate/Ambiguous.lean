import LoosePatch.Proofs.Locate.Leaders
import LoosePatch.Proofs.Locate.Narrower
import Mathlib.Data.List.Infix

/-!
Hunks whose old lines stand in several places. A narrower view whose lines stand together in the
hunk (`StandsTogether`) cannot choose between the places, since the lines that it leaves out are
right above and below each of them. Only the view without repeated context need not stand together,
and it can send the hunk to a place where its old lines are not (`Hunk.locate_repeated`).
-/

namespace LoosePatch

variable {α : Type} [Score α] {config : Config α} {lines : List Text}

/-! ## Views whose lines stand together -/

namespace View

/-- The lines of the view stand one below the other among the old lines, right between those that it
leaves out above and below. -/
def StandsTogether (old view : Segment) : Prop :=
  ∃ front, (leftOut old view).1 <:+ (Segment.texts old).take front ∧
    Segment.texts view <+: (Segment.texts old).drop front ∧
    (leftOut old view).2 <+: (Segment.texts old).drop (front + view.length)

theorem leftOut_of_append {lead view trail : Segment} (hne : view ≠ [])
    (hsorted : (lead ++ view ++ trail).Pairwise fun a b => a.index < b.index) :
    leftOut (lead ++ view ++ trail) view = (Segment.texts lead, Segment.texts trail) := by
  obtain ⟨hfront, -, htrail⟩ := List.pairwise_append.mp hsorted
  obtain ⟨-, hview, hlead⟩ := List.pairwise_append.mp hfront
  obtain ⟨first, rest, heq⟩ := List.exists_cons_of_ne_nil hne
  obtain ⟨last, hlast⟩ : ∃ last, view.getLast? = some last :=
    ⟨view.getLast hne, List.getLast?_eq_some_getLast hne⟩
  obtain ⟨init, hinit⟩ := List.getLast?_eq_some_iff.mp hlast
  have hfirst_le : ∀ o ∈ view, first.index ≤ o.index := by
    rw [heq] at hview ⊢
    exact List.forall_mem_cons.mpr
      ⟨Nat.le_refl _, fun o ho => (List.rel_of_pairwise_cons hview ho).le⟩
  have hle_last : ∀ o ∈ view, o.index ≤ last.index := by
    rw [hinit] at hview ⊢
    intro o ho
    rcases List.mem_append.mp ho with ho | ho
    · exact ((List.pairwise_append.mp hview).2.2 o ho last (List.mem_singleton_self last)).le
    · rw [List.mem_singleton.mp ho]
  have hfirst_mem : first ∈ view := heq ▸ List.mem_cons_self
  have hlast_mem : last ∈ view := hinit ▸ List.mem_append_right _ (List.mem_singleton_self last)
  have habove : (lead ++ view ++ trail).filter (·.index < first.index) = lead := by
    rw [List.filter_append, List.filter_append, List.filter_eq_self.mpr, List.filter_eq_nil_iff.mpr,
      List.filter_eq_nil_iff.mpr, List.append_nil, List.append_nil]
    · intro o ho
      have := htrail first (List.mem_append_right _ hfirst_mem) o ho
      simp only [decide_eq_true_eq]
      omega
    · intro o ho
      have := hfirst_le o ho
      simp only [decide_eq_true_eq]
      omega
    · exact fun o ho => decide_eq_true (hlead o ho first hfirst_mem)
  have hbelow : (lead ++ view ++ trail).filter (last.index < ·.index) = trail := by
    rw [List.filter_append, List.filter_append, List.filter_eq_nil_iff.mpr,
      List.filter_eq_nil_iff.mpr, List.filter_eq_self.mpr, List.nil_append, List.nil_append]
    · exact fun o ho => decide_eq_true (htrail last (List.mem_append_right _ hlast_mem) o ho)
    · intro o ho
      have := hle_last o ho
      simp only [decide_eq_true_eq]
      omega
    · intro o ho
      have := hlead o ho last hlast_mem
      simp only [decide_eq_true_eq]
      omega
  have hhead : view.head? = some first := by rw [heq, List.head?_cons]
  simp only [leftOut, hhead, hlast, habove, hbelow]

/-- Old lines that follow each other in the hunk stand together. -/
theorem standsTogether_of_infix {old view : Segment} (hne : view ≠ [])
    (hsorted : old.Pairwise fun a b => a.index < b.index) (h : view <:+: old) :
    StandsTogether old view := by
  obtain ⟨lead, trail, rfl⟩ := h
  refine ⟨lead.length, ?_⟩
  rw [leftOut_of_append hne hsorted]
  simp only [Segment.texts, List.map_append]
  refine ⟨?_, ?_, ?_⟩
  · rw [List.append_assoc, List.take_left' (List.length_map _)]
  · rw [List.append_assoc, List.drop_left' (List.length_map _)]
    exact List.prefix_append _ _
  · rw [List.drop_left' (by simp)]

theorem changedLines?_infix {old view : Segment} (h : changedLines? old = some view) :
    view <:+: old := by
  obtain ⟨-, hview⟩ := Option.ite_none_right_eq_some.mp h
  cases hview
  exact (List.takeWhile_prefix _).isInfix.trans (List.dropWhile_suffix _).isInfix

theorem trimmed_infix {old view : Segment} (h : view ∈ trimmed old) : view <:+: old := by
  obtain ⟨front, back, -, -, -, rfl, -⟩ := mem_trimmed.mp h
  exact (List.drop_suffix _ _).isInfix.trans (List.take_prefix _ _).isInfix

/-- Wherever the old lines occur, the lines of such a view do, between those that it leaves out. -/
theorem StandsTogether.occursAt {old view : Segment} (h : StandsTogether old view) (hne : view ≠ []) :
    ∃ front, ∀ s, OccursAt lines (Segment.texts old) s →
      OccursAt lines (Segment.texts view) (s + front) ∧
      (leftOut old view).1 <:+ lines.take (s + front) ∧
      (leftOut old view).2 <+: lines.drop (s + front + view.length) := by
  obtain ⟨front, habove, hview, hbelow⟩ := h
  refine ⟨front, fun s hs => ?_⟩
  rw [occursAt_iff] at hs ⊢
  have hdrop (n : Nat) : (Segment.texts old).drop n <+: lines.drop (s + n) := by
    rw [← List.drop_drop]
    exact hs.drop n
  refine ⟨hview.trans (hdrop front), ?_, ?_⟩
  · have hlt := hview.length_le
    have hpos := List.length_pos_iff.mpr (texts_ne_nil hne)
    rw [List.length_drop] at hlt
    have htake : (Segment.texts old).take front = (lines.drop s).take front := by
      obtain ⟨after, hafter⟩ := hs
      rw [← hafter, List.take_append_of_le_length (by omega)]
    rw [List.take_add, ← htake]
    exact habove.trans (List.suffix_append _ _)
  · rw [Nat.add_assoc]
    exact hbelow.trans (hdrop _)

end View

/-! ## Nothing to choose by -/

theorem one_lt_length {β : Type} {xs : List β} {x y : β} (hx : x ∈ xs) (hy : y ∈ xs) (hxy : x ≠ y) :
    1 < xs.length := by
  match xs with
  | [] => cases hx
  | [z] => exact absurd ((List.mem_singleton.mp hx).trans (List.mem_singleton.mp hy).symm) hxy
  | _ :: _ :: _ => simp

theorem Segment.stop_placedAt {segment : Segment} (hne : segment ≠ []) (i : Nat) :
    (segment.placedAt i : Placement α).stop = i + segment.length := by
  have hpos := List.length_pos_iff.mpr hne
  have hmax : (List.range' i segment.length).max? = some (i + segment.length - 1) := by
    rw [List.max?_eq_some_iff]
    constructor
    · rw [List.mem_range'_1]
      omega
    · intro n hn
      rw [List.mem_range'_1] at hn
      omega
  have hstop : (segment.placedAt i : Placement α).stop = i + segment.length - 1 + 1 := by
    rw [Placement.stop, placedAt, positionsAt_map_snd, hmax]
  omega

namespace Clues

variable {placements : List (Placement α)}

omit [Score α] in
theorem breakTie_silent (placements : List (Placement α)) :
    ({} : Clues α).breakTie placements = none := rfl

/-- Several places of a narrower view are left to those that lead. -/
theorem selectNarrow_of_many {old view : Segment} (h : 1 < (View.find config lines [view] 0).length) :
    (({} : Clues α).selectNarrow config lines old view).1 =
      ({} : Clues α).decide? (View.leaders ((View.find config lines [view] 0).map fun p =>
        (View.contextFit lines (View.leftOut old view).1 (View.leftOut old view).2 0 p, p))) := by
  match hplaced : View.find config lines [view] 0, h with
  | _ :: _ :: _, _ => simp only [selectNarrow, anchorLine?, List.isEmpty_nil, if_true, hplaced]

/-- Without other clues, a view whose lines stand together has no place if the old lines have two. -/
theorem selectNarrow_silent {old view : Segment} {i j : Nat} (h : View.StandsTogether old view)
    (hne : view ≠ []) (hij : i ≠ j) (hi : OccursAt lines (Segment.texts old) i)
    (hj : OccursAt lines (Segment.texts old) j) :
    (({} : Clues α).selectNarrow config lines old view).1 = none := by
  obtain ⟨front, hocc⟩ := h.occursAt hne
  have hfind := View.find_of_occurs config hne (Nat.zero_le _) (hocc i hi).1
  have hmem {s : Nat} (hs : OccursAt lines (Segment.texts old) s) :
      view.placedAt (s + front) ∈ View.find config lines [view] 0 := by
    rw [hfind]
    refine List.mem_map_of_mem ((Sequence.mem_equalPlaces id lines _ 0 _ (View.texts_ne_nil hne)).mpr ?_)
    exact ⟨Nat.zero_le _, (hocc s hs).1⟩
  have hdistinct : (view.placedAt (i + front) : Placement α) ≠ view.placedAt (j + front) := by
    intro heq
    have hstart : i + front = j + front := congrArg Placement.start heq
    omega
  have hleads {s : Nat} (hs : OccursAt lines (Segment.texts old) s) :
      view.placedAt (s + front) ∈ View.leaders ((View.find config lines [view] 0).map fun p =>
        (View.contextFit lines (View.leftOut old view).1 (View.leftOut old view).2 0 p, p)) := by
    obtain ⟨-, habove, hbelow⟩ := hocc s hs
    refine View.mem_leaders.mpr ⟨_, List.mem_map_of_mem (hmem hs), fun x hx => ?_⟩
    obtain ⟨r, -, rfl⟩ := List.mem_map.mp hx
    refine View.not_betterFit_contextFit habove ?_ 0 r
    rwa [Segment.stop_placedAt hne]
  rw [selectNarrow_of_many (one_lt_length (hmem hi) (hmem hj) hdistinct),
    decide?_of_many (one_lt_length (hleads hi) (hleads hj) hdistinct), breakTie_silent]

end Clues

/-! ## Hunks -/

namespace Hunk

variable {hunk : Hunk} {number i j : Nat}

/-- Views that choose nothing leave several places undecided. -/
theorem locateNarrowed_append {clues : Clues α} {old : Segment} {views rest : List (Narrowing × Segment)}
    {undecided : List (Placement α)} (hmany : 1 < undecided.length)
    (h : ∀ x ∈ views, (clues.selectNarrow config lines old x.2).1 = none) :
    locateNarrowed config lines clues number old (views ++ rest) undecided =
      locateNarrowed config lines clues number old rest undecided := by
  induction views with
  | nil => rfl
  | cons x views ih =>
    obtain ⟨hx, hviews⟩ := List.forall_mem_cons.mp h
    rw [List.cons_append, locateNarrowed]
    split
    · rename_i p leaders hselect
      rw [hselect] at hx
      cases hx
    · rw [if_neg (by omega), ih hviews]

theorem locateNarrowed_of_none {clues : Clues α} {old : Segment} {views : List (Narrowing × Segment)}
    {undecided : List (Placement α)} (hmany : 1 < undecided.length)
    (h : ∀ x ∈ views, (clues.selectNarrow config lines old x.2).1 = none) :
    locateNarrowed config lines clues number old views undecided = (none, undecided) := by
  have hall := @locateNarrowed_append α _ config lines number clues old views [] undecided hmany h
  rwa [List.append_nil] at hall

/-- Without other clues, only the view without repeated context can choose between two places. -/
theorem locateNarrowed_silent {old : Segment} {undecided : List (Placement α)} (hne : old ≠ [])
    (hsorted : old.Pairwise fun a b => a.index < b.index) (hmany : 1 < undecided.length) (hij : i ≠ j)
    (hi : OccursAt lines (Segment.texts old) i) (hj : OccursAt lines (Segment.texts old) j) :
    locateNarrowed config lines {} number old (View.narrowings [old]) undecided = (none, undecided) ∨
      ∃ view p, View.collapsed? old = some view ∧ ¬ View.StandsTogether old view ∧
        (({} : Clues α).selectNarrow config lines old view).1 = some p ∧
        locateNarrowed config lines {} number old (View.narrowings [old]) undecided =
          (some (narrowed .collapsed number p), undecided) := by
  have hnone {view : Segment} (hview : Narrows old view) (h : View.StandsTogether old view) :
      (({} : Clues α).selectNarrow config lines old view).1 = none :=
    Clues.selectNarrow_silent h hview.nonempty hij hi hj
  have hchanged : ∀ x ∈ ((View.changedLines? old).map (Narrowing.changedLines, ·)).toList,
      (({} : Clues α).selectNarrow config lines old x.2).1 = none := by
    intro x hx
    obtain ⟨view, hview, rfl⟩ := Option.map_eq_some_iff.mp (Option.mem_toList.mp hx)
    have hnarrows := View.changedLines?_narrows hview
    exact hnone hnarrows (View.standsTogether_of_infix hnarrows.nonempty hsorted
      (View.changedLines?_infix hview))
  have htrimmed : ∀ x ∈ (View.trimmed old).map (Narrowing.trimmed, ·),
      (({} : Clues α).selectNarrow config lines old x.2).1 = none := by
    intro x hx
    obtain ⟨view, hview, rfl⟩ := List.mem_map.mp hx
    have hnarrows := View.trimmed_narrows hview
    exact hnone hnarrows (View.standsTogether_of_infix hnarrows.nonempty hsorted
      (View.trimmed_infix hview))
  have hviews : locateNarrowed config lines {} number old (View.narrowings [old]) undecided =
      locateNarrowed config lines {} number old
        (((View.collapsed? old).map (Narrowing.collapsed, ·)).toList ++
          (View.trimmed old).map (Narrowing.trimmed, ·)) undecided := by
    rw [View.narrowings, List.append_assoc, locateNarrowed_append hmany hchanged]
  rw [hviews]
  cases hcollapsed : View.collapsed? old with
  | none => exact .inl (locateNarrowed_of_none hmany htrimmed)
  | some view =>
    cases hselect : (({} : Clues α).selectNarrow config lines old view).1 with
    | none =>
      refine .inl (locateNarrowed_of_none hmany fun x hx => ?_)
      rcases List.mem_append.mp hx with hx | hx
      · rw [List.mem_singleton.mp hx]
        exact hselect
      · exact htrimmed x hx
    | some p =>
      refine .inr ⟨view, p, rfl, fun h => ?_, hselect, ?_⟩
      · rw [hnone (View.collapsed?_narrows hne hcollapsed) h] at hselect
        cases hselect
      · have hpair : ({} : Clues α).selectNarrow config lines old view =
            (some p, (({} : Clues α).selectNarrow config lines old view).2) := Prod.ext hselect rfl
        show locateNarrowed config lines {} number old ((Narrowing.collapsed, view) :: _) undecided = _
        rw [locateNarrowed, hpair]

/-- A hunk of which nothing but its lines is known, and these leave the choice to narrower views. -/
theorem locate_silent {candidates undecided : List (Placement α)} {placement : Option (Placement α)}
    (hanchors : hunk.anchors = []) (hhint : hunk.hint = none) (hend : hunk.endsFile = false)
    (hplain : hunk.hasEllipsis = false) (hne : hunk.oldLines ≠ [])
    (hselect : ({} : Clues α).select config lines [hunk.oldEdits] = (none, candidates)) :
    locateNarrowed config lines {} number hunk.oldEdits (View.narrowings [hunk.oldEdits]) candidates =
      (placement, undecided) → hunk.locate config lines number =
      match placement with
      | some p => .ok (withNotes none number p)
      | none =>
        if 1 < undecided.length then refuse (.ambiguousPlace number (undecided.map (·.start)) lines)
        else refuse (Diagnosis.explain lines [hunk.oldEdits] ({} : Clues α) number) := by
  have hclues : hunk.clues config lines = {} := by rw [clues, hanchors, hhint, hend]; rfl
  have hview := oldView_of_no_ellipsis hplain hne
  intro hnarrowed
  have hnarrowed' : locateNarrowed config lines (hunk.clues config lines) number
      (hunk.oldView.head?.getD []) (View.narrowings hunk.oldView) candidates =
        (placement, undecided) := by
    rw [hclues, hview]
    exact hnarrowed
  rw [← hclues, ← hview] at hselect
  have hlocate := locate_of_undecided (isInsertion_of_oldLines hne) hselect hnarrowed'
  rw [hclues, hview] at hlocate
  exact hlocate

/-- With nothing but its lines to go by, a hunk whose old lines stand in several places is refused
with all of them. Only if its context repeats itself in the middle, so that the view without
repetitions does not stand together, can that view send it elsewhere. -/
theorem locate_repeated (hanchors : hunk.anchors = []) (hhint : hunk.hint = none)
    (hend : hunk.endsFile = false) (hplain : hunk.hasEllipsis = false) (hne : hunk.oldLines ≠ [])
    (hij : i ≠ j) (hi : OccursAt lines hunk.oldLines i) (hj : OccursAt lines hunk.oldLines j) :
    ∃ places : List Nat, places.Pairwise (· < ·) ∧
      (∀ s, s ∈ places ↔ OccursAt lines hunk.oldLines s) ∧
      (hunk.locate config lines number = refuse (.ambiguousPlace number places lines) ∨
        ∃ view p, View.collapsed? hunk.oldEdits = some view ∧
          ¬ View.StandsTogether hunk.oldEdits view ∧
          (({} : Clues α).selectNarrow config lines hunk.oldEdits view).1 = some p ∧
          hunk.locate config lines number = .ok (withNotes none number (narrowed .collapsed number p))) := by
  let places := Sequence.equalPlaces id lines hunk.oldLines 0
  let candidates : List (Placement α) := places.map (Segment.placedAt hunk.oldEdits)
  have hplaces (s : Nat) : s ∈ places ↔ OccursAt lines hunk.oldLines s := by
    rw [Sequence.mem_equalPlaces id lines _ 0 s hne]
    exact and_iff_right (Nat.zero_le s)
  have hmem {s : Nat} (hs : OccursAt lines hunk.oldLines s) :
      Segment.placedAt hunk.oldEdits s ∈ candidates := List.mem_map_of_mem ((hplaces s).mpr hs)
  have hdistinct : (Segment.placedAt hunk.oldEdits i : Placement α) ≠
      Segment.placedAt hunk.oldEdits j := fun heq => hij (congrArg Placement.start heq)
  have hmany : 1 < candidates.length := one_lt_length (hmem hi) (hmem hj) hdistinct
  have hsegment := oldEdits_ne_nil hne
  rw [← texts_oldEdits] at hi hj
  have hfind : View.find config lines [hunk.oldEdits] 0 = candidates := by
    rw [View.find_of_occurs config hsegment (Nat.zero_le i) hi, texts_oldEdits]
  have hselect : ({} : Clues α).select config lines [hunk.oldEdits] = (none, candidates) := by
    have hnone : ({} : Clues α).decide? candidates = none :=
      (Clues.decide?_of_many hmany).trans (Clues.breakTie_silent _)
    simp only [Clues.select, Clues.anchorLine?, hfind, hnone]
  refine ⟨places, Sequence.equalPlaces_sorted id lines _ 0, hplaces, ?_⟩
  rcases locateNarrowed_silent hsegment hunk.oldEdits_sorted hmany hij hi hj with
    hnone | ⟨view, p, hview, hapart, hchoice, hsome⟩
  · left
    have hstarts : candidates.map (·.start) = places := by
      rw [List.map_map]
      exact List.map_id' places
    rw [locate_silent hanchors hhint hend hplain hne hselect hnone]
    simp only [if_pos hmany, hstarts]
  · right
    exact ⟨view, p, hview, hapart, hchoice,
      locate_silent hanchors hhint hend hplain hne hselect hsome⟩

/-- Two places of two lines. -/
theorem locate_repeated_twice :
    ∃ places : List Nat, (∀ s, s ∈ places ↔ OccursAt [['a'], ['b'], ['a'], ['b']] [['a'], ['b']] s) ∧
      Hunk.locate (Config.usual Score.decimal : Config Rat) [['a'], ['b'], ['a'], ['b']]
          { edits := [⟨.keep, ['a']⟩, ⟨.remove, ['b']⟩] } 1 =
        refuse (.ambiguousPlace 1 places [['a'], ['b'], ['a'], ['b']]) := by
  let hunk : Hunk := { edits := [⟨.keep, ['a']⟩, ⟨.remove, ['b']⟩] }
  let lines : List Text := [['a'], ['b'], ['a'], ['b']]
  have hi : OccursAt lines hunk.oldLines 0 := by decide
  have hj : OccursAt lines hunk.oldLines 2 := by decide
  have hnone : View.collapsed? hunk.oldEdits = none := by decide +kernel
  obtain ⟨places, -, hplaces, hrefused | ⟨view, p, hview, -⟩⟩ :=
    @locate_repeated Rat _ (Config.usual Score.decimal) lines hunk 1 0 2 rfl rfl rfl rfl (by decide)
      (by decide) hi hj
  · exact ⟨places, hplaces, hrefused⟩
  · rw [hnone] at hview
    cases hview

/-- Two equal places do not always stop a hunk: without the repeated line of its context it goes to
a third place, where its old lines are not. -/
theorem repeated_context_decides :
    ¬ ∀ (lines : List Text) (hunk : Hunk) (i j : Nat), hunk.hasContext = true → hunk.anchors = [] →
        hunk.hint = none → hunk.endsFile = false → hunk.hasEllipsis = false → i ≠ j →
        OccursAt lines hunk.oldLines i → OccursAt lines hunk.oldLines j →
        ∃ places, hunk.locate (Config.usual Score.decimal : Config Rat) lines 1 =
          refuse (.ambiguousPlace 1 places lines) := by
  intro hclaim
  let lines : List Text :=
    [['x'], ['a'], ['a'], ['y'], ['x'], ['a'], ['a'], ['y'], ['x'], ['a'], ['y']]
  let hunk : Hunk :=
    { edits := [⟨.remove, ['x']⟩, ⟨.add, ['z']⟩, ⟨.keep, ['a']⟩, ⟨.keep, ['a']⟩,
        ⟨.keep, ['y']⟩] }
  obtain ⟨places, hplaces⟩ := hclaim lines hunk 0 4 rfl rfl rfl rfl rfl
    (by decide) (by decide) (by decide)
  have hplaced : (hunk.locate (Config.usual Score.decimal : Config Rat) lines 1).toOption.map
      (·.start) = some 8 := by
    decide +kernel
  rw [hplaces] at hplaced
  cases hplaced

end Hunk
end LoosePatch
