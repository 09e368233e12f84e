import LoosePatch.Proofs.Locate.Anchors
import LoosePatch.Proofs.Locate.Hinted

/-!
Several anchors narrow the place of a hunk downwards. `Descends` follows them line by line without the
search that does so; what anchors point to are the lines where such chains end (`Anchor.Ends`), and the
lines of a hunk below a resolved anchor are placed at once (`Hunk.locate_below_anchors`).
-/

namespace LoosePatch

variable {α : Type} [Score α] {config : Config α} {lines : List Text}

namespace Anchor

/-! ## Chains -/

/-- Anchors are found one below the other, from line `line` down to line `last`: each of them at the
first line that it means of those strictly below the line of the one before. -/
inductive Descends (config : Config α) (lines : List Text) : List Text → (line last : Nat) → Prop
  | done (line : Nat) : Descends config lines [] line line
  | step {anchor : Text} {anchors : List Text} {line next last : Nat} : line < next →
      (locate config lines anchor (line + 1)).1.head? = some next →
      Descends config lines anchors next last → Descends config lines (anchor :: anchors) line last

/-- A chain for the anchors ends at line `last`. It starts at any line that the first anchor means. -/
def ChainTo (config : Config α) (lines : List Text) (anchors : List Text) (last : Nat) : Prop :=
  ∃ first rest line, anchors = first :: rest ∧ line ∈ (locate config lines first 0).1 ∧
    Descends config lines rest line last

theorem exists_follow_iff {anchors : List Text} {line last : Nat} {c : α} :
    (∃ d, follow config lines anchors line c = .ok (last, d)) ↔
      Descends config lines anchors line last := by
  constructor
  · rintro ⟨d, h⟩
    induction anchors generalizing line c with
    | nil =>
      cases h
      exact .done last
    | cons anchor anchors ih =>
      simp only [follow] at h
      split at h
      · cases h
      · rename_i next others e hlocate
        have hhead : (locate config lines anchor (line + 1)).1.head? = some next := by
          rw [hlocate, List.head?_cons]
        have hbelow := (locate_within (List.mem_of_head? hhead)).1
        exact .step hbelow hhead (ih h)
  · intro h
    induction h generalizing c with
    | done line => exact ⟨c, rfl⟩
    | @step anchor anchors line next last _ hhead _ ih =>
      obtain ⟨others, hothers⟩ := List.head?_eq_some_iff.mp hhead
      obtain ⟨d, hd⟩ := ih (c := Score.least c (locate config lines anchor (line + 1)).2)
      have hlocate : locate config lines anchor (line + 1) =
          (next :: others, (locate config lines anchor (line + 1)).2) := Prod.ext hothers rfl
      refine ⟨d, ?_⟩
      rw [follow, hlocate]
      exact hd

/-- A chain goes down by a line at least for each anchor after the first, and stays in the file. -/
theorem ChainTo.within {anchors : List Text} {last : Nat} (h : ChainTo config lines anchors last) :
    anchors.length ≤ last + 1 ∧ last < lines.length := by
  obtain ⟨first, rest, line, rfl, hline, hdescends⟩ := h
  obtain ⟨d, hfollow⟩ := (exists_follow_iff (c := Score.one)).mpr hdescends
  obtain ⟨hle, hlt⟩ := follow_within (locate_within hline).2 hfollow
  rw [List.length_cons]
  exact ⟨by omega, hlt⟩

theorem mem_endLines_iff {first : Text} {rest : List Text} {last : Nat} :
    last ∈ endLines config lines first rest ↔ ChainTo config lines (first :: rest) last := by
  rw [mem_endLines]
  constructor
  · rintro ⟨c, line, hline, hfollow⟩
    exact ⟨first, rest, line, rfl, hline, exists_follow_iff.mp ⟨c, hfollow⟩⟩
  · rintro ⟨_, _, line, heq, hline, hdescends⟩
    cases heq
    obtain ⟨c, hc⟩ := exists_follow_iff.mpr hdescends
    exact ⟨c, line, hline, hc⟩

/-! ## What the anchors point to -/

/-- The places are ends of chains for the anchors: all of them, or those that are nearest to the line
of the hint. -/
structure Ends (config : Config α) (lines : List Text) (anchors : List Text) (hint : Option Int)
    (places : List Nat) : Prop where
  chain : ∀ place ∈ places, ChainTo config lines anchors place
  within : ∀ place ∈ places, anchors.length ≤ place + 1 ∧ place < lines.length
  equallyNear : ∀ target, hint = some target → ∀ place ∈ places, ∀ other ∈ places,
    ((place : Int) - target).natAbs = ((other : Int) - target).natAbs
  /-- Only a hint leaves ends of chains out, and only those that are farther from it. -/
  leftOut : ∀ other, ChainTo config lines anchors other → other ∉ places →
    ∃ target, hint = some target ∧
      ∀ place ∈ places, ((place : Int) - target).natAbs < ((other : Int) - target).natAbs

theorem ends_hinted (config : Config α) (lines : List Text) (first : Text) (rest : List Text)
    (hint : Option Int) :
    Ends config lines (first :: rest) hint (hinted hint (endLines config lines first rest)) where
  chain place hplace := mem_endLines_iff.mp ((hinted_sublist hint _).subset hplace)
  within place hplace :=
    (mem_endLines_iff.mp ((hinted_sublist hint _).subset hplace)).within
  equallyNear := by
    rintro target rfl place hplace other hother
    obtain ⟨hplace, hleast⟩ := mem_nearest.mp hplace
    obtain ⟨hother, hleast'⟩ := mem_nearest.mp hother
    exact Nat.le_antisymm (hleast other hother) (hleast' place hplace)
  leftOut := by
    intro other hother hnot
    rw [← mem_endLines_iff] at hother
    cases hint with
    | none => exact absurd hother hnot
    | some target =>
      refine ⟨target, rfl, fun place hplace => ?_⟩
      obtain ⟨hplace, hleast⟩ := mem_nearest.mp hplace
      refine Nat.lt_of_le_of_ne (hleast other hother) fun heq => hnot (mem_nearest.mpr ⟨hother, ?_⟩)
      intro q hq
      rw [← heq]
      exact hleast q hq

end Anchor

namespace Hunk

variable {hunk : Hunk} {number place : Nat}

/-- Text below a resolved anchor is placed at its first place from there on. -/
theorem locate_below_anchors {c : α} (hplain : hunk.hasEllipsis = false) (hne : hunk.oldLines ≠ [])
    (hanchor : (hunk.clues config lines).anchor = some (.line place c))
    (hoccurs : ∃ s, place ≤ s ∧ OccursAt lines hunk.oldLines s) :
    ∃ p, hunk.locate config lines number = .ok p ∧ FirstFrom lines hunk.oldLines place p.start ∧
      p.confidence = Score.one := by
  have hline : (hunk.clues config lines).anchorLine? = some place := by rw [Clues.anchorLine?, hanchor]
  obtain ⟨s, hle, hs⟩ := hoccurs
  rw [← texts_oldEdits] at hs ⊢
  obtain ⟨i, hselect, hfirst, -⟩ := select_below config (oldEdits_ne_nil hne) hline hle hs
  rw [← oldView_of_no_ellipsis hplain hne] at hselect
  exact ⟨_, locate_of_select (isInsertion_of_oldLines hne) hselect, hfirst, rfl⟩

/-- **Anchors narrow downwards.** Anchors point to one line, to several in file order, or to none, and
then one of them is named. Every line they point to ends a chain in which each anchor is found below the
one before, and a hint leaves those equally near to it. A hunk whose anchors point to one line is placed at
the first place of its text from there on. -/
theorem anchors_narrow (config : Config α) (lines : List Text) :
    (∀ (anchors : List Text) (hint : Option Int), anchors ≠ [] →
      ∃ anchoring, Anchor.resolve config lines anchors hint = some anchoring ∧
        match anchoring with
        | .line place _ => Anchor.Ends config lines anchors hint [place]
        | .candidates places _ =>
          2 ≤ places.length ∧ places.Pairwise (· < ·) ∧ Anchor.Ends config lines anchors hint places
        | .missing anchor => anchor ∈ anchors ∧ ∀ place, ¬ Anchor.ChainTo config lines anchors place) ∧
    ∀ (hunk : Hunk) (number place : Nat) (c : α),
      Anchor.resolve config lines hunk.anchors (hunk.hint.map LineHint.oldIndex) =
        some (.line place c) →
      hunk.hasEllipsis = false → hunk.oldLines ≠ [] →
      (∃ s, place ≤ s ∧ OccursAt lines hunk.oldLines s) →
      ∃ p, hunk.locate config lines number = .ok p ∧ FirstFrom lines hunk.oldLines place p.start ∧
        p.confidence = Score.one := by
  refine ⟨fun anchors hint hne => ?_, fun hunk number place c hanchor hplain hne hoccurs =>
    locate_below_anchors hplain hne hanchor hoccurs⟩
  obtain ⟨first, rest, rfl⟩ := List.exists_cons_of_ne_nil hne
  have hends := Anchor.ends_hinted config lines first rest hint
  obtain ⟨anchoring, hresolve, hcase⟩ := Anchor.resolve_cons config lines first rest hint
  refine ⟨anchoring, hresolve, ?_⟩
  cases anchoring with
  | line place c =>
    obtain ⟨honly, -⟩ := hcase
    rw [honly] at hends
    exact hends
  | candidates places c =>
    obtain ⟨rfl, htwo⟩ := hcase
    exact ⟨htwo, (Anchor.ends_sorted _).sublist (Anchor.hinted_sublist hint _), hends⟩
  | missing anchor =>
    refine ⟨hcase.2, fun place hplace => ?_⟩
    rw [← Anchor.mem_endLines_iff, hcase.1] at hplace
    cases hplace

/-- A method of the second of two classes, and a line that both methods have. -/
theorem anchors_narrow_second_class :
    let lines : List Text := [['A'], ['r'], ['x'], ['B'], ['r'], ['x']]
    let config : Config Rat := Config.usual Score.decimal
    let hunk : Hunk := { edits := [⟨.remove, ['x']⟩], anchors := [['B'], ['r']] }
    (∃ place c, Anchor.resolve config lines hunk.anchors none = some (.line place c) ∧
        Anchor.Ends config lines hunk.anchors none [place]) ∧
      ∃ p, hunk.locate config lines 1 = .ok p ∧ FirstFrom lines hunk.oldLines 4 p.start ∧
        p.confidence = Score.one := by
  intro lines config hunk
  have hresolve : Anchor.resolve config lines hunk.anchors none = some (.line 4 Score.one) := rfl
  obtain ⟨hpoint, hplace⟩ := anchors_narrow config lines
  refine ⟨?_, hplace hunk 1 4 Score.one hresolve rfl (by decide) ⟨5, by decide, by decide⟩⟩
  obtain ⟨anchoring, heq, hcase⟩ := hpoint hunk.anchors none (by decide)
  cases hresolve.symm.trans heq
  exact ⟨4, Score.one, hresolve, hcase⟩

end Hunk
end LoosePatch
