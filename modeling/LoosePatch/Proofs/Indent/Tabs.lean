import LoosePatch.Proofs.Indent.Shifted
import LoosePatch.Proofs.Splice.Faultless

/-!
Tabs among added lines, in a file that is indented with spaces only. Fitting the lines to such a file
spells every tab in front of them as spaces (`hasTab_of_mem_reindent`), but below lines that match as they
are it is skipped if most of the added lines look like those of the file. Then, and only then, a tab gets
into the file (`Hunk.bringsTab_located_iff`).
-/

namespace LoosePatch

namespace Indent

/-! ## One line -/

theorem hasTab_convert_spaces (line : Text) (unit : Nat) : hasTab (convert line .spaces unit) = false := by
  let spell : Char → Text := fun c =>
    if c = '\t' then List.replicate (unitOr unit usualUnit) ' ' else [c]
  have hspell : ∀ c ∈ (lead line).flatMap spell, isIndent c = true ∧ c ≠ '\t' := by
    intro c hc
    obtain ⟨d, hd, hc⟩ := List.mem_flatMap.mp hc
    by_cases htab : d = '\t'
    · rw [show spell d = List.replicate (unitOr unit usualUnit) ' ' from if_pos htab] at hc
      rw [List.eq_of_mem_replicate hc]
      exact ⟨rfl, by decide⟩
    · rw [show spell d = [d] from if_neg htab] at hc
      rw [List.mem_singleton.mp hc]
      exact ⟨isIndent_of_mem_lead hd, htab⟩
  have hlead : lead (convert line .spaces unit) = (lead line).flatMap spell := by
    show lead ((lead line).flatMap spell ++ body line) = _
    rw [lead_append fun c hc => (hspell c hc).1, lead_body, List.append_nil]
  rw [hasTab, hlead, List.contains_eq_mem, decide_eq_false_iff_not]
  exact fun hmem => (hspell _ hmem).2 rfl

theorem hasTab_settle_spaces (unit tabUnit : Nat) (line : Text) :
    hasTab (settle (some .spaces) unit tabUnit line) = false := by
  show hasTab (if hasTab line then convert line .spaces unit else line) = false
  cases htab : hasTab line with
  | true => exact hasTab_convert_spaces line unit
  | false => exact htab

theorem isIndented_of_hasTab {line : Text} (hblank : line.isBlankText = false) (h : hasTab line = true) :
    isIndented line = true := by
  have hlead : lead line ≠ [] := List.ne_nil_of_mem (List.contains_iff_mem.mp h)
  rw [isIndented, hblank, List.isEmpty_eq_false_iff.mpr hlead]
  rfl

/-! ## All added lines -/

/-- A line that is not blank has a tab in front. -/
def BringsTab (lines : List Text) : Prop :=
  ∃ line ∈ lines, line.isBlankText = false ∧ hasTab line = true

theorem style_ne_none_of_bringsTab {lines : List Text} (h : BringsTab lines) :
    (profile lines).style ≠ none := by
  obtain ⟨line, hline, hblank, htab⟩ := h
  have hmem : line ∈ lines.filter isIndented :=
    List.mem_filter.mpr ⟨hline, isIndented_of_hasTab hblank htab⟩
  rw [profile, List.isEmpty_eq_false_iff.mpr (List.ne_nil_of_mem hmem)]
  exact Option.some_ne_none _

variable {pairs : List Pair} {added : List Text} {file : Profile}

/-- Whatever the hunk looks like, the lines that are fitted to a file without tabs have none. -/
theorem hasTab_of_mem_reindent (hstyle : file.style = some .spaces)
    (hfile : Uniform .spaces (pairs.map (·.file))) {line : Text} (h : line ∈ reindent pairs added file) :
    hasTab line = false := by
  unfold reindent at h
  extract_lets actual target agreed written converts style unit pairs' added' delta at h
  have htarget : target = some .spaces := by
    rcases profile_style hfile with hnone | hsome
    · simp only [target, actual, hnone, hstyle]
      rfl
    · simp only [target, actual, hsome]
      rfl
  rw [htarget] at h
  obtain ⟨line', -, rfl⟩ := List.mem_map.mp h
  exact hasTab_settle_spaces _ _ _

/-- A tab gets in where nothing is fitted, and the lines that bring it are those of the hunk. -/
theorem bringsTab_reconcile_iff (hstyle : file.style = some .spaces)
    (hfile : Uniform .spaces (pairs.map (·.file)))
    (hreindent : isReindent ((pairs.filter (·.isRemove)).map (·.diff)) added = false) :
    BringsTab (reconcile pairs added file) ↔
      (∀ x ∈ pairs, x.diff = x.file) ∧ (profile added).style = some .spaces ∧ BringsTab added := by
  have hverbatim : isVerbatim pairs added file = true ↔
      (∀ x ∈ pairs, x.diff = x.file) ∧
        ((profile added).style = none ∨ (profile added).style = some .spaces) := by
    rw [isVerbatim, hstyle, Option.isNone_some, Bool.false_or, Bool.and_eq_true, List.all_eq_true,
      Bool.or_eq_true, Option.isNone_iff_eq_none, beq_iff_eq]
    simp only [decide_eq_true_eq]
  unfold reconcile
  extract_lets removed
  rw [hreindent, Bool.or_false]
  split
  · rename_i h
    obtain ⟨hsame, hlike⟩ := hverbatim.mp h
    constructor
    · intro htab
      exact ⟨hsame, hlike.resolve_left (style_ne_none_of_bringsTab htab), htab⟩
    · rintro ⟨-, -, htab⟩
      exact htab
  · rename_i h
    constructor
    · rintro ⟨line, hline, -, htab⟩
      rw [hasTab_of_mem_reindent hstyle hfile hline] at htab
      cases htab
    · rintro ⟨hsame, hlike, -⟩
      exact absurd (hverbatim.mpr ⟨hsame, .inr hlike⟩) h

end Indent

/-! ## Located hunks -/

namespace Splice

variable {α : Type} {lines : List Text} {hunk : Hunk} {p : Placement α} {pairs : List Indent.Pair}

/-- The matched edits with their file lines. -/
def matchedEdits (p : Placement α) (edits : List (Edit × Nat)) : List (Edit × Nat) :=
  edits.filterMap fun x => (p.lineOf? x.2).map (x.1, ·)

/-- The pair of an edit and its file line. -/
def PairOf (lines : List Text) (x : Edit × Nat) (y : Indent.Pair) : Prop :=
  lines[x.2]? = some y.file ∧ x.1.text = y.diff ∧ x.1.isRemove = y.isRemove

theorem forall₂_pairs (h : Splice.pairs lines hunk p = .ok pairs) :
    List.Forall₂ (PairOf lines) (matchedEdits p hunk.edits.zipIdx) pairs := by
  refine (mapM_eq_ok.mp h).imp fun x y hxy => ?_
  obtain ⟨actual, hfetch, hy⟩ := bind_eq_ok.mp hxy
  cases hy
  exact ⟨fetch_eq_ok.mp hfetch, rfl, rfl⟩

theorem file_mem (h : Splice.pairs lines hunk p = .ok pairs) : ∀ x ∈ pairs, x.file ∈ lines := by
  intro y hy
  obtain ⟨x, -, hfile, -, -⟩ := exists_mem_of_forall₂ (forall₂_pairs h) hy
  exact List.mem_of_getElem? hfile

theorem textsWhere_of_forall₂ {matched : List (Edit × Nat)} (h : List.Forall₂ (PairOf lines) matched pairs) :
    textsWhere Edit.isRemove matched = (pairs.filter (·.isRemove)).map (·.diff) := by
  induction h with
  | nil => rfl
  | @cons x y matched pairs hxy _ ih =>
    obtain ⟨-, htext, hremove⟩ := hxy
    cases hkind : x.1.isRemove with
    | true =>
      rw [textsWhere_cons_pos hkind, List.filter_cons_of_pos (hremove ▸ hkind), List.map_cons, htext, ih]
    | false =>
      rw [textsWhere_cons_neg hkind, List.filter_cons_of_neg (by simp [← hremove, hkind]), ih]

/-- Edits of a kind that are all matched are all there. -/
theorem textsWhere_matchedEdits {kind : Edit → Bool} {edits : List (Edit × Nat)}
    (h : ∀ x ∈ edits, kind x.1 = true → ∃ line, p.lineOf? x.2 = some line) :
    textsWhere kind (matchedEdits p edits) = textsWhere kind edits := by
  induction edits with
  | nil => rfl
  | cons x edits ih =>
    obtain ⟨hx, hedits⟩ := List.forall_mem_cons.mp h
    have ih := ih hedits
    cases hkind : kind x.1 with
    | true =>
      obtain ⟨line, hline⟩ := hx hkind
      have hcons : matchedEdits p (x :: edits) = (x.1, line) :: matchedEdits p edits := by
        rw [matchedEdits, List.filterMap_cons, hline]
        rfl
      rw [hcons, textsWhere_cons_pos (x := (x.1, line)) hkind, textsWhere_cons_pos hkind, ih]
    | false =>
      rw [textsWhere_cons_neg hkind, ← ih]
      cases hline : p.lineOf? x.2 with
      | none =>
        rw [matchedEdits, List.filterMap_cons, hline]
        rfl
      | some line =>
        rw [matchedEdits, List.filterMap_cons, hline]
        exact textsWhere_cons_neg (x := (x.1, line)) hkind

/-- Every removed line of a hunk is matched. -/
theorem removed_pairs (hfits : p.Fits lines hunk) (h : Splice.pairs lines hunk p = .ok pairs) :
    (pairs.filter (·.isRemove)).map (·.diff) = hunk.removedLines := by
  have hmatched : ∀ x ∈ hunk.edits.zipIdx, x.1.isRemove = true → ∃ line, p.lineOf? x.2 = some line := by
    intro x hx hremove
    obtain ⟨line, hline⟩ := hfits.removes x.2 x.1 (List.mem_zipIdx_iff_getElem?.mp hx) hremove
    exact ⟨line, hfits.lineOf?_eq_some.mpr hline⟩
  rw [← textsWhere_of_forall₂ (forall₂_pairs h), textsWhere_matchedEdits hmatched, textsWhere_zipIdx]
  rfl

end Splice

namespace Hunk

variable {α : Type} [Score α] {config : Config α} {lines : List Text} {hunk : Hunk} {number : Nat}
  {p : Placement α}

/-- **Tabs among added lines.** All indented lines of a file, one at least, are indented with spaces only,
and a hunk does more than indent its lines anew. Wherever it is located, its added lines bring a tab into
the file if and only if every matched line is the same in the hunk and in the file, at least as many added
lines are indented with a space as with a tab, and one of them has a tab in front. -/
theorem bringsTab_located_iff (h : hunk.locate config lines number = .ok p)
    (hspaces : Indent.Uniform .spaces lines) (hindented : ∃ line ∈ lines, Indent.isIndented line = true)
    (hreindent : Indent.isReindent hunk.removedLines hunk.addedLines = false) :
    ∃ pairs, Splice.pairs lines hunk p = .ok pairs ∧
      (Indent.BringsTab (Indent.reconcile pairs hunk.addedLines (Indent.profile lines)) ↔
        (∀ x ∈ pairs, x.diff = x.file) ∧ (Indent.profile hunk.addedLines).style = some .spaces ∧
          Indent.BringsTab hunk.addedLines) := by
  have hfits := locate_fits h
  obtain ⟨pairs, hpairs⟩ := Splice.exists_pairs hfits
  have hfile : Indent.Uniform .spaces (pairs.map (·.file)) :=
    List.forall_mem_map.mpr fun x hx => hspaces x.file (Splice.file_mem hpairs x hx)
  have hstyle := (Indent.profile_of_uniform hspaces hindented).1
  refine ⟨pairs, hpairs, Indent.bringsTab_reconcile_iff hstyle hfile ?_⟩
  rw [Splice.removed_pairs hfits hpairs, hreindent]

/-- A hunk at the wrong depth, with a tab: the matched line differs, so the added line is fitted. -/
theorem bringsTab_located_iff_wrong_depth :
    let lines : List Text := ["if x:".toList, "  a".toList]
    let hunk : Hunk := { edits := [⟨.keep, "a".toList⟩, ⟨.add, "\tb".toList⟩] }
    ∃ (p : Placement Rat) (pairs : List Indent.Pair),
      hunk.locate (Config.usual Score.decimal) lines 1 = .ok p ∧ Splice.pairs lines hunk p = .ok pairs ∧
      Indent.reconcile pairs hunk.addedLines (Indent.profile lines) = ["    b".toList] ∧
      ¬ Indent.BringsTab (Indent.reconcile pairs hunk.addedLines (Indent.profile lines)) := by
  intro lines hunk
  let p : Placement Rat :=
    { start := 1, confidence := Score.decimal 98 2, strategy := .lines .surrounding, positions := [(0, 1)]
      notes := [.inexact 1 (.lines .surrounding) 1 (Score.decimal 98 2)] }
  have hplaced : hunk.locate (Config.usual Score.decimal) lines 1 = .ok p := rfl
  have hpairs : Splice.pairs lines hunk p = .ok [⟨"a".toList, "  a".toList, false⟩] := rfl
  obtain ⟨pairs, hpairs', hiff⟩ := bringsTab_located_iff hplaced
    (Indent.uniform_of_no_tab (by decide)) (by decide) (by decide)
  cases hpairs.symm.trans hpairs'
  refine ⟨p, _, hplaced, hpairs, by decide, fun htab => ?_⟩
  exact absurd ((hiff.mp htab).1 _ (List.mem_singleton_self _)) (by decide)

/-- A tab gets in below a line that matches as it is, beside an added line indented with spaces. -/
theorem minor_tab_gets_in :
    ¬ ∀ (lines : List Text) (hunk : Hunk) (p : Placement Rat) (pairs : List Indent.Pair),
        hunk.locate (Config.usual Score.decimal) lines 1 = .ok p → Indent.Uniform .spaces lines →
        (∃ line ∈ lines, Indent.isIndented line = true) →
        Indent.isReindent hunk.removedLines hunk.addedLines = false →
        Splice.pairs lines hunk p = .ok pairs →
        ¬ Indent.BringsTab (Indent.reconcile pairs hunk.addedLines (Indent.profile lines)) := by
  intro hclaim
  let hunk : Hunk := { edits := [⟨.keep, "  a".toList⟩, ⟨.add, "  b".toList⟩, ⟨.add, "\tc".toList⟩] }
  let p : Placement Rat :=
    { start := 0, confidence := Score.one, strategy := .lines .exact, positions := [(0, 0)] }
  have hplaced : hunk.locate (Config.usual Score.decimal) ["  a".toList] 1 = .ok p := rfl
  refine hclaim _ hunk p [⟨"  a".toList, "  a".toList, false⟩] hplaced
    (Indent.uniform_of_no_tab (by decide)) (by decide) (by decide) rfl ?_
  exact ⟨"\tc".toList, by decide, by decide, by decide⟩

end Hunk
end LoosePatch
