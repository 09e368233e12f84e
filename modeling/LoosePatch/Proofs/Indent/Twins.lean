import LoosePatch.Proofs.Indent.Shifted
import LoosePatch.Proofs.Text.Trim

/-!
Hunks written with tabs for a file indented with spaces. If each tab stands for the same number of spaces,
the added lines come out as those of the hunk written with spaces (`reconcile_twins`).
-/

namespace LoosePatch.Indent

/-! ## The text behind the indentation -/

theorem isBlank_of_mem_lead {line : Text} {c : Char} (h : c ∈ lead line) : isBlank c = true :=
  isBlank_of_isIndent (isIndent_of_mem_lead h)

/-- Blank lines are blank behind their indentation. -/
theorem isBlankText_body (line : Text) : (body line).isBlankText = line.isBlankText := by
  have hlead : (lead line).all isBlank = true := List.all_eq_true.mpr fun c => isBlank_of_mem_lead
  calc (body line).isBlankText = ((lead line).all isBlank && (body line).all isBlank) := by
        rw [hlead, Bool.true_and, Text.isBlankText]
    _ = (lead line ++ body line).all isBlank := List.all_append.symm
    _ = line.isBlankText := by rw [lead_append_body, Text.isBlankText]

theorem trim_body (line : Text) : Text.trim (body line) = Text.trim line := by
  have hlead : ∀ c ∈ lead line, isBlank c = true := fun c => isBlank_of_mem_lead
  conv_rhs => rw [← lead_append_body line]
  rw [Text.trim, Text.trim, Text.trimBy, Text.trimBy, List.dropWhile_append_of_pos hlead]

/-! ## Lines with tabs for spaces -/

/-- The line is indented in steps of `u` spaces. -/
structure Stepped (u : Nat) (line : Text) : Prop where
  noTab : hasTab line = false
  steps : u ∣ width line

/-- The line with a tab for each `u` spaces in front of it. -/
def tabbed (u : Nat) (line : Text) : Text := List.replicate (width line / u) '\t' ++ body line

variable {u : Nat} {line : Text}

theorem lead_tabbed (u : Nat) (line : Text) :
    lead (tabbed u line) = List.replicate (width line / u) '\t' :=
  lead_replicate_append rfl _ line

theorem width_tabbed (u : Nat) (line : Text) : width (tabbed u line) = width line / u := by
  rw [width, lead_tabbed, List.length_replicate]

theorem body_tabbed (u : Nat) (line : Text) : body (tabbed u line) = body line :=
  (body_append (fun _ hc => isIndent_of_mem_replicate rfl hc) _).trans (body_body line)

theorem isBlankText_tabbed (u : Nat) (line : Text) : (tabbed u line).isBlankText = line.isBlankText := by
  rw [← isBlankText_body, body_tabbed, isBlankText_body]

theorem trim_tabbed (u : Nat) (line : Text) : Text.trim (tabbed u line) = Text.trim line := by
  rw [← trim_body, body_tabbed, trim_body]

theorem isReindent_tabbed (u : Nat) (removed added : List Text) :
    isReindent (removed.map (tabbed u)) (added.map (tabbed u)) = isReindent removed added := by
  have htrim (lines : List Text) : (lines.map (tabbed u)).map Text.trim = lines.map Text.trim := by
    rw [List.map_map]
    exact List.map_congr_left fun line _ => trim_tabbed u line
  rw [isReindent, isReindent, htrim, htrim, List.isEmpty_map]

theorem uniform_tabbed (u : Nat) (lines : List Text) : Uniform .tabs (lines.map (tabbed u)) := by
  intro line hline _ c hc
  obtain ⟨line, -, rfl⟩ := List.mem_map.mp hline
  rw [lead_tabbed] at hc
  exact List.eq_of_mem_replicate hc

theorem width_pos_of_isIndented (h : isIndented line = true) : 0 < width line :=
  List.length_pos_iff.mpr (lead_ne_nil h)

namespace Stepped

theorem width_div_pos (h : Stepped u line) (hindented : isIndented line = true) : 0 < width line / u := by
  have hpos := width_pos_of_isIndented hindented
  exact Nat.div_pos (Nat.le_of_dvd hpos h.steps) (Nat.pos_of_dvd_of_pos h.steps hpos)

theorem isIndented_tabbed (h : Stepped u line) (hindented : isIndented line = true) :
    isIndented (tabbed u line) = true := by
  have hpos := h.width_div_pos hindented
  have hlead : (lead (tabbed u line)).isEmpty = false := by
    rw [lead_tabbed, List.isEmpty_replicate]
    exact decide_eq_false hpos.ne'
  rw [isIndented, isBlankText_tabbed, hlead]
  exact Bool.and_eq_true_iff.mpr ⟨(Bool.and_eq_true_iff.mp hindented).1, rfl⟩

theorem tabbed_ne (h : Stepped u line) (hindented : isIndented line = true) : tabbed u line ≠ line := by
  intro heq
  have hnone : '\t' ∉ lead line := by
    rw [lead_of_no_tab h.noTab]
    exact fun hmem => absurd (List.eq_of_mem_replicate hmem) (by decide)
  rw [← heq, lead_tabbed] at hnone
  exact hnone (List.mem_replicate.mpr ⟨(h.width_div_pos hindented).ne', rfl⟩)

/-- Tabs that stand for `u` spaces each give the line back. -/
theorem convert_tabbed (h : Stepped u line) (hu : 0 < u) : convert (tabbed u line) .spaces u = line := by
  have hunit : unitOr u usualUnit = u := if_neg hu.ne'
  have hspaces (n : Nat) : (List.replicate n '\t').flatMap (fun c => if c = '\t' then List.replicate u ' '
      else [c]) = List.replicate (n * u) ' ' := by
    rw [List.flatMap_def, List.map_replicate, if_pos rfl, List.flatten_replicate_replicate]
  show ((lead (tabbed u line)).flatMap fun c => if c = '\t' then
    List.replicate (unitOr u usualUnit) ' ' else [c]) ++ body (tabbed u line) = line
  rw [hunit, lead_tabbed, body_tabbed, hspaces, Nat.div_mul_cancel h.steps, replicate_append_body h.noTab]

end Stepped

/-! ## Hunks with tabs for spaces -/

/-- A matched line as it is in a hunk that has tabs for the spaces of the file. -/
def tabTwin (u : Nat) (matched : Text × Bool) : Pair := ⟨tabbed u matched.1, matched.1, matched.2⟩

/-- A matched line as it is in a hunk that has the spaces of the file. -/
def spaceTwin (matched : Text × Bool) : Pair := ⟨matched.1, matched.1, matched.2⟩

variable {matched : List (Text × Bool)} {added : List Text} {file : Profile}

/-- An indented line tells how many spaces a tab stands for, and no line tells otherwise. -/
theorem spacesPerTab_tabTwin (hmatched : ∀ x ∈ matched, Stepped u x.1)
    (hindented : ∃ x ∈ matched, isIndented x.1 = true) (fallback : Nat) :
    spacesPerTab (matched.map (tabTwin u)) fallback = u := by
  have hratio {x : Text × Bool} (hx : x ∈ matched) (hne : width (tabbed u x.1) ≠ 0) :
      width x.1 % width (tabbed u x.1) = 0 ∧ width x.1 / width (tabbed u x.1) = u := by
    obtain ⟨k, hk⟩ := (hmatched x hx).steps
    rw [width_tabbed, hk] at hne ⊢
    have hpos : 0 < u := Nat.pos_of_ne_zero fun hzero => hne (by rw [hzero, Nat.div_zero])
    rw [Nat.mul_div_cancel_left k hpos] at hne ⊢
    exact ⟨Nat.mul_mod_left u k, Nat.mul_div_left u (Nat.pos_of_ne_zero hne)⟩
  unfold spacesPerTab
  extract_lets ratios
  have hcommon : common? ratios = some u := by
    refine common?_eq_some ?_ fun r hr => ?_
    · obtain ⟨x, hx, hx'⟩ := hindented
      have hne : width (tabbed u x.1) ≠ 0 :=
        width_tabbed u x.1 ▸ ((hmatched x hx).width_div_pos hx').ne'
      obtain ⟨hmod, hdiv⟩ := hratio hx hne
      refine List.mem_filterMap.mpr ⟨tabTwin u x, List.mem_map_of_mem hx, ?_⟩
      exact (if_pos ⟨hne, (width_pos_of_isIndented hx').ne', hmod⟩).trans (congrArg some hdiv)
    · obtain ⟨p, hp, hsome⟩ := List.mem_filterMap.mp hr
      obtain ⟨x, hx, rfl⟩ := List.mem_map.mp hp
      obtain ⟨⟨hne, -, -⟩, hdiv⟩ := Option.ite_none_right_eq_some.mp hsome
      exact (Option.some.inj hdiv).symm.trans (hratio hx hne).2
  rw [hcommon, Option.getD_some]

theorem offBy_spaceTwin (hindented : ∃ x ∈ matched, isIndented x.1 = true) :
    OffBy (matched.map spaceTwin) 0 := by
  obtain ⟨x, hx, hx'⟩ := hindented
  have htells : x.1.isBlankText = false := Bool.not_eq_true' _ ▸ (Bool.and_eq_true_iff.mp hx').1
  refine ⟨⟨spaceTwin x, List.mem_map_of_mem hx, htells, htells⟩, ?_⟩
  exact List.forall_mem_map.mpr fun y _ _ => Int.sub_self _

theorem style_files (hmatched : ∀ x ∈ matched, Stepped u x.1)
    (hindented : ∃ x ∈ matched, isIndented x.1 = true) :
    (profile ((matched.map (tabTwin u)).map (·.file))).style = some .spaces := by
  have hfiles : (matched.map (tabTwin u)).map (·.file) = matched.map (·.1) := by
    rw [List.map_map]
    rfl
  have huniform : Uniform .spaces (matched.map (·.1)) :=
    uniform_of_no_tab (List.forall_mem_map.mpr fun x hx => (hmatched x hx).noTab)
  obtain ⟨x, hx, hx'⟩ := hindented
  rw [hfiles]
  exact (profile_of_uniform huniform ⟨x.1, List.mem_map_of_mem hx, hx'⟩).1

theorem profile_written (hmatched : ∀ x ∈ matched, Stepped u x.1)
    (hindented : ∃ x ∈ matched, isIndented x.1 = true) (added : List Text) :
    let written := profile ((matched.map (tabTwin u)).map (·.diff) ++ added.map (tabbed u))
    written.style = some .tabs ∧ written.mixed = false := by
  have hlines : (matched.map (tabTwin u)).map (·.diff) ++ added.map (tabbed u) =
      (matched.map (·.1) ++ added).map (tabbed u) := by
    rw [List.map_append, List.map_map, List.map_map]
    rfl
  obtain ⟨x, hx, hx'⟩ := hindented
  rw [hlines]
  refine profile_of_uniform (uniform_tabbed u _) ⟨tabbed u x.1, ?_, (hmatched x hx).isIndented_tabbed hx'⟩
  exact List.mem_map_of_mem (List.mem_append_left _ (List.mem_map_of_mem hx))

theorem map_convert_tabTwin (hu : 0 < u) (hmatched : ∀ x ∈ matched, Stepped u x.1) :
    (matched.map (tabTwin u)).map (fun p => { p with diff := convert p.diff .spaces u }) =
      matched.map spaceTwin := by
  rw [List.map_map]
  refine List.map_congr_left fun x hx => ?_
  exact congrArg (fun diff => Pair.mk diff x.1 x.2) ((hmatched x hx).convert_tabbed hu)

theorem map_convert_tabbed (hu : 0 < u) (hadded : ∀ line ∈ added, Stepped u line) :
    (added.map (tabbed u)).map (convert · .spaces u) = added := by
  rw [List.map_map]
  exact (List.map_congr_left fun line hline => (hadded line hline).convert_tabbed hu).trans
    (List.map_id added)

/-- Tabs that stand for spaces of the file come out as these. -/
theorem reindent_tabTwin (hu : 0 < u) (hmatched : ∀ x ∈ matched, Stepped u x.1)
    (hadded : ∀ line ∈ added, Stepped u line) (hindented : ∃ x ∈ matched, isIndented x.1 = true)
    (file : Profile) : reindent (matched.map (tabTwin u)) (added.map (tabbed u)) file = added := by
  unfold reindent
  extract_lets actual target agreed written converts style unit pairs' added' delta
  have hactual : actual.style = some .spaces := style_files hmatched hindented
  obtain ⟨hwritten, hmixed⟩ : written.style = some .tabs ∧ written.mixed = false :=
    profile_written hmatched hindented added
  have htarget : target = some .spaces := by simp only [target, hactual]; rfl
  have hconverts : converts = true := by simp only [converts, htarget, hwritten, hmixed]; rfl
  have hstyle : style = .spaces := by simp only [style, htarget]; rfl
  have hunit : unit = u := by
    simp only [unit, hconverts, hstyle]
    exact spacesPerTab_tabTwin hmatched hindented agreed
  have hpairs' : pairs' = matched.map spaceTwin := by
    simp only [pairs', hconverts, hstyle, hunit, if_true]
    exact map_convert_tabTwin hu hmatched
  have hadded' : added' = added := by
    simp only [added', hconverts, hstyle, hunit, if_true]
    exact map_convert_tabbed hu hadded
  have hdelta : delta = 0 := by
    simp only [delta, hpairs']
    exact (offBy_spaceTwin hindented).commonDelta
  -- The depths agree now, so nothing is left to shift or to settle.
  rw [hadded', hdelta, hstyle, htarget]
  refine (List.map_congr_left fun line hline => ?_).trans (List.map_id added)
  have hline := (hadded line hline).noTab
  rw [shift_of_no_tab hline, moved_zero hline, settle_of_no_tab (by decide) hline]
  rfl

/-- **Tabs for spaces.** A file is indented with spaces, and so are its matched lines and the added ones, in
steps of `u`. Whether a hunk has tabs for these steps or has the spaces themselves, the added lines go into
the file with the spaces. -/
theorem reconcile_twins (hu : 1 ≤ u) (hmatched : ∀ x ∈ matched, Stepped u x.1)
    (hadded : ∀ line ∈ added, Stepped u line) (hstyle : file.style = some .spaces)
    (hindented : ∃ x ∈ matched, isIndented x.1 = true)
    (hreindent : isReindent ((matched.filter (·.2)).map (·.1)) added = false) :
    reconcile (matched.map (tabTwin u)) (added.map (tabbed u)) file = added ∧
      reconcile (matched.map spaceTwin) added file = added := by
  constructor
  · have hremoved : ((matched.map (tabTwin u)).filter (·.isRemove)).map (·.diff) =
        ((matched.filter (·.2)).map (·.1)).map (tabbed u) := by
      rw [List.filter_map, List.map_map, List.map_map]
      rfl
    have hverbatim : isVerbatim (matched.map (tabTwin u)) (added.map (tabbed u)) file = false := by
      obtain ⟨x, hx, hx'⟩ := hindented
      refine Bool.and_eq_false_iff.mpr (.inl (List.all_eq_false.mpr
        ⟨tabTwin u x, List.mem_map_of_mem hx, ?_⟩))
      exact fun hsame => (hmatched x hx).tabbed_ne hx' (of_decide_eq_true hsame)
    have htwin : isReindent (((matched.map (tabTwin u)).filter (·.isRemove)).map (·.diff))
        (added.map (tabbed u)) = false := by
      rw [hremoved, isReindent_tabbed, hreindent]
    unfold reconcile
    extract_lets removed
    rw [hverbatim, htwin, Bool.or_false, if_neg Bool.false_ne_true]
    exact reindent_tabTwin hu hmatched hadded hindented file
  · refine reconcile_eq_added (List.forall_mem_map.mpr fun _ _ => rfl) fun style hsome => ?_
    cases hstyle.symm.trans hsome
    exact uniform_of_no_tab fun line hline => (hadded line hline).noTab

/-- Two spaces for a tab, with a blank line among those that are added. -/
theorem reconcile_twins_two_spaces :
    let matched : List (Text × Bool) := [(['f'], false), ([' ', ' ', 'x'], true)]
    let added : List Text := [[' ', ' ', ' ', ' ', 'y'], [' ', ' '], ['z']]
    (matched.map (tabTwin 2)).map (·.diff) ++ added.map (tabbed 2) =
        [['f'], ['\t', 'x'], ['\t', '\t', 'y'], ['\t'], ['z']] ∧
      reconcile (matched.map (tabTwin 2)) (added.map (tabbed 2)) ⟨some .spaces, 2, false⟩ = added ∧
      reconcile (matched.map spaceTwin) added ⟨some .spaces, 2, false⟩ = added := by
  intro matched added
  have hmatched : ∀ x ∈ matched, Stepped 2 x.1 :=
    List.forall_mem_cons.mpr
      ⟨⟨by decide, by decide⟩, List.forall_mem_singleton.mpr ⟨by decide, by decide⟩⟩
  have hadded : ∀ line ∈ added, Stepped 2 line :=
    List.forall_mem_cons.mpr ⟨⟨by decide, by decide⟩, List.forall_mem_cons.mpr
      ⟨⟨by decide, by decide⟩, List.forall_mem_singleton.mpr ⟨by decide, by decide⟩⟩⟩
  exact ⟨by decide, reconcile_twins (by decide) hmatched hadded rfl (by decide) (by decide)⟩

end LoosePatch.Indent
