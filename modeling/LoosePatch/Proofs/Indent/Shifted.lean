import LoosePatch.Proofs.Indent.Body
import LoosePatch.Proofs.Indent.Verbatim

/-!
Added lines of a hunk at the wrong depth. Where nothing is indented with tabs, the added lines are moved by
as much as the matched lines are off, so that their depths relative to each other stay (`reconcile_shifts`).
-/

namespace LoosePatch.Indent

/-! ## Lines without tabs in front -/

/-- Indentation in front of a line is part of its indentation. -/
theorem lead_append {indent : Text} (h : ∀ c ∈ indent, isIndent c = true) (line : Text) :
    lead (indent ++ line) = indent ++ lead line :=
  List.takeWhile_append_of_pos h

theorem lead_body (line : Text) : lead (body line) = [] := by
  have happend : lead (body line) ++ body (body line) = body line := lead_append_body (body line)
  rw [body_body] at happend
  exact List.append_left_eq_self.mp happend

theorem lead_replicate_append {c : Char} (hc : isIndent c = true) (n : Nat) (line : Text) :
    lead (List.replicate n c ++ body line) = List.replicate n c := by
  rw [lead_append fun d hd => isIndent_of_mem_replicate hc hd, lead_body, List.append_nil]

theorem lead_of_no_tab {line : Text} (h : hasTab line = false) :
    lead line = List.replicate (width line) ' ' := by
  refine List.eq_replicate_of_mem fun c hc => ?_
  have hindent := isIndent_of_mem_lead hc
  have hnot : c ≠ '\t' := by
    rintro rfl
    rw [hasTab, List.contains_eq_mem, decide_eq_false_iff_not] at h
    exact h hc
  simpa [isIndent, hnot] using hindent

theorem replicate_append_body {line : Text} (h : hasTab line = false) :
    List.replicate (width line) ' ' ++ body line = line := by
  rw [← lead_of_no_tab h, lead_append_body]

theorem uniform_of_no_tab {lines : List Text} (h : ∀ line ∈ lines, hasTab line = false) :
    Uniform .spaces lines := by
  intro line hline _ c hc
  rw [lead_of_no_tab (h line hline)] at hc
  exact List.eq_of_mem_replicate hc

/-- A line at another depth, at the margin at least. Blank lines stay as they are. -/
def moved (d : Int) (line : Text) : Text :=
  if line.isBlankText then line
  else List.replicate (max 0 ((width line : Int) + d)).toNat ' ' ++ body line

theorem shift_of_no_tab {line : Text} (h : hasTab line = false) (d : Int) :
    shift line d .spaces = moved d line := by
  unfold shift moved
  split
  · rfl
  · cases d with
    | ofNat n =>
      have hdepth : (max 0 ((width line : Int) + Int.ofNat n)).toNat = n + width line := by
        rw [Int.ofNat_eq_natCast]
        omega
      show List.replicate n ' ' ++ line = _
      rw [hdepth, List.replicate_add, List.append_assoc, replicate_append_body h]
    | negSucc n =>
      have hdepth : (max 0 ((width line : Int) + Int.negSucc n)).toNat = width line - (n + 1) := by
        rw [Int.negSucc_eq]
        omega
      show (lead line).drop (n + 1) ++ body line = _
      rw [hdepth, lead_of_no_tab h, List.drop_replicate]

theorem moved_zero {line : Text} (h : hasTab line = false) : moved 0 line = line := by
  unfold moved
  split
  · rfl
  · have hdepth : (max 0 ((width line : Int) + 0)).toNat = width line := by omega
    rw [hdepth, replicate_append_body h]

theorem width_moved {line : Text} (hblank : line.isBlankText = false) (d : Int) :
    (width (moved d line) : Int) = max 0 ((width line : Int) + d) := by
  rw [moved, hblank, if_neg Bool.false_ne_true, width, lead_replicate_append rfl, List.length_replicate]
  omega

theorem hasTab_moved {line : Text} (h : hasTab line = false) (d : Int) : hasTab (moved d line) = false := by
  unfold moved
  split
  · exact h
  · rw [hasTab, lead_replicate_append rfl, List.contains_eq_mem, decide_eq_false_iff_not]
    exact fun hmem => absurd (List.eq_of_mem_replicate hmem) (by decide)

/-- Only in a file indented with tabs, lines without tabs get some. -/
theorem settle_of_no_tab {target : Option IndentStyle} {line : Text} (htarget : target ≠ some .tabs)
    (h : hasTab line = false) (unit tabUnit : Nat) : settle target unit tabUnit line = line := by
  unfold settle
  split
  · rw [h, if_neg Bool.false_ne_true]
  · exact absurd rfl htarget
  · rfl

/-! ## The shift -/

theorem common?_eq_some {β : Type} [DecidableEq β] {xs : List β} {x : β} (hmem : x ∈ xs)
    (h : ∀ y ∈ xs, y = x) : common? xs = some x := by
  cases xs with
  | nil => cases hmem
  | cons y ys =>
    obtain ⟨rfl, hys⟩ := List.forall_mem_cons.mp h
    rw [common?, if_pos (List.all_eq_true.mpr fun z hz => decide_eq_true (hys z hz))]

/-- Both lines of the pair tell their indentation. -/
def Pair.Tells (p : Pair) : Prop := p.diff.isBlankText = false ∧ p.file.isBlankText = false

/-- The pairs that tell it, one at least, are indented deeper by `d` in the file than in the hunk. -/
structure OffBy (pairs : List Pair) (d : Int) : Prop where
  tells : ∃ p ∈ pairs, p.Tells
  offset : ∀ p ∈ pairs, p.Tells → (width p.file : Int) - width p.diff = d

theorem delta?_eq_some {p : Pair} {x : Int} :
    delta? p.diff p.file = some x ↔ p.Tells ∧ (width p.file : Int) - width p.diff = x := by
  rw [delta?, Option.ite_none_left_eq_some, Bool.or_eq_true, not_or, Bool.not_eq_true, Bool.not_eq_true,
    Option.some.injEq]
  rfl

theorem OffBy.commonDelta {pairs : List Pair} {d : Int} (h : OffBy pairs d) :
    Indent.commonDelta pairs = d := by
  obtain ⟨p, hp, htells⟩ := h.tells
  have hcommon : common? (pairs.filterMap fun p => delta? p.diff p.file) = some d := by
    refine common?_eq_some ?_ fun x hx => ?_
    · exact List.mem_filterMap.mpr ⟨p, hp, delta?_eq_some.mpr ⟨htells, h.offset p hp htells⟩⟩
    · obtain ⟨q, hq, hdelta⟩ := List.mem_filterMap.mp hx
      obtain ⟨htells, rfl⟩ := delta?_eq_some.mp hdelta
      exact h.offset q hq htells
  rw [Indent.commonDelta, hcommon]

/-! ## All added lines -/

variable {pairs : List Pair} {added : List Text} {file : Profile}

/-- Without tabs on either side, added lines are only moved. -/
theorem reindent_of_no_tab (hdiff : ∀ p ∈ pairs, hasTab p.diff = false)
    (hfile : ∀ p ∈ pairs, hasTab p.file = false) (hadded : ∀ line ∈ added, hasTab line = false)
    (hstyle : file.style ≠ some .tabs) :
    reindent pairs added file = added.map (moved (commonDelta pairs)) := by
  unfold reindent
  extract_lets actual target agreed written converts style unit pairs' added' delta
  have htarget : target = none ∨ target = some .spaces := by
    have hactual : Uniform .spaces (pairs.map (·.file)) :=
      uniform_of_no_tab (List.forall_mem_map.mpr hfile)
    rcases profile_style hactual with hnone | hsome
    · have htarget : target = file.style := by simp only [target, actual, hnone]; rfl
      rw [htarget]
      cases hfile : file.style with
      | none => exact .inl rfl
      | some style =>
        cases style with
        | spaces => exact .inr rfl
        | tabs => exact absurd hfile hstyle
    · exact .inr (by simp only [target, actual, hsome]; rfl)
  have hconverts : converts = false := by
    have hwritten : Uniform .spaces (pairs.map (·.diff) ++ added) :=
      uniform_of_no_tab (List.forall_mem_append.mpr ⟨List.forall_mem_map.mpr hdiff, hadded⟩)
    rcases htarget with htarget | htarget
    · simp only [converts, htarget, Option.isSome_none, Bool.false_and]
    · rcases profile_style hwritten with hnone | hsome
      · simp only [converts, written, hnone, Option.isSome_none, Bool.false_and, Bool.and_false]
      · simp only [converts, written, hsome, htarget, bne_self_eq_false, Bool.false_and, Bool.and_false]
  have hspaces : style = .spaces := by
    rcases htarget with htarget | htarget <;> simp only [style, htarget] <;> rfl
  have hpairs' : pairs' = pairs := by simp only [pairs', hconverts]; rfl
  have hadded' : added' = added := by simp only [added', hconverts]; rfl
  rw [hadded']
  refine List.map_congr_left fun line hline => ?_
  have hline := hadded line hline
  have hnot : target ≠ some .tabs := by rcases htarget with htarget | htarget <;> simp [htarget]
  simp only [delta, hpairs', hspaces]
  rw [shift_of_no_tab hline, settle_of_no_tab hnot (hasTab_moved hline _)]

/-- **Added lines keep their depths to each other.** If nothing is indented with tabs and the matched lines
are all off by the same depth, the added lines are moved by this depth as well, with the rest of each line
unchanged. Two lines that stay right of the margin are as far apart as they were. -/
theorem reconcile_shifts {d : Int} (hdiff : ∀ p ∈ pairs, hasTab p.diff = false)
    (hfile : ∀ p ∈ pairs, hasTab p.file = false) (hadded : ∀ line ∈ added, hasTab line = false)
    (hstyle : file.style ≠ some .tabs)
    (hreindent : isReindent ((pairs.filter (·.isRemove)).map (·.diff)) added = false)
    (hoff : OffBy pairs d) :
    reconcile pairs added file = added.map (moved d) ∧
      ∀ x ∈ added, ∀ y ∈ added, x.isBlankText = false → y.isBlankText = false →
        0 ≤ (width x : Int) + d → 0 ≤ (width y : Int) + d →
        (width (moved d x) : Int) - width (moved d y) = (width x : Int) - width y := by
  constructor
  · unfold reconcile
    extract_lets removed
    rw [hreindent, Bool.or_false]
    split
    · rename_i hverbatim
      have hsame := List.all_eq_true.mp (Bool.and_eq_true_iff.mp hverbatim).1
      obtain ⟨p, hp, htells⟩ := hoff.tells
      have hzero : d = 0 := by
        rw [← hoff.offset p hp htells, of_decide_eq_true (hsame p hp), Int.sub_self]
      rw [hzero]
      exact (List.map_id'' (fun line => rfl) added).symm.trans
        (List.map_congr_left fun line hline => (moved_zero (hadded line hline)).symm)
    · rw [reindent_of_no_tab hdiff hfile hadded hstyle, hoff.commonDelta]
  · intro x _ y _ hx hy hxd hyd
    rw [width_moved hx, width_moved hy]
    omega

/-- A hunk that is indented by two where the file is not: one line reaches the margin, and one does before
it has been moved all the way. -/
theorem reconcile_shifts_to_margin :
    let pairs : List Pair := [⟨[' ', ' ', 'x'], ['x'], false⟩]
    let added : List Text := [[' ', ' ', 'y'], [' ', 'z'], [' ', ' ', ' ', 'w'], [' ']]
    reconcile pairs added {} = added.map (moved (-2)) ∧
      added.map (moved (-2)) = [['y'], ['z'], [' ', 'w'], [' ']] := by
  intro pairs added
  have hoff : OffBy pairs (-2) :=
    ⟨⟨_, List.mem_singleton_self _, rfl, rfl⟩, List.forall_mem_singleton.mpr fun _ => rfl⟩
  exact ⟨(reconcile_shifts (by decide) (by decide) (by decide) (by decide) (by decide) hoff).1, by decide⟩

end LoosePatch.Indent
