import LoosePatch.Hunk.Parser
import LoosePatch.Proofs.Indent.Verbatim
import LoosePatch.Proofs.Splice.Sites

/-!
Diffs that only insert lines and show none around them. Each hunk tells the line of the patched file
at which its lines begin, but this number is looked up in the file as it was: a hunk is placed too
low by the lines inserted above it, or below the end of the file and refused
(`applyHunks_zeroContext`).
-/

namespace LoosePatch

/-- Lines to insert after a line of a file; lines are counted from 1, and after 0 is at the top. -/
structure Insertion where
  after : Nat
  lines : List Text
  deriving DecidableEq, Repr

/-- The hunk of an insertion in a diff without context, `above` lines being inserted above it. -/
structure Insertion.IsHunk (above : Nat) (x : Insertion) (hunk : Hunk) : Prop where
  edits : hunk.edits = x.lines.map fun line => ⟨.add, line⟩
  anchors : hunk.anchors = []
  hint : hunk.hint = some ⟨x.after, some 0, some (x.after + 1 + above), some x.lines.length⟩
  endsFile : hunk.endsFile = false

/-- The hunks of insertions in a diff without context, `above` lines being inserted above them. -/
inductive ZeroContext : (above : Nat) → List Insertion → List Hunk → Prop
  | nil {above : Nat} : ZeroContext above [] []
  | cons {above : Nat} {x : Insertion} {hunk : Hunk} {xs : List Insertion} {hunks : List Hunk} :
      x.IsHunk above hunk → ZeroContext (above + x.lines.length) xs hunks →
      ZeroContext above (x :: xs) (hunk :: hunks)

namespace Insertion

/-- Where insertions end up, each lower by the lines inserted above it. -/
def drifted : (above : Nat) → List Insertion → List Splice
  | _, [] => []
  | above, x :: xs =>
    ⟨x.after + above, x.after + above, x.lines⟩ :: drifted (above + x.lines.length) xs

theorem drifted_bounds {above : Nat} {xs : List Insertion} {s : Splice} (hs : s ∈ drifted above xs) :
    s.stop = s.start ∧ ∃ x ∈ xs, x.after + above ≤ s.start := by
  induction xs generalizing above with
  | nil => cases hs
  | cons x xs ih =>
    rcases List.mem_cons.mp hs with rfl | hs
    · exact ⟨rfl, x, List.mem_cons_self, Nat.le_refl _⟩
    · obtain ⟨hstop, y, hy, hle⟩ := ih hs
      exact ⟨hstop, y, List.mem_cons_of_mem x hy, by omega⟩

theorem drifted_ascending {above : Nat} {xs : List Insertion}
    (h : xs.Pairwise fun x y => x.after < y.after) :
    (drifted above xs).Pairwise fun s t => s.start < t.start := by
  induction xs generalizing above with
  | nil => exact .nil
  | cons x xs ih =>
    obtain ⟨hx, hxs⟩ := List.pairwise_cons.mp h
    refine List.pairwise_cons.mpr ⟨fun s hs => ?_, ih hxs⟩
    obtain ⟨-, y, hy, hle⟩ := drifted_bounds hs
    have hlt := hx y hy
    show x.after + above < s.start
    omega

end Insertion

/-! ## One hunk -/

variable {α : Type} [Score α] {config : Config α} {lines : List Text} {above number : Nat}
  {x : Insertion} {xs : List Insertion} {hunk : Hunk} {hunks : List Hunk}

namespace Insertion.IsHunk

omit [Score α] in
theorem isInsertion (h : x.IsHunk above hunk) : hunk.isInsertion = true := by
  simp [Hunk.isInsertion, h.edits, Edit.isOld]

theorem addedLines (h : x.IsHunk above hunk) : hunk.addedLines = x.lines := by
  simp [Hunk.addedLines, h.edits, List.filter_map, Edit.isAdd, Function.comp_def]

/-- Lines without indentation are inserted as they are. -/
theorem inserted (h : x.IsHunk above hunk)
    (hplain : ∀ line ∈ x.lines, Indent.isIndented line = false) :
    hunk.inserted lines = x.lines := by
  rw [Hunk.inserted, h.addedLines]
  refine Indent.reconcile_eq_added (by simp) fun style _ line hline hindented => ?_
  rw [hplain line hline] at hindented
  cases hindented

/-- The number of the patched file is taken for one of the file as it was. -/
theorem locate (h : x.IsHunk above hunk) (config : Config α) (lines : List Text) (number : Nat) :
    hunk.locate config lines number =
      if x.after + above ≤ lines.length then
        .ok ⟨x.after + above, Score.one, .lineHint, [], some (x.after + above), []⟩
      else refuse (.outsideFile number ((x.after + above : Nat) + 1) lines.length) := by
  have hplace : ((x.after + 1 + above : Nat) : Int) - 1 = (x.after + above : Nat) := by omega
  have hinside : (0 ≤ ((x.after + above : Nat) : Int) ∧ ((x.after + above : Nat) : Int) ≤ lines.length) ↔
      x.after + above ≤ lines.length := by
    omega
  simp only [Hunk.locate, h.isInsertion, h.anchors, h.hint, h.endsFile, Anchor.resolve, if_true,
    Hunk.locateInsertion, LineHint.insertIndex, Option.getD_some, hplace, hinside, Int.toNat_natCast,
    Bool.false_eq_true, if_false]

theorem site_eq_ok (h : x.IsHunk above hunk) (hfits : x.after + above ≤ lines.length) :
    ∃ y, hunk.site config lines = .ok y := by
  have hlocate := h.locate config lines 0
  rw [if_pos hfits] at hlocate
  exact ⟨_, (Hunk.site_eq_ok_iff 0).mpr ⟨_, hlocate, rfl⟩⟩

theorem eq_of_makes (h : x.IsHunk above hunk) (hfits : x.after + above ≤ lines.length)
    (hplain : ∀ line ∈ x.lines, Indent.isIndented line = false) {s : Splice}
    (hmakes : hunk.Makes config lines s) : s = ⟨x.after + above, x.after + above, x.lines⟩ := by
  have hlocate := h.locate config lines 0
  rw [if_pos hfits] at hlocate
  rw [Hunk.Makes, Hunk.insertionLine?_of_insertion hlocate h.isInsertion] at hmakes
  rw [← h.inserted hplain]
  exact hmakes

end Insertion.IsHunk

/-! ## All hunks -/

namespace ZeroContext

open Insertion

omit [Score α] in
theorem isInsertion (h : ZeroContext above xs hunks) : ∀ hunk ∈ hunks, hunk.isInsertion = true := by
  induction h with
  | nil => simp
  | cons hhunk _ ih => exact List.forall_mem_cons.mpr ⟨hhunk.isInsertion, ih⟩

theorem site_eq_ok (h : ZeroContext above xs hunks) (config : Config α)
    (hfits : ∀ s ∈ drifted above xs, s.start ≤ lines.length) :
    ∀ hunk ∈ hunks, ∃ y, hunk.site config lines = .ok y := by
  induction h with
  | nil => simp
  | cons hhunk _ ih =>
    obtain ⟨hx, hxs⟩ := List.forall_mem_cons.mp hfits
    exact List.forall_mem_cons.mpr ⟨hhunk.site_eq_ok hx, ih hxs⟩

theorem eq_drifted (h : ZeroContext above xs hunks)
    (hfits : ∀ s ∈ drifted above xs, s.start ≤ lines.length)
    (hplain : ∀ x ∈ xs, ∀ line ∈ x.lines, Indent.isIndented line = false) {splices : List Splice}
    (hmakes : List.Forall₂ (Hunk.Makes config lines) hunks splices) : splices = drifted above xs := by
  induction h generalizing splices with
  | nil => exact List.forall₂_nil_left_iff.mp hmakes
  | cons hhunk _ ih =>
    obtain ⟨hx, hxs⟩ := List.forall_mem_cons.mp hfits
    obtain ⟨hxplain, hplain⟩ := List.forall_mem_cons.mp hplain
    cases hmakes with
    | cons hmake hmakes =>
      rw [hhunk.eq_of_makes hx hxplain hmake, ih hxs hplain hmakes]
      rfl

/-- A hunk placed below the end of the file is refused, and with it all hunks. -/
theorem locateAll_outside (h : ZeroContext above xs hunks) (config : Config α) (number : Nat)
    (hout : ∃ s ∈ drifted above xs, lines.length < s.start) :
    ∃ k line, locateAll config lines number hunks =
      .error (.refused (.outsideFile k line lines.length)) := by
  induction h generalizing number with
  | nil =>
    obtain ⟨s, hs, -⟩ := hout
    cases hs
  | @cons above x hunk xs hunks hhunk _ ih =>
    have hlocate := hhunk.locate config lines number
    by_cases hfits : x.after + above ≤ lines.length
    · obtain ⟨s, hs, hlt⟩ := hout
      have htail : ∃ s ∈ drifted (above + x.lines.length) xs, lines.length < s.start := by
        rcases List.mem_cons.mp hs with rfl | hs
        · exact absurd hfits (Nat.not_le_of_lt hlt)
        · exact ⟨s, hs, hlt⟩
      obtain ⟨k, line, hrest⟩ := ih (number + 1) htail
      rw [if_pos hfits] at hlocate
      refine ⟨k, line, ?_⟩
      rw [locateAll, hlocate]
      simp only [hrest]
      rfl
    · rw [if_neg hfits] at hlocate
      refine ⟨number, (x.after + above : Nat) + 1, ?_⟩
      rw [locateAll, hlocate]
      rfl

end ZeroContext

open Insertion in
/-- Insertions of a diff without context end up below the lines they belong after, by the number of
lines inserted above them; if this is below the end of the file, they are refused. The first one is
where it belongs. -/
theorem applyHunks_zeroContext (config : Config α) (lines : List Text) (h : ZeroContext 0 xs hunks)
    (hsorted : xs.Pairwise fun x y => x.after < y.after)
    (hplain : ∀ x ∈ xs, ∀ line ∈ x.lines, Indent.isIndented line = false) :
    ((∀ s ∈ drifted 0 xs, s.start ≤ lines.length) → ∃ placements,
      applyHunks config lines hunks =
        .ok (assemble lines 0 ((drifted 0 xs).map Splice.region), placements)) ∧
    ((∃ s ∈ drifted 0 xs, lines.length < s.start) → ∃ number line,
      applyHunks config lines hunks = .error (.refused (.outsideFile number line lines.length))) ∧
    ∀ x, xs = [x] → x.after ≤ lines.length → ∃ placements, applyHunks config lines hunks =
      .ok (lines.take x.after ++ x.lines ++ lines.drop x.after, placements) := by
  have hplaced (hfits : ∀ s ∈ drifted 0 xs, s.start ≤ lines.length) : ∃ placements,
      applyHunks config lines hunks =
        .ok (assemble lines 0 ((drifted 0 xs).map Splice.region), placements) := by
    obtain ⟨sites, splices, hsited⟩ :=
      exists_sited_of_insertions h.isInsertion (h.site_eq_ok config hfits)
    have hsplices := h.eq_drifted hfits hplain hsited.makes
    obtain ⟨hin, hapart⟩ := hsited.apart
    refine applyHunks_iff_sited.mpr ⟨sites, splices, hsited, ?_⟩
    rw [hsplices] at hin hapart ⊢
    have hascending : (drifted 0 xs).Pairwise fun s t => s.range < t.range :=
      (drifted_ascending hsorted).imp fun hlt => Prod.Lex.lt_iff.mpr (.inl hlt)
    exact (spliceAll_of_ascending hin hapart hascending).symm
  refine ⟨hplaced, ?_, ?_⟩
  · intro hout
    obtain ⟨number, line, hlocated⟩ := h.locateAll_outside config 1 hout
    refine ⟨number, line, ?_⟩
    rw [applyHunks, hlocated]
    rfl
  · intro x hxs hfits
    subst hxs
    have hone : ∀ s ∈ drifted 0 [x], s.start ≤ lines.length := by
      intro s hs
      obtain rfl := List.mem_singleton.mp hs
      exact hfits
    exact hplaced hone

open Insertion in
/-- Two insertions, the second one line too low; in a shorter file it is refused. -/
theorem applyHunks_zeroContext_two :
    ∃ hunks : List Hunk, ZeroContext 0 [⟨0, [['x']]⟩, ⟨1, [['y']]⟩] hunks ∧
      (∃ placements, applyHunks (Config.usual Score.decimal : Config Rat) [['a'], ['b']] hunks =
        .ok ([['x'], ['a'], ['b'], ['y']], placements)) ∧
      ∃ number line, applyHunks (Config.usual Score.decimal : Config Rat) [['a']] hunks =
        .error (.refused (.outsideFile number line 1)) := by
  let first : Hunk := { edits := [⟨.add, ['x']⟩], hint := some ⟨0, some 0, some 1, some 1⟩ }
  let second : Hunk := { edits := [⟨.add, ['y']⟩], hint := some ⟨1, some 0, some 3, some 1⟩ }
  have hunks : ZeroContext 0 [⟨0, [['x']]⟩, ⟨1, [['y']]⟩] [first, second] :=
    .cons ⟨rfl, rfl, rfl, rfl⟩ (.cons ⟨rfl, rfl, rfl, rfl⟩ .nil)
  have hsorted : [(⟨0, [['x']]⟩ : Insertion), ⟨1, [['y']]⟩].Pairwise fun x y => x.after < y.after := by
    decide
  have hplain : ∀ x ∈ [(⟨0, [['x']]⟩ : Insertion), ⟨1, [['y']]⟩], ∀ line ∈ x.lines,
      Indent.isIndented line = false := by
    decide
  let config : Config Rat := Config.usual Score.decimal
  obtain ⟨hplaced, -, -⟩ := applyHunks_zeroContext config [['a'], ['b']] hunks hsorted hplain
  obtain ⟨-, hrefused, -⟩ := applyHunks_zeroContext config [['a']] hunks hsorted hplain
  exact ⟨_, hunks, hplaced (by decide), hrefused (by decide)⟩

/-- A correct diff of two insertions, of which the second one ends up below the line it belongs
above. -/
theorem zeroContext_inserts_below :
    ∃ (hunks : List Hunk) (placements : List (Placement Rat)),
      Hunk.parse "@@ -0,0 +1,1 @@\n+x\n@@ -1,0 +3,1 @@\n+y".toList = .ok hunks ∧
      ZeroContext 0 [⟨0, [['x']]⟩, ⟨1, [['y']]⟩] hunks ∧
      applyHunks (Config.usual Score.decimal) [['a'], ['b']] hunks =
        .ok ([['x'], ['a'], ['b'], ['y']], placements) ∧
      assemble [['a'], ['b']] 0 [⟨0, 0, [['x']]⟩, ⟨1, 1, [['y']]⟩] = [['x'], ['a'], ['y'], ['b']] := by
  let first : Hunk :=
    { edits := [⟨.add, ['x']⟩]
      hint := some ⟨0, some 0, some 1, some 1⟩, header := "@@ -0,0 +1,1 @@".toList }
  let second : Hunk :=
    { edits := [⟨.add, ['y']⟩]
      hint := some ⟨1, some 0, some 3, some 1⟩, header := "@@ -1,0 +3,1 @@".toList }
  have hparsed : Hunk.parse "@@ -0,0 +1,1 @@\n+x\n@@ -1,0 +3,1 @@\n+y".toList =
      .ok [first, second] := by
    decide +kernel
  let top : Placement Rat := ⟨0, Score.one, .lineHint, [], some 0, []⟩
  let bottom : Placement Rat := ⟨2, Score.one, .lineHint, [], some 2, []⟩
  have happlied : applyHunks (Config.usual Score.decimal) [['a'], ['b']] [first, second] =
      .ok ([['x'], ['a'], ['b'], ['y']], [top, bottom]) :=
    applyHunks_of_ascending [⟨1, first, top⟩, ⟨2, second, bottom⟩] []
      [(1, ⟨0, 0, [['x']]⟩), (2, ⟨2, 2, [['y']]⟩)]
      (by decide +kernel) (by decide) (by decide) (by decide +kernel) (by decide)
  exact ⟨_, _, hparsed, .cons ⟨rfl, rfl, rfl, rfl⟩ (.cons ⟨rfl, rfl, rfl, rfl⟩ .nil), happlied, rfl⟩

end LoosePatch
