import LoosePatch.Engine
import LoosePatch.Numeric.Score
import LoosePatch.Proofs.Dialect.Wrapped

/-!
Updates that are sent in other ways. What comes of an update does not depend on how its lines are
broken, nor on an envelope that names its file (`Engine.apply_wrapped`). Blank lines behind the
envelope count as lines of the diff, which matters if one of them begins with a space.
-/

namespace LoosePatch

/-- The request as an update by this diff. -/
def Request.updating (request : Request) (diff : Text) : Request :=
  { request with operation := .update, diff := some diff }

namespace Engine

open Dialect (ReadAlike PlainPath Wrapper)
open Text (unlines)

variable {α : Type} [Score α] {request : Request} {s t : Text}

theorem checkContent_congr (h : ReadAlike request.path s t) :
    (request.updating s).checkContent = (request.updating t).checkContent := by
  have hnul : s.contains '\x00' = t.contains '\x00' := by
    rw [Bool.eq_iff_iff, List.contains_iff_mem, List.contains_iff_mem]
    exact h.nul
  show (if request.lineEdits.isSome && _ then _ else
    if request.lineEdits.isSome && !s.isBlankText then _ else if s.contains '\x00' then _ else _) = _
  rw [h.blank, hnul]
  rfl

theorem readHunks_congr (h : ReadAlike request.path s t) :
    readHunks (request.updating s) = readHunks (request.updating t) := by
  show (do Dialect.checkSingleFile s (some request.path); Hunk.parse (Dialect.normalize s) : Outcome _) = _
  rw [h.check, h.normal]
  rfl

theorem updateByDiff_congr (config : Config α) (h : ReadAlike request.path s t) (content : ByteArray)
    (image : Image) : updateByDiff config (request.updating s) content image =
      updateByDiff config (request.updating t) content image := by
  unfold updateByDiff
  rw [readHunks_congr h]
  rfl

theorem update_congr (config : Config α) (h : ReadAlike request.path s t) (current : Option ByteArray) :
    update config (request.updating s) current = update config (request.updating t) current := by
  cases current with
  | none => rfl
  | some content =>
    have hlines (edits : List LineEdit) (image : Image) :
        updateByLines (α := α) (request.updating s) edits content image =
          updateByLines (request.updating t) edits content image := rfl
    simp only [update, updateByDiff_congr config h, hlines]
    rfl

theorem perform_congr (config : Config α) (h : ReadAlike request.path s t) (current : Option ByteArray) :
    perform config (request.updating s) current = perform config (request.updating t) current := by
  have hrename : (request.updating s).checkRename = (request.updating t).checkRename := rfl
  have hupdate (s : Text) : (request.updating s).operation = .update := rfl
  simp only [perform, hrename, checkContent_congr h, hupdate, update_congr config h]

/-- Diffs that are read alike do the same. -/
theorem apply_congr (config : Config α) (h : ReadAlike request.path s t) (current : Option ByteArray) :
    apply config (request.updating s) current = apply config (request.updating t) current := by
  rw [apply, perform_congr config h current]
  rfl

/-- **Wrapping is transparent.** An update by a diff whose first line is a header, and that names no
file, does the same with other line breaks. It also does the same in an envelope that names the
requested file, with lines of git and file lines around, if no blank line behind the envelope begins
with a space; such lines, and the blank ones in front of them, are taken for lines of the diff. -/
theorem apply_wrapped (config : Config α) (request : Request) (current : Option ByteArray) {diff : Text}
    (hreturn : '\r' ∉ diff) (hfirst : diff.lines.head?.any Header.opens = true)
    (hunnamed : ∀ l ∈ diff.lines, Hunk.isMarked l = false →
      Dialect.fileMarker? l = none ∧ Dialect.gitHeader? l = none)
    (hpath : PlainPath request.path) :
    (∀ ending ∈ Text.breaks, apply config (request.updating (ending.intercalate diff.lines)) current =
      apply config (request.updating diff) current) ∧
    ('\x00' ∉ request.path → ∀ w : Wrapper, ∀ ending ∈ Text.breaks,
      apply config (request.updating (ending.intercalate (w.wrap request.path diff.lines))) current =
        apply config (request.updating (unlines (diff.lines ++ w.after))) current ∧
      ((∀ l ∈ w.after, l.head? ≠ some ' ') →
        apply config (request.updating (ending.intercalate (w.wrap request.path diff.lines))) current =
          apply config (request.updating diff) current)) := by
  have hnamed : ∀ l ∈ diff.lines, Dialect.namedPath? l = none := fun l hl =>
    Dialect.namedPath?_eq_none (hunnamed l hl)
  have hplain : ∀ l ∈ diff.lines, '\n' ∉ l ∧ '\r' ∉ l := fun l hl =>
    ⟨Text.not_mem_of_mem_lines hl, fun hmem => hreturn (Text.mem_of_mem_lines hl hmem)⟩
  have hjoined := Dialect.joined_lines hreturn
  obtain ⟨first, rest, hlines⟩ := List.exists_cons_of_ne_nil (List.splitOn_ne_nil '\n' diff)
  replace hlines : diff.lines = first :: rest := hlines
  rw [hlines] at hfirst hnamed hplain hjoined ⊢
  refine ⟨fun ending hending => ?_, fun hnul w ending hending => ?_⟩
  · exact apply_congr config
      (Dialect.readAlike_of_joined (Dialect.joined_intercalate hending (by simp) hplain) hjoined _) current
  · have hwrap := Dialect.joined_intercalate hending (w.wrap_ne_nil request.path (first :: rest))
      (w.unbroken_wrap hpath hplain)
    have hne : first :: rest ++ w.after ≠ [] := List.cons_ne_nil first _
    have hafter := Dialect.joined_intercalate (List.mem_cons_self : ['\n'] ∈ Text.breaks) hne
      (w.unbroken_append hplain)
    have halike := Dialect.readAlike_wrap hfirst hnamed w hpath hnul hwrap hafter
    refine ⟨apply_congr config halike current, fun hspace => ?_⟩
    have hblank : ∀ l ∈ w.after, l.isBlankText = true := fun l hl =>
      w.blank l (List.mem_append_right _ hl)
    exact apply_congr config (halike.trans
      (Dialect.readAlike_append hfirst hnamed hblank hspace hafter hjoined _)) current

/-- What may stand around an update of a file that was renamed. -/
def aroundRename : Wrapper where
  before := [[], "\t".toList]
  gitLines := ["rename from y".toList, "index 12ab..34cd 100644".toList]
  files := some ("a/y".toList, "b/x".toList)
  after := [[]]
  blank := by decide
  told := by
    have hrename := Dialect.GitLine.told
      (by decide : "rename from".toList ∈ Dialect.toldOpenings) "y".toList
    have hindex := Dialect.GitLine.index (by decide : "12ab".toList ≠ [])
      (List.all_eq_true.mp (by decide)) (by decide : isHexDigit '3' = true) "4cd 100644".toList
    simpa using ⟨hrename, hindex⟩
  plain := by decide

/-- A wrapped update with all that may stand around it, and with returns for line breaks. -/
theorem apply_wrapped_rename :
    (apply (Config.usual Score.decimal) (Request.updating { path := "a/x".toList }
      ("\r\t\r*** Begin Patch\r*** Update File: a/x\rrename from y\rindex 12ab..34cd 100644\r" ++
        "--- a/y\r+++ b/x\r@@\r-a\r+b\r*** End Patch\r").toList) (some "a\n".toUTF8) : Report Rat) =
    apply (Config.usual Score.decimal) (Request.updating { path := "a/x".toList } "@@\n-a\n+b".toList)
      (some "a\n".toUTF8) := by
  have htext : ("\r\t\r*** Begin Patch\r*** Update File: a/x\rrename from y\rindex 12ab..34cd 100644\r" ++
      "--- a/y\r+++ b/x\r@@\r-a\r+b\r*** End Patch\r").toList =
        ['\r'].intercalate (aroundRename.wrap "a/x".toList (Text.lines "@@\n-a\n+b".toList)) := by
    decide +kernel
  obtain ⟨-, hwrapped⟩ := apply_wrapped (α := Rat) (Config.usual Score.decimal)
    { path := "a/x".toList } (some "a\n".toUTF8) (by decide : '\r' ∉ "@@\n-a\n+b".toList)
    (by decide) (by decide) (by decide)
  rw [htext]
  exact (hwrapped (by decide) aroundRename ['\r'] (by simp [Text.breaks])).2 (by decide)

/-- A space behind the envelope is a line of the diff, and a NUL in the path is one in the diff. -/
theorem apply_wrapper_shows :
    ((apply (Config.usual Score.decimal) (Request.updating { path := ['f'] }
      "*** Begin Patch\n*** Update File: f\n@@\n-a\n+b\n*** End Patch\n ".toList)
      (some "a\n".toUTF8) : Report Rat).result.toOption.map Change.fuzzy = some true ∧
    (apply (Config.usual Score.decimal) (Request.updating { path := ['f'] } "@@\n-a\n+b".toList)
      (some "a\n".toUTF8) : Report Rat).result.toOption.map Change.fuzzy = some false) ∧
    ((apply (Config.usual Score.decimal) (Request.updating { path := ['f', '\x00'] }
      "*** Begin Patch\n*** Update File: f\x00\n@@\n-a\n+b\n*** End Patch".toList)
      (some "a\n".toUTF8) : Report Rat).result = refuse .nulInDiff ∧
    (apply (Config.usual Score.decimal) (Request.updating { path := ['f', '\x00'] } "@@\n-a\n+b".toList)
      (some "a\n".toUTF8) : Report Rat).result.toOption.map Change.added = some 1) := by
  refine ⟨⟨?_, ?_⟩, rfl, ?_⟩ <;> decide +kernel

end Engine
end LoosePatch
