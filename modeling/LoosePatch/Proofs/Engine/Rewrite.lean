import LoosePatch.Proofs.Dialect.Bare
import LoosePatch.Proofs.Engine.Shape
import LoosePatch.Proofs.Splice.Verbatim

/-!
Diffs that rewrite a whole file. Such a diff gives the new lines of its script, unless the script
reads as a numbered view of a file (`Engine.apply_rewrite`); then numbers that belong to the lines
are lost (`Engine.rewrite_loses_numbers`).
-/

namespace LoosePatch

/-- No character of the line breaks lines, makes a file binary or marks the order of its bytes. -/
def Text.IsPlainLine (line : Text) : Prop := ∀ c ∈ ['\n', '\r', '\x00', Image.mark], c ∉ line

instance (line : Text) : Decidable line.IsPlainLine := List.decidableBAll _ _

instance (e : Edit) : Decidable e.Literal := instDecidableAnd

/-- Edits that turn the lines `old` of a file into `new`. Added lines are indented as the file is, and
the lines can be counted in numbers that are read. -/
structure Rewrite (edits : List Edit) (old new : List Text) : Prop where
  few : Readable edits.length
  literal : ∀ e ∈ edits, e.Literal
  plain : ∀ e ∈ edits, e.text.IsPlainLine
  old_eq : (edits.filter Edit.isOld).map Edit.text = old
  new_eq : (edits.filter Edit.isNew).map Edit.text = new
  style : ∀ style, (Indent.profile old).style = some style →
    Indent.Uniform style ((edits.filter Edit.isAdd).map Edit.text)

namespace Rewrite

variable {edits : List Edit} {old new : List Text}

theorem plain_of_mem (h : Rewrite edits old new) {kind : Edit → Bool} {line : Text}
    (hline : line ∈ (edits.filter kind).map Edit.text) : line.IsPlainLine := by
  obtain ⟨e, he, rfl⟩ := List.mem_map.mp hline
  exact h.plain e (List.mem_of_mem_filter he)

theorem plain_of_mem_old (h : Rewrite edits old new) {line : Text} (hline : line ∈ old) :
    line.IsPlainLine := h.plain_of_mem (h.old_eq.symm ▸ hline)

theorem plain_of_mem_new (h : Rewrite edits old new) {line : Text} (hline : line ∈ new) :
    line.IsPlainLine := h.plain_of_mem (h.new_eq.symm ▸ hline)

/-- The hunk of a rewrite, with a header that points to the first line, puts the new lines in the
place of the old ones. -/
theorem applyHunks_eq {α : Type} [Score α] {config : Config α} {hunk : Hunk}
    (h : Rewrite hunk.edits old new) (hne : old ≠ []) (hanchors : hunk.anchors = [])
    (hhint : hunk.hint.map LineHint.oldIndex = some 0) :
    ∃ p : Placement α, applyHunks config old [hunk] = .ok (new, [p]) := by
  have hold : hunk.oldLines = old := h.old_eq
  have hnew : hunk.newLines = new := h.new_eq
  have hplain : hunk.hasEllipsis = false :=
    List.any_eq_false.mpr fun e he => Bool.eq_false_iff.mp (h.literal e he).1
  have hoccurs : OccursAt old hunk.oldLines 0 := by
    rw [occursAt_iff, hold]
    exact List.prefix_rfl
  obtain ⟨p, hp⟩ : ∃ p : Placement α, applyHunks config old [hunk] = _ :=
    applyHunks_unanchored hanchors hplain (hold ▸ hne) hoccurs (.inr hhint) h.style
  refine ⟨p, ?_⟩
  rw [hp, hold, hnew, List.take_zero, List.nil_append, Nat.zero_add, List.drop_length,
    List.append_nil]

end Rewrite

namespace Engine

variable {edits : List Edit} {old new : List Text}

theorem loadImage_terminated (hne : old ≠ []) (h : ∀ line ∈ old, line.IsPlainLine) :
    loadImage (Text.terminated old).toBytes = .ok { lines := old } := by
  have hzero : '\x00' ∉ Text.terminated old :=
    Text.not_mem_terminated (by decide) fun l hl => h l hl '\x00' (by simp)
  rw [loadImage_toBytes hzero, Image.ofMarkedText_terminated hne (fun l hl => h l hl '\n' (by simp))
    (fun l hl => h l hl '\r' (by simp)) fun l hl => h l hl Image.mark (by simp)]

variable {α : Type} [Score α] {config : Config α} {request : Request}

/-- A rewrite is refused if it changes nothing, and else writes the new lines. -/
theorem updateByHunks_rewrite {hunk : Hunk} (h : Rewrite hunk.edits old new) (hne : old ≠ [])
    (hanchors : hunk.anchors = []) (hhint : hunk.hint.map LineHint.oldIndex = some 0)
    (hrename : request.renameTo = none) :
    (updateByHunks config request [hunk] (Text.terminated old).toBytes { lines := old }).2.map
        Change.effect =
      if new = old then refuse .unchangedByPatch
      else .ok (.write (Text.terminated new).toBytes) := by
  obtain ⟨p, hp⟩ : ∃ p : Placement α, applyHunks config old [hunk] = .ok (new, [p]) :=
    h.applyHunks_eq hne hanchors hhint
  have hafter : (({ lines := old } : Image).withLines new).toBytes =
      (Text.terminated new).toBytes := Image.toBytes_mk new
  have hsame : (Text.terminated new).toBytes.data = (Text.terminated old).toBytes.data ↔
      new = old := by
    refine ⟨fun heq => ?_, fun heq => by rw [heq]⟩
    exact Text.terminated_injective (fun line hline => h.plain_of_mem_new hline '\n' (by simp))
      (fun line hline => h.plain_of_mem_old hline '\n' (by simp))
      (Text.toBytes_injective (ByteArray.ext heq))
  rw [updateByHunks, hp]
  simp only [hafter, checkChanged, hsame, hrename, and_true]
  split <;> rfl

section Script

variable (hfew : Readable edits.length) (hliteral : ∀ e ∈ edits, e.Literal)
  (hplain : ∀ e ∈ edits, e.text.IsPlainLine) (ended : Bool)

include hplain

theorem checkContent_writtenText (path : Text) :
    ({ path, diff := some (Hunk.writtenText edits ended) } : Request).checkContent = .ok () := by
  have hzero : '\x00' ∉ Hunk.writtenText edits ended :=
    Hunk.not_mem_writtenText (by decide) (by decide)
      (fun e he => hplain e he '\x00' (by simp)) ended
  have hcontains : (Hunk.writtenText edits ended).contains '\x00' = false := by
    simpa using hzero
  simp only [Request.checkContent, Request.diffText, Option.getD_some, hcontains]
  rfl

include hfew hliteral

theorem readHunks_writtenText (hne : edits ≠ []) (path : Text) :
    readHunks { path, diff := some (Hunk.writtenText edits ended) } =
      .ok [Hunk.ofWritten edits] := by
  have hbreak : ∀ e ∈ edits, '\n' ∉ e.text := fun e he => hplain e he '\n' (by simp)
  have hreturn : ∀ e ∈ edits, '\r' ∉ e.text := fun e he => hplain e he '\r' (by simp)
  rw [readHunks, Request.diffText, Option.getD_some,
    Dialect.checkSingleFile_writtenText hbreak hreturn,
    Dialect.normalize_writtenText hbreak hreturn]
  exact Hunk.parse_writtenLines hliteral hne hfew hbreak

/-- A script that rewrites a file once copied line numbers are taken off is applied without them. -/
theorem apply_strip (h : Rewrite (Numbering.strip edits) old new) (hne : old ≠ [])
    (config : Config α) (path : Text) :
    (apply config { path, diff := some (Hunk.writtenText edits ended) }
        (some (Text.terminated old).toBytes)).result.map Change.effect =
      if new = old then refuse .unchangedByPatch
      else .ok (.write (Text.terminated new).toBytes) := by
  have hedits : edits ≠ [] := by
    rintro rfl
    exact hne h.old_eq.symm
  have hload := loadImage_terminated hne fun line hline => h.plain_of_mem_old hline
  have hhunks := readHunks_writtenText hfew hliteral hplain ended hedits path
  have hresult : (apply config { path, diff := some (Hunk.writtenText edits ended) }
      (some (Text.terminated old).toBytes)).result =
      (updateByHunks config { path, diff := some (Hunk.writtenText edits ended) }
        [Hunk.ofWritten edits] (Text.terminated old).toBytes { lines := old }).2 := by
    unfold apply perform
    rw [checkContent_writtenText hplain]
    simp only [Request.checkRename, update, hload, updateByDiff, hhunks]
    rfl
  rw [hresult]
  exact updateByHunks_rewrite h hne rfl rfl rfl

end Script

/-- A diff that rewrites the whole file gives exactly the new lines, whatever numbers they begin
with, unless its script reads as a numbered view. -/
theorem apply_rewrite (h : Rewrite edits old new) (hne : old ≠ [])
    (hnumbers : Numbering.isView edits = false) (config : Config α) (path : Text) (ended : Bool) :
    (apply config { path, diff := some (Hunk.writtenText edits ended) }
        (some (Text.terminated old).toBytes)).result.map Change.effect =
      if new = old then refuse .unchangedByPatch
      else .ok (.write (Text.terminated new).toBytes) := by
  have hstrip : Numbering.strip edits = edits := by
    rw [Numbering.strip, hnumbers, if_neg Bool.false_ne_true]
  exact apply_strip h.few h.literal h.plain ended (hstrip.symm ▸ h) hne config path

/-- One numbered line more in a file that has one among others. -/
theorem apply_rewrite_some_numbers :
    (apply (Config.usual Score.decimal : Config Rat)
        { path := ['f']
          diff := some (Hunk.writtenText [⟨.keep, "f:".toList⟩, ⟨.keep, "  10: a".toList⟩,
            ⟨.remove, "b".toList⟩, ⟨.add, "  20\tc".toList⟩] true) }
        (some (Text.terminated ["f:".toList, "  10: a".toList, "b".toList]).toBytes)).result.map
        Change.effect =
      .ok (.write (Text.terminated ["f:".toList, "  10: a".toList, "  20\tc".toList]).toBytes) := by
  let edits : List Edit := [⟨.keep, "f:".toList⟩, ⟨.keep, "  10: a".toList⟩, ⟨.remove, "b".toList⟩,
    ⟨.add, "  20\tc".toList⟩]
  have hrewrite : Rewrite edits ["f:".toList, "  10: a".toList, "b".toList]
      ["f:".toList, "  10: a".toList, "  20\tc".toList] := by
    refine ⟨by decide +kernel, by decide, by decide, rfl, rfl, fun style hstyle line hline _ c hc => ?_⟩
    have hspaces : style = .spaces := (Option.some.inj hstyle).symm
    have hlead : Indent.lead "  20\tc".toList = List.replicate 2 ' ' := rfl
    rw [List.mem_singleton.mp hline, hlead] at hc
    rw [hspaces]
    exact List.eq_of_mem_replicate hc
  exact apply_rewrite hrewrite (by decide) (by decide) _ ['f'] true

/-- Two added lines with numbers of their own read as a numbered view of the file. -/
theorem rewrite_loses_numbers :
    ¬ ∀ (edits : List Edit) (old new : List Text) (ended : Bool), Rewrite edits old new → old ≠ [] →
        (apply (Config.usual Score.decimal : Config Rat)
            { path := ['f'], diff := some (Hunk.writtenText edits ended) }
            (some (Text.terminated old).toBytes)).result.map Change.effect =
          if new = old then refuse .unchangedByPatch
          else .ok (.write (Text.terminated new).toBytes) := by
  intro hclaim
  let edits : List Edit :=
    [⟨.keep, "todo".toList⟩, ⟨.add, "1 buy".toList⟩, ⟨.add, "2 sell".toList⟩]
  let old : List Text := ["todo".toList]
  let new : List Text := ["todo".toList, "1 buy".toList, "2 sell".toList]
  let stripped : List Text := ["todo".toList, "buy".toList, "sell".toList]
  have hstyle : (Indent.profile old).style = none := by decide
  have hrewrite : Rewrite edits old new :=
    ⟨by decide +kernel, by decide, by decide, rfl, rfl,
      fun style hsome => nomatch hstyle.symm.trans hsome⟩
  have hstripped : Rewrite (Numbering.strip edits) old stripped :=
    ⟨by decide +kernel, by decide, by decide, by decide, by decide,
      fun style hsome => nomatch hstyle.symm.trans hsome⟩
  have hwritten := apply_strip hrewrite.few hrewrite.literal hrewrite.plain false hstripped (by decide)
    (Config.usual Score.decimal : Config Rat) ['f']
  rw [hclaim edits old new false hrewrite (by decide), if_neg (by decide),
    if_neg (by decide)] at hwritten
  have hbytes : (Text.terminated new).toBytes = (Text.terminated stripped).toBytes := by
    injection hwritten with heffect
    injection heffect
  exact absurd (Text.toBytes_injective hbytes) (by decide)

end Engine
end LoosePatch
