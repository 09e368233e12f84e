import LoosePatch.Proofs.Engine.Effect
import LoosePatch.Proofs.Hunk.Reading
import LoosePatch.Proofs.Image.Shape
import LoosePatch.Proofs.LineRef.Faults
import LoosePatch.Proofs.LineRef.Sources
import LoosePatch.Proofs.Splice.Accepted

/-!
What an update keeps of the shape of its file. A diff brings no line breaks of its own into the file,
so it keeps the mark, the breaks and the last break of the file (`apply_diff_keepsShape`). Line edits
do so up to the carriage returns in their text, which go into the file as they are
(`apply_lines_keepsShape`).
-/

namespace LoosePatch
namespace Engine

variable {α : Type} [Score α] {config : Config α} {request : Request} {change : Change α} {text : Text}

theorem loadImage_toBytes (h : '\x00' ∉ text) :
    loadImage text.toBytes = .ok (Image.ofMarkedText text) := by
  have hbinary : isBinary text.toBytes = false := by
    rw [isBinary]
    exact Bool.eq_false_iff.mpr fun hzero => h (Text.zero_mem_toBytes (List.contains_iff_mem.mp hzero))
  rw [loadImage, hbinary, if_neg Bool.false_ne_true, Image.ofBytes?, Text.ofBytes?_toBytes]
  rfl

/-! ## Updates by a diff -/

/-- A request with hunks that is granted has applied them to the lines of the file. -/
theorem apply_diff_eq_ok (hdiff : request.lineEdits = none) (hzero : '\x00' ∉ text)
    (h : (apply config request (some text.toBytes)).result = .ok change) (hhunks : 1 ≤ change.hunks) :
    ∃ hunks lines placements, readHunks request = .ok hunks ∧
      applyHunks config (Image.ofMarkedText text).lines hunks = .ok (lines, placements) ∧
      change.content? = some ((Image.ofMarkedText text).withLines lines).toBytes := by
  have hmade := (apply_eq_ok h).2
  cases hop : request.operation with
  | delete =>
    rw [hop] at hmade
    rw [← hmade] at hhunks
    exact absurd hhunks (by simp [delete])
  | create =>
    rw [hop] at hmade
    obtain ⟨⟨⟩, -, hmade⟩ := bind_eq_ok.mp hmade
    cases hmade
    exact absurd hhunks (by simp)
  | update =>
    rw [hop] at hmade
    simp only [update, loadImage_toBytes hzero, hdiff] at hmade
    obtain ⟨hunks, hread, ⟨-, -, rfl⟩ | ⟨lines, placements, happlied, hwrite, -⟩⟩ :=
      updateByDiff_eq_ok hmade
    · exact absurd hhunks (by simp [renamed])
    · exact ⟨hunks, lines, placements, hread, happlied, Change.content?_of_effect hwrite⟩

/-- A request with hunks and no objection against it applies them to the lines of the file. -/
theorem perform_diff {hunks : List Hunk} (hdiff : request.lineEdits = none)
    (hupdate : request.operation = .update)
    (hchecks : (do request.checkRename; request.checkContent : Outcome Unit) = .ok ())
    (hread : readHunks request = .ok hunks) (hne : hunks ≠ []) (hzero : '\x00' ∉ text) :
    perform config request (some text.toBytes) =
      updateByHunks config request hunks text.toBytes (Image.ofMarkedText text) := by
  obtain ⟨hunk, hunks, rfl⟩ := List.exists_cons_of_ne_nil hne
  rw [perform, hchecks]
  simp only [hupdate, update, loadImage_toBytes hzero, hdiff, updateByDiff, hread]

/-- Hunks that apply are granted if the file changes or is renamed. -/
theorem apply_diff_of_outcome {hunks : List Hunk} {lines : List Text} {placements : List (Placement α)}
    (hdiff : request.lineEdits = none) (hupdate : request.operation = .update)
    (hchecks : (do request.checkRename; request.checkContent : Outcome Unit) = .ok ())
    (hread : readHunks request = .ok hunks) (hne : hunks ≠ []) (hzero : '\x00' ∉ text)
    (happlied : applyHunks config (Image.ofMarkedText text).lines hunks = .ok (lines, placements))
    (hchanged : request.renameTo = none →
      ((Image.ofMarkedText text).withLines lines).toMarkedText ≠ text) :
    ∃ change, (apply config request (some text.toBytes)).result = .ok change ∧
      change.hunks = hunks.length := by
  have hbytes (hnone : request.renameTo = none) :
      ((Image.ofMarkedText text).withLines lines).toBytes.data ≠ text.toBytes.data :=
    fun heq => hchanged hnone (Text.toBytes_injective (ByteArray.ext heq))
  rw [apply, perform_diff hdiff hupdate hchecks hread hne hzero]
  simp only [updateByHunks, happlied, checkChanged]
  rw [if_neg fun h => hbytes h.2 h.1]
  exact ⟨_, rfl, rfl⟩

theorem not_mem_of_readHunks {hunks : List Hunk} (h : readHunks request = .ok hunks) :
    ∀ hunk ∈ hunks, ∀ e ∈ hunk.edits, '\n' ∉ e.text ∧ '\r' ∉ e.text := by
  obtain ⟨⟨⟩, -, h⟩ := bind_eq_ok.mp h
  exact Dialect.not_mem_of_parse_normalize h

/-- **Updates by a diff keep the shape of a file.** A mark stays in front. If every line feed of the
file follows a carriage return, every line feed of the new one does; if the file has no carriage
return, the new one has none, whatever breaks the diff was sent with. And where the last new line is
not empty, it has a break if the file was empty or its last line had one. -/
theorem apply_diff_keepsShape (hdiff : request.lineEdits = none) (hzero : '\x00' ∉ text)
    (h : (apply config request (some text.toBytes)).result = .ok change) (hhunks : 1 ≤ change.hunks) :
    ∃ hunks lines placements after, readHunks request = .ok hunks ∧
      applyHunks config (Image.ofMarkedText text).lines hunks = .ok (lines, placements) ∧
      change.content? = some (Text.toBytes after) ∧
      (text.head? = some Image.mark → after.head? = some Image.mark) ∧
      ('\n' ∈ text → text.FeedsReturned → after.FeedsReturned) ∧
      ('\r' ∉ text → '\r' ∉ after) ∧
      ∀ last, lines.getLast? = some last → last ≠ [] →
        (after.getLast? = some '\n' ↔
          Image.unmarked text = [] ∨ (Image.unmarked text).getLast? = some '\n') := by
  obtain ⟨hunks, lines, placements, hread, happlied, hcontent⟩ := apply_diff_eq_ok hdiff hzero h hhunks
  have htexts := not_mem_of_readHunks hread
  have hfeed : ∀ l ∈ lines, '\n' ∉ l := not_mem_of_applyHunks happlied (by decide)
    (Image.coherent_ofMarkedText text).not_mem fun hunk hhunk e he => (htexts hunk hhunk e he).1
  refine ⟨hunks, lines, placements, ((Image.ofMarkedText text).withLines lines).toMarkedText, hread,
    happlied, hcontent, fun hmark => ?_, fun hmem hreturned => ?_, fun hreturn => ?_,
    fun last hlast hne => ?_⟩
  · exact Image.head?_toMarkedText (Image.hasMark_ofMarkedText hmark)
  · exact Image.feedsReturned_toMarkedText hfeed (Image.lineEnd_ofMarkedText hmem hreturned)
  · have hlines : ∀ l ∈ lines, '\r' ∉ l := not_mem_of_applyHunks happlied (by decide)
      (Image.not_mem_lines_ofMarkedText hreturn) fun hunk hhunk e he => (htexts hunk hhunk e he).2
    exact Image.not_mem_toMarkedText hlines (Image.lineEnd_ofMarkedText_of_not_mem hreturn) (by decide)
      (by decide)
  · rw [Image.getLast?_toMarkedText hfeed hlast hne, ← Image.endsWithBreak_ofMarkedText]
    rfl

/-- A marked file with both characters in every break, and a diff with carriage returns alone. -/
theorem apply_diff_keepsShape_marked :
    ∃ change : Change Rat,
      (apply (Config.usual Score.decimal)
        { path := ['f'], diff := some ['-', 'a', '\r', '+', 'x', '\r', ' ', 'b'] }
        (some (Text.toBytes [Image.mark, 'a', '\r', '\n', 'b', '\r', '\n']))).result = .ok change ∧
      ∃ after, change.content? = some (Text.toBytes after) ∧ after.head? = some Image.mark ∧
        after.FeedsReturned := by
  let text : Text := [Image.mark, 'a', '\r', '\n', 'b', '\r', '\n']
  let request : Request := { path := ['f'], diff := some ['-', 'a', '\r', '+', 'x', '\r', ' ', 'b'] }
  let hunk : Hunk := { edits := [⟨.remove, ['a']⟩, ⟨.add, ['x']⟩, ⟨.keep, ['b']⟩] }
  have hdiff : request.lineEdits = none := rfl
  have hread : readHunks request = .ok [hunk] := by decide +kernel
  let placed : Placement Rat := ⟨0, Score.one, .lines .exact, [(0, 0), (2, 1)], none, []⟩
  have happlied : applyHunks (Config.usual Score.decimal) (Image.ofMarkedText text).lines [hunk] =
      .ok ([['x'], ['b']], [placed]) :=
    applyHunks_of_ascending [⟨1, hunk, placed⟩] [] [(1, ⟨0, 2, [['x'], ['b']]⟩)]
      (by decide +kernel) (by decide) (by decide) (by decide +kernel) (by decide)
  obtain ⟨change, hchange, hhunks⟩ := apply_diff_of_outcome hdiff rfl rfl hread (List.cons_ne_nil _ _)
    (by decide) happlied (by decide)
  obtain ⟨-, -, -, after, -, -, hcontent, hmark, hfeeds, -⟩ :=
    apply_diff_keepsShape hdiff (by decide) hchange (Nat.le_of_eq hhunks.symm)
  have hlines : ∀ l ∈ [[Image.mark, 'a', '\r'], ['b', '\r']], '\n' ∉ l := by decide
  have hreturned : text.FeedsReturned :=
    (Text.feedsReturned_iff hlines List.not_mem_nil).mpr (by decide)
  have hbreak : '\n' ∈ text := by decide
  exact ⟨change, hchange, after, hcontent, hmark rfl, hfeeds hbreak hreturned⟩

/-! ## Updates by line edits -/

variable {edits : List LineEdit}

/-- A request with line edits that is granted has applied them to the lines of the file. -/
theorem apply_lines_eq_ok (hedits : request.lineEdits = some edits) (hne : edits ≠ [])
    (hzero : '\x00' ∉ text) (h : (apply config request (some text.toBytes)).result = .ok change) :
    ∃ done, applyLineEdits (Image.ofMarkedText text).lines edits = .ok done ∧
      change.content? = some ((Image.ofMarkedText text).withLines done.lines).toBytes := by
  obtain ⟨hchecks, hmade⟩ := apply_eq_ok h
  rw [operation_of_checks hedits hchecks] at hmade
  simp only [update, loadImage_toBytes hzero, hedits, updateByLines] at hmade
  rw [if_neg (by simpa using hne)] at hmade
  split at hmade
  · cases hmade
  · rename_i done hdone
    obtain ⟨⟨⟩, -, hmade⟩ := bind_eq_ok.mp hmade
    cases hmade
    exact ⟨done, hdone, rfl⟩

/-- Line edits that apply and change the file are granted. -/
theorem apply_lines_of_outcome (config : Config α) (text : Text) {done : LineOutcome}
    (hedits : request.lineEdits = some edits)
    (hchecks : (do request.checkRename; request.checkContent : Outcome Unit) = .ok ())
    (hne : edits ≠ []) (hzero : '\x00' ∉ text)
    (hdone : applyLineEdits (Image.ofMarkedText text).lines edits = .ok done)
    (hchanged : ((Image.ofMarkedText text).withLines done.lines).toMarkedText ≠ text) :
    ∃ change, (apply config request (some text.toBytes)).result = .ok change ∧
      change.content? = some ((Image.ofMarkedText text).withLines done.lines).toBytes := by
  have hbytes : ((Image.ofMarkedText text).withLines done.lines).toBytes.data ≠ text.toBytes.data :=
    fun heq => hchanged (Text.toBytes_injective (ByteArray.ext heq))
  rw [apply, perform, hchecks, operation_of_checks hedits hchecks]
  simp only [update, loadImage_toBytes hzero, hedits, updateByLines]
  rw [if_neg (by simpa using hne), hdone]
  simp only [checkChanged]
  rw [if_neg fun h => hbytes h.1]
  exact ⟨_, rfl, rfl⟩

/-- A line is replaced by a text with a carriage return. -/
theorem applyLineEdits_sent :
    applyLineEdits [['a']] [⟨['1', ':', '0', '3', 'a', '9'], ['x', '\r', '\n', 'y']⟩] =
      .ok { lines := [['x', '\r'], ['y']], firstChanged := some 1, added := 2, removed := 1 } := by
  let edit : TargetEdit := ⟨.single ⟨1, ['0', '3', 'a', '9']⟩, [['x', '\r'], ['y']]⟩
  have ha : LineRef.hashOf 1 ['a'] = ['0', '3', 'a', '9'] := by decide +kernel
  have hread : [(⟨['1', ':', '0', '3', 'a', '9'], ['x', '\r', '\n', 'y']⟩ : LineEdit)].mapM LineEdit.read =
      .ok [edit] := by
    decide +kernel
  have hcurrent : ∀ e ∈ [edit], e.Current [['a']] := by
    intro e he
    rw [List.mem_singleton.mp he]
    exact ⟨⟨by decide, by decide, by decide⟩, by simp [edit, LineTarget.refs, ha], by decide⟩
  rw [applyLineEdits_of_current hread hcurrent, List.mergeSort_singleton]
  rfl

/-- **Updates by line edits keep the shape of a file, up to the carriage returns that they are sent
with.** A mark stays in front. Each new line was in the file, or is the end of a line that an edit was
sent with. If every line feed of the file follows a carriage return, every line feed of the new one
does; there are two of them before a line feed only if there were before, or the last line ended in
one, or a line was sent with one. If the file has no carriage return, those of the new one were sent. -/
theorem apply_lines_keepsShape (hedits : request.lineEdits = some edits) (hne : edits ≠ [])
    (hzero : '\x00' ∉ text) (h : (apply config request (some text.toBytes)).result = .ok change) :
    ∃ done after, applyLineEdits (Image.ofMarkedText text).lines edits = .ok done ∧
      change.content? = some (Text.toBytes after) ∧
      (text.head? = some Image.mark → after.head? = some Image.mark) ∧
      (∀ l ∈ done.lines, l ∈ (Image.ofMarkedText text).lines ∨
        ∃ e ∈ edits, ∃ line ∈ e.dst.lines, l <:+ line) ∧
      ('\n' ∈ text → text.FeedsReturned → after.FeedsReturned ∧
        (['\r', '\r', '\n'] <:+: after → ['\r', '\r', '\n'] <:+: text ∨ text.getLast? = some '\r' ∨
          ∃ e ∈ edits, ∃ line ∈ e.dst.lines, line.getLast? = some '\r')) ∧
      ('\r' ∉ text → '\r' ∈ after → ∃ e ∈ edits, '\r' ∈ e.dst) := by
  obtain ⟨done, hdone, hcontent⟩ := apply_lines_eq_ok hedits hne hzero h
  have hsources {l : Text} (hl : l ∈ done.lines) := applyLineEdits_sources hdone hl
  have hfeed : ∀ l ∈ done.lines, '\n' ∉ l := by
    intro l hl hmem
    rcases hsources hl with hfile | ⟨e, -, line, hline, hsuffix⟩
    · exact (Image.coherent_ofMarkedText text).not_mem l hfile hmem
    · exact Text.not_mem_of_mem_lines hline (hsuffix.subset hmem)
  refine ⟨done, ((Image.ofMarkedText text).withLines done.lines).toMarkedText, hdone, hcontent,
    fun hmark => Image.head?_toMarkedText (Image.hasMark_ofMarkedText hmark), fun l => hsources,
    fun hmem hreturned => ?_, fun hreturn hafter => ?_⟩
  · have hend : ((Image.ofMarkedText text).withLines done.lines).lineEnd = .crlf :=
      Image.lineEnd_ofMarkedText hmem hreturned
    refine ⟨Image.feedsReturned_toMarkedText hfeed hend, fun hstands => ?_⟩
    obtain ⟨l, hl, hlast⟩ := (Image.returned_break_infix_iff hfeed hend).mp hstands
    rcases hsources (Image.mem_ended hl) with hfile | ⟨e, he, line, hline, front, rfl⟩
    · exact (Image.returned_of_mem_lines hend hfile hlast).imp_right .inl
    · refine .inr (.inr ⟨e, he, _, hline, ?_⟩)
      rw [List.getLast?_append, hlast, Option.some_or]
  · by_contra hsent
    push Not at hsent
    have hend : ((Image.ofMarkedText text).withLines done.lines).lineEnd = .lf :=
      Image.lineEnd_ofMarkedText_of_not_mem hreturn
    refine Image.not_mem_toMarkedText (fun l hl hmem => ?_) hend (by decide) (by decide) hafter
    rcases hsources hl with hfile | ⟨e, he, line, hline, hsuffix⟩
    · exact Image.not_mem_lines_ofMarkedText hreturn l hfile hmem
    · exact hsent e he (Text.mem_of_mem_lines hline (hsuffix.subset hmem))

/-- A marked file with both characters in its break, and a line edit that was sent with both. -/
theorem apply_lines_keepsShape_marked :
    ∃ change : Change Rat,
      (apply (Config.usual Score.decimal)
        { path := ['f'], lineEdits := some [⟨['1', ':', '0', '3', 'a', '9'], ['x', '\r', '\n', 'y']⟩] }
        (some (Text.toBytes [Image.mark, 'a', '\r', '\n']))).result = .ok change ∧
      ∃ after, change.content? = some (Text.toBytes after) ∧ after.head? = some Image.mark ∧
        after.FeedsReturned := by
  let text : Text := [Image.mark, 'a', '\r', '\n']
  let request : Request :=
    { path := ['f'], lineEdits := some [⟨['1', ':', '0', '3', 'a', '9'], ['x', '\r', '\n', 'y']⟩] }
  have hedits : request.lineEdits =
      some [⟨['1', ':', '0', '3', 'a', '9'], ['x', '\r', '\n', 'y']⟩] := rfl
  obtain ⟨change, hchange, -⟩ := apply_lines_of_outcome (Config.usual (Score.decimal : Nat → Nat → Rat))
    text hedits rfl (List.cons_ne_nil _ _) (by decide) applyLineEdits_sent (by decide)
  obtain ⟨done, after, -, hcontent, hmark, -, hfeeds, -⟩ :=
    apply_lines_keepsShape hedits (List.cons_ne_nil _ _) (by decide) hchange
  have hlines : ∀ l ∈ [[Image.mark, 'a', '\r']], '\n' ∉ l := by decide
  have hreturned : text.FeedsReturned :=
    (Text.feedsReturned_iff hlines List.not_mem_nil).mpr (by decide)
  have hbreak : '\n' ∈ text := by decide
  exact ⟨change, hchange, after, hcontent, hmark rfl, (hfeeds hbreak hreturned).1⟩

/-- A carriage return that a line edit is sent with goes into a file without any, and before the
break of a file that has both characters in its breaks. -/
theorem apply_lines_bringsReturns :
    (∃ change : Change Rat,
      (apply (Config.usual Score.decimal)
        { path := ['f'], lineEdits := some [⟨['1', ':', '0', '3', 'a', '9'], ['x', '\r', '\n', 'y']⟩] }
        (some (Text.toBytes ['a', '\n']))).result = .ok change ∧
      change.content? = some (Text.toBytes ['x', '\r', '\n', 'y', '\n'])) ∧
    ∃ change : Change Rat,
      (apply (Config.usual Score.decimal)
        { path := ['f'], lineEdits := some [⟨['1', ':', '0', '3', 'a', '9'], ['x', '\r', '\n', 'y']⟩] }
        (some (Text.toBytes ['a', '\r', '\n']))).result = .ok change ∧
      change.content? = some (Text.toBytes ['x', '\r', '\r', '\n', 'y', '\r', '\n']) := by
  constructor
  · exact apply_lines_of_outcome _ ['a', '\n'] rfl rfl (List.cons_ne_nil _ _) (by decide)
      applyLineEdits_sent (by decide)
  · exact apply_lines_of_outcome _ ['a', '\r', '\n'] rfl rfl (List.cons_ne_nil _ _) (by decide)
      applyLineEdits_sent (by decide)

end Engine
end LoosePatch
