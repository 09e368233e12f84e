import LoosePatch.Proofs.Dialect.Printed
import LoosePatch.Proofs.Hunk.Written

/-!
Diffs with nothing around their hunk. Such a diff names no file
(`Dialect.checkSingleFile_writtenText`) and is normal already, but for a line feed at its end
(`Dialect.normalize_writtenText`).
-/

namespace LoosePatch.Dialect

open Hunk (writtenLines writtenText)

variable {edits : List Edit}

section Text

variable (hbreak : ∀ e ∈ edits, '\n' ∉ e.text) (hreturn : ∀ e ∈ edits, '\r' ∉ e.text) (ended : Bool)

include hbreak hreturn

theorem normalize_writtenText :
    normalize (writtenText edits ended) = Text.unlines (writtenLines edits) := by
  have hafter : ∀ line ∈ (if ended then [[]] else [] : List Text), closesEnvelope line = true := by
    cases ended <;> simp [closesEnvelope, Text.isBlankText]
  have hlines : [Hunk.ofEdits edits].flatMap Hunk.printedLines = writtenLines edits := by
    rw [List.flatMap_singleton, Hunk.printedLines_ofEdits]
  have htrim := trimEnvelope_printedLines (List.cons_ne_nil (Hunk.ofEdits edits) []) hafter
  have hdrop := dropMarkers_printedLines false [Hunk.ofEdits edits]
  rw [hlines] at htrim hdrop
  rw [normalize, Hunk.anyLines_writtenText hbreak hreturn, htrim, hdrop]

theorem checkSingleFile_writtenText (requested : Option Text) :
    checkSingleFile (writtenText edits ended) requested = .ok () := by
  have hnone : ∀ line ∈ writtenLines edits ++ (if ended then [[]] else [] : List Text),
      namedPath? line = none := by
    intro line hline
    rcases List.mem_append.mp hline with hline | hline
    · rw [← Hunk.printedLines_ofEdits] at hline
      exact namedPath?_of_mem_printedLines hline
    · cases ended with
      | true => rw [List.mem_singleton.mp hline]; rfl
      | false => cases hline
  rw [← Hunk.anyLines_writtenText hbreak hreturn] at hnone
  exact checkSingleFile_of_unnamed hnone requested

end Text

end LoosePatch.Dialect
