import LoosePatch.Proofs.Hunk.Printed

/-!
A hunk as diff tools write it: a range header, then a marked line for each edit. The parser reads
it back (`Hunk.parse_writtenLines`), except that it takes copied line numbers off.
-/

namespace LoosePatch

namespace Edit

/-- The edit is a line of a file, and is not kept under a text that reads as an ellipsis. -/
def Literal (e : Edit) : Prop :=
  e.isEllipsis = false ∧ (e.isKeep = true → e.text.trim ∉ Hunk.ellipses)

theorem reread_of_literal {e : Edit} (h : e.Literal) : e.reread = e := by
  rw [reread, h.1, Bool.false_or, if_neg]
  rw [Bool.and_eq_true, List.contains_iff_mem]
  rintro ⟨hkeep, hmem⟩
  exact h.2 hkeep hmem

end Edit

namespace Hunk

variable {edits : List Edit}

/-- The lines of a hunk: a header that counts its old and new lines, and a line for each edit. -/
def writtenLines (edits : List Edit) : List Text :=
  Header.ofRange (edits.countP Edit.isOld) (edits.countP Edit.isNew) :: edits.map Edit.written

/-- The text of these lines, with a line feed after the last one or without. -/
def writtenText (edits : List Edit) (ended : Bool) : Text :=
  Text.unlines (writtenLines edits) ++ if ended then ['\n'] else []

/-- What is read from the lines of a hunk, without copied line numbers. -/
def ofWritten (edits : List Edit) : Hunk where
  edits := Numbering.strip edits
  hint := some {
    oldStart := 1, oldLength := some (edits.countP Edit.isOld)
    newStart := some 1, newLength := some (edits.countP Edit.isNew) }
  header := Header.ofRange (edits.countP Edit.isOld) (edits.countP Edit.isNew)

/-- The hunk that these lines are printed from. -/
def ofEdits (edits : List Edit) : Hunk where
  edits := edits
  hint := (ofWritten edits).hint

theorem printable_ofEdits (hne : edits ≠ []) (hfew : Readable edits.length) :
    (ofEdits edits).Printable where
  edits_ne_nil := hne
  isAnchor := fun a ha => by cases ha
  isRange := fun hint h => by
    have hone : Readable 1 := hfew.of_le (List.length_pos_iff.mpr hne)
    have hold := hfew.of_le (List.countP_le_length (p := Edit.isOld))
    have hnew := hfew.of_le (List.countP_le_length (p := Edit.isNew))
    exact ⟨1, _, 1, _, Nat.le_refl 1, Nat.le_refl 1, by simp [hone, hold, hnew],
      (Option.some.inj h).symm⟩

theorem printedHeader_ofEdits (edits : List Edit) : Header.printed (ofEdits edits).hint none =
    Header.ofRange (edits.countP Edit.isOld) (edits.countP Edit.isNew) :=
  (List.append_nil _).trans (Header.ofRange_eq_range _ _).symm

theorem printedLines_ofEdits (edits : List Edit) : (ofEdits edits).printedLines = writtenLines edits := by
  show Header.printed (ofEdits edits).hint none :: (edits.map Edit.written ++ []) = _
  rw [printedHeader_ofEdits, List.append_nil, writtenLines]

theorem printed_ofEdits (edits : List Edit) :
    printed [ofEdits edits] = Text.unlines (writtenLines edits) := by
  rw [printed, List.flatMap_singleton, printedLines_ofEdits]

theorem reread_ofEdits (h : ∀ e ∈ edits, e.Literal) : (ofEdits edits).reread = ofWritten edits := by
  have hedits : edits.map Edit.reread = edits :=
    (List.map_congr_left fun e he => Edit.reread_of_literal (h e he)).trans (List.map_id edits)
  have hheader : (ofEdits edits).reread.header = (ofWritten edits).header := printedHeader_ofEdits edits
  show { ofWritten edits with
    edits := Numbering.strip (edits.map Edit.reread), header := (ofEdits edits).reread.header } = _
  rw [hedits, hheader]
  rfl

/-- A character that is in none of the texts and that nothing else is made of. -/
theorem not_mem_writtenLines {c : Char} (hc : c ∉ ['@', ' ', '-', '+', ',', '.'])
    (hdigit : c.isDigit = false) (htext : ∀ e ∈ edits, c ∉ e.text) :
    ∀ line ∈ writtenLines edits, c ∉ line := by
  rw [← printedLines_ofEdits]
  exact not_mem_printedLines hc hdigit (fun h => by cases h) (fun a ha => by cases ha) htext

theorem not_mem_writtenText {c : Char} (hc : c ∉ ['\n', '@', ' ', '-', '+', ',', '.'])
    (hdigit : c.isDigit = false) (htext : ∀ e ∈ edits, c ∉ e.text)
    (ended : Bool) : c ∉ writtenText edits ended := by
  obtain ⟨hbreak, hc⟩ := List.ne_and_not_mem_of_not_mem_cons hc
  have hlines := Text.not_mem_unlines hbreak (not_mem_writtenLines hc hdigit htext)
  cases ended with
  | true => simpa [writtenText] using ⟨hlines, hbreak⟩
  | false => simpa [writtenText] using hlines

theorem anyLines_writtenText (hbreak : ∀ e ∈ edits, '\n' ∉ e.text)
    (hreturn : ∀ e ∈ edits, '\r' ∉ e.text) (ended : Bool) :
    Text.anyLines (writtenText edits ended) = writtenLines edits ++ if ended then [[]] else [] := by
  have hbreak := not_mem_writtenLines (by decide) (by decide) hbreak
  have hreturn := not_mem_writtenLines (by decide) (by decide) hreturn
  have hne : writtenLines edits ≠ [] := List.cons_ne_nil _ _
  cases ended with
  | false =>
    rw [writtenText, if_neg Bool.false_ne_true, if_neg Bool.false_ne_true, List.append_nil,
      List.append_nil, Text.anyLines_unlines hbreak hreturn hne]
  | true =>
    rw [writtenText, if_pos rfl, if_pos rfl, Text.unlines_append_break hne,
      Text.anyLines_terminated hbreak hreturn]

/-- A hunk is read back from the text that its lines make. -/
theorem parse_writtenLines (h : ∀ e ∈ edits, e.Literal) (hne : edits ≠ [])
    (hfew : Readable edits.length) (hbreak : ∀ e ∈ edits, '\n' ∉ e.text) :
    parse (Text.unlines (writtenLines edits)) = .ok [ofWritten edits] := by
  have hprintable : ∀ hunk ∈ [ofEdits edits], hunk.Printable :=
    List.forall_mem_singleton.mpr (printable_ofEdits hne hfew)
  have hbreaks : ∀ hunk ∈ [ofEdits edits], ∀ e ∈ hunk.edits, '\n' ∉ e.text :=
    List.forall_mem_singleton.mpr hbreak
  rw [← printed_ofEdits, parse_printed hprintable hbreaks, List.map_singleton, reread_ofEdits h]

end Hunk
end LoosePatch
