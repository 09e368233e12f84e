import LoosePatch.Hunk.Parser
import LoosePatch.Proofs.Hunk.Header
import LoosePatch.Proofs.Outcome
import LoosePatch.Proofs.Text.Lines

/-!
Hunks as they are printed: header lines with ranges and anchors, a line for each edit, and a marker
where the file ends. The parser reads them back (`Hunk.parse_printed`), except that it takes copied
line numbers off, and takes a kept line for an ellipsis if it reads as one.
-/

namespace LoosePatch

/-! ## Marked lines -/

namespace Edit

/-- The body line of an edit: its mark and its text. -/
def written : Edit → Text
  | ⟨.keep, text⟩ => ' ' :: text
  | ⟨.add, text⟩ => '+' :: text
  | ⟨.remove, text⟩ => '-' :: text
  | ⟨.ellipsis, _⟩ => ['.', '.', '.']

variable {e : Edit}

theorem written_eq_cons (h : e.isEllipsis = false) :
    ∃ mark, e.written = mark :: e.text ∧ (mark = ' ' ∨ mark = '-' ∨ mark = '+') := by
  obtain ⟨kind, text⟩ := e
  cases kind with
  | keep => exact ⟨' ', rfl, .inl rfl⟩
  | add => exact ⟨'+', rfl, .inr (.inr rfl)⟩
  | remove => exact ⟨'-', rfl, .inr (.inl rfl)⟩
  | ellipsis => cases h

theorem mem_written {c : Char} (h : c ∈ e.written) : c ∈ [' ', '-', '+', '.'] ∨ c ∈ e.text := by
  obtain ⟨kind, text⟩ := e
  cases kind with
  | keep | add | remove =>
    rcases List.mem_cons.mp h with rfl | h
    exacts [.inl (by decide), .inr h]
  | ellipsis =>
    have hdots : ['.', '.', '.'] ⊆ [' ', '-', '+', '.'] := by decide
    exact .inl (hdots h)

/-- What an edit is read back as: a kept line that reads as an ellipsis becomes one. -/
def reread (e : Edit) : Edit :=
  if e.isEllipsis || (e.isKeep && Hunk.ellipses.contains e.text.trim) then ⟨.ellipsis, []⟩ else e

theorem editOf_written (e : Edit) : Hunk.editOf e.written = e.reread := by
  obtain ⟨kind, text⟩ := e
  cases kind with
  | keep =>
    have htrim : Text.trim (' ' :: text) = text.trim := Text.trim_blank_cons (by decide) text
    simp [Hunk.editOf, written, reread, isEllipsis, isKeep, htrim]
  | add => simp [Hunk.editOf, written, reread, isEllipsis, isKeep]
  | remove => simp [Hunk.editOf, written, reread, isEllipsis, isKeep]
  | ellipsis => rfl

/-- The line of an edit is no header, no marker, and not empty. -/
theorem written_body (e : Edit) : e.written.isEmpty = false ∧ Header.opens e.written = false ∧
    Hunk.endsFileAt e.written = false := by
  obtain ⟨kind, text⟩ := e
  cases kind <;> exact ⟨rfl, rfl, rfl⟩

end Edit

namespace Hunk

variable {hunk : Hunk} {hunks : List Hunk} {line : Text} {lines rest : List Text}

theorem isMarked_cons {c : Char} (h : isMarked (c :: line) = true) :
    c = ' ' ∨ c = '+' ∨ c = '-' := by
  simpa [isMarked, or_assoc] using h

/-- The marker after the last line of a file. -/
def endMarker : Text := "*** End of File".toList

/-- The lines of the edits are read back, up to what is no body line. -/
theorem readBody_append (edits : List Edit) (begun : Bool) (rest : List Text)
    (hbegun : edits = [] → begun = true) :
    readBody begun (edits.map Edit.written ++ rest) =
      (edits.map Edit.reread ++ (readBody true rest).1, (readBody true rest).2) := by
  induction edits generalizing begun with
  | nil => rw [hbegun rfl]; rfl
  | cons e edits ih =>
    obtain ⟨hempty, hopens, hends⟩ := e.written_body
    rw [List.map_cons, List.cons_append, readBody, hempty, hopens, hends, ih true fun _ => rfl,
      Edit.editOf_written]
    rfl

/-! ## One hunk -/

/-- A hunk that can be printed: it has edits, its anchors are nothing else, and its hint gives
ranges. -/
structure Printable (hunk : Hunk) : Prop where
  edits_ne_nil : hunk.edits ≠ []
  isAnchor : ∀ a ∈ hunk.anchors, Header.IsAnchor a
  isRange : ∀ hint, hunk.hint = some hint → hint.IsRange

/-- The header lines: the hint and the first anchor, then a line for each further anchor. -/
def printedHeaders (hunk : Hunk) : List Text :=
  Header.printed hunk.hint hunk.anchors.head? ::
    hunk.anchors.tail.map fun a => Header.printed none (some a)

def printedLines (hunk : Hunk) : List Text :=
  hunk.printedHeaders ++ (hunk.edits.map Edit.written ++ if hunk.endsFile then [endMarker] else [])

/-- The kinds of lines that a hunk is printed as. -/
theorem mem_printedLines (h : line ∈ hunk.printedLines) :
    (∃ hint anchor, line = Header.printed hint anchor) ∨ isMarked line = true ∨
      line = ['.', '.', '.'] ∨ line = endMarker := by
  rcases List.mem_append.mp h with h | h
  · rcases List.mem_cons.mp h with rfl | h
    · exact .inl ⟨_, _, rfl⟩
    · obtain ⟨a, -, rfl⟩ := List.mem_map.mp h
      exact .inl ⟨none, some a, rfl⟩
  · rcases List.mem_append.mp h with h | h
    · obtain ⟨⟨kind, text⟩, -, rfl⟩ := List.mem_map.mp h
      cases kind with
      | ellipsis => exact .inr (.inr (.inl rfl))
      | keep | add | remove => exact .inr (.inl rfl)
    · split at h
      · exact .inr (.inr (.inr (List.mem_singleton.mp h)))
      · cases h

/-- What a printed hunk is read back as. -/
def reread (hunk : Hunk) : Hunk :=
  { hunk with
    edits := Numbering.strip (hunk.edits.map Edit.reread)
    header := Header.printed hunk.hint hunk.anchors.head? }

/-- Header lines that give anchors are read together. -/
theorem readHeaders_anchors {anchors : List Text} (h : ∀ a ∈ anchors, Header.IsAnchor a)
    (hrest : ∀ line ∈ rest.head?, Header.opens line = false) :
    ∃ header, readHeaders ((anchors.map fun a => Header.printed none (some a)) ++ rest) =
      .ok (⟨header, anchors, none⟩, rest) := by
  induction anchors with
  | nil =>
    cases rest with
    | nil => exact ⟨[], rfl⟩
    | cons line rest =>
      refine ⟨[], ?_⟩
      rw [List.map_nil, List.nil_append, readHeaders, hrest line rfl, if_neg Bool.false_ne_true]
  | cons a anchors ih =>
    obtain ⟨ha, hanchors⟩ := List.forall_mem_cons.mp h
    obtain ⟨header, hinner⟩ := ih hanchors
    have hread : Header.read (Header.printed none (some a)) = .ok ([a], none) := ha.read_eq
    refine ⟨Header.printed none (some a), ?_⟩
    rw [List.map_cons, List.cons_append, readHeaders, if_pos (Header.opens_printed _ _), hread, hinner]
    rfl

theorem readHeaders_printedHeaders (h : hunk.Printable)
    (hrest : ∀ line ∈ rest.head?, Header.opens line = false) :
    readHeaders (hunk.printedHeaders ++ rest) =
      .ok (⟨hunk.reread.header, hunk.anchors, hunk.hint⟩, rest) := by
  have htail : ∀ a ∈ hunk.anchors.tail, Header.IsAnchor a := fun a ha =>
    h.isAnchor a (List.mem_of_mem_tail ha)
  have hhead : ∀ a, hunk.anchors.head? = some a → Header.IsAnchor a := fun a ha =>
    h.isAnchor a (List.mem_of_mem_head? ha)
  obtain ⟨header, hinner⟩ := readHeaders_anchors htail hrest
  have hanchors : hunk.anchors.head?.toList ++ hunk.anchors.tail = hunk.anchors := by
    cases hunk.anchors <;> rfl
  have hhint : (hunk.hint <|> none) = hunk.hint := by cases hunk.hint <;> rfl
  rw [printedHeaders, List.cons_append, readHeaders, if_pos (Header.opens_printed _ _),
    Header.read_printed hhead h.isRange, hinner]
  simp only [bind, Except.bind, hanchors, hhint]
  rfl

/-- A body with its marker, if it has one, is read up to the next header. -/
theorem readBody_printed (hunk : Hunk) (hne : hunk.edits ≠ [])
    (hrest : ∀ line ∈ rest.head?, Header.opens line = true) :
    readBody false (hunk.edits.map Edit.written ++
        ((if hunk.endsFile then [endMarker] else []) ++ rest)) =
      (hunk.edits.map Edit.reread, hunk.endsFile, rest) := by
  have hend : readBody true ((if hunk.endsFile then [endMarker] else []) ++ rest) =
      ([], hunk.endsFile, rest) := by
    cases hunk.endsFile with
    | true => rfl
    | false =>
      cases rest with
      | nil => rfl
      | cons line rest =>
        have hopens := hrest line rfl
        have hempty : line.isEmpty = false := by
          cases line with
          | nil => cases hopens
          | cons => rfl
        simp only [Bool.false_eq_true, if_false, List.nil_append, readBody, hempty, hopens,
          Bool.false_and, if_true]
  rw [readBody_append _ _ _ fun hnil => absurd hnil hne, hend, List.append_nil]

theorem readHunk_printedLines (h : hunk.Printable)
    (hrest : ∀ line ∈ rest.head?, Header.opens line = true) :
    readHunk (hunk.printedLines ++ rest) = .ok (hunk.reread, rest) := by
  obtain ⟨e, edits, hedits⟩ := List.exists_cons_of_ne_nil h.edits_ne_nil
  have hbody := readBody_printed hunk h.edits_ne_nil hrest
  have hfirst : ∀ line ∈ (hunk.edits.map Edit.written ++
      ((if hunk.endsFile then [endMarker] else []) ++ rest)).head?, Header.opens line = false := by
    rw [hedits]
    rintro line ⟨⟩
    exact e.written_body.2.1
  have hheaders := readHeaders_printedHeaders h hfirst
  have hsome : (hunk.edits.map Edit.reread).isEmpty = false := by rw [hedits]; rfl
  rw [printedLines, List.append_assoc, List.append_assoc, readHunk, hheaders]
  simp only [bind, Except.bind, hbody, hsome, Bool.false_eq_true, if_false]
  rfl

/-! ## All hunks -/

/-- A hunk in front is read, if it is not a bare header that closes the diff. -/
theorem readAll_cons {begun : Bool} (hne : line.isEmpty = false) (hclosing : rest.all List.isEmpty = false)
    (h : readHunk (line :: rest) = .ok (hunk, lines)) :
    readAll begun (line :: rest) = do return hunk :: (← readAll true lines) := by
  rw [readAll, hne, hclosing, Bool.and_false, if_neg Bool.false_ne_true, if_neg Bool.false_ne_true]
  split
  · rename_i e he
    cases h.symm.trans he
  · rename_i hunk' rest' he
    cases h.symm.trans he
    rfl

/-- After its first header line there are other lines to a hunk. -/
theorem exists_printedLines_eq (h : hunk.Printable) :
    ∃ rest, hunk.printedLines = Header.printed hunk.hint hunk.anchors.head? :: rest ∧
      ∃ line ∈ rest, line.isEmpty = false := by
  obtain ⟨e, edits, hedits⟩ := List.exists_cons_of_ne_nil h.edits_ne_nil
  exact ⟨_, rfl, e.written, by simp [hedits], e.written_body.1⟩

theorem readAll_printedLines (h : ∀ hunk ∈ hunks, hunk.Printable) (begun : Bool) :
    readAll begun (hunks.flatMap printedLines) = .ok (hunks.map reread) := by
  induction hunks generalizing begun with
  | nil => rw [List.flatMap_nil, readAll]; rfl
  | cons hunk hunks ih =>
    obtain ⟨hhunk, hhunks⟩ := List.forall_mem_cons.mp h
    have hnext : ∀ line ∈ (hunks.flatMap printedLines).head?, Header.opens line = true := by
      cases hunks with
      | nil => rintro line ⟨⟩
      | cons next hunks =>
        rintro line ⟨⟩
        exact Header.opens_printed _ _
    have hread := readHunk_printedLines hhunk hnext
    obtain ⟨rest, hlines, line, hline, hnonempty⟩ := exists_printedLines_eq hhunk
    have hheader : (Header.printed hunk.hint hunk.anchors.head?).isEmpty = false := by
      cases hunk.hint <;> rfl
    have hclosing : (rest ++ hunks.flatMap printedLines).all List.isEmpty = false :=
      List.all_eq_false.mpr ⟨line, List.mem_append_left _ hline, by simp [hnonempty]⟩
    rw [hlines, List.cons_append] at hread
    rw [List.flatMap_cons, hlines, List.cons_append, readAll_cons hheader hclosing hread,
      ih hhunks true]
    rfl

/-- The text of some hunks. -/
def printed (hunks : List Hunk) : Text := Text.unlines (hunks.flatMap printedLines)

/-- A character that is in no anchor and no text, and that nothing else is made of. -/
theorem not_mem_printedLines {c : Char} (hc : c ∉ ['@', ' ', '-', '+', ',', '.'])
    (hdigit : c.isDigit = false) (hend : hunk.endsFile = true → c ∉ endMarker)
    (hanchors : ∀ a ∈ hunk.anchors, c ∉ a) (htext : ∀ e ∈ hunk.edits, c ∉ e.text) :
    ∀ line ∈ hunk.printedLines, c ∉ line := by
  have hsigns : ['@', ' ', '-', '+', ','] ⊆ ['@', ' ', '-', '+', ',', '.'] := by decide
  have hmarks : [' ', '-', '+', '.'] ⊆ ['@', ' ', '-', '+', ',', '.'] := by decide
  intro line hline hmem
  rcases List.mem_append.mp hline with hline | hline
  · rcases List.mem_cons.mp hline with rfl | hline
    · exact Header.not_mem_printed (fun hin => hc (hsigns hin)) hdigit
        (fun a ha => hanchors a (List.mem_of_mem_head? ha)) hmem
    · obtain ⟨a, ha, rfl⟩ := List.mem_map.mp hline
      refine Header.not_mem_printed (fun hin => hc (hsigns hin)) hdigit ?_ hmem
      rintro _ ⟨⟩
      exact hanchors a (List.mem_of_mem_tail ha)
  · rcases List.mem_append.mp hline with hline | hline
    · obtain ⟨e, he, rfl⟩ := List.mem_map.mp hline
      rcases Edit.mem_written hmem with hin | hin
      exacts [hc (hmarks hin), htext e he hin]
    · split at hline
      · rename_i hflag
        rw [List.mem_singleton.mp hline] at hmem
        exact hend hflag hmem
      · cases hline

theorem Printable.not_mem_line {c : Char} (hc : c = '\n' ∨ c = '\r') (h : hunk.Printable)
    (htext : ∀ e ∈ hunk.edits, c ∉ e.text) : ∀ line ∈ hunk.printedLines, c ∉ line := by
  rcases hc with rfl | rfl
  · exact not_mem_printedLines (by decide) (by decide) (fun _ => by decide)
      (fun a ha => (h.isAnchor a ha).not_mem_break.1) htext
  · exact not_mem_printedLines (by decide) (by decide) (fun _ => by decide)
      (fun a ha => (h.isAnchor a ha).not_mem_break.2) htext

/-- The hunks of a diff are read back from the text that they are printed as. -/
theorem parse_printed (h : ∀ hunk ∈ hunks, hunk.Printable)
    (hbreak : ∀ hunk ∈ hunks, ∀ e ∈ hunk.edits, '\n' ∉ e.text) :
    parse (printed hunks) = .ok (hunks.map reread) := by
  have hlines : ∀ line ∈ hunks.flatMap printedLines, '\n' ∉ line := by
    intro line hline
    obtain ⟨hunk, hhunk, hline⟩ := List.mem_flatMap.mp hline
    exact (h hunk hhunk).not_mem_line (.inl rfl) (hbreak hunk hhunk) line hline
  cases hunks with
  | nil =>
    show readAll false [[]] = .ok []
    simp [readAll]
  | cons hunk hunks =>
    have hne : (hunk :: hunks).flatMap printedLines ≠ [] := List.cons_ne_nil _ _
    rw [parse, printed, Text.lines_unlines _ hlines hne, readAll_printedLines h]

end Hunk
end LoosePatch
