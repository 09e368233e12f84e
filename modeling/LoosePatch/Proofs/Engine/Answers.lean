import LoosePatch.Proofs.Dialect.Printed
import LoosePatch.Proofs.Engine.Shape
import LoosePatch.Proofs.Locate.Grounded
import LoosePatch.Proofs.Splice.Faultless

/-!
Requests without line edits are answered: each stage of the engine gives a result or refuses, unless
the hunks of an update cannot be read (`apply_diff_failsOnly`), and what the search for a hunk takes
for granted holds in every file.
-/

namespace LoosePatch

/-- A tab stands for some spaces. -/
theorem Indent.unitOr_usualUnit_ne_zero (unit : Nat) : unitOr unit usualUnit ≠ 0 := by
  unfold unitOr
  split
  · decide
  · assumption

namespace Engine

variable {α : Type}

/-! ## The operations -/

theorem create_failsOnly (request : Request) :
    FailsOnly Failure.IsRefusal (create (α := α) request) :=
  (Dialect.checkSingleFile_failsOnly _ _).bind fun _ _ => failsOnly_ok _

theorem readHunks_failsOnly (request : Request) :
    FailsOnly (fun failure => failure.IsRefusal ∨
        Hunk.parse (Dialect.normalize request.diffText) = .error failure)
      (readHunks request) :=
  ((Dialect.checkSingleFile_failsOnly _ _).imp fun _ => Or.inl).bind fun _ _ _ => Or.inr

variable [Score α] {config : Config α} {request : Request}

theorem updateByHunks_failsOnly (hunks : List Hunk) (content : ByteArray) (image : Image) :
    FailsOnly Failure.IsRefusal (updateByHunks config request hunks content image).2 := by
  unfold updateByHunks
  split
  · rename_i failure hfailure
    exact failsOnly_error (applyHunks_failsOnly hunks failure hfailure)
  · exact (checkChanged_failsOnly _ _ _ _).bind fun _ _ => failsOnly_ok _

theorem updateByDiff_failsOnly (content : ByteArray) (image : Image) :
    FailsOnly (fun failure => failure.IsRefusal ∨
        Hunk.parse (Dialect.normalize request.diffText) = .error failure)
      (updateByDiff config request content image).2 := by
  unfold updateByDiff
  split
  · rename_i failure hfailure
    exact failsOnly_error (readHunks_failsOnly request failure hfailure)
  · refine FailsOnly.imp ?_ fun _ => Or.inl
    exact iteInduction (fun _ => failsOnly_ok _) fun _ => refuse_failsOnly _
  · exact (updateByHunks_failsOnly _ content image).imp fun _ => .inl

theorem update_failsOnly (hdiff : request.lineEdits = none) (current : Option ByteArray) :
    FailsOnly (fun failure => failure.IsRefusal ∨
        Hunk.parse (Dialect.normalize request.diffText) = .error failure)
      (update config request current).2 := by
  cases current with
  | none => exact (refuse_failsOnly _).imp fun _ => .inl
  | some content =>
    cases hload : loadImage content with
    | error failure =>
      simp only [update, hload]
      exact failsOnly_error (.inl (loadImage_failsOnly content failure hload))
    | ok image =>
      simp only [update, hload, hdiff]
      exact updateByDiff_failsOnly content image

/-! ## Requests -/

/-- A request without line edits is granted or refused, unless the hunks of an update cannot be
read. -/
theorem apply_diff_failsOnly (hdiff : request.lineEdits = none) (current : Option ByteArray) :
    FailsOnly (fun failure => failure.IsRefusal ∨ request.operation = .update ∧
        Hunk.parse (Dialect.normalize request.diffText) = .error failure)
      (apply config request current).result := by
  show FailsOnly _ (perform config request current).2
  unfold perform
  split
  · rename_i failure hfailure
    exact failsOnly_error (.inl (checks_failsOnly request failure hfailure))
  · split
    · exact failsOnly_ok _
    · exact (create_failsOnly request).imp fun _ => .inl
    · rename_i hupdate
      exact (update_failsOnly hdiff current).imp fun _ h => h.imp_right fun hparse => ⟨hupdate, hparse⟩

/-- An update fails as reading its hunks does. -/
theorem apply_of_unread {content : ByteArray} {image : Image} {failure : Failure}
    (hdiff : request.lineEdits = none) (hupdate : request.operation = .update)
    (hchecks : (do request.checkRename; request.checkContent : Outcome Unit) = .ok ())
    (hload : loadImage content = .ok image) (hread : readHunks request = .error failure) :
    (apply config request (some content)).result = .error failure := by
  simp only [apply, perform, hchecks, hupdate, update, hload, hdiff, updateByDiff, hread]

theorem loadImage_of_undecodable {content : ByteArray} (h : Text.ofBytes? content = none) :
    ∃ why, loadImage content = .error (.refused why) ∧ why.kind = .invalidEnvelope := by
  unfold loadImage
  split
  · exact ⟨.binaryFile, rfl, rfl⟩
  · rw [Image.ofBytes?, h]
    exact ⟨.undecodableFile, rfl, rfl⟩

omit [Score α] in
theorem delete_of_undecodable {content : ByteArray} (h : Text.ofBytes? content = none) :
    (delete (some content) : Change α).removed = 0 := by
  simp only [delete, Image.ofBytes?, h, Option.map_none, ite_self, Option.getD_none]

/-- **Requests without line edits are answered**, but for numbers that are too long. Whatever the diff
and whatever the file, the request is granted or refused, unless a header in the diff of an update holds
a number that is too long to be read. A file that is not text refuses an update as an invalid envelope,
and is deleted without any lines removed. The search for any hunk in any lines is grounded: what it
takes the first, the least or the greatest of is there, its lines are lines of the file, and it divides
by no empty number of lines; nor does the indentation of the added lines. -/
theorem apply_diff_answers (config : Config α) (hdiff : request.lineEdits = none)
    (current : Option ByteArray) :
    ((∃ change, (apply config request current).result = .ok change) ∨
      (∃ why, (apply config request current).result = .error (.refused why)) ∨
      ∃ digits, (apply config request current).result = .error (.fault (.numberTooLong digits)) ∧
        request.operation = .update ∧ ∃ line ∈ (Dialect.normalize request.diffText).lines,
          Header.opens line = true ∧ line.HoldsLong digits) ∧
    (∀ content, current = some content → Text.ofBytes? content = none →
      (do request.checkRename; request.checkContent : Outcome Unit) = .ok () →
      (request.operation = .update → ∃ why,
        (apply config request current).result = .error (.refused why) ∧
          why.kind = .invalidEnvelope) ∧
      (request.operation = .delete → ∃ change,
        (apply config request current).result = .ok change ∧ change.isDelete = true ∧
          change.removed = 0)) ∧
    (∀ (lines : List Text) (hunk : Hunk), hunk.Grounded config lines) ∧
    ∀ unit, Indent.unitOr unit Indent.usualUnit ≠ 0 := by
  refine ⟨?_, ?_, Hunk.grounded config, Indent.unitOr_usualUnit_ne_zero⟩
  · cases hresult : (apply config request current).result with
    | ok change => exact .inl ⟨change, rfl⟩
    | error failure =>
      rcases apply_diff_failsOnly hdiff current failure hresult with ⟨why, rfl⟩ | ⟨hupdate, hparse⟩
      · exact .inr (.inl ⟨why, rfl⟩)
      · rcases Hunk.parse_failsOnly _ failure hparse with
          ⟨why, rfl⟩ | ⟨line, hline, hopens, digits, rfl, hlong⟩
        · exact .inr (.inl ⟨why, rfl⟩)
        · exact .inr (.inr ⟨digits, rfl, hupdate, line, hline, hopens, hlong⟩)
  · rintro content rfl hbytes hchecks
    constructor
    · intro hupdate
      obtain ⟨why, hload, hkind⟩ := loadImage_of_undecodable hbytes
      refine ⟨why, ?_, hkind⟩
      simp only [apply, perform, hchecks, hupdate, update, hload]
    · intro hdelete
      refine ⟨delete (some content), ?_, rfl, delete_of_undecodable hbytes⟩
      simp only [apply, perform, hchecks, hdelete]

/-- A byte that is no text on its own, under an update and under a deletion. -/
theorem apply_diff_answers_undecodable :
    (∃ why, (apply (Config.usual (Score.decimal : Nat → Nat → Rat))
        { path := ['f'], diff := some ['-', 'a'] } (some ⟨#[0xff]⟩)).result = .error (.refused why) ∧
      why.kind = .invalidEnvelope) ∧
    ∃ change, (apply (Config.usual (Score.decimal : Nat → Nat → Rat))
        { path := ['f'], operation := .delete } (some ⟨#[0xff]⟩)).result = .ok change ∧
      change.isDelete = true ∧ change.removed = 0 := by
  have hbytes : Text.ofBytes? ⟨#[0xff]⟩ = none := by decide +kernel
  constructor
  · have hdiff : Request.lineEdits { path := ['f'], diff := some ['-', 'a'] } = none := rfl
    obtain ⟨-, hundecodable, -⟩ :=
      apply_diff_answers (Config.usual (Score.decimal : Nat → Nat → Rat)) hdiff (some ⟨#[0xff]⟩)
    exact (hundecodable _ rfl hbytes rfl).1 rfl
  · have hdiff : Request.lineEdits { path := ['f'], operation := .delete } = none := rfl
    obtain ⟨-, hundecodable, -⟩ :=
      apply_diff_answers (Config.usual (Score.decimal : Nat → Nat → Rat)) hdiff (some ⟨#[0xff]⟩)
    exact (hundecodable _ rfl hbytes rfl).2 rfl

/-- A hunk whose range begins at a line with one digit more than is read. -/
def farHunk : Hunk where
  edits := [⟨.remove, ['a']⟩, ⟨.add, ['b']⟩]
  hint := some {
    oldStart := 10 ^ mostDigits, oldLength := some 1, newStart := some 1, newLength := some 1 }

theorem not_mem_printedLines_farHunk {c : Char} (hc : c ∉ ['@', ' ', '-', '+', ',', '.'])
    (hdigit : c.isDigit = false) (htext : c ∉ ['a', 'b']) :
    ∀ line ∈ [farHunk].flatMap Hunk.printedLines, c ∉ line := by
  rw [List.flatMap_singleton]
  refine Hunk.not_mem_printedLines hc hdigit (fun h => by cases h) (fun a ha => by cases ha) ?_
  simpa [farHunk] using htext

/-- The text of the hunk is left as it is, and then its header cannot be read. -/
theorem parse_normalize_farHunk : Hunk.parse (Dialect.normalize (Hunk.printed [farHunk])) =
    .error (.fault (.numberTooLong (mostDigits + 1))) := by
  let header := Header.range (10 ^ mostDigits) 1 1 1
  have hlines : [farHunk].flatMap Hunk.printedLines = [header, ['-', 'a'], ['+', 'b']] := by
    rw [List.flatMap_singleton]
    exact congrArg (· :: _) (List.append_nil header)
  have hbreak := not_mem_printedLines_farHunk (c := '\n') (by decide) (by decide) (by decide)
  have hreturn := not_mem_printedLines_farHunk (c := '\r') (by decide) (by decide) (by decide)
  have hheader : Header.read header = .error (.fault (.numberTooLong (mostDigits + 1))) := by
    rw [← length_numeral_pow]
    exact Header.read_range_of_long not_readable_pow
  rw [Dialect.normalize_printed (List.cons_ne_nil farHunk []) hbreak hreturn, Hunk.printed, hlines]
  exact Hunk.parse_of_unread rfl hheader (hlines ▸ hbreak)

theorem checkSingleFile_farHunk (path : Option Text) :
    Dialect.checkSingleFile (Hunk.printed [farHunk]) path = .ok () := by
  have hbreak := not_mem_printedLines_farHunk (c := '\n') (by decide) (by decide) (by decide)
  have hreturn := not_mem_printedLines_farHunk (c := '\r') (by decide) (by decide) (by decide)
  refine Dialect.checkSingleFile_of_unnamed (fun line hline => ?_) _
  rw [Dialect.anyLines_printed (List.cons_ne_nil farHunk []) hbreak hreturn,
    List.flatMap_singleton] at hline
  exact Dialect.namedPath?_of_mem_printedLines hline

/-- No answer is given to a diff with such a hunk. -/
theorem apply_diff_far_hunk :
    (apply (Config.usual (Score.decimal : Nat → Nat → Rat))
        { path := ['f'], diff := some (Hunk.printed [farHunk]) }
        (some (Text.terminated [['a']]).toBytes)).result =
      .error (.fault (.numberTooLong (mostDigits + 1))) := by
  let request : Request := { path := ['f'], diff := some (Hunk.printed [farHunk]) }
  have hload : loadImage (Text.terminated [['a']]).toBytes = .ok { lines := [['a']] } :=
    loadImage_toBytes (by decide)
  have hzero : '\x00' ∉ Hunk.printed [farHunk] :=
    Text.not_mem_unlines (by decide)
      (not_mem_printedLines_farHunk (by decide) (by decide) (by decide))
  have hchecks : (do request.checkRename; request.checkContent : Outcome Unit) = .ok () := by
    have hcontains : (Hunk.printed [farHunk]).contains '\x00' = false := by simpa using hzero
    simp only [request, Request.checkContent, Request.diffText, Option.getD_some, hcontains]
    rfl
  have hread : readHunks request = .error (.fault (.numberTooLong (mostDigits + 1))) := by
    rw [readHunks, Request.diffText, Option.getD_some, checkSingleFile_farHunk,
      parse_normalize_farHunk]
    rfl
  exact apply_of_unread rfl rfl hchecks hload hread

end Engine
end LoosePatch
