import LoosePatch.Proofs.Engine.Answers
import LoosePatch.Proofs.Engine.Effect
import LoosePatch.Proofs.Engine.Shape
import LoosePatch.Proofs.Splice.Inert

/-!
What comes of a request. It is refused, it deletes the file or it writes one, and only one of these;
and an update that is granted changes the file or renames it (`Engine.apply_exclusive`).
-/

namespace LoosePatch

/-! ## Outcomes -/

namespace Report

variable {α : Type}

/-- Why the request was refused. -/
def refusal? (report : Report α) : Option Refusal :=
  match report.result with
  | .error (.refused why) => some why
  | _ => none

/-- The file was deleted. -/
def isDelete (report : Report α) : Bool := report.result.toOption.any Change.isDelete

/-- The bytes that the file has after the request. -/
def content? (report : Report α) : Option ByteArray := report.result.toOption.bind Change.content?

/-- A request that does not fail has one of the three outcomes, and one that fails has none. -/
theorem fault?_eq_none_iff (report : Report α) : report.fault? = none ↔
    [report.refusal?.isSome, report.isDelete, report.content?.isSome].count true = 1 := by
  obtain ⟨events, result⟩ := report
  rcases result with (why | what) | change
  · exact iff_of_true rfl rfl
  · exact iff_of_false (by rintro ⟨⟩) (by rintro ⟨⟩)
  · obtain ⟨effect⟩ := change
    cases effect with
    | write content => exact iff_of_true rfl rfl
    | delete => exact iff_of_true rfl rfl

end Report

namespace Engine

variable {α : Type} [Score α] {config : Config α} {request : Request} {content : ByteArray}
  {image : Image} {change : Change α} {current : Option ByteArray} {hunks : List Hunk}

theorem isDelete_of_apply (h : (apply config request current).result = .ok change) :
    change.isDelete = true ↔ request.operation = .delete := by
  have heffect := apply_effect h
  cases hop : request.operation with
  | delete =>
    rw [hop] at heffect
    exact iff_of_true (by rw [Change.isDelete, heffect]) rfl
  | create | update =>
    rw [hop] at heffect
    obtain ⟨after, hwrite⟩ := heffect
    exact iff_of_false (by rw [Change.isDelete, hwrite]; exact Bool.false_ne_true) (by rintro ⟨⟩)

/-! ## Hunks without changes -/

/-- Inert hunks leave the lines of an image, and with them the bytes that it stands for. -/
theorem updateByDiff_inert (himage : image.toBytes = content)
    (hparse : Hunk.parse (Dialect.normalize request.diffText) = .ok hunks)
    (hinert : ∀ hunk ∈ hunks, hunk.Inert)
    (h : (updateByDiff config request content image).2 = .ok change) :
    change.content? = some content := by
  obtain ⟨_, hread, ⟨-, -, rfl⟩ | ⟨lines, _, happlied, hwrite, -⟩⟩ := updateByDiff_eq_ok h
  · rfl
  · obtain ⟨⟨⟩, -, hparsed⟩ := bind_eq_ok.mp hread
    cases Except.ok.inj (hparse.symm.trans hparsed)
    rw [Change.content?_of_effect hwrite, applyHunks_inert happlied hinert, ← himage]
    rfl

theorem toBytes_of_loadImage (h : loadImage content = .ok image) : image.toBytes = content := by
  unfold loadImage at h
  split at h
  · cases h
  · split at h
    · rename_i himage
      cases h
      exact Image.toBytes_ofBytes? himage
    · cases h

theorem update_inert (hdiff : request.lineEdits = none)
    (hparse : Hunk.parse (Dialect.normalize request.diffText) = .ok hunks)
    (hinert : ∀ hunk ∈ hunks, hunk.Inert) (h : (update config request current).2 = .ok change) :
    change.content? = current := by
  unfold update at h
  split at h
  · cases h
  · split at h
    · cases h
    · rename_i himage
      rw [hdiff] at h
      exact updateByDiff_inert (toBytes_of_loadImage himage) hparse hinert h

/-! ## Requests -/

/-- **Outcomes are exclusive, and no update is idle.** A request that does not fail is refused,
deletes the file or writes it, and does only one of these; what is granted deletes the file just if
that was asked for. An update without a new name writes other bytes than there were. A diff that only
keeps lines is refused without a new name, and otherwise leaves every byte of the file. -/
theorem apply_exclusive (config : Config α) (request : Request) (current : Option ByteArray) :
    let report := apply config request current
    (report.fault? = none ↔
      [report.refusal?.isSome, report.isDelete, report.content?.isSome].count true = 1) ∧
    (∀ change, report.result = .ok change →
      (change.isDelete = true ↔ request.operation = .delete)) ∧
    (request.operation = .update → request.renameTo = none → ∀ change, report.result = .ok change →
      ∃ before after, current = some before ∧ change.content? = some after ∧ after ≠ before) ∧
    ∀ hunks, request.operation = .update → request.lineEdits = none →
      Hunk.parse (Dialect.normalize request.diffText) = .ok hunks →
      (∀ hunk ∈ hunks, hunk.Inert) →
      (request.renameTo = none → ∃ why, report.result = .error (.refused why)) ∧
      ∀ change, report.result = .ok change → change.content? = current := by
  intro report
  have hchanges (hupdate : request.operation = .update) (hrename : request.renameTo = none)
      (change : Change α) (hchange : report.result = .ok change) :
      ∃ before after, current = some before ∧ change.content? = some after ∧ after ≠ before := by
    obtain ⟨before, hbefore, after, hwrite, hne⟩ := update_writes (update_of_apply hupdate hchange)
    exact ⟨before, after, hbefore, Change.content?_of_effect hwrite, hne hrename⟩
  refine ⟨report.fault?_eq_none_iff, fun _ => isDelete_of_apply, hchanges, ?_⟩
  intro hunks hupdate hdiff hparse hinert
  have hsame (change : Change α) (hchange : report.result = .ok change) :
      change.content? = current :=
    update_inert hdiff hparse hinert (update_of_apply hupdate hchange)
  refine ⟨fun hrename => ?_, hsame⟩
  cases hresult : report.result with
  | ok change =>
    obtain ⟨before, after, hbefore, hafter, hne⟩ := hchanges hupdate hrename change hresult
    have hcontent := hsame change hresult
    rw [hbefore, hafter] at hcontent
    exact absurd (Option.some.inj hcontent) hne
  | error failure =>
    rcases apply_diff_failsOnly hdiff current failure hresult with ⟨why, rfl⟩ | ⟨-, hfailed⟩
    · exact ⟨why, rfl⟩
    · cases hparse.symm.trans hfailed

/-- A marked file with carriage returns and no last break, under a diff that keeps its lines: with a
new name and without, and under one that changes a line. -/
theorem apply_exclusive_kept :
    let config : Config Rat := Config.usual Score.decimal
    let text : Text := [Image.mark, 'a', '\r', '\n', 'b']
    (∃ change, (apply config
        { path := ['f'], diff := some [' ', 'a', '\n', ' ', 'b'], renameTo := some ['g'] }
        (some text.toBytes)).result = .ok change ∧ change.content? = some text.toBytes) ∧
      (∃ why, (apply config { path := ['f'], diff := some [' ', 'a', '\n', ' ', 'b'] }
        (some text.toBytes)).result = .error (.refused why)) ∧
      ∃ change after, (apply config { path := ['f'], diff := some ['-', 'a', '\n', '+', 'c'] }
        (some text.toBytes)).result = .ok change ∧ change.content? = some after ∧
          after ≠ text.toBytes := by
  intro config text
  let kept : Hunk := { edits := [⟨.keep, ['a']⟩, ⟨.keep, ['b']⟩] }
  let changed : Hunk := { edits := [⟨.remove, ['a']⟩, ⟨.add, ['c']⟩] }
  have hinert : ∀ hunk ∈ [kept], hunk.Inert := by decide
  let whole : Placement Rat := ⟨0, Score.one, .lines .exact, [(0, 0), (1, 1)], none, []⟩
  let top : Placement Rat := ⟨0, Score.one, .lines .exact, [(0, 0)], none, []⟩
  have hkept : applyHunks config (Image.ofMarkedText text).lines [kept] =
      .ok ([['a'], ['b']], [whole]) :=
    applyHunks_of_ascending [⟨1, kept, whole⟩] [] [(1, ⟨0, 2, [['a'], ['b']]⟩)]
      (by decide +kernel) (by decide) (by decide) (by decide +kernel) (by decide)
  have hchanged : applyHunks config (Image.ofMarkedText text).lines [changed] =
      .ok ([['c'], ['b']], [top]) :=
    applyHunks_of_ascending [⟨1, changed, top⟩] [] [(1, ⟨0, 1, [['c']]⟩)]
      (by decide +kernel) (by decide) (by decide) (by decide +kernel) (by decide)
  refine ⟨?_, ?_, ?_⟩
  · let request : Request :=
      { path := ['f'], diff := some [' ', 'a', '\n', ' ', 'b'], renameTo := some ['g'] }
    have hdiff : request.lineEdits = none := rfl
    obtain ⟨change, hchange, -⟩ := apply_diff_of_outcome hdiff rfl (by decide +kernel) (by decide +kernel)
      (List.cons_ne_nil _ _) (by decide) hkept (by decide)
    obtain ⟨-, -, -, hsame⟩ := apply_exclusive config request (some text.toBytes)
    exact ⟨change, hchange, (hsame [kept] rfl rfl (by decide +kernel) hinert).2 change hchange⟩
  · obtain ⟨-, -, -, hsame⟩ := apply_exclusive config
      { path := ['f'], diff := some [' ', 'a', '\n', ' ', 'b'] } (some text.toBytes)
    exact (hsame [kept] rfl rfl (by decide +kernel) hinert).1 rfl
  · let request : Request := { path := ['f'], diff := some ['-', 'a', '\n', '+', 'c'] }
    have hdiff : request.lineEdits = none := rfl
    obtain ⟨change, hchange, -⟩ := apply_diff_of_outcome hdiff rfl (by decide +kernel) (by decide +kernel)
      (List.cons_ne_nil _ _) (by decide) hchanged (by decide)
    obtain ⟨-, -, hchanges, -⟩ := apply_exclusive config request (some text.toBytes)
    obtain ⟨before, after, hbefore, hafter, hne⟩ := hchanges rfl rfl change hchange
    cases Option.some.inj hbefore
    exact ⟨change, after, hchange, hafter, hne⟩

end Engine
end LoosePatch
