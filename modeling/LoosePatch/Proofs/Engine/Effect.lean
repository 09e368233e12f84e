import LoosePatch.Proofs.Outcome
import LoosePatch.Engine

/-!
Which effect a granted request has: a deletion deletes its file and anything else writes one
(`Engine.apply_effect`), an update writes another file than it found unless it renames
(`Engine.update_writes`), and only an update renames (`Engine.update_of_renameTo`). What a granted
request has gone through is said once, by `Engine.apply_eq_ok` and `Engine.updateByDiff_eq_ok`.
-/

namespace LoosePatch

theorem Change.content?_of_effect {α : Type} {change : Change α} {after : ByteArray}
    (h : change.effect = .write after) : change.content? = some after := by
  rw [content?, h]

namespace Engine

variable {α : Type} {request : Request} {content : ByteArray} {image : Image} {change : Change α}

theorem create_writes (h : create request = .ok change) : ∃ after, change.effect = .write after := by
  obtain ⟨-, -, hchange⟩ := bind_eq_ok.mp h
  cases hchange
  exact ⟨_, rfl⟩

theorem checkChanged_eq_ok {before after : ByteArray} {why : Refusal} :
    checkChanged request before after why = .ok () ↔ (request.renameTo = none → after ≠ before) := by
  unfold checkChanged
  split
  · rename_i hsame
    exact iff_of_false (by rintro ⟨⟩) fun h => h hsame.2 (ByteArray.ext hsame.1)
  · rename_i hchanged
    exact iff_of_true rfl fun hnone heq => hchanged ⟨congrArg ByteArray.data heq, hnone⟩

/-- The change writes a file, and another one than `before` unless the request renames it. -/
def Writes (request : Request) (before : ByteArray) (change : Change α) : Prop :=
  ∃ after, change.effect = .write after ∧ (request.renameTo = none → after ≠ before)

theorem renamed_writes (hrename : request.renameTo.isSome = true) :
    Writes request content (renamed content : Change α) :=
  ⟨content, rfl, fun hnone => by rw [hnone] at hrename; cases hrename⟩

theorem updateByLines_writes {edits : List LineEdit}
    (h : (updateByLines request edits content image).2 = .ok change) :
    Writes request content change := by
  unfold updateByLines at h
  split at h
  · split at h
    · rename_i hrename
      cases h
      exact renamed_writes hrename
    · cases h
  · split at h
    · cases h
    · obtain ⟨⟨⟩, hchanged, hchange⟩ := bind_eq_ok.mp h
      cases hchange
      exact ⟨_, rfl, checkChanged_eq_ok.mp hchanged⟩

variable [Score α] {config : Config α} {current : Option ByteArray}

theorem updateByHunks_eq_ok {hunks : List Hunk}
    (h : (updateByHunks config request hunks content image).2 = .ok change) :
    ∃ lines placements, applyHunks config image.lines hunks = .ok (lines, placements) ∧
      change.effect = .write (image.withLines lines).toBytes ∧
      (request.renameTo = none → (image.withLines lines).toBytes ≠ content) := by
  unfold updateByHunks at h
  split at h
  · cases h
  · rename_i lines placements happlied
    obtain ⟨⟨⟩, hchanged, h⟩ := bind_eq_ok.mp h
    cases h
    exact ⟨lines, placements, happlied, rfl, checkChanged_eq_ok.mp hchanged⟩

/-- A granted diff only renames the file, or has hunks that all apply. -/
theorem updateByDiff_eq_ok (h : (updateByDiff config request content image).2 = .ok change) :
    ∃ hunks, readHunks request = .ok hunks ∧
      (hunks = [] ∧ request.renameTo.isSome = true ∧ renamed content = change ∨
        ∃ lines placements, applyHunks config image.lines hunks = .ok (lines, placements) ∧
          change.effect = .write (image.withLines lines).toBytes ∧
          (request.renameTo = none → (image.withLines lines).toBytes ≠ content)) := by
  unfold updateByDiff at h
  split at h
  · cases h
  · rename_i hread
    split at h
    · rename_i hrename
      exact ⟨[], hread, .inl ⟨rfl, hrename, Except.ok.inj h⟩⟩
    · cases h
  · rename_i hunks _ hread
    exact ⟨hunks, hread, .inr (updateByHunks_eq_ok h)⟩

theorem updateByDiff_writes (h : (updateByDiff config request content image).2 = .ok change) :
    Writes request content change := by
  obtain ⟨_, -, ⟨-, hrename, rfl⟩ | ⟨_, _, -, hwrite, hchanged⟩⟩ := updateByDiff_eq_ok h
  · exact renamed_writes hrename
  · exact ⟨_, hwrite, hchanged⟩

theorem update_writes (h : (update config request current).2 = .ok change) :
    ∃ before, current = some before ∧ Writes request before change := by
  unfold update at h
  split at h
  · cases h
  · rename_i before
    refine ⟨before, rfl, ?_⟩
    split at h
    · cases h
    · split at h
      · exact updateByLines_writes h
      · exact updateByDiff_writes h

/-- A granted request has passed its checks, and its operation has made the change. -/
theorem apply_eq_ok (h : (apply config request current).result = .ok change) :
    (do request.checkRename; request.checkContent : Outcome Unit) = .ok () ∧
      match request.operation with
      | .delete => delete current = change
      | .create => create request = .ok change
      | .update => (update config request current).2 = .ok change := by
  have hperform : (perform config request current).2 = .ok change := h
  unfold perform at hperform
  split at hperform
  · cases hperform
  · rename_i hchecks
    refine ⟨hchecks, ?_⟩
    cases hop : request.operation with
    | delete =>
      rw [hop] at hperform
      exact Except.ok.inj hperform
    | create =>
      rw [hop] at hperform
      exact hperform
    | update =>
      rw [hop] at hperform
      exact hperform

theorem update_of_apply (hupdate : request.operation = .update)
    (h : (apply config request current).result = .ok change) :
    (update config request current).2 = .ok change := by
  have hmade := (apply_eq_ok h).2
  rwa [hupdate] at hmade

/-- A deletion deletes, and anything else writes. -/
theorem apply_effect (h : (apply config request current).result = .ok change) :
    match request.operation with
    | .delete => change.effect = .delete
    | .create | .update => ∃ after, change.effect = .write after := by
  have hmade := (apply_eq_ok h).2
  cases hop : request.operation with
  | delete =>
    rw [hop] at hmade
    rw [← hmade]
    rfl
  | create =>
    rw [hop] at hmade
    exact create_writes hmade
  | update =>
    rw [hop] at hmade
    obtain ⟨-, -, after, hwrite, -⟩ := update_writes hmade
    exact ⟨after, hwrite⟩

/-- Only an update renames its file. -/
theorem update_of_renameTo (h : (apply config request current).result = .ok change)
    (hrename : request.renameTo ≠ none) : request.operation = .update := by
  obtain ⟨target, htarget⟩ := Option.ne_none_iff_exists'.mp hrename
  obtain ⟨⟨⟩, hcheck, -⟩ := bind_eq_ok.mp (apply_eq_ok h).1
  simp only [Request.checkRename, htarget] at hcheck
  split at hcheck
  · cases hcheck
  · rename_i hupdate
    exact not_not.mp hupdate

end Engine
end LoosePatch
