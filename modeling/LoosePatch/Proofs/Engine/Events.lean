import LoosePatch.Proofs.Engine.Shape
import LoosePatch.Proofs.Log.Record
import LoosePatch.Proofs.Splice.Accepted
import LoosePatch.Proofs.Splice.Symmetry

/-!
The events of a request. One event closes it and says what came of it; before that are only those of
hunks that are all placed without a conflict, or that of line edits (`Engine.apply_events`).
-/

namespace LoosePatch

variable {α : Type}

def Located.event (x : Located α) : Event α :=
  .hunkLocated x.number x.placement.strategy x.placement.start x.placement.confidence

namespace Engine

variable [Score α] {config : Config α} {request : Request} {current : Option ByteArray}
  {content : ByteArray} {image : Image} {hunks : List Hunk} {located : List (Located α)}

/-- All hunks, numbered in diff order, have a place in the lines, and no two are in conflict. -/
structure Placed (config : Config α) (lines : List Text) (hunks : List Hunk)
    (located : List (Located α)) : Prop where
  numbers : located.map Located.number = List.range' 1 hunks.length
  hunks_eq : located.map Located.hunk = hunks
  locates : ∀ x ∈ located, x.hunk.locate config lines x.number = .ok x.placement
  agree : located.Pairwise Located.Agree

/-- The events before the closing one: none, one for line edits that could all be made, or one for
each hunk of a diff whose hunks are placed. -/
inductive Leads (config : Config α) (request : Request) (current : Option ByteArray) :
    List (Event α) → Prop where
  | quiet : Leads config request current []
  | lines {content : ByteArray} {image : Image} {edits : List LineEdit} {done : LineOutcome}
      (file : current = some content) (load : loadImage content = .ok image)
      (given : request.lineEdits = some edits) (made : applyLineEdits image.lines edits = .ok done) :
      Leads config request current [.lineEditsApplied edits.length done.firstChanged]
  | hunks {content : ByteArray} {image : Image} {hunks : List Hunk} {located : List (Located α)}
      (file : current = some content) (load : loadImage content = .ok image)
      (read : readHunks request = .ok hunks) (placed : Placed config image.lines hunks located) :
      Leads config request current (located.map Located.event)

theorem exists_placed {lines new : List Text} {placements : List (Placement α)}
    (h : applyHunks config lines hunks = .ok (new, placements)) :
    ∃ located, Placed config lines hunks located ∧ placements = located.map Located.placement := by
  obtain ⟨located, floors, splices, hlocated, hfloors, -, rfl, -⟩ := applyHunks_eq_ok_iff.mp h
  obtain ⟨hnumbers, hhunks, hplaced⟩ := locateAll_eq_ok hlocated
  exact ⟨located, ⟨hnumbers, hhunks, hplaced, Located.floors_isOk_iff.mp ⟨floors, hfloors⟩⟩, rfl⟩

/-- The events of placed hunks are numbered as the hunks are. -/
theorem Placed.locatedEvents_eq {lines : List Text} (h : Placed config lines hunks located) :
    locatedEvents (located.map Located.placement) = located.map Located.event := by
  have hnumbers : located.map Located.number = List.range' 1 located.length := by
    rw [h.numbers, ← h.hunks_eq, List.length_map]
  rw [locatedEvents, List.zipIdx_eq_zip_range', List.length_map, ← hnumbers, List.zip_map', List.map_map]
  rfl

/-! ## The operations -/

theorem updateByLines_leads (hfile : current = some content) (hload : loadImage content = .ok image)
    {edits : List LineEdit} (hedits : request.lineEdits = some edits) :
    Leads config request current (updateByLines request edits content image).1 := by
  unfold updateByLines
  split
  · exact .quiet
  · split
    · exact .quiet
    · rename_i hmade
      exact .lines hfile hload hedits hmade

theorem updateByHunks_leads (hfile : current = some content) (hload : loadImage content = .ok image)
    (hread : readHunks request = .ok hunks) :
    Leads config request current (updateByHunks config request hunks content image).1 := by
  unfold updateByHunks
  split
  · exact .quiet
  · rename_i happlied
    obtain ⟨located, hplaced, rfl⟩ := exists_placed happlied
    rw [hplaced.locatedEvents_eq]
    exact .hunks hfile hload hread hplaced

theorem updateByDiff_leads (hfile : current = some content) (hload : loadImage content = .ok image) :
    Leads config request current (updateByDiff config request content image).1 := by
  unfold updateByDiff
  split
  · exact .quiet
  · exact .quiet
  · rename_i hread
    exact updateByHunks_leads hfile hload hread

theorem update_leads : Leads config request current (update config request current).1 := by
  unfold update
  split
  · exact .quiet
  · split
    · exact .quiet
    · rename_i hload
      split
      · rename_i hedits
        exact updateByLines_leads rfl hload hedits
      · exact updateByDiff_leads rfl hload

theorem perform_leads : Leads config request current (perform config request current).1 := by
  unfold perform
  split
  · exact .quiet
  · split
    · exact .quiet
    · exact .quiet
    · exact update_leads

/-! ## Requests -/

/-- **Events say what came of a request.** A request that does not fail has one event that closes it:
that it was applied, with the figures of the change, just if it was granted, and else that it was
rejected, with the kind and the message of the refusal. Before it there are no events, or that of line
edits, or one for each hunk in diff order, and these only if all hunks are placed and no two are in
conflict. A log writes of each of these events in turn: what the event is, all that it says, and the
path and the operation of the request. -/
theorem apply_events (h : (apply config request current).fault? = none) :
    ∃ before last, (apply config request current).events = before ++ [last] ∧
      Leads config request current before ∧
      ((∃ change, (apply config request current).result = .ok change) ↔
        ∃ target hunks added removed fuzzy deleted,
          last = .applied target hunks added removed fuzzy deleted) ∧
      (∀ change, (apply config request current).result = .ok change →
        last = .applied request.targetPath change.hunks change.added change.removed change.fuzzy
          change.isDelete) ∧
      (∀ why, (apply config request current).result = .error (.refused why) →
        last = .rejected why.kind why.message) ∧
      ∀ s : Log.Session,
        (s.apply config request current).2.1 = ((before ++ [last]).map Log.ofEvent).flatMap
          (s.bind (Log.requestFields request)).written ∧
        ∀ event ∈ before ++ [last],
          let fields := (Log.ofEvent event).written (s.bind (Log.requestFields request)).bound
          Log.Tells fields event ∧ fields.get? "path" = some (.text (String.ofList request.path)) ∧
            fields.get? "op" = some (.text request.operation.name) := by
  have hevents : (apply config request current).events = (perform config request current).1 ++
      closing request (apply config request current).result := rfl
  cases hresult : (apply config request current).result with
  | ok change =>
    rw [hresult, closing] at hevents
    refine ⟨_, _, hevents, perform_leads, ?_, ?_, ?_, fun s => ⟨?_, fun event _ => ?_⟩⟩
    · exact iff_of_true ⟨change, rfl⟩ ⟨_, _, _, _, _, _, rfl⟩
    · rintro _ ⟨⟩
      rfl
    · rintro _ ⟨⟩
    · rw [Log.Session.apply_written, hevents]
    · exact Log.written_ofEvent s request event
  | error failure =>
    cases failure with
    | refused why =>
      rw [hresult, closing] at hevents
      refine ⟨_, _, hevents, perform_leads, ?_, ?_, ?_, fun s => ⟨?_, fun event _ => ?_⟩⟩
      · exact iff_of_false (by rintro ⟨_, ⟨⟩⟩) (by rintro ⟨_, _, _, _, _, _, ⟨⟩⟩)
      · rintro _ ⟨⟩
      · rintro _ ⟨⟩
        rfl
      · rw [Log.Session.apply_written, hevents]
      · exact Log.written_ofEvent s request event
    | fault what =>
      rw [Report.fault?, hresult] at h
      cases h

/-- A diff whose only hunk is placed and changes nothing: its event comes before the refusal. -/
theorem apply_events_unchanged :
    let config : Config Rat := Config.usual Score.decimal
    let request : Request := { path := ['f'], diff := some ['-', 'a', '\n', '+', 'a'] }
    let report := apply config request (some (Text.toBytes ['a', '\n']))
    report.fault? = none ∧ ∃ before last, report.events = before ++ [last] ∧
      Leads config request (some (Text.toBytes ['a', '\n'])) before ∧ before.length = 1 ∧
      last = .rejected .noOpChange "Patch makes no changes" := by
  intro config request report
  let hunk : Hunk := { edits := [⟨.remove, ['a']⟩, ⟨.add, ['a']⟩] }
  have hread : readHunks request = .ok [hunk] := by decide +kernel
  let placed : Placement Rat := ⟨0, Score.one, .lines .exact, [(0, 0)], none, []⟩
  have happlied : applyHunks config [['a']] [hunk] = .ok ([['a']], [placed]) :=
    applyHunks_of_ascending [⟨1, hunk, placed⟩] [] [(1, ⟨0, 1, [['a']]⟩)]
      (by decide +kernel) (by decide) (by decide) (by decide +kernel) (by decide)
  have hperform : perform config request (some (Text.toBytes ['a', '\n'])) =
      ([.hunkLocated 1 (.lines .exact) 0 Score.one], refuse .unchangedByPatch) := by
    rw [perform_diff rfl rfl (by decide +kernel) hread (List.cons_ne_nil _ _) (by decide)]
    have himage : Image.ofMarkedText ['a', '\n'] = { lines := [['a']] } := by decide
    simp only [updateByHunks, himage, happlied]
    rw [checkChanged, if_pos ⟨rfl, rfl⟩]
    rfl
  have hreport : report =
      ⟨[.hunkLocated 1 (.lines .exact) 0 Score.one, .rejected .noOpChange "Patch makes no changes"],
        refuse .unchangedByPatch⟩ := by
    simp only [report, apply, hperform]
    rfl
  have hfault : report.fault? = none := by rw [hreport]; rfl
  obtain ⟨before, last, hevents, hleads, -, -, hrejected, -⟩ := apply_events hfault
  refine ⟨hfault, before, last, hevents, hleads, ?_, hrejected _ (congrArg Report.result hreport)⟩
  have hlength := congrArg List.length ((congrArg Report.events hreport).symm.trans hevents)
  simpa using hlength.symm

end Engine
end LoosePatch
