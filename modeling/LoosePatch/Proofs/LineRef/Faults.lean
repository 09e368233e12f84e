import LoosePatch.Engine
import LoosePatch.Proofs.LineRef.Order

/-!
Where making line edits can break down. An edit has to find the line it inserts at, or the one above
those it replaces (`TargetEdit.reach`). It does unless an edit made before replaces that line
(`TargetEdit.Undercuts`), so that line edits without such a pair are made or refused, and the engine
answers (`applyLineEdits_answers`).
-/

namespace LoosePatch

theorem LineRef.dropEcho_eq_ok {file : List Text} {first : Nat} (h : first - 1 ≤ file.length)
    (last : Nat) (new : List Text) : ∃ cut, dropEcho file first last new = .ok cut := by
  unfold dropEcho
  split
  · exact ⟨new, rfl⟩
  · by_cases hfirst : 2 ≤ first
    · rw [if_pos hfirst, fetch_of_lt (by omega : first - 2 < file.length)]
      exact ⟨_, rfl⟩
    · rw [if_neg hfirst]
      exact ⟨_, rfl⟩

theorem LineRef.dropEcho_failsOnly (file : List Text) (first last : Nat) (new : List Text) :
    FailsOnly (· = .fault .outsideList) (dropEcho file first last new) := by
  unfold dropEcho
  split
  · exact failsOnly_ok _
  · extract_lets cutBelow
    split
    · refine (fetch_failsOnly (by rfl) file _).bind fun _ _ => ?_
      exact (failsOnly_ok _).bind fun _ _ => failsOnly_ok _
    · exact (failsOnly_ok _).bind fun _ _ => failsOnly_ok _

namespace TargetEdit

/-- The number of the line that the edit has to find: the one it inserts at, or the one above those
it replaces. -/
def reach (e : TargetEdit) : Nat :=
  if e.target.isInsertion then e.target.first else e.target.first - 1

/-- The first edit is made before the other one and replaces the line that this one has to find. -/
def Undercuts (x y : TargetEdit) : Prop := le x y = true ∧ x.replaces y.reach = true

variable {file lines : List Text} {edits : List TargetEdit} {e x y : TargetEdit}
  {done done' : LineOutcome}

theorem Fits.reach_le_last (hfits : e.Fits file) : e.reach ≤ e.target.last := by
  have hle := hfits.first_le_last
  unfold reach
  split <;> omega

/-! ## One edit -/

theorem change_failsOnly (lines : List Text) (e : TargetEdit) :
    FailsOnly (· = .fault .outsideList) (change lines e) := by
  unfold change
  split
  · exact (fetch_failsOnly (by rfl) lines _).bind fun _ _ => failsOnly_ok _
  · exact (fetch_failsOnly (by rfl) lines _).bind fun _ _ => failsOnly_ok _
  all_goals exact (LineRef.dropEcho_failsOnly lines _ _ e.lines).bind fun _ _ => failsOnly_ok _

theorem step_failsOnly (done : LineOutcome) (e : TargetEdit) :
    FailsOnly (· = .fault .outsideList) (step done e) :=
  (change_failsOnly done.lines e).bind fun _ _ => failsOnly_ok _

theorem change_eq_of_reach (hpos : 1 ≤ e.target.first) (h : e.reach ≤ lines.length) :
    ∃ changed, change lines e = .ok changed := by
  cases htarget : e.target with
  | after ref | before ref =>
    simp only [reach, htarget, LineTarget.isInsertion, LineTarget.first, if_true] at hpos h
    simp only [change, htarget]
    rw [fetch_of_lt (by omega : ref.line - 1 < lines.length)]
    exact ⟨_, rfl⟩
  | single ref | range ref other =>
    have habove : e.target.first - 1 ≤ lines.length := by
      simpa [reach, LineTarget.isInsertion, htarget] using h
    obtain ⟨cut, hcut⟩ := LineRef.dropEcho_eq_ok habove e.target.last e.lines
    rw [htarget] at hcut
    simp only [change, htarget, hcut]
    exact ⟨_, rfl⟩

/-- An edit that undercuts no other one leaves the line that this one has to find. -/
theorem reach_le_of_step (hy : y.Fits file) (hle : le x y = true)
    (hclear : ¬ x.Undercuts y) (h : y.reach ≤ done.lines.length)
    (hstep : step done x = .ok done') : y.reach ≤ done'.lines.length := by
  obtain ⟨new, -, hlines, -, -⟩ := step_eq_ok hstep
  have hlength : done'.lines.length =
      min x.place done.lines.length + new.length + (done.lines.length - (x.place + x.count)) := by
    rw [hlines, List.length_append, List.length_append, List.length_take, List.length_drop]
  cases hinsertion : x.target.isInsertion with
  | true =>
    rw [count_of_isInsertion hinsertion] at hlength
    omega
  | false =>
    have hplace := place_of_replacement hinsertion
    have hlast := last_le_last hle
    have hreach := hy.reach_le_last
    have habove : ¬ x.target.first ≤ y.reach := by
      intro hfirst
      exact hclear ⟨hle, replaces_eq_true.mpr ⟨hinsertion, hfirst, by omega⟩⟩
    omega

/-! ## A run -/

theorem run_eq_ok (hfits : ∀ e ∈ edits, e.Fits file)
    (hsorted : edits.Pairwise fun x y => le x y = true)
    (hclear : ∀ x ∈ edits, ∀ y ∈ edits, ¬ x.Undercuts y)
    (hreach : ∀ e ∈ edits, e.reach ≤ done.lines.length) :
    ∃ done', edits.foldlM step done = .ok done' := by
  induction edits generalizing done with
  | nil => exact ⟨done, rfl⟩
  | cons x rest ih =>
    obtain ⟨hx, hsorted⟩ := List.pairwise_cons.mp hsorted
    have hxfits := hfits x List.mem_cons_self
    obtain ⟨changed, hchanged⟩ :=
      change_eq_of_reach hxfits.first_pos (hreach x List.mem_cons_self)
    obtain ⟨next, hnext⟩ : ∃ next, step done x = .ok next := by
      rw [step, hchanged]
      exact ⟨_, rfl⟩
    have hreach' : ∀ y ∈ rest, y.reach ≤ next.lines.length := by
      intro y hy
      have hmem := List.mem_cons_of_mem x hy
      exact reach_le_of_step (hfits y hmem) (hx y hy)
        (hclear x List.mem_cons_self y hmem) (hreach y hmem) hnext
    rw [List.foldlM_cons, hnext]
    exact ih (fun y hy => hfits y (List.mem_cons_of_mem x hy)) hsorted
      (fun y hy z hz => hclear y (List.mem_cons_of_mem x hy) z (List.mem_cons_of_mem x hz)) hreach'

theorem mergeSort_run_eq_ok (hfits : ∀ e ∈ edits, e.Fits file)
    (hclear : ∀ x ∈ edits, ∀ y ∈ edits, ¬ x.Undercuts y) :
    ∃ done, (edits.mergeSort le).foldlM step { lines := file } = .ok done := by
  have hmem {e : TargetEdit} : e ∈ edits.mergeSort le ↔ e ∈ edits := List.mem_mergeSort
  have hreach : ∀ e ∈ edits.mergeSort le, e.reach ≤ file.length := by
    intro e he
    have he' := hfits e (hmem.mp he)
    exact Nat.le_trans he'.reach_le_last he'.last_le
  exact run_eq_ok (fun e he => hfits e (hmem.mp he)) (pairwise_mergeSort_le edits)
    (fun x hx y hy => hclear x (hmem.mp hx) y (hmem.mp hy)) hreach

end TargetEdit

/-- The failures of line edits: refusals of three kinds, a number in a reference that is too long, and
a look-up outside the list if one of the edits undercuts another one. -/
theorem applyLineEdits_failsOnly (file : List Text) (edits : List LineEdit) :
    FailsOnly (fun failure => failure.IsRefusalOf LineEdit.refusalKinds ∨
        (∃ g ∈ edits, failure.IsLongNumber g.src) ∨
        failure = .fault .outsideList ∧ ∃ read, edits.mapM LineEdit.read = .ok read ∧
          ∃ x ∈ read, ∃ y ∈ read, x.Undercuts y)
      (applyLineEdits file edits) := by
  refine FailsOnly.bind ?_ fun read hread => FailsOnly.bind ?_ fun _ hcheck => ?_
  · refine (LineEdit.mapM_read_failsOnly edits).imp fun failure hfailure => ?_
    exact hfailure.imp Failure.IsRefusalOf.of_formKinds Or.inl
  · exact (TargetEdit.checkAll_failsOnly file read).imp fun _ => Or.inl
  · intro failure h
    have hfault := FailsOnly.foldlM (fun done e _ => TargetEdit.step_failsOnly done e) _ failure h
    refine .inr (.inr ⟨hfault, read, hread, ?_⟩)
    by_contra hclear
    push Not at hclear
    obtain ⟨done, hdone⟩ :=
      TargetEdit.mergeSort_run_eq_ok (TargetEdit.fits_of_read hread hcheck) hclear
    rw [hdone] at h
    cases h

/-! ## The engine -/

namespace Engine

variable {α : Type}

theorem loadImage_failsOnly (content : ByteArray) :
    FailsOnly Failure.IsRefusal (loadImage content) := by
  unfold loadImage
  split
  · exact failsOnly_error ⟨_, rfl⟩
  · split
    · exact failsOnly_ok _
    · exact failsOnly_error ⟨_, rfl⟩

theorem checkChanged_failsOnly (request : Request) (before after : ByteArray) (why : Refusal) :
    FailsOnly Failure.IsRefusal (checkChanged request before after why) := by
  unfold checkChanged
  split
  · exact refuse_failsOnly why
  · exact failsOnly_ok _

theorem updateByLines_failsOnly (request : Request) (edits : List LineEdit) (content : ByteArray)
    (image : Image) :
    FailsOnly (fun failure => failure.IsRefusal ∨
        applyLineEdits image.lines edits = .error failure)
      (updateByLines (α := α) request edits content image).2 := by
  unfold updateByLines
  split
  · dsimp only
    split
    · exact failsOnly_ok _
    · exact failsOnly_error (.inl ⟨_, rfl⟩)
  · split
    · rename_i failure hfailure
      exact failsOnly_error (.inr hfailure)
    · refine FailsOnly.bind ?_ fun _ _ => failsOnly_ok _
      exact (checkChanged_failsOnly _ _ _ _).imp fun _ => .inl

theorem checks_failsOnly (request : Request) :
    FailsOnly Failure.IsRefusal
      (do request.checkRename; request.checkContent : Outcome Unit) := by
  refine FailsOnly.bind ?_ fun _ _ => ?_
  · unfold Request.checkRename
    split
    · exact failsOnly_ok _
    · split
      · exact failsOnly_error ⟨_, rfl⟩
      · extract_lets target
        split
        · exact failsOnly_error ⟨_, rfl⟩
        · split
          · exact failsOnly_error ⟨_, rfl⟩
          · exact failsOnly_ok _
  · unfold Request.checkContent
    split
    · exact failsOnly_error ⟨_, rfl⟩
    · split
      · exact failsOnly_error ⟨_, rfl⟩
      · split
        · exact failsOnly_error ⟨_, rfl⟩
        · exact failsOnly_ok _

/-- Only an update gets to its line edits. -/
theorem operation_of_checks {request : Request} {edits : List LineEdit}
    (hedits : request.lineEdits = some edits)
    (h : (do request.checkRename; request.checkContent : Outcome Unit) = .ok ()) :
    request.operation = .update := by
  obtain ⟨⟨⟩, -, hcontent⟩ := bind_eq_ok.mp h
  unfold Request.checkContent at hcontent
  split at hcontent
  · cases hcontent
  · rename_i hupdate
    simpa [hedits] using hupdate

theorem apply_failsOnly [Score α] (config : Config α) (request : Request) {edits : List LineEdit}
    (hedits : request.lineEdits = some edits) (current : Option ByteArray) :
    FailsOnly (fun failure => failure.IsRefusal ∨ ∃ content image,
        current = some content ∧ loadImage content = .ok image ∧
          applyLineEdits image.lines edits = .error failure)
      (apply config request current).result := by
  show FailsOnly _ (perform config request current).2
  unfold perform
  split
  · rename_i failure hfailure
    exact failsOnly_error (.inl (checks_failsOnly request failure hfailure))
  · rename_i hchecks
    rw [operation_of_checks hedits hchecks]
    dsimp only
    cases current with
    | none => exact failsOnly_error (.inl ⟨_, rfl⟩)
    | some content =>
      cases hload : loadImage content with
      | error failure =>
        simp only [update, hload]
        exact failsOnly_error (.inl (loadImage_failsOnly content failure hload))
      | ok image =>
        simp only [update, hload, hedits]
        refine (updateByLines_failsOnly request edits content image).imp fun failure h => ?_
        exact h.imp_right fun happly => ⟨content, image, rfl, hload, happly⟩

end Engine

/-- Line edits are made, or refused for their form, their lines or their hashes; or a reference holds
a number too long to be read; or an edit looks for a line outside the list, which takes another edit
that was made before and replaces this line. In all other cases the engine answers the request. -/
theorem applyLineEdits_answers {α : Type} [Score α] (edits : List LineEdit) :
    (∀ file, (∃ done, applyLineEdits file edits = .ok done) ∨
      (∃ why, applyLineEdits file edits = .error (.refused why) ∧
        why.kind ∈ LineEdit.refusalKinds) ∨
      (∃ digits, applyLineEdits file edits = .error (.fault (.numberTooLong digits)) ∧
        ∃ g ∈ edits, g.src.HoldsLong digits) ∨
      (applyLineEdits file edits = .error (.fault .outsideList) ∧
        ∃ read, edits.mapM LineEdit.read = .ok read ∧ ∃ x ∈ read, ∃ y ∈ read, x.Undercuts y)) ∧
    ∀ (config : Config α) (request : Request) (current : Option ByteArray),
      (Engine.apply config { request with lineEdits := some edits } current).fault? = none ∨
      (∃ digits, ∃ g ∈ edits, g.src.HoldsLong digits) ∨
      ∃ read, edits.mapM LineEdit.read = .ok read ∧ ∃ x ∈ read, ∃ y ∈ read, x.Undercuts y := by
  constructor
  · intro file
    cases happly : applyLineEdits file edits with
    | ok done => exact .inl ⟨done, rfl⟩
    | error failure =>
      rcases applyLineEdits_failsOnly file edits failure happly with
        ⟨why, rfl, hkind⟩ | ⟨g, hg, digits, rfl, hlong⟩ | ⟨rfl, hread⟩
      · exact .inr (.inl ⟨why, rfl, hkind⟩)
      · exact .inr (.inr (.inl ⟨digits, rfl, g, hg, hlong⟩))
      · exact .inr (.inr (.inr ⟨rfl, hread⟩))
  · intro config request current
    let lineRequest : Request := { request with lineEdits := some edits }
    show (Engine.apply config lineRequest current).fault? = none ∨ _
    cases hresult : (Engine.apply config lineRequest current).result with
    | ok change => exact .inl (by simp only [Report.fault?, hresult])
    | error failure =>
      rcases Engine.apply_failsOnly config lineRequest rfl current failure hresult with
        ⟨why, rfl⟩ | ⟨content, image, -, -, happly⟩
      · exact .inl (by simp only [Report.fault?, hresult])
      · rcases applyLineEdits_failsOnly image.lines edits failure happly with
          ⟨why, rfl, -⟩ | ⟨g, hg, digits, -, hlong⟩ | ⟨-, hread⟩
        · exact .inl (by simp only [Report.fault?, hresult])
        · exact .inr (.inl ⟨digits, g, hg, hlong⟩)
        · exact .inr (.inr hread)

open TargetEdit in
/-- Inserting before a line that is deleted looks for the line when the file has none left. -/
theorem applyLineEdits_insert_before_deleted :
    applyLineEdits [['a']] [⟨"1:03a9".toList, []⟩, ⟨"..1:03a9".toList, ['x']⟩] =
      .error (.fault .outsideList) := by
  let delete : TargetEdit := ⟨.single ⟨1, "03a9".toList⟩, []⟩
  let before : TargetEdit := ⟨.before ⟨1, "03a9".toList⟩, [['x']]⟩
  have ha : LineRef.hashOf 1 ['a'] = "03a9".toList := by decide +kernel
  have hread : [(⟨"1:03a9".toList, []⟩ : LineEdit), ⟨"..1:03a9".toList, ['x']⟩].mapM LineEdit.read =
      .ok [delete, before] := by
    decide +kernel
  have hcurrent : ∀ e ∈ [delete, before], e.Current [['a']] := by
    intro e he
    rcases List.mem_pair.mp he with rfl | rfl
    · exact ⟨⟨by decide, by decide, by decide⟩, by simp [delete, LineTarget.refs, ha], by decide⟩
    · exact ⟨⟨by decide, by decide, by decide⟩, by simp [before, LineTarget.refs, ha], by decide⟩
  have hrun : [delete, before].mergeSort le = [delete, before] :=
    List.mergeSort_of_pairwise (by decide)
  rw [applyLineEdits_of_current hread hcurrent, hrun]
  rfl

end LoosePatch
