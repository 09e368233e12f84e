import LoosePatch.Proofs.Tool.Plan

/-!
The edit tool does everything or nothing (`edit_all_or_nothing`).
-/

namespace LoosePatch.Tool

variable {α : Type} [Score α] (config : Config α) {ws : Workspace} {args : Fields} {params : Params}

/-- The answer tells of a change. -/
def Answer.Granted (answer : Answer) : Prop :=
  ∃ fields, answer = .record fields ∧ fields.get? "status" = some (.text "ok")

theorem Plan.granted_answer (plan : Plan α) (dryRun : Bool) :
    (Answer.record (plan.answer dryRun)).Granted :=
  ⟨_, rfl, rfl⟩

theorem Stop.not_granted_answer (stop : Stop) : ¬stop.answer.Granted := by
  rintro ⟨fields, hanswer, hstatus⟩
  cases stop with
  | failed why =>
    cases hanswer
    simp [Failed.fields, Fields.get?] at hstatus
  | broken why => cases hanswer

section Understood

variable {config} {plan : Plan α} {obstacle : Obstacle} {why : Stop} {fields : Fields}
  {after : Workspace} (hcall : isCall editArguments args = true)
  (hread : Params.read args = .ok params)

include hcall hread

theorem edit_of_run_ok (hrun : run config ws params = (.ok fields, after)) :
    edit config ws args = (.record fields, after) := by
  rw [edit, hcall, hread]
  simp only [hrun]
  rfl

theorem edit_of_run_error (hrun : run config ws params = (.error why, after)) :
    edit config ws args = (why.answer, after) := by
  rw [edit, hcall, hread]
  simp only [hrun]
  rfl

theorem edit_of_plan_error (hplan : Tool.plan config ws params = .error why) :
    edit config ws args = (why.answer, ws) :=
  edit_of_run_error hcall hread (by simp only [run, hplan])

variable (hplan : Tool.plan config ws params = .ok plan)

include hplan

theorem edit_dry (hdry : params.dryRun = true) :
    edit config ws args = (.record (plan.answer true), ws) :=
  edit_of_run_ok hcall hread (by simp only [run, hplan, hdry, if_true])

variable (hdry : params.dryRun = false)

include hdry

theorem edit_of_commit_ok (hcommit : plan.commit.on ws = (.ok (), after)) :
    edit config ws args = (.record (plan.answer false), after) :=
  edit_of_run_ok hcall hread
    (by simp only [run, hplan, hdry, hcommit, Bool.false_eq_true, if_false])

theorem edit_of_commit_error (hcommit : plan.commit.on ws = (.error obstacle, after)) :
    edit config ws args = ((plan.failure obstacle).answer, after) :=
  edit_of_run_error hcall hread
    (by simp only [run, hplan, hdry, hcommit, Bool.false_eq_true, if_false])

/-- A call that is not dry makes its change, or fails at the directories above the file and has made
none, or fails at a name. -/
theorem edit_real (tree : ws.IsTree) :
    (∃ after, edit config ws args = (.record (plan.answer false), after) ∧ plan.Performed ws after) ∨
    (∃ obstacle, ws.obstacle? plan.directory = some obstacle ∧
      edit config ws args = ((plan.failure obstacle).answer, ws)) ∨
    ∃ name after, edit config ws args = ((plan.failure (.nameTooLong name)).answer, after) := by
  have hended := plan.commit_on tree (ready_of_plan hplan)
  generalize hcommit : plan.commit.on ws = result at hended
  cases hended with
  | done clear h => exact .inl ⟨_, edit_of_commit_ok hcall hread hplan hdry hcommit, h⟩
  | blocked h => exact .inr (.inl ⟨_, h, edit_of_commit_error hcall hread hplan hdry hcommit⟩)
  | tooLong name after =>
    exact .inr (.inr ⟨name, after, edit_of_commit_error hcall hread hplan hdry hcommit⟩)

end Understood

/-- A workspace of one file, `a`. -/
def oneFile : Workspace where
  root := ['/', 'w']
  entries := [([['a']], .file ⟨#[120, 10]⟩ 0o640)]

theorem oneFile_no_links : ∀ entry ∈ oneFile.entries, ∀ target, entry.2 ≠ .link target := by
  rintro entry hentry target hlink
  cases List.mem_singleton.mp hentry
  cases hlink

section OneFile

/-- The settings as they are unless they are changed. -/
abbrev usual : Config Rat := Config.usual (Score.decimal : Nat → Nat → Rat)

def moveParams : Params :=
  { path := ['a'], operation := .update, diff := none, rename := some ['b', '/', 'c'],
    dryRun := false, edits := none }

theorem resolvePath_source : resolvePath oneFile moveParams.path = .ok (['a'], [['a']]) :=
  resolvePath_of_no_links oneFile_no_links (by decide) (by decide) (by decide)

theorem resolveRename_goal :
    resolveRename oneFile moveParams = .ok (some (['b', '/', 'c'], [['b'], ['c']])) := by
  have hgoal : resolvePath oneFile ['b', '/', 'c'] = .ok (['b', '/', 'c'], [['b'], ['c']]) :=
    resolvePath_of_no_links oneFile_no_links (by decide) (by decide) (by decide)
  simp only [resolveRename, moveParams, hgoal, Except.map]

def movePlan : Plan Rat :=
  { operation := .update, source := (['a'], [['a']]),
    destination := some (['b', '/', 'c'], [['b'], ['c']]), change := Engine.renamed ⟨#[120, 10]⟩ }

theorem plan_move : Tool.plan usual oneFile moveParams = .ok movePlan := by
  have hchange : (Engine.apply usual { path := ['a'], renameTo := some ['b', '/', 'c'] }
      (some ⟨#[120, 10]⟩)).result = .ok (Engine.renamed ⟨#[120, 10]⟩) := by
    have hchecks : (do
        Request.checkRename { path := ['a'], renameTo := some ['b', '/', 'c'] }
        Request.checkContent { path := ['a'], renameTo := some ['b', '/', 'c'] } : Outcome Unit) =
          .ok () := by decide +kernel
    have hload : Engine.loadImage ⟨#[120, 10]⟩ = .ok { lines := [['x']] } := by decide +kernel
    have hhunks : Engine.readHunks { path := ['a'], renameTo := some ['b', '/', 'c'] } = .ok [] := by
      decide +kernel
    simp only [Engine.apply, Engine.perform, hchecks, Engine.update, hload, Engine.updateByDiff,
      hhunks, Option.isSome_some, if_true]
  have hpayload : checkPayload usual moveParams = .ok () := rfl
  have hcurrent : readCurrent oneFile .update (['a'], [['a']]) = .ok (some ⟨#[120, 10]⟩) := rfl
  rw [Tool.plan, hpayload, resolvePath_source, resolveRename_goal]
  simp only [bind, Except.bind, moveParams, hcurrent, changeFor, Params.request, Option.map_some,
    hchange]
  rfl

/-- The workspace after the move. -/
def movedFile : Workspace where
  root := ['/', 'w']
  entries := [([['b']], .directory), ([['b'], ['c']], .file ⟨#[120, 10]⟩ 0o640)]

theorem commit_move : movePlan.commit.on oneFile = (.ok (), movedFile) := by
  rfl

end OneFile

end LoosePatch.Tool
