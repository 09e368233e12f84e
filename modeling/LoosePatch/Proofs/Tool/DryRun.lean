import LoosePatch.Proofs.Fields
import LoosePatch.Proofs.Tool.Edit

/-!
What a dry run says of the real one: all but whether the directories above the file can be made, and
whether all names are short enough (`dry_run_predicts`).
-/

namespace LoosePatch

namespace Tool

/-- Whether something is a call depends on the names of its arguments alone. -/
theorem isCall_put (known : List String) {key : String} (h : key ≠ "path") (value value' : Value)
    (args : Fields) :
    isCall known (args.put key value) = isCall known (args.put key value') := by
  have hnames (fields : Fields) : isCall known fields =
      ((fields.get? "path").isSome && (fields.map Prod.fst).all known.contains) := by
    rw [isCall, List.all_map]
    rfl
  rw [hnames, hnames, Fields.keys_put key value value', Fields.get?_put_of_ne h.symm,
    Fields.get?_put_of_ne h.symm]

/-- The other parameters are read as they are in a dry run. -/
theorem Params.read_put_dryRun (b b' : Bool) (args : Fields) :
    Params.read (args.put "dry_run" (.bool b')) =
      (Params.read (args.put "dry_run" (.bool b))).map fun params =>
        { params with dryRun := b' } := by
  have hne (key : String) (h : key ≠ "dry_run") (c : Bool) :
      (args.put "dry_run" (.bool c)).get? key = args.get? key := Fields.get?_put_of_ne h _ _
  simp only [Params.read, Fields.get?_put_self, hne "path" (by decide), hne "op" (by decide),
    hne "diff" (by decide), hne "rename" (by decide), hne "edits" (by decide), Option.getD_some,
    readBool, boolOf?]
  split <;> rfl

/-! ## Answers -/

/-- The answer without one of its fields. -/
def Answer.without (key : String) : Answer → Answer
  | .record fields => .record (fields.drop key)
  | other => other

variable {α : Type} [Score α] (config : Config α) {ws : Workspace} {plan : Plan α}
  {obstacle : Obstacle}

theorem Plan.answer_without (plan : Plan α) (b b' : Bool) :
    (Answer.record (plan.answer b)).without "dry_run" =
      (Answer.record (plan.answer b')).without "dry_run" := by
  simp [Answer.without, Plan.answer, Fields.drop]

omit [Score α] in
/-- Only a file that comes to a place where nothing is can be kept from it. -/
theorem Plan.of_obstacle (tree : ws.IsTree) (ready : plan.Ready ws)
    (h : ws.obstacle? plan.directory = some obstacle) :
    (plan.operation = .create ∨ plan.destination ≠ none) ∧
      ws.obstacle? plan.target.2.dropLast = some obstacle := by
  cases ready with
  | create free writes =>
    simp only [Plan.directory, writes] at h
    exact ⟨.inl rfl, h⟩
  | delete file deletes =>
    simp only [Plan.directory, deletes] at h
    cases h
  | @update source destination change old content mode file writes free =>
    simp only [Plan.directory, writes] at h
    refine ⟨.inr ?_, h⟩
    rintro rfl
    have hclear : ws.obstacle? source.2.dropLast = none := by
      refine Workspace.obstacle?_eq_none.mpr fun p hp => .inr ?_
      by_cases hnil : p = []
      · rw [hnil, Workspace.node?_nil]
      · have hroot : source.2 ≠ [] := by
          intro hroot
          rw [hroot] at file
          cases file
        exact tree.above_eq (by rw [file]; simp)
          ((Workspace.mem_above_iff_dropLast hroot).mpr ⟨hnil, hp⟩)
    exact absurd (h.symm.trans hclear) (by simp)

/-- A call that is not understood is answered in the same way, dry or not. -/
theorem edit_put_of_not_read {args : Fields}
    (h : ∀ params, isCall editArguments (args.put "dry_run" (.bool false)) = true →
      Params.read (args.put "dry_run" (.bool false)) ≠ .ok params) :
    edit config ws (args.put "dry_run" (.bool true)) =
      edit config ws (args.put "dry_run" (.bool false)) := by
  have hcall : isCall editArguments (args.put "dry_run" (.bool true)) =
      isCall editArguments (args.put "dry_run" (.bool false)) :=
    isCall_put editArguments (by decide) _ _ args
  by_cases hunderstood : isCall editArguments (args.put "dry_run" (.bool false)) = true
  · cases hread : Params.read (args.put "dry_run" (.bool false)) with
    | error problems =>
      have hdry := Params.read_put_dryRun false true args
      have hpath : pathArgument (args.put "dry_run" (.bool true)) =
          pathArgument (args.put "dry_run" (.bool false)) := by
        rw [pathArgument, pathArgument, Fields.get?_put_of_ne (by decide),
          Fields.get?_put_of_ne (by decide)]
      rw [hread] at hdry
      simp only [edit, hcall, hunderstood, hread, hdry, hpath, Except.map]
    | ok params => exact absurd hread (h params hunderstood)
  · rw [Bool.not_eq_true] at hunderstood
    simp only [edit, hcall, hunderstood]
    rfl

/-- What a call comes to, dry and not, once it is understood. -/
theorem edit_put_of_read (tree : ws.IsTree) {args : Fields} {params : Params}
    (hcall : isCall editArguments (args.put "dry_run" (.bool false)) = true)
    (hread : Params.read (args.put "dry_run" (.bool false)) = .ok params) :
    let dry := edit config ws (args.put "dry_run" (.bool true))
    let real := edit config ws (args.put "dry_run" (.bool false))
    dry = real ∨ ∃ plan, Tool.plan config ws params = .ok plan ∧
      dry.1 = .record (plan.answer true) ∧ (real.1 = .record (plan.answer false) ∨
        (∃ obstacle, ws.obstacle? plan.directory = some obstacle ∧
          real = ((plan.failure obstacle).answer, ws)) ∨
        ∃ name after, real = ((plan.failure (.nameTooLong name)).answer, after)) := by
  intro dry real
  have hcall' : isCall editArguments (args.put "dry_run" (.bool true)) = true :=
    (isCall_put editArguments (by decide) _ _ args).trans hcall
  have hread' : Params.read (args.put "dry_run" (.bool true)) = .ok { params with dryRun := true } := by
    rw [Params.read_put_dryRun false true, hread]
    rfl
  have hwet : params.dryRun = false := by
    have hsame := Params.read_put_dryRun false false args
    rw [hread] at hsame
    exact congrArg Params.dryRun (Except.ok.inj hsame)
  -- what a call is about to do does not depend on whether it is dry
  have hplan' : Tool.plan config ws { params with dryRun := true } = Tool.plan config ws params := rfl
  cases hplan : Tool.plan config ws params with
  | error why =>
    exact .inl ((edit_of_plan_error hcall' hread' (hplan'.trans hplan)).trans
      (edit_of_plan_error hcall hread hplan).symm)
  | ok plan =>
    refine .inr ⟨plan, rfl, congrArg Prod.fst (edit_dry hcall' hread' (hplan'.trans hplan) rfl), ?_⟩
    rcases edit_real hcall hread hplan hwet tree with ⟨after, hedit, -⟩ | hblocked | hlong
    exacts [.inl (congrArg Prod.fst hedit), .inr (.inl hblocked), .inr (.inr hlong)]

/-- **A dry run predicts the real one, as far as it goes.** The answers differ in nothing but the
field that says whether the run was dry, except where the real one fails to write: it fails at the
directories above a file that is created or renamed, and leaves the workspace as it is, or at a name
that is too long. The dry run tries neither. Whatever is granted in the end was granted by the dry
run. -/
theorem dry_run_predicts (tree : ws.IsTree) (args : Fields) :
    let dry := edit config ws (args.put "dry_run" (.bool true))
    let real := edit config ws (args.put "dry_run" (.bool false))
    (real.1.Granted → dry.1.Granted) ∧
    (dry.1.without "dry_run" = real.1.without "dry_run" ∨
      ∃ params plan obstacle, Params.read (args.put "dry_run" (.bool false)) = .ok params ∧
        Tool.plan config ws params = .ok plan ∧ dry.1 = .record (plan.answer true) ∧
        real.1 = (plan.failure obstacle).answer ∧
        ((plan.operation = .create ∨ plan.destination ≠ none) ∧
          ws.obstacle? plan.target.2.dropLast = some obstacle ∧ real.2 = ws ∨
        ∃ name, obstacle = .nameTooLong name)) := by
  intro dry real
  have hsame (h : dry = real) : (real.1.Granted → dry.1.Granted) ∧
      dry.1.without "dry_run" = real.1.without "dry_run" := by
    rw [h]
    exact ⟨id, rfl⟩
  by_cases hunderstood : ∃ params,
      isCall editArguments (args.put "dry_run" (.bool false)) = true ∧
        Params.read (args.put "dry_run" (.bool false)) = .ok params
  · obtain ⟨params, hcall, hread⟩ := hunderstood
    rcases edit_put_of_read config tree hcall hread with heq | ⟨plan, hplan, hdry, hreal⟩
    · exact (hsame heq).imp_right .inl
    · refine ⟨fun _ => hdry ▸ plan.granted_answer true, ?_⟩
      rcases hreal with hreal | ⟨obstacle, hobstacle, hreal⟩ | ⟨name, after, hreal⟩
      · left
        rw [show dry.1 = _ from hdry, show real.1 = _ from hreal]
        exact plan.answer_without true false
      · obtain ⟨hcomes, habove⟩ := Plan.of_obstacle tree (ready_of_plan hplan) hobstacle
        exact .inr ⟨params, plan, obstacle, hread, hplan, hdry, congrArg Prod.fst hreal,
          .inl ⟨hcomes, habove, congrArg Prod.snd hreal⟩⟩
      · exact .inr ⟨params, plan, _, hread, hplan, hdry, congrArg Prod.fst hreal, .inr ⟨name, rfl⟩⟩
  · push Not at hunderstood
    exact (hsame (edit_put_of_not_read config hunderstood)).imp_right .inl

section OneFile

/-- A dry run of a move, which is granted. -/
theorem dry_run_predicts_move :
    let args : Fields := [("path", .text "a"), ("rename", .text "b/c")]
    oneFile.IsTree ∧ (edit usual oneFile (args.put "dry_run" (.bool false))).1.Granted ∧
      (edit usual oneFile (args.put "dry_run" (.bool true))).1.Granted := by
  intro args
  have tree : oneFile.IsTree := by decide
  have hread : Params.read (args.put "dry_run" (.bool false)) = .ok moveParams := rfl
  have hgranted : (edit usual oneFile (args.put "dry_run" (.bool false))).1.Granted := by
    rw [edit_of_commit_ok (by decide) hread plan_move rfl commit_move]
    exact movePlan.granted_answer false
  exact ⟨tree, hgranted, (dry_run_predicts usual tree args).1 hgranted⟩

/-! ## A file in the way -/

def belowArgs : Fields := [("path", .text "a/b"), ("op", .text "create"), ("diff", .text "+x")]

def belowParams : Params :=
  { path := ['a', '/', 'b'], operation := .create, diff := some ['+', 'x'], rename := none,
    dryRun := false, edits := none }

theorem read_below : Params.read (belowArgs.put "dry_run" (.bool false)) = .ok belowParams := rfl

theorem dry_below : Params.read (belowArgs.put "dry_run" (.bool true)) =
    .ok { belowParams with dryRun := true } := rfl

def belowChange : Change Rat := { effect := .write (Text.toBytes ['x', '\n']), added := 1 }

theorem apply_below : (Engine.apply usual
    { path := ['a', '/', 'b'], operation := .create, diff := some ['+', 'x'] } none).result =
      .ok belowChange := by
  have hchecks : (do
      Request.checkRename { path := ['a', '/', 'b'], operation := .create, diff := some ['+', 'x'] }
      Request.checkContent
        { path := ['a', '/', 'b'], operation := .create, diff := some ['+', 'x'] } : Outcome Unit) =
        .ok () := by decide +kernel
  have hcheck : Dialect.checkSingleFile ['+', 'x'] (some ['a', '/', 'b']) = .ok () := by
    decide +kernel
  have htext : Dialect.newFileText ['+', 'x'] = ['x', '\n'] := by decide +kernel
  simp only [Engine.apply, Engine.perform, hchecks, Engine.create, Request.diffText,
    Option.getD_some, hcheck, htext]
  rfl

def belowPlan : Plan Rat :=
  { operation := .create, source := (['a', '/', 'b'], [['a'], ['b']]), destination := none,
    change := belowChange }

theorem plan_below : Tool.plan usual oneFile belowParams = .ok belowPlan := by
  have hsource : resolvePath oneFile ['a', '/', 'b'] = .ok (['a', '/', 'b'], [['a'], ['b']]) :=
    resolvePath_of_no_links oneFile_no_links (by decide) (by decide) (by decide)
  have hpayload : checkPayload usual belowParams = .ok () := rfl
  have hcurrent : readCurrent oneFile .create (['a', '/', 'b'], [['a'], ['b']]) = .ok none := rfl
  rw [Tool.plan, hpayload, resolveRename]
  simp only [bind, Except.bind, belowParams, hsource, hcurrent, changeFor, Params.request,
    Option.map_none, apply_below]
  rfl

theorem commit_below : belowPlan.commit.on oneFile =
    (.error (.fileExists ['/', 'w', '/', 'a']), oneFile) := by
  rfl

/-- A dry run of the creation of `a/b` is granted, though `a` is a file; the real run is not. -/
theorem dry_run_overlooks_file :
    oneFile.IsTree ∧ (edit usual oneFile (belowArgs.put "dry_run" (.bool true))).1.Granted ∧
      ¬(edit usual oneFile (belowArgs.put "dry_run" (.bool false))).1.Granted := by
  refine ⟨by decide, ?_, ?_⟩
  · rw [edit_dry (by decide) dry_below plan_below rfl]
    exact belowPlan.granted_answer true
  · rw [edit_of_commit_error (by decide) read_below plan_below rfl commit_below]
    exact (belowPlan.failure (.fileExists ['/', 'w', '/', 'a'])).not_granted_answer

end OneFile

end Tool
end LoosePatch
