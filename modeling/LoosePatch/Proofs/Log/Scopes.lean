import LoosePatch.Proofs.Log.Record

/-!
Bound fields and scopes. The fields that are bound around a record can be read off the program: each
block starts with those around it and its own over them, and binds for itself (`Step.records`). A run
keeps to that, however its blocks are left: what is bound after it, and what the log holds, is what
the program says (`Step.runAll_snd`).
-/

namespace LoosePatch.Log

/-! ## Sessions but for their bound fields -/

namespace Session

def rebound (s : Session) (bound : Fields) : Session := { s with bound }

/-- What the session writes of records, each with the fields that are bound around it. -/
def outputsOf (s : Session) (records : List (Fields × Record)) : List Output :=
  records.flatMap fun (bound, r) => (s.rebound bound).written r

theorem outputsOf_append (s : Session) (records more : List (Fields × Record)) :
    s.outputsOf (records ++ more) = s.outputsOf records ++ s.outputsOf more :=
  List.flatMap_append

theorem outputsOf_rebound (s : Session) (bound : Fields) : (s.rebound bound).outputsOf = s.outputsOf := rfl

theorem keep_nil (s : Session) : s.keep [] = s := by
  unfold keep
  split
  · have hfile : s.file.map (· ++ []) = s.file := by simp
    rw [hfile]
  · rfl

theorem keep_keep (s : Session) (out more : List Output) :
    (s.keep out).keep more = s.keep (out ++ more) := by
  by_cases hasks : s.config.any (·.file.isSome)
  · have hkept (out : List Output) : s.keep out = { s with file := s.file.map (· ++ out) } := if_pos hasks
    rw [hkept, hkept, keep, if_pos hasks, Option.map_map]
    congr 2
    funext file
    exact List.append_assoc file out more
  · have hkept (out : List Output) : s.keep out = s := if_neg hasks
    rw [hkept, hkept, hkept]

theorem keep_rebound (s : Session) (bound : Fields) (out : List Output) :
    (s.rebound bound).keep out = (s.keep out).rebound bound := by
  unfold keep rebound
  split
  · rfl
  · rfl

theorem keep_bound (s : Session) (out : List Output) : (s.keep out).bound = s.bound := by
  obtain ⟨file, hkeep⟩ := s.exists_keep out
  rw [hkeep]

/-- What a scope has bound is gone with it, and what it has written stays. -/
theorem leave_keep (s : Session) (bound : Fields) (out : List Output) :
    ((s.rebound bound).keep out).leave s = s.keep out := by
  have hleave (inner : Session) : inner.leave s = inner.rebound s.bound := rfl
  rw [hleave, ← keep_rebound]
  rfl

theorem outputsOf_keep (s : Session) (out : List Output) : (s.keep out).outputsOf = s.outputsOf := by
  obtain ⟨file, hkeep⟩ := s.exists_keep out
  rw [hkeep]
  rfl

theorem logAll_snd (s : Session) (rs : List Record) : (s.logAll rs).2 = s.keep (rs.flatMap s.written) := by
  induction rs generalizing s with
  | nil => exact (keep_nil s).symm
  | cons r rs ih =>
    have hlog : (s.logAll (r :: rs)).2 = ((s.keep (s.written r)).logAll rs).2 := rfl
    rw [hlog, ih, written_keep, keep_keep, List.flatMap_cons]

end Session

namespace Step

/-- The fields that are bound after a step. Blocks and requests bind nothing for what comes after
them. -/
def rebind (bound : Fields) : Step → Fields
  | .bind fields => bound.overlay fields
  | .unbind keys => keys.foldl (fun bound key => bound.drop key) bound
  | .clear => []
  | .configure _ | .log _ | .apply .. | .scope .. | .failedScope .. => bound

mutual

/-- The records of a step, each with the fields that are bound around it. -/
def records (bound : Fields) : Step → List (Fields × Record)
  | .log r => [(bound, r)]
  | .apply config request current => (Engine.apply config request current).events.map fun event =>
      (bound.overlay (requestFields request), ofEvent event)
  | .scope fields steps | .failedScope fields steps => recordsAll (bound.overlay fields) steps
  | .configure _ | .bind _ | .unbind _ | .clear => []

def recordsAll (bound : Fields) : List Step → List (Fields × Record)
  | [] => []
  | step :: steps => records bound step ++ recordsAll (rebind bound step) steps

end

mutual

/-- No part of the step is a configuration. -/
def KeepsConfig : Step → Prop
  | .configure _ => False
  | .scope _ steps | .failedScope _ steps => AllKeepConfig steps
  | .bind _ | .unbind _ | .clear | .log _ | .apply .. => True

def AllKeepConfig : List Step → Prop
  | [] => True
  | step :: steps => KeepsConfig step ∧ AllKeepConfig steps

end

/-- Steps that bind fields for as long as they last: requests, and blocks however they are left. -/
inductive Scoped : Step → Prop where
  | apply (config : LoosePatch.Config Float) (request : Request) (current : Option ByteArray) :
      Scoped (.apply config request current)
  | scope (fields : Fields) (steps : List Step) : Scoped (.scope fields steps)
  | failedScope (fields : Fields) (steps : List Step) : Scoped (.failedScope fields steps)

/-! ## Runs -/

theorem run_apply_snd (s : Session) (config : LoosePatch.Config Float) (request : Request)
    (current : Option ByteArray) :
    ((Step.apply config request current).run s).2 = (s.apply config request current).2.2 := by
  rw [run]
  split
  · rename_i happlied
    rw [happlied]
  · rename_i happlied
    rw [happlied]

/-- A step leaves the fields bound that it says, whatever is done inside a block. -/
theorem run_bound (s : Session) (step : Step) : (step.run s).2.bound = step.rebind s.bound := by
  cases step with
  | configure config =>
    cases config with
    | error why => rfl
    | ok config => rfl
  | bind fields => rfl
  | unbind keys => rfl
  | clear => rfl
  | log r => exact s.keep_bound _
  | apply config request current =>
    rw [run_apply_snd]
    rfl
  | scope fields steps => rfl
  | failedScope fields steps => rfl

theorem runAll_bound (s : Session) (program : List Step) :
    (runAll s program).2.bound = program.foldl rebind s.bound := by
  induction program generalizing s with
  | nil => rfl
  | cons step program ih =>
    have hrun : (runAll s (step :: program)).2 = (runAll (step.run s).2 program).2 := rfl
    rw [hrun, ih, run_bound, List.foldl_cons]

theorem outputsOf_apply (s : Session) (config : LoosePatch.Config Float) (request : Request)
    (current : Option ByteArray) :
    s.outputsOf (records s.bound (.apply config request current)) =
      ((Engine.apply config request current).events.map ofEvent).flatMap
        (s.bind (requestFields request)).written := by
  rw [records, Session.outputsOf, List.flatMap_map, List.flatMap_map]
  rfl

theorem outputsOf_log (s : Session) (r : Record) :
    s.outputsOf (records s.bound (.log r)) = s.written r := List.append_nil _

/-- What single steps write is what is said for them, with and without a file to keep it in. -/
theorem run_log_fst (s : Session) (r : Record) :
    ((Step.log r).run s).1 = .plain s.bound (s.outputsOf (records s.bound (.log r))) := by
  have hrun : ((Step.log r).run s).1 = .plain (s.keep (s.written r)).bound (s.written r) := rfl
  rw [hrun, Session.keep_bound, outputsOf_log]

theorem apply_fst (s : Session) (config : LoosePatch.Config Float) (request : Request)
    (current : Option ByteArray) : (s.apply config request current).2.1 =
      s.outputsOf (records s.bound (.apply config request current)) := by
  rw [Session.apply_written, outputsOf_apply]

mutual

/-- A step without a configuration leaves its output behind, and the fields bound that it says. -/
theorem run_snd (s : Session) (step : Step) (h : step.KeepsConfig) : (step.run s).2 =
    (s.rebound (step.rebind s.bound)).keep (s.outputsOf (step.records s.bound)) := by
  match step, h with
  | .bind fields, _ => exact (Session.keep_nil _).symm
  | .unbind keys, _ => exact (Session.keep_nil _).symm
  | .clear, _ => exact (Session.keep_nil _).symm
  | .log r, _ =>
    rw [outputsOf_log]
    rfl
  | .apply config request current, _ =>
    have happly : (s.apply config request current).2.2 = ((s.bind (requestFields request)).logAll
        ((Engine.apply config request current).events.map ofEvent)).2.leave s := rfl
    rw [run_apply_snd, happly, Session.logAll_snd, outputsOf_apply]
    exact s.leave_keep _ _
  | .scope fields steps, h =>
    have hrun : ((Step.scope fields steps).run s).2 = (runAll (s.bind fields) steps).2.leave s := rfl
    rw [hrun, runAll_snd (s.bind fields) steps h]
    exact s.leave_keep _ _
  | .failedScope fields steps, h =>
    have hrun : ((Step.failedScope fields steps).run s).2 =
        (runAll (s.bind fields) steps).2.leave s := rfl
    rw [hrun, runAll_snd (s.bind fields) steps h]
    exact s.leave_keep _ _

theorem runAll_snd (s : Session) (program : List Step) (h : AllKeepConfig program) :
    (runAll s program).2 =
      (s.rebound (program.foldl rebind s.bound)).keep (s.outputsOf (recordsAll s.bound program)) := by
  match program, h with
  | [], _ => exact (Session.keep_nil _).symm
  | step :: program, h =>
    have hrun : (runAll s (step :: program)).2 = (runAll (step.run s).2 program).2 := rfl
    have houts : (step.run s).2.outputsOf = s.outputsOf := by
      rw [run_snd s step h.1, Session.outputsOf_keep, Session.outputsOf_rebound]
    rw [hrun, runAll_snd _ program h.2, run_bound, houts, run_snd s step h.1, ← Session.keep_rebound,
      Session.keep_keep, recordsAll, Session.outputsOf_append]
    rfl

end

theorem Scoped.run_bound {step : Step} (h : step.Scoped) (s : Session) :
    (step.run s).2.bound = s.bound := by
  rw [Step.run_bound]
  cases h with
  | apply | scope | failedScope => rfl

end Step

/-- A record that passes is written with its own fields over those that are bound, as the filters leave
them. -/
theorem Session.exists_given (s : Session) (bound : Fields) (r : Record) : ∃ given : Fields,
    (∀ key, key ∉ ownKeys → given.get? key = (r.fields.get? key).or (bound.get? key)) ∧
    ∀ config, s.config = some config → passes s.levels config r = true →
      (s.rebound bound).written r =
        ((filtered config.filters given).map (s.render config.format)).getD [] := by
  refine ⟨(r.written bound).put timeKey .null, fun key hkey => ?_, fun config hconfig hpasses => ?_⟩
  · have htime : key ≠ timeKey := by
      rintro rfl
      exact hkey (by decide)
    rw [Fields.get?_put_of_ne htime, Record.get?_written r bound hkey]
  · simp only [written, rebound, hconfig, hpasses, if_true]
    cases filtered config.filters ((r.written bound).put timeKey .null) with
    | none => rfl
    | some fields => rfl

open Step in
/-- **Bound fields follow the scopes of a program.** Blocks and requests leave the fields bound that
they found, whatever is bound, unbound or cleared inside, and however a block is left. A block begins
with its own fields over those around it, and its steps are run from there. So what is bound after a
program is what its own steps outside of blocks have bound. What a call or a request logs is written
with the fields that are bound around it there, and the log file gets all that a program logs, in
order: each record has all of these fields, but for those that it has itself. -/
theorem bound_fields_follow_scopes (s : Session) :
    (∀ step : Step, step.Scoped → (step.run s).2.bound = s.bound) ∧
    (∀ fields steps,
      (∀ key, (s.bind fields).bound.get? key = (Fields.get? fields.reverse key).or (s.bound.get? key)) ∧
      (∃ traces, ((Step.scope fields steps).run s).1 = .scope s.bound (s.bind fields).bound traces) ∧
      ∀ step ∈ [Step.scope fields steps, Step.failedScope fields steps],
        (step.run s).2 = (runAll (s.bind fields) steps).2.leave s) ∧
    (∀ program, (runAll s program).2.bound = program.foldl rebind s.bound) ∧
    (∀ r, ((Step.log r).run s).1 = .plain s.bound (s.outputsOf (records s.bound (.log r)))) ∧
    (∀ config request current, (s.apply config request current).2.1 =
      s.outputsOf (records s.bound (.apply config request current))) ∧
    (∀ program, AllKeepConfig program → (runAll s program).2 =
      (s.rebound (program.foldl rebind s.bound)).keep (s.outputsOf (recordsAll s.bound program))) ∧
    ∀ program, ∀ record ∈ recordsAll s.bound program, ∃ given : Fields,
      (∀ key, key ∉ ownKeys →
        given.get? key = (record.2.fields.get? key).or (record.1.get? key)) ∧
      ∀ config, s.config = some config → passes s.levels config record.2 = true →
        (s.rebound record.1).written record.2 =
          ((filtered config.filters given).map (s.render config.format)).getD [] := by
  refine ⟨fun step hscoped => hscoped.run_bound s, fun fields steps => ⟨fun key => ?_, ⟨_, rfl⟩, ?_⟩,
    runAll_bound s, run_log_fst s, apply_fst s, runAll_snd s,
    fun program record _ => s.exists_given record.1 record.2⟩
  · exact Fields.get?_overlay s.bound fields key
  · intro step hstep
    rcases List.mem_pair.mp hstep with rfl | rfl
    · rfl
    · rfl

open Step in
/-- A block that clears everything, left by an exception, with another block in it. -/
theorem bound_fields_follow_scopes_nested :
    let r : Record := ⟨['l'], .info, "e", []⟩
    let program : List Step :=
      [.bind [("a", .whole 1)],
        .failedScope [("b", .whole 2)]
          [.clear, .bind [("c", .whole 3)], .scope [("a", .whole 4)] [.unbind ["a"], .log r]],
        .log r]
    AllKeepConfig program ∧
      recordsAll [] program = [([("c", .whole 3)], r), ([("a", .whole 1)], r)] ∧
      (runAll {} program).2.bound = [("a", .whole 1)] := by
  intro r program
  have hprogram : AllKeepConfig program := by simp [program, AllKeepConfig, KeepsConfig]
  have hrun := (bound_fields_follow_scopes {}).2.2.2.2.2.1 program hprogram
  refine ⟨hprogram, rfl, ?_⟩
  rw [hrun, Session.keep_bound]
  rfl

end LoosePatch.Log
