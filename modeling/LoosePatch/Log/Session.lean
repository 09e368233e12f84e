import LoosePatch.Log.Line
import LoosePatch.Log.Routing

/-!
A session of a log: fields are bound and unbound, in scopes that restore what was bound before,
and events are written as the latest configuration says.
-/

namespace LoosePatch.Log

/-- What is written of an event: one of its rows of text, or its fields. -/
inductive Output where
  | row (text : String)
  | fields (fields : Fields)

/-- What is written of the fields of an event in a form. -/
abbrev Renderer := Format → Fields → List Output

/-- Rows of text, or the fields themselves but for the time. -/
def outputs : Renderer
  | .plain, fields => (rows fields).map Output.row
  | .json, fields => [.fields (fields.drop timeKey)]

structure Session where
  bound : Fields := []
  /-- The latest configuration; before the first one nothing is written. -/
  config : Option Config := none
  levels : Levels := {}
  /-- What the log file holds, from the first configuration that asks for one on. -/
  file : Option (List Output) := none
  /-- How events are written. -/
  render : Renderer := outputs

namespace Session

/-! ## Bound fields -/

def bind (s : Session) (fields : Fields) : Session := { s with bound := s.bound.overlay fields }

def unbind (s : Session) (keys : List String) : Session :=
  { s with bound := keys.foldl (fun bound key => bound.drop key) s.bound }

def clear (s : Session) : Session := { s with bound := [] }

/-- Leaves a scope that was entered from `outer`. -/
def leave (inner outer : Session) : Session := { inner with bound := outer.bound }

/-! ## Writing -/

def configure (s : Session) (config : Config) : Session :=
  { s with
    config := some config
    levels := s.levels.configure config
    file := if config.file.isSome then some (s.file.getD []) else s.file }

/-- What a record makes the session write. -/
def written (s : Session) (r : Record) : List Output :=
  match s.config with
  | none => []
  | some config =>
    if passes s.levels config r then
      match filtered config.filters ((r.written s.bound).put timeKey .null) with
      | some fields => s.render config.format fields
      | none => []
    else []

/-- The session after some output; the file keeps it if the configuration asks for a file. -/
def keep (s : Session) (out : List Output) : Session :=
  if s.config.any (·.file.isSome) then { s with file := s.file.map (· ++ out) } else s

def log (s : Session) (r : Record) : List Output × Session :=
  let out := s.written r
  (out, s.keep out)

def logAll (s : Session) : List Record → List Output × Session
  | [] => ([], s)
  | r :: rs =>
    let (out, s) := s.log r
    let (more, s) := logAll s rs
    (out ++ more, s)

/-- Applies a request in a scope of its own and writes its events. Tells also about a fault. -/
def apply {α : Type} [Score α] (s : Session) (config : LoosePatch.Config α) (request : Request)
    (current : Option ByteArray) : Option Fault × List Output × Session :=
  let report := Engine.apply config request current
  let (out, inner) := (s.bind (requestFields request)).logAll (report.events.map ofEvent)
  (report.fault?, out, inner.leave s)

end Session

/-! ## Programs -/

/-- A step of a program that logs. -/
inductive Step where
  | configure (config : Except ConfigError Config)
  | bind (fields : Fields)
  | unbind (keys : List String)
  | clear
  | log (r : Record)
  | apply (config : LoosePatch.Config Float) (request : Request) (current : Option ByteArray)
  /-- Steps in a scope with more bound fields. -/
  | scope (fields : Fields) (steps : List Step)
  /-- A scope that is left by an exception after some steps, caught outside. -/
  | failedScope (fields : Fields) (steps : List Step)

/-- What a step shows: the fields bound after it, what it wrote, and for a scope the fields bound
at entry and the traces of its steps. A configuration that cannot be read shows only why, and so
does a request that runs into a fault. -/
inductive Trace where
  | refused (why : ConfigError)
  | broken (what : Fault)
  | plain (bound : Fields) (out : List Output)
  | scope (bound entry : Fields) (traces : List Trace)

/-- What a step itself wrote. -/
def Trace.out : Trace → List Output
  | plain _ out => out
  | refused _ | broken _ | scope _ _ _ => []

mutual

/-- The first fault in a trace. -/
def Trace.fault? : Trace → Option Fault
  | .broken what => some what
  | .scope _ _ traces => Trace.firstFault? traces
  | .refused _ | .plain _ _ => none

/-- The first fault in some traces. -/
def Trace.firstFault? : List Trace → Option Fault
  | [] => none
  | trace :: traces => trace.fault? <|> Trace.firstFault? traces

end

mutual

def Step.run (s : Session) : Step → Trace × Session
  | .configure (.error why) => (.refused why, s)
  | .configure (.ok config) => let s := s.configure config; (.plain s.bound [], s)
  | .bind fields => let s := s.bind fields; (.plain s.bound [], s)
  | .unbind keys => let s := s.unbind keys; (.plain s.bound [], s)
  | .clear => let s := s.clear; (.plain s.bound [], s)
  | .log r => let (out, s) := s.log r; (.plain s.bound out, s)
  | .apply config request current =>
    match s.apply config request current with
    | (some what, _, s) => (.broken what, s)
    | (none, out, s) => (.plain s.bound out, s)
  | .scope fields steps =>
    let inner := s.bind fields
    let (traces, last) := runAll inner steps
    (.scope s.bound inner.bound traces, last.leave s)
  | .failedScope fields steps =>
    let (traces, last) := runAll (s.bind fields) steps
    (.plain s.bound (traces.flatMap Trace.out), last.leave s)

def Step.runAll (s : Session) : List Step → List Trace × Session
  | [] => ([], s)
  | step :: steps =>
    let (trace, s) := Step.run s step
    let (traces, s) := runAll s steps
    (trace :: traces, s)

end

end LoosePatch.Log
