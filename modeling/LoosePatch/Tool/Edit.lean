import LoosePatch.Engine
import LoosePatch.Tool.Params
import LoosePatch.Tool.Refusal

/-!
The edit tool: creates, updates, deletes or renames one file of a workspace. What the file becomes
is the engine's work; here are the files around it.
-/

namespace LoosePatch.Tool

variable {α : Type} [Score α]

/-- A path in resolved form with its place. -/
abbrev Target := Text × Place

/-- The content that an operation starts from. -/
def readCurrent (ws : Workspace) (op : Operation) (target : Target) : Attempt (Option ByteArray) :=
  let (path, place) := target
  if ws.isTooLong place then breakDown .pathTooLong
  else match op with
  | .create => if ws.holds place then stop .alreadyExists path else .ok none
  | .update | .delete =>
    if !ws.holds place then stop (.missing op) path
    else
      match ws.file? place with
      | some (content, _) => .ok (some content)
      | none => stop .notRegular path

/-- Everything that a call is about to do. -/
structure Plan (α : Type) where
  operation : Operation
  source : Target
  /-- Where the file goes, if it is renamed. -/
  destination : Option Target
  change : Change α

namespace Plan

def target (plan : Plan α) : Target := plan.destination.getD plan.source

def answer (plan : Plan α) (dryRun : Bool) : Fields :=
  let change := plan.change
  [("status", .text "ok"), ("op", .text plan.operation.name),
    ("path", .text (String.ofList plan.target.1)), ("hunks_applied", .whole change.hunks),
    ("lines_added", .whole change.added), ("lines_removed", .whole change.removed),
    ("dry_run", .bool dryRun), ("fuzzy", .bool change.fuzzy)] ++
    (if change.notes.isEmpty then []
      else [("warnings", .list (change.notes.map fun n => .text n.message))]) ++
    if plan.destination.isSome then [("moved_from", .text (String.ofList plan.source.1))] else []

/-- Carries the plan out. A new file gets the mode of new files; an updated or renamed one keeps its
mode. -/
def commit (plan : Plan α) : Calls Unit := do
  let place := plan.source.2
  match plan.change.effect with
  | .delete => Calls.unlink place
  | .write content =>
    if plan.operation = .create then Calls.create place content
    else
      let mode ← Calls.modeOf place
      Calls.move place plan.target.2 content mode

/-- What an obstacle makes of the call. -/
def failure (plan : Plan α) (obstacle : Obstacle) : Stop :=
  let path := plan.source.1
  match plan.operation, obstacle with
  | .create, .fileExists _ => .failed ⟨.alreadyExists, some path⟩
  | _, _ => .failed ⟨.notWritten obstacle, some path⟩

end Plan

/-! ## Calls -/

/-- Where the file goes, if it is renamed. -/
def resolveRename (ws : Workspace) (params : Params) : Attempt (Option Target) :=
  match params.rename with
  | none => .ok none
  | some name => (resolvePath ws name).map some

/-- The request that a call comes to. -/
def Params.request (params : Params) (source : Target) (destination : Option Target) : Request where
  path := source.1
  operation := params.operation
  diff := params.diff
  renameTo := destination.map Prod.fst
  lineEdits := params.edits

/-- What the engine makes of a request, unless it is too large. -/
def changeFor (config : Config α) (request : Request) (current : Option ByteArray) : Attempt (Change α) :=
  match (Engine.apply config request current).result with
  | .error (.refused why) => stop (.refused why) request.path
  | .error (.fault what) => breakDown (.fault what)
  | .ok change =>
    if change.content?.any fun content => config.maxFileBytes < content.size then
      stop (.resultTooLarge config.maxFileBytes) request.path
    else .ok change

/-- Another file may not be where the file goes. -/
def checkDestination (ws : Workspace) (source : Target) : Option Target → Attempt Unit
  | none => .ok ()
  | some (name, place) =>
    if ws.isTooLong place then breakDown .pathTooLong
    else if ws.holds place && place ≠ source.2 then stop .targetExists name
    else .ok ()

def checkPayload (config : Config α) (params : Params) : Attempt Unit :=
  if config.maxPatchBytes < params.payloadSize then
    stop (.patchTooLarge config.maxPatchBytes) params.path
  else .ok ()

/-- Works out what a call is about to do, without doing it. -/
def plan (config : Config α) (ws : Workspace) (params : Params) : Attempt (Plan α) := do
  checkPayload config params
  let source ← resolvePath ws params.path
  let destination ← resolveRename ws params
  let current ← readCurrent ws params.operation source
  let change ← changeFor config (params.request source destination) current
  checkDestination ws source destination
  return { operation := params.operation, source, destination, change }

/-- Carries out a checked call, or only says what it would do; with the workspace afterwards. -/
def run (config : Config α) (ws : Workspace) (params : Params) : Attempt Fields × Workspace :=
  match plan config ws params with
  | .error stop => (.error stop, ws)
  | .ok plan =>
    if params.dryRun then (.ok (plan.answer true), ws)
    else
      match plan.commit.on ws with
      | (.ok (), ws) => (.ok (plan.answer false), ws)
      | (.error obstacle, ws) => (.error (plan.failure obstacle), ws)

def pathArgument (args : Fields) : Option Text :=
  match args.get? "path" with
  | some (.text path) => some path.toList
  | _ => none

def editArguments : List String := ["path", "op", "diff", "rename", "dry_run", "edits"]

/-- The answer of the edit tool, and the workspace afterwards. -/
def edit (config : Config α) (ws : Workspace) (args : Fields) : Answer × Workspace :=
  if !isCall editArguments args then (.broken .badCall, ws)
  else
    match Params.read args with
    | .error problems => (.record (Failed.fields ⟨.badParameters problems, pathArgument args⟩), ws)
    | .ok params =>
      match run config ws params with
      | (.ok fields, ws) => (.record fields, ws)
      | (.error stop, ws) => (stop.answer, ws)

end LoosePatch.Tool
