import LoosePatch.Engine
import LoosePatch.Value

/-!
Log records: an event of a logger at a level with named values, and the fields that are written
for it together with those bound around it.
-/

namespace LoosePatch.Log

inductive Level where
  | debug
  | info
  | warning
  | error
  | critical
  deriving DecidableEq, Repr

namespace Level

def name : Level → String
  | debug => "debug"
  | info => "info"
  | warning => "warning"
  | error => "error"
  | critical => "critical"

def number : Level → Nat
  | debug => 10
  | info => 20
  | warning => 30
  | error => 40
  | critical => 50

def all : List Level := [debug, info, warning, error, critical]

end Level

structure Record where
  logger : Text
  level : Level
  event : String
  fields : Fields := []

/-- The field that holds the time of an event. The time itself is not modelled: its place is held
by null. -/
def timeKey : String := "timestamp"

/-- The field by which a call asks for its stack; it is never written. -/
def stackRequestKey : String := "stack_info"

namespace Record

/-- The fields that are written: those of the call win over bound ones, and the logger and the
level win over both. -/
def written (r : Record) (bound : Fields) : Fields :=
  let called := r.fields.put "event" (.text r.event)
  let fields := ((called.underlay bound).drop timeKey).drop stackRequestKey
  (fields.put "logger" (.text (String.ofList r.logger))).put "level" (.text r.level.name)

end Record

/-! ## Records of the engine -/

def engineLogger : Text := "patchwise.patch.engine".toList

/-- The fields that are bound while a request is applied. -/
def requestFields (request : Request) : Fields :=
  [("path", .text (String.ofList request.path)), ("op", .text request.operation.name)]

def ofEvent {α : Type} [Score α] : Event α → Record
  | .hunkLocated hunk strategy place confidence =>
    ⟨engineLogger, .debug, "Hunk located", [("hunk", .whole hunk), ("strategy", .text strategy.text),
      ("line", .whole (place + 1 : Nat)), ("confidence", .real (roundPlaces 3 (Score.exact confidence)))]⟩
  | .lineEditsApplied edits firstChanged =>
    ⟨engineLogger, .debug, "Line edits applied", [("edits", .whole edits),
      ("first_changed_line", match firstChanged with | some n => .whole n | none => .null)]⟩
  | .applied target hunks added removed fuzzy deleted =>
    ⟨engineLogger, .info, "Patch applied", [("target", .text (String.ofList target)),
      ("hunks", .whole hunks), ("lines_added", .whole added), ("lines_removed", .whole removed),
      ("fuzzy", .bool fuzzy), ("deleted", .bool deleted)]⟩
  | .rejected kind message =>
    ⟨engineLogger, .warning, "Patch rejected", [("kind", .text kind.tag), ("error", .text message)]⟩

end LoosePatch.Log
