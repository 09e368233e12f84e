import LoosePatch.Log.Config

/-!
Levels of loggers. A logger without a level of its own has that of its nearest ancestor with one:
its name up to some dot, or in the end the root.
-/

namespace LoosePatch.Log

/-- Names of the root logger. -/
def isRoot (logger : Text) : Bool := logger.isEmpty || logger == "root".toList

/-- The name up to its last dot, unless the dot opens the name. -/
def parent? (name : Text) : Option Text :=
  match (name.reverse.dropWhile (· ≠ '.')) with
  | _ :: rest => if rest.isEmpty then none else some rest.reverse
  | [] => none

/-- The names up to each dot, longest first. Of two dots in a row only the second one counts. -/
def ancestorsFrom : (fuel : Nat) → Text → List Text
  | 0, _ => []
  | fuel + 1, name =>
    match parent? name with
    | some above => above :: ancestorsFrom fuel above.dropLast
    | none => []

def ancestors (name : Text) : List Text := ancestorsFrom name.length name

/-- Levels of loggers by name, and the level of the root. -/
structure Levels where
  root : Level := .warning
  loggers : List (Text × Level) := []
  deriving DecidableEq, Repr

namespace Levels

def ofLogger? (levels : Levels) (name : Text) : Option Level := levels.loggers.lookup name

/-- The level from which events of a logger are let through. -/
def threshold (levels : Levels) (logger : Text) : Level :=
  if isRoot logger then levels.root
  else ((logger :: ancestors logger).findSome? levels.ofLogger?).getD levels.root

def set (levels : Levels) (logger : Text) (level : Level) : Levels :=
  if isRoot logger then { levels with root := level }
  else { levels with loggers := (logger, level) :: levels.loggers.filter (·.1 ≠ logger) }

/-- Levels after a configuration; levels set before for other loggers stay. -/
def configure (levels : Levels) (config : Config) : Levels :=
  config.levels.foldl (fun levels (logger, level) => levels.set logger level)
    { levels with root := config.level }

end Levels

/-- Whether an event is written: by the level of its logger, and by the configured level. -/
def passes (levels : Levels) (config : Config) (r : Record) : Bool :=
  (levels.threshold r.logger).number ≤ r.level.number && config.level.number ≤ r.level.number

/-! ## Filters -/

def isNamed (event : String) (fields : Fields) : Bool :=
  match fields.get? "event" with
  | some (.text e) => e == event
  | _ => false

namespace Filter

/-- Drops events of a name. -/
def drop (event : String) : Filter := fun fields => if isNamed event fields then none else some fields

/-- Hides the value of a field, if it is there. -/
def mask (key : String) : Filter := fun fields =>
  some (if (fields.get? key).isSome then fields.put key (.text "***") else fields)

end Filter

/-- The fields after some filters, if none of them drops the event. -/
def filtered (filters : List Filter) (fields : Fields) : Option Fields :=
  filters.foldlM (fun fields filter => filter fields) fields

end LoosePatch.Log
