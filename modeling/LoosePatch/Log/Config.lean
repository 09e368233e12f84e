import LoosePatch.Config.Environment
import LoosePatch.Log.Record
import LoosePatch.Text.Case

/-!
What is logged and how: the least level, the form of the lines, a file that keeps them, levels of
single loggers, and filters.
-/

namespace LoosePatch.Log

namespace Level

/-- The name by which a level is configured. -/
def configName (level : Level) : String := String.ofList (level.name.toList.map Char.toUpper)

def ofConfigName? (name : Text) : Option Level := all.find? fun level => level.configName.toList == name

/-- The level that a logger's method is named for. -/
def ofName? (name : String) : Option Level := all.find? fun level => level.name == name

end Level

inductive Format where
  | plain
  | json
  deriving DecidableEq, Repr

namespace Format

def name : Format → String
  | plain => "plain"
  | json => "json"

def ofName? (name : Text) : Option Format := [plain, json].find? fun format => format.name.toList == name

end Format

/-- A step that every event goes through before it is written: the fields to go on with, or none if
the event is dropped. -/
abbrev Filter := Fields → Option Fields

structure Config where
  level : Level := .info
  format : Format := .plain
  /-- The file that keeps the lines, if there is one. -/
  file : Option Text := none
  /-- The size at which the file is rotated. -/
  rotateAt : Nat := 5 * 1024 * 1024
  rotatedFiles : Nat := 3
  levels : List (Text × Level) := []
  filters : List Filter := []

inductive ConfigError where
  | unknownLevel (given : Text)
  | unknownFormat (given : Text)
  deriving DecidableEq, Repr

def ConfigError.message : ConfigError → String
  | unknownLevel given => String.ofList given.quoted ++ " is not a valid LogLevel"
  | unknownFormat given => String.ofList given.quoted ++ " is not a valid LogFormat"

namespace Config

def readLevel (given : Text) : Except ConfigError Level :=
  match Level.ofConfigName? given with
  | some level => .ok level
  | none => .error (.unknownLevel given)

def readFormat (given : Text) : Except ConfigError Format :=
  match Format.ofName? given with
  | some format => .ok format
  | none => .error (.unknownFormat given)

/-- A setting without the blanks around it; an empty one counts as none. -/
def setting? (env : Environment) (key : String) : Option Text :=
  match (env.value? key.toList).map Text.trim with
  | some [] | none => none
  | some value => some value

/-- The configuration that the environment asks for. -/
def ofEnvironment (env : Environment) : Except ConfigError Config := do
  let level ← match setting? env "PATCHWISE_LOG_LEVEL" with
    | some given => readLevel given.toUpper
    | none => pure .info
  let format ← match setting? env "PATCHWISE_LOG_FORMAT" with
    | some given => readFormat given.toLower
    | none => pure .plain
  return { level, format, file := (setting? env "PATCHWISE_LOG_FILE").map Path.tidy }

end Config
end LoosePatch.Log
