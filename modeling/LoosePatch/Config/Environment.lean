import LoosePatch.Config.Basic
import LoosePatch.Config.DotEnv

/-!
Configurations from named settings: those of a settings file first, those of the environment over
them.
-/

namespace LoosePatch

abbrev Environment := List (Text × Text)

namespace Environment

def value? (env : Environment) (key : Text) : Option Text := env.lookup key

end Environment

namespace Config

def readBool (name : String) (given : Text) : Except ConfigError Bool :=
  let word := String.ofList (given.trim.map Char.toLower)
  if ["1", "true", "yes", "on"].contains word then .ok true
  else if ["0", "false", "no", "off"].contains word then .ok false
  else .error (.notBoolean name given)

def readRatio (name : String) (given : Text) : Except ConfigError Number :=
  match Number.readReal? given with
  | none => .error (.notNumber name given)
  | some x => if (Number.real x).isRatio then .ok (.real x) else .error (.ratioOutside name (.real x))

/-- The settings of a file whose references may name variables of the process. -/
def fileSettings (process : Environment) (file : Option Text) : List (Text × Option Text) :=
  match file with
  | none => []
  | some text => DotEnv.resolve process.value? (DotEnv.bindings text)

/-- The usual configuration with the settings that are given, in the environment or else in the
file. -/
def ofEnvironment (env process : Environment) (file : Option Text) : Except ConfigError (Config Number) := do
  let settings := fileSettings process file
  let setting (key : String) : Option Text := env.value? key.toList <|> DotEnv.value? key.toList settings
  let mut config := usualNumbers
  match setting "PATCHWISE_FUZZY" with
  | some given => config := { config with allowFuzzy := ← readBool "PATCHWISE_FUZZY" given }
  | none => pure ()
  match setting "PATCHWISE_FUZZY_THRESHOLD" with
  | some given =>
    config := { config with fuzzyThreshold := ← readRatio "PATCHWISE_FUZZY_THRESHOLD" given }
  | none => pure ()
  config.check

end Config
end LoosePatch
