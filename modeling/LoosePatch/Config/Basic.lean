import LoosePatch.Numeric.Number
import LoosePatch.Text.Quoted
import LoosePatch.Numeric.Score

/-!
Thresholds of the search and limits on sizes. The kind of the three ratios is left open: they are
numbers as given before the check, and scores afterwards.
-/

namespace LoosePatch

structure Config (α : Type) where
  /-- Allows matching beyond exact text and trailing blanks. -/
  allowFuzzy : Bool
  /-- The least mean similarity of the lines of a block. -/
  fuzzyThreshold : α
  /-- The least similarity of an anchor and a line. -/
  anchorThreshold : α
  /-- The shortest anchor that may match inside a line. -/
  substringMinLength : Int
  /-- The least share of a line that such an anchor takes up. -/
  substringMinRatio : α
  maxPatchBytes : Int
  maxFileBytes : Int

namespace Config

/-- The values that hold where nothing else is given; `decimal m p` is `m / 10^p`. -/
def usual {α : Type} (decimal : Nat → Nat → α) : Config α where
  allowFuzzy := true
  fuzzyThreshold := decimal 95 2
  anchorThreshold := decimal 8 1
  substringMinLength := 6
  substringMinRatio := decimal 3 1
  maxPatchBytes := 1024 * 1024
  maxFileBytes := 10 * 1024 * 1024

def map {α β : Type} (f : α → β) (config : Config α) : Config β :=
  { config with
    fuzzyThreshold := f config.fuzzyThreshold
    anchorThreshold := f config.anchorThreshold
    substringMinRatio := f config.substringMinRatio }

/-- The usual values as given numbers. -/
def usualNumbers : Config Number := usual fun m p => .real (Float.ofScientific m true p)

def scores (config : Config Number) : Config Float := config.map Number.toFloat

end Config

/-! ## Refused configurations -/

inductive ConfigError where
  | ratioOutside (name : String) (value : Number)
  | lengthBelowOne
  | notBoolean (name : String) (given : Text)
  | notNumber (name : String) (given : Text)

namespace ConfigError

def message : ConfigError → String
  | ratioOutside name value => name ++ " must be between 0 and 1, got " ++ String.ofList value.text
  | lengthBelowOne => "substring_min_length must be at least 1"
  | notBoolean name given => name ++ " must be a boolean, got " ++ String.ofList given.quoted
  | notNumber name given =>
    name ++ " must be a number between 0 and 1, got " ++ String.ofList given.quoted

end ConfigError

namespace Config

def checkRatio (name : String) (value : Number) : Except ConfigError Unit :=
  if value.isRatio then .ok () else .error (.ratioOutside name value)

/-- Accepts the configuration, or names the first setting that is out of bounds. -/
def check (config : Config Number) : Except ConfigError (Config Number) := do
  checkRatio "fuzzy_threshold" config.fuzzyThreshold
  checkRatio "anchor_fuzzy_threshold" config.anchorThreshold
  checkRatio "substring_min_ratio" config.substringMinRatio
  if config.substringMinLength < 1 then throw .lengthBelowOne
  return config

end Config
end LoosePatch
