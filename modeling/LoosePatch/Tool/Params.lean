import LoosePatch.Request
import LoosePatch.Value

/-!
Parameters of the edit tool, read from values of any kind. All problems are found, in the order of
the parameters.
-/

namespace LoosePatch.Tool

structure Params where
  path : Text
  operation : Operation
  diff : Option Text
  rename : Option Text
  dryRun : Bool
  edits : Option (List LineEdit)
  deriving DecidableEq, Repr

/-- What was read, and what was wrong with it, each problem with its place. -/
abbrev Checked (α : Type) := α × List String

namespace Params

def wantsString : String := "Input should be a valid string"

def problem (place what : String) : String := place ++ ": " ++ what

def readText (place : String) : Value → Checked Text
  | .text s => (s.toList, [])
  | _ => ([], [problem place wantsString])

def readOptionalText (place : String) : Value → Checked (Option Text)
  | .null => (none, [])
  | .text s => (some s.toList, [])
  | _ => (none, [problem place wantsString])

def readPath (value : Value) : Checked Text :=
  match readText "path" value with
  | (path, []) =>
    let path := path.trim
    (path, if path.isEmpty then [problem "path" "Value error, path must not be blank"] else [])
  | other => other

/-- A blank new name counts as none. -/
def readRename (value : Value) : Checked (Option Text) :=
  match readOptionalText "rename" value with
  | (some name, problems) =>
    let name := name.trim
    (if name.isEmpty then none else some name, problems)
  | other => other

def readOperation : Value → Operation
  | .text s => Operation.ofWord s.toList
  | _ => .update

/-! ## Booleans -/

def trueWords : List String := ["1", "t", "true", "y", "yes", "on"]

def falseWords : List String := ["0", "f", "false", "n", "no", "off"]

/-- Words for booleans in any case, and the numbers 0 and 1. `none` is a value that could be a
boolean but is not. -/
def boolOf? : Value → Option (Option Bool)
  | .bool b => some (some b)
  | .text s =>
    let word := String.ofList (s.toList.map Char.toLower)
    some (if trueWords.contains word then some true
      else if falseWords.contains word then some false else none)
  | .whole n =>
    if -9223372036854775808 ≤ n ∧ n < 9223372036854775808 then
      some (if n = 1 then some true else if n = 0 then some false else none)
    else none
  | .real x =>
    if x.floor == x && x.abs < 9223372036854775808.0 then
      some (if x == 1.0 then some true else if x == 0.0 then some false else none)
    else none
  | _ => none

def readBool (place : String) (value : Value) : Checked Bool :=
  match boolOf? value with
  | some (some b) => (b, [])
  | some none => (false, [problem place "Input should be a valid boolean, unable to interpret input"])
  | none => (false, [problem place "Input should be a valid boolean"])

/-! ## Line edits -/

def readEdit (place : String) : Value → Checked LineEdit
  | .record fields =>
    let (src, srcProblems) := match Fields.get? fields "src" with
      | some value => readText (place ++ ".src") value
      | none => ([], [problem (place ++ ".src") "Field required"])
    let (dst, dstProblems) := match Fields.get? fields "dst" with
      | some value => readText (place ++ ".dst") value
      | none => ([], [])
    let unknown := (fields.map Prod.fst).filter fun key => key ≠ "src" ∧ key ≠ "dst"
    (⟨src, dst⟩, srcProblems ++ dstProblems ++
      unknown.map fun key => problem (place ++ "." ++ key) "Extra inputs are not permitted")
  | _ => ({ src := [] }, [problem place "Input should be a valid dictionary or instance of LineEditParams"])

def readEditsFrom : (index : Nat) → List Value → Checked (List LineEdit)
  | _, [] => ([], [])
  | index, value :: values =>
    let (edit, problems) := readEdit s!"edits.{index}" value
    let (edits, more) := readEditsFrom (index + 1) values
    (edit :: edits, problems ++ more)

def readEdits : Value → Checked (Option (List LineEdit))
  | .null => (none, [])
  | .list values =>
    let (edits, problems) := readEditsFrom 0 values
    (some edits, problems)
  | _ => (none, [problem "edits" "Input should be a valid list"])

/-! ## All parameters -/

/-- The parameters of a call, or all that is wrong with them. -/
def read (args : Fields) : Except (List String) Params :=
  let value (key : String) (default : Value) : Value := (args.get? key).getD default
  let (path, p1) := readPath (value "path" .null)
  let (diff, p2) := readOptionalText "diff" (value "diff" .null)
  let (rename, p3) := readRename (value "rename" .null)
  let (dryRun, p4) := readBool "dry_run" (value "dry_run" (.bool false))
  let (edits, p5) := readEdits (value "edits" .null)
  let problems := p1 ++ p2 ++ p3 ++ p4 ++ p5
  if problems.isEmpty then
    .ok { path, operation := readOperation (value "op" .null), diff, rename, dryRun, edits }
  else .error problems

/-- The size of what a call sends as patch text, in bytes. -/
def payloadSize (params : Params) : Nat :=
  (params.diff.getD []).utf8Size +
    (params.edits.getD []).foldl (fun size e => size + e.src.utf8Size + e.dst.utf8Size) 0

end Params
end LoosePatch.Tool
