import LoosePatch.Log.Config
import LoosePatch.Numeric.Number
import LoosePatch.Text.Break

/-!
Lines of a log in plain form: the level, the event and the logger in columns, then the other
fields by name, and below the line what is known about an exception.
-/

namespace LoosePatch.Log

def quotedString (s : String) : String := String.ofList (Text.quoted s.toList)

mutual

/-- A value as it stands inside other values. -/
def display : Value → String
  | .null => "None"
  | .bool b => if b then "True" else "False"
  | .whole n => toString n
  | .real x => String.ofList (shortestText x)
  | .text s => quotedString s
  | .list items => "[" ++ ", ".intercalate (displayItems items) ++ "]"
  | .record fields => "\x7b" ++ ", ".intercalate (displayFields fields) ++ "\x7d"

def displayItems : List Value → List String
  | [] => []
  | item :: items => display item :: displayItems items

def displayFields : List (String × Value) → List String
  | [] => []
  | (key, value) :: fields => (quotedString key ++ ": " ++ display value) :: displayFields fields

end

/-- Characters that would blur the end of a value. -/
def needsQuotes (s : String) : Bool := s.toList.any fun c => [' ', '\t', '=', '\r', '\n', '"', '\''].contains c

/-- A value as it stands after its key. -/
def shown : Value → String
  | .text s => if needsQuotes s then quotedString s else s
  | value => display value

/-- A value as it stands in a column. -/
def column : Value → String
  | .text s => s
  | value => display value

def padded (width : Nat) (s : String) : String := s ++ String.ofList (List.replicate (width - s.length) ' ')

def levelWidth : Nat := 9

def eventWidth : Nat := 30

def bracketed (value : Value) : String := "[" ++ column value ++ "]"

/-- The fields that have a column, in order, and how their values are written. The time is left
out. -/
def columns : List (String × (Value → String)) := [
  (timeKey, fun value => if value.isNull then "" else column value),
  ("level", fun value => "[" ++ padded levelWidth (column value) ++ "]"),
  ("event", fun value => padded eventWidth (column value)),
  ("logger", bracketed),
  ("logger_name", bracketed)]

/-! ## Tracebacks -/

/-- The fields that are written below the line: a stack, an exception, and whether there is more
about one. -/
def belowKeys : List String := ["stack", "exception", "exc_info"]

/-- The line between a stack and an exception. -/
def separator : String := String.ofList (List.replicate 79 '=')

def below (fields : Fields) : String :=
  let given (key : String) : Option Value := (fields.get? key).filter (!·.isNull)
  let isFollowed := (given "exception").isSome || (fields.get? "exc_info").any Value.isTrue
  let stack := match given "stack" with
    | some value => "\n" ++ column value ++ if isFollowed then "\n\n" ++ separator ++ "\n" else ""
    | none => ""
  match given "exception" with
  | some value => stack ++ "\n" ++ column value
  | none => stack

/-! ## Lines -/

/-- An event as text: the columns, the other fields by name, and what comes below. -/
def written (fields : Fields) : String :=
  let head := columns.filterMap fun (key, shape) => (fields.get? key).map shape
  let others := fields.filter fun (key, _) => !(columns.map Prod.fst ++ belowKeys).contains key
  let tail := (others.mergeSort fun a b => a.1 ≤ b.1).map fun (key, value) => key ++ "=" ++ shown value
  " ".intercalate ((head ++ tail).filter (· ≠ "")) ++ below fields

/-- The rows that an event takes on a screen, without blanks at their ends. -/
def rows (fields : Fields) : List String :=
  (Text.rows ((written fields).toList ++ ['\n'])).map fun row => String.ofList (Text.trimEnd row)

end LoosePatch.Log
