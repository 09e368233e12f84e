import LoosePatch.Engine
import LoosePatch.Tool.Refusal

/-!
The read tool: a page of a text file, each line with the reference by which it can be edited.
-/

namespace LoosePatch.Tool

/-- The line above a page. -/
def pageHeader (first last total : Nat) (path : Text) : Text :=
  s!"[lines {first}-{last} of {total} in ".toList ++ path ++ [']']

/-- The first and the last line of a page, counted from 1. -/
def pageBounds (total : Nat) (start : Int) (limit : Option Int) : Nat × Nat :=
  let first := (max start 1).toNat
  match limit with
  | none => (first, total)
  | some limit => (first, min total (first + (max limit 1).toNat - 1))

/-- The page of a file that starts at line `start` and has at most `limit` lines. -/
def page (lines : List Text) (path : Text) (start : Int) (limit : Option Int) : Attempt Text :=
  let total := lines.length
  if total = 0 ∨ limit = some 0 then .ok (pageHeader 0 0 total path ++ ['\n'])
  else
    let (first, last) := pageBounds total start limit
    if total < first then stop (.pastEnd (.whole first) total) path
    else
      let shown := (lines.take last).drop (first - 1)
      .ok (Text.unlines (pageHeader first last total path :: LineRef.rows first shown))

/-! ## Bounds of any kind -/

/-- A value as a number; a truth value counts as zero or one. -/
def numberOf? : Value → Option Number
  | .bool b => some (.whole (if b then 1 else 0))
  | .whole n => some (.whole n)
  | .real x => some (.real x)
  | _ => none

/-- A page that starts at a line given with a fraction. There is no such page, unless it is empty. -/
def pageFromReal (total : Nat) (path : Text) (start : Float) (noLines : Bool) : Attempt Text :=
  if total = 0 ∨ noLines then .ok (pageHeader 0 0 total path ++ ['\n'])
  else if Float.ofNat total < start then stop (.pastEnd (.real start) total) path
  else breakDown .badCall

/-- A page with a limit given with a fraction. The limit has to lie past the end of the file. -/
def pageUpToReal (lines : List Text) (path : Text) (start : Int) (limit : Float) : Attempt Text :=
  let first := max start 1
  if limit == 0.0 then page lines path start (some 0)
  else if limit < 1.0 then page lines path start (some 1)
  else if lines.length < first ∨ ¬Float.ofInt first + limit - 1.0 < Float.ofNat lines.length then
    page lines path start none
  else breakDown .badCall

/-- A page with bounds of any kind. A limit that is no number is noticed only when it is needed. -/
def pageOf (lines : List Text) (path : Text) (start limit : Value) : Attempt Text :=
  match numberOf? start, limit with
  | none, _ => breakDown .badCall
  | some (.real x), limit =>
    let noLines := match numberOf? limit with
      | some (.whole n) => n == 0
      | some (.real y) => y == 0.0
      | none => false
    if x < 1.0 then
      match numberOf? limit, limit.isNull with
      | some (.whole n), _ => page lines path 1 (some n)
      | some (.real y), _ => pageUpToReal lines path 1 y
      | none, true => page lines path 1 none
      | none, false => if lines.isEmpty then page lines path 1 none else breakDown .badCall
    else pageFromReal lines.length path x noLines
  | some (.whole n), .null => page lines path n none
  | some (.whole n), limit =>
    match numberOf? limit with
    | some (.whole m) => page lines path n (some m)
    | some (.real y) => pageUpToReal lines path n y
    | none => if lines.length < max n 1 ∨ lines.isEmpty then page lines path n none else breakDown .badCall

/-! ## Files -/

/-- The lines of a text file; `given` is its path as it was written. -/
def readLines (ws : Workspace) (given : Text) (target : Text × Place) : Attempt (List Text) :=
  let (path, place) := target
  if ws.isTooLong place then stop (.nameTooLong (ws.fullName place)) given
  else
    match ws.file? place with
    | none => stop (if ws.holds place then .notRegular else .missingToRead) path
    | some (content, _) =>
      if Engine.isBinary content then stop .binary path
      else
        match Image.ofBytes? content with
        | some image => .ok image.lines
        | none => stop .undecodable path

def readArguments : List String := ["path", "start_line", "limit"]

/-- The answer of the read tool. -/
def read (ws : Workspace) (args : Fields) : Answer :=
  let attempt : Attempt Text := do
    if !isCall readArguments args then breakDown .badCall
    match args.get? "path" with
    | some (.text path) =>
      let target ← resolvePath ws path.toList
      let start := (args.get? "start_line").getD (.whole 1)
      pageOf (← readLines ws path.toList target) target.1 start ((args.get? "limit").getD .null)
    | _ => breakDown .pathNotText
  match attempt with
  | .ok text => .page text
  | .error stop => stop.answer

end LoosePatch.Tool
