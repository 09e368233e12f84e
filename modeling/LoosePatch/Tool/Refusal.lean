import LoosePatch.Numeric.Number
import LoosePatch.Request
import LoosePatch.Value
import LoosePatch.Workspace.Calls

/-!
Answers of the tools: why a call is refused, and how refusals and changes are told.
-/

namespace LoosePatch.Tool

/-- Why a path is not taken. -/
inductive PathFault where
  | empty
  | notRelative
  | tilde
  | colon
  | nul
  | directory
  | escapes
  deriving DecidableEq, Repr

def PathFault.message : PathFault → String
  | notRelative => "Invalid path: must be relative and cannot start with '..'"
  | escapes => "Path escapes base directory"
  | empty | tilde | colon | nul | directory => "Invalid path"

def PathFault.hint : PathFault → String
  | empty => "Path must be a non-empty relative file path"
  | notRelative => "Use paths relative to the workspace root"
  | tilde => "'~' is not allowed in paths"
  | colon => "':' is not allowed in paths"
  | nul => "NUL bytes are not allowed in paths"
  | directory => "Path must refer to a file, not end with '/'"
  | escapes => "Path cannot use '..' to escape the workspace"

/-- Why a call is refused. -/
inductive Refusal where
  | badParameters (problems : List String)
  | patchTooLarge (limit : Int)
  | badPath (fault : PathFault)
  | alreadyExists
  | missing (op : Operation)
  | missingToRead
  | nameTooLong (name : Text)
  | notRegular
  | refused (why : LoosePatch.Refusal)
  | resultTooLarge (limit : Int)
  | targetExists
  | notWritten (obstacle : Obstacle)
  | binary
  | undecodable
  | pastEnd (line : Number) (total : Nat)

/-- A limit in whole megabytes. -/
def megabytes (limit : Int) : Int := limit / 1024 / 1024

namespace Refusal

def kind : Refusal → String
  | badParameters _ => "invalid_params"
  | patchTooLarge _ | binary | undecodable => RefusalKind.invalidEnvelope.tag
  | badPath _ | alreadyExists | missing _ | missingToRead | nameTooLong _ | notRegular | resultTooLarge _
  | notWritten _ => RefusalKind.fileState.tag
  | refused why => why.kind.tag
  | targetExists => RefusalKind.invalidRename.tag
  | pastEnd _ _ => RefusalKind.invalidAnchor.tag

def message : Refusal → String
  | badParameters problems => "Invalid tool input: " ++ "; ".intercalate problems
  | patchTooLarge limit => s!"Patch exceeds maximum size ({megabytes limit} MB)"
  | badPath why => why.message
  | alreadyExists => "Cannot create file: already exists"
  | missing op => "Cannot " ++ op.name ++ " file: does not exist"
  | missingToRead => "Cannot read file: does not exist"
  | nameTooLong name => "Cannot read file: " ++ (Obstacle.nameTooLong name).message
  | notRegular => "Path is not a regular file"
  | refused why => why.message
  | resultTooLarge limit => s!"Result exceeds maximum file size ({megabytes limit} MB)"
  | targetExists => "Cannot move: target file already exists"
  | notWritten obstacle => "Failed to write file: " ++ obstacle.message
  | binary => "Cannot read file: appears to be binary"
  | undecodable => "Cannot read file: not valid UTF-8 text"
  | pastEnd line total =>
    "start_line " ++ String.ofList line.text ++ s!" is past the end of the file ({total} lines)"

def hint? : Refusal → Option String
  | badParameters _ => some "Check the tool's input schema"
  | patchTooLarge _ => some "Split into smaller patches"
  | badPath why => some why.hint
  | alreadyExists => some "Use op='update' to modify existing files"
  | missing .delete => some "File may have already been deleted"
  | missing _ => some "Use op='create' to create new files"
  | refused why => some why.hint
  | targetExists => some "Delete the target file first or choose a different name"
  | missingToRead | nameTooLong _ | notRegular | resultTooLarge _ | notWritten _ | binary | undecodable
  | pastEnd _ _ => none

def textList (ls : List Text) : Value := .list (ls.map fun l => .text (String.ofList l))

def numberList (ns : List Nat) : Value := .list (ns.map fun n => .whole (n : Nat))

/-- What stale and ambiguous reports add. -/
def extra : Refusal → Fields
  | refused why =>
    (match why.staleReport? with
      | some (expected, actual, changed) =>
        [("expected", textList expected), ("actual", textList actual), ("changed_lines", numberList changed)]
      | none => []) ++
    match why.candidateLines? with
    | some lines => [("count", .whole lines.length), ("candidate_lines", numberList lines)]
    | none => []
  | _ => []

end Refusal

/-- A refused call, with the path it is about. -/
structure Failed where
  why : Refusal
  path : Option Text

/-- What leaves a call without an answer: a fault of the engine, an argument that is missing,
unknown or of a kind that nothing can be done with, links that lead round in a circle, or a path
that cannot be looked up. -/
inductive Breakdown where
  | fault (what : Fault)
  | badCall
  | pathNotText
  | linkLoop
  | pathTooLong
  deriving DecidableEq, Repr

/-- What ends a call early. -/
inductive Stop where
  | failed (why : Failed)
  | broken (why : Breakdown)

abbrev Attempt := Except Stop

def stop {α : Type} (why : Refusal) (path : Text) : Attempt α := .error (.failed ⟨why, some path⟩)

def breakDown {α : Type} (why : Breakdown) : Attempt α := .error (.broken why)

/-- What a tool returns: a record, a page of text, or nothing at all. -/
inductive Answer where
  | record (fields : Fields)
  | page (text : Text)
  | broken (why : Breakdown)

def Failed.fields (f : Failed) : Fields :=
  [("status", .text "error"), ("kind", .text f.why.kind), ("error", .text f.why.message)] ++
    (f.path.map fun p => ("path", .text (String.ofList p))).toList ++
    (f.why.hint?.map fun h => ("hint", .text h)).toList ++ f.why.extra

def Stop.answer : Stop → Answer
  | failed why => .record why.fields
  | broken why => .broken why

/-! ## Arguments -/

/-- Whether a call names its path, and nothing that the tool does not know. -/
def isCall (known : List String) (args : Fields) : Bool :=
  (args.get? "path").isSome && args.all fun (key, _) => known.contains key

/-! ## Paths -/

/-- Why a resolved path is not taken, given also as it was written. -/
def pathFault? (path given : Text) : Option PathFault :=
  if path.isEmpty || path == Path.here then some .empty
  else if path.head? == some '/' || ['.', '.'].isPrefixOf path then some .notRelative
  else if path.head? == some '~' then some .tilde
  else if path.contains ':' then some .colon
  else if path.contains '\x00' then some .nul
  else if given.trimEnd.getLast? == some '/' then some .directory
  else none

/-- A path in resolved form, and the place that it leads to. -/
def resolvePath (ws : Workspace) (given : Text) : Attempt (Text × Place) :=
  let path := Path.plain given
  match pathFault? path given with
  | some why => .error (.failed ⟨.badPath why, if given.isEmpty then none else some given⟩)
  | none =>
    match ws.resolve path with
    | .inside place => .ok (path, place)
    | .outside => stop (.badPath .escapes) path
    | .loop => breakDown .linkLoop

end LoosePatch.Tool
