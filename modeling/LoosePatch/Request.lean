import LoosePatch.LineRef.Apply
import LoosePatch.Path
import LoosePatch.Splice.Apply

/-!
Requests to change one file, the changes they lead to, and the events on the way.
-/

namespace LoosePatch

structure Request where
  path : Text
  operation : Operation := .update
  diff : Option Text := none
  renameTo : Option Text := none
  lineEdits : Option (List LineEdit) := none
  deriving DecidableEq, Repr

namespace Request

/-- Where the file is after the request: an empty new name counts as none. -/
def targetPath (request : Request) : Text :=
  match request.renameTo with
  | some target => if target.isEmpty then request.path else target
  | none => request.path

end Request

/-- What becomes of the file. -/
inductive Effect where
  | write (content : ByteArray)
  | delete

/-- What a successful request does. -/
structure Change (α : Type) where
  effect : Effect
  hunks : Nat := 0
  added : Nat := 0
  removed : Nat := 0
  fuzzy : Bool := false
  notes : List (Note α) := []

namespace Change

variable {α : Type}

def content? (change : Change α) : Option ByteArray :=
  match change.effect with
  | .write content => some content
  | .delete => none

def isDelete (change : Change α) : Bool :=
  match change.effect with
  | .write _ => false
  | .delete => true

end Change

/-- What happened on the way, for whoever watches. -/
inductive Event (α : Type) where
  | hunkLocated (hunk : Nat) (strategy : Strategy) (place : Nat) (confidence : α)
  | lineEditsApplied (edits : Nat) (firstChanged : Option Nat)
  | applied (target : Text) (hunks added removed : Nat) (fuzzy deleted : Bool)
  | rejected (kind : RefusalKind) (message : String)

/-- The events of a request in order, and what came of it. -/
structure Report (α : Type) where
  events : List (Event α)
  result : Outcome (Change α)

/-- The fault that a request ran into. -/
def Report.fault? {α : Type} (report : Report α) : Option Fault :=
  match report.result with
  | .error (.fault what) => some what
  | _ => none

end LoosePatch
