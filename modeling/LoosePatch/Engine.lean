import LoosePatch.Dialect.Normalize
import LoosePatch.Image
import LoosePatch.Request

/-!
The engine: a request and the bytes of its file in, the change or the reason for refusing it out.
Either every hunk applies or nothing does.
-/

namespace LoosePatch

namespace Request

/-- Only an update can rename, and only to another path. -/
def checkRename (request : Request) : Outcome Unit :=
  match request.renameTo with
  | none => .ok ()
  | some target =>
    if request.operation ≠ .update then refuse (.renameUnsupported request.operation)
    else
      let target := Path.plain target
      if target.isEmpty || target == Path.here then refuse .renameEmpty
      else if target = Path.plain request.path then refuse .renameSame
      else .ok ()

def diffText (request : Request) : Text := request.diff.getD []

/-- Line edits come alone and only in an update; a diff is text. -/
def checkContent (request : Request) : Outcome Unit :=
  if request.lineEdits.isSome && request.operation ≠ .update then
    refuse (.lineEditsUnsupported request.operation)
  else if request.lineEdits.isSome && !request.diffText.isBlankText then refuse .diffAndLineEdits
  else if request.diffText.contains '\x00' then refuse .nulInDiff
  else .ok ()

end Request

namespace Engine

variable {α : Type} [Score α]

def isBinary (content : ByteArray) : Bool := content.toList.contains 0

/-- The lines of a file that can be patched. -/
def loadImage (content : ByteArray) : Outcome Image :=
  if isBinary content then refuse .binaryFile
  else
    match Image.ofBytes? content with
    | some image => .ok image
    | none => refuse .undecodableFile

/-- A renamed file without any other change. -/
def renamed (content : ByteArray) : Change α := { effect := .write content }

/-- Unless the file is renamed, its content has to change. -/
def checkChanged (request : Request) (before after : ByteArray) (why : Refusal) : Outcome Unit :=
  if after.data = before.data ∧ request.renameTo = none then refuse why else .ok ()

/-! ## The operations -/

/-- Deleting never fails; lines are counted if there are any to count. -/
def delete (current : Option ByteArray) : Change α :=
  let lines : Option Nat := match current with
    | some content =>
      if isBinary content then none else (Image.ofBytes? content).map fun image => image.lines.length
    | none => none
  { effect := .delete, removed := lines.getD 0 }

def create (request : Request) : Outcome (Change α) := do
  Dialect.checkSingleFile request.diffText (some request.path)
  let text := Dialect.newFileText request.diffText
  return { effect := .write text.toBytes, added := text.count '\n' }

def updateByLines (request : Request) (edits : List LineEdit) (content : ByteArray) (image : Image) :
    List (Event α) × Outcome (Change α) :=
  if edits.isEmpty then
    ([], if request.renameTo.isSome then .ok (renamed content) else refuse .noLineEdits)
  else
    match applyLineEdits image.lines edits with
    | .error e => ([], .error e)
    | .ok done =>
      let after := (image.withLines done.lines).toBytes
      ([.lineEditsApplied edits.length done.firstChanged], do
        checkChanged request content after .unchangedByLineEdits
        return { effect := .write after, hunks := edits.length, added := done.added, removed := done.removed })

/-- One event for each placed hunk, in diff order. -/
def locatedEvents (placements : List (Placement α)) : List (Event α) :=
  (placements.zipIdx 1).map fun (p, number) => .hunkLocated number p.strategy p.start p.confidence

def updateByHunks (config : Config α) (request : Request) (hunks : List Hunk) (content : ByteArray)
    (image : Image) : List (Event α) × Outcome (Change α) :=
  match applyHunks config image.lines hunks with
  | .error e => ([], .error e)
  | .ok (lines, placements) =>
    let after := (image.withLines lines).toBytes
    (locatedEvents placements, do
      checkChanged request content after .unchangedByPatch
      return {
        effect := .write after
        hunks := hunks.length
        added := Hunk.total Hunk.added hunks
        removed := Hunk.total Hunk.removed hunks
        fuzzy := placements.any Placement.isFuzzy
        notes := placements.flatMap (·.notes) })

/-- The hunks of a diff that may only be about the requested file. -/
def readHunks (request : Request) : Outcome (List Hunk) := do
  Dialect.checkSingleFile request.diffText (some request.path)
  Hunk.parse (Dialect.normalize request.diffText)

def updateByDiff (config : Config α) (request : Request) (content : ByteArray) (image : Image) :
    List (Event α) × Outcome (Change α) :=
  match readHunks request with
  | .error e => ([], .error e)
  | .ok [] => ([], if request.renameTo.isSome then .ok (renamed content) else refuse .noHunks)
  | .ok hunks => updateByHunks config request hunks content image

def update (config : Config α) (request : Request) (current : Option ByteArray) :
    List (Event α) × Outcome (Change α) :=
  match current with
  | none => ([], refuse .missingFile)
  | some content =>
    match loadImage content with
    | .error e => ([], .error e)
    | .ok image =>
      match request.lineEdits with
      | some edits => updateByLines request edits content image
      | none => updateByDiff config request content image

/-! ## Requests -/

def perform (config : Config α) (request : Request) (current : Option ByteArray) :
    List (Event α) × Outcome (Change α) :=
  match (do request.checkRename; request.checkContent : Outcome Unit) with
  | .error e => ([], .error e)
  | .ok () =>
    match request.operation with
    | .delete => ([], .ok (delete current))
    | .create => ([], create request)
    | .update => update config request current

/-- The event that closes a request; a fault closes nothing. -/
def closing (request : Request) : Outcome (Change α) → List (Event α)
  | .ok change => [.applied request.targetPath change.hunks change.added change.removed change.fuzzy
      change.isDelete]
  | .error (.refused why) => [.rejected why.kind why.message]
  | .error (.fault _) => []

/-- Applies a request to the bytes of its file, if there is one. -/
def apply (config : Config α) (request : Request) (current : Option ByteArray) : Report α :=
  let (events, result) := perform config request current
  ⟨events ++ closing request result, result⟩

/-! ## Texts -/

/-- The path of a diff that comes without a request: the one it names, if it names one. -/
def pathOf (diff : Text) : Text := ((Dialect.markerPaths diff).head?).getD "<text>".toList

/-- An update of a text. -/
def patchText (config : Config α) (content diff path : Text) : Outcome Text := do
  let change ← (apply config { path, diff := some diff } (some content.toBytes)).result
  return match change.content? with
    | some after => (Text.ofBytes? after).getD []
    | none => content

end Engine
end LoosePatch
