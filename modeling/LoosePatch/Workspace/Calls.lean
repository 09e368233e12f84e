import LoosePatch.Text.Digit
import LoosePatch.Workspace.Tree

/-!
Calls on the file system of a workspace. A series of calls ends at the first obstacle; what was done
up to there stays done. Files are written beside their place first: the draft goes to the place in
one call, and no draft stays behind. How long names are is looked at where they are new, for
directories and for drafts; the name of a file is shorter than that of its draft.
-/

namespace LoosePatch

/-- Why a call is refused, with the name it was given. -/
inductive Obstacle where
  | missing (name : Text)
  | fileExists (name : Text)
  | notDirectory (name : Text)
  | isDirectory (name : Text)
  | nameTooLong (name : Text)
  deriving DecidableEq, Repr

def Obstacle.message : Obstacle → String
  | missing name => "[Errno 2] No such file or directory: " ++ String.ofList name.quoted
  | fileExists name => "[Errno 17] File exists: " ++ String.ofList name.quoted
  | notDirectory name => "[Errno 20] Not a directory: " ++ String.ofList name.quoted
  | isDirectory name => "[Errno 21] Is a directory: " ++ String.ofList name.quoted
  | nameTooLong name => "[Errno 36] File name too long: " ++ String.ofList name.quoted

/-- A series of calls, each on the workspace that the calls before it have left. -/
abbrev Calls (β : Type) := ExceptT Obstacle (StateM Workspace) β

namespace Calls

/-- What a series of calls comes to in a workspace, and the workspace afterwards. -/
def on {β : Type} (calls : Calls β) (ws : Workspace) : Except Obstacle β × Workspace :=
  (calls.run.run ws).run

/-! ## Single calls -/

/-- A name is looked up from the top down, through directories only. -/
def lookUp (place : Place) : Calls Unit := do
  let ws ← get
  match (Workspace.above place).find? fun p => !ws.isDirectory p with
  | none => return ()
  | some p =>
    if (ws.node? p).isSome then throw (.notDirectory (ws.fullName place))
    else throw (.missing (ws.fullName place))

def makeDirectory (place : Place) : Calls Unit := do
  lookUp place
  let ws ← get
  if (ws.node? place).isSome then throw (.fileExists (ws.fullName place))
  set (ws.set place .directory)

/-- Takes the entry at a place away, which is no directory. -/
def unlink (place : Place) : Calls Unit := do
  lookUp place
  let ws ← get
  match ws.node? place with
  | none => throw (.missing (ws.fullName place))
  | some .directory => throw (.isDirectory (ws.fullName place))
  | some _ => set (ws.remove place)

/-- Gives the file at a place a second name, which is new. -/
def link (place name : Place) : Calls Unit := do
  lookUp name
  let ws ← get
  if (ws.node? name).isSome then throw (.fileExists (ws.fullName name))
  match ws.node? place with
  | none => throw (.missing (ws.fullName place))
  | some node => set (ws.set name node)

/-- Moves a file to a place, over any file that is there. -/
def replace (place goal : Place) : Calls Unit := do
  lookUp goal
  let ws ← get
  if ws.isDirectory goal then throw (.isDirectory (ws.fullName goal))
  match ws.node? place with
  | none => throw (.missing (ws.fullName place))
  | some node => set ((ws.set goal node).remove place)

/-- The permission bits of a file. -/
def modeOf (place : Place) : Calls Nat := do
  let ws ← get
  match ws.file? place with
  | none => throw (.missing (ws.fullName place))
  | some (_, mode) => return mode

/-! ## Directories -/

/-- Makes a directory unless it is there. Of a name that is too long neither can be said. -/
def ensureDirectory (place : Place) : Calls Unit := do
  let ws ← get
  if ws.isTooLong place then throw (.nameTooLong (ws.fullName place))
  tryCatch (makeDirectory place) fun obstacle => do
    unless (← get).isDirectory place do throw obstacle

/-- Makes a directory, given by its names from the bottom up, and those above it that are missing. -/
def makeDirectories : (upward : List Text) → Calls Unit
  | [] => return ()
  | name :: names =>
    let place := (name :: names).reverse
    tryCatch (ensureDirectory place) fun
      | .missing _ => do
        makeDirectories names
        ensureDirectory place
      | obstacle => throw obstacle

/-! ## Drafts -/

/-- The names that a draft of a file may take. -/
def draftName (name : Text) (number : Nat) : Text := '.' :: name ++ ".patchwise.".toList ++ numeral number

def draftPlace (place : Place) (number : Nat) : Place :=
  place.dropLast ++ [draftName (place.getLast?.getD []) number]

/-- How many bytes longer the name of a draft is: besides the name of its file and what marks it
as a draft there are eight characters in it, for which the number stands. -/
def draftSurplus : Nat := 20

def draftIsTooLong (ws : Workspace) (place : Place) : Bool :=
  Workspace.longestPath < (ws.fullName place).utf8Size + draftSurplus ||
    Workspace.longestName < Text.utf8Size (place.getLast?.getD []) + draftSurplus

/-- The first place for a draft where nothing is. -/
def freeDraft (ws : Workspace) (place : Place) : Place :=
  let numbers := List.range (ws.entries.length + 1)
  draftPlace place ((numbers.find? fun n => (ws.node? (draftPlace place n)).isNone).getD 0)

/-- The mode of a draft until it is filled. -/
def draftMode : Nat := 0o600

def makeDraft (place : Place) : Calls Place := do
  let ws ← get
  let draft := freeDraft ws place
  if draftIsTooLong ws place then throw (.nameTooLong (ws.fullName draft))
  lookUp draft
  set (ws.set draft (.file .empty draftMode))
  return draft

def dropDraft (draft : Place) : Calls Unit := do
  if (← get).holds draft then unlink draft

/-- Writes a file beside its place, and lets `publish` bring it there from the place of the draft. -/
def throughDraft (place : Place) (content : ByteArray) (mode : Nat) (publish : Place → Calls Unit) :
    Calls Unit := do
  let draft ← makeDraft place
  try
    modify (·.set draft (.file content draftMode))
    modify (·.set draft (.file content mode))
    publish draft
  finally
    dropDraft draft

/-- Writes a file, with the directories above it. -/
def writeFile (place : Place) (content : ByteArray) (mode : Nat) (publish : Place → Calls Unit) :
    Calls Unit := do
  makeDirectories place.dropLast.reverse
  throughDraft place content mode publish

/-- Writes a file over the one that may be there. -/
def overwrite (place : Place) (content : ByteArray) (mode : Nat) : Calls Unit :=
  writeFile place content mode fun draft => replace draft place

/-- The mode of a new file. -/
def newMode : Nat := 0o644

/-- Writes a file where none is. -/
def create (place : Place) (content : ByteArray) : Calls Unit :=
  writeFile place content newMode fun draft => link draft place

/-- Writes a file and takes the one at the place it comes from away; if that fails, the written one
goes again. -/
def move (source goal : Place) (content : ByteArray) (mode : Nat) : Calls Unit := do
  overwrite goal content mode
  if goal ≠ source then
    tryCatch (unlink source) fun obstacle => do
      unlink goal
      throw obstacle

end LoosePatch.Calls
