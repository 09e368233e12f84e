import LoosePatch.LineRef.Cleanup
import LoosePatch.LineRef.Target

/-!
Line edits on a file. All references are checked before anything changes; then the edits are made
from the bottom of the file up.
-/

namespace LoosePatch

/-- A line edit as it is requested. Empty replacement text deletes the lines. -/
structure LineEdit where
  src : Text
  dst : Text := []
  deriving DecidableEq, Repr

/-- A line edit that has been read. -/
structure TargetEdit where
  target : LineTarget
  lines : List Text
  deriving DecidableEq, Repr

/-- What line edits made of a file. `firstChanged` is counted from 1. -/
structure LineOutcome where
  lines : List Text
  firstChanged : Option Nat := none
  added : Nat := 0
  removed : Nat := 0
  deriving DecidableEq, Repr

namespace LineEdit

def read (e : LineEdit) : Outcome TargetEdit := do
  let target ← LineTarget.read e.src
  return ⟨target, LineRef.dropCopied (if e.dst.isEmpty then [] else e.dst.lines)⟩

end LineEdit

namespace TargetEdit

/-! ## Checks -/

/-- The mismatch at a reference, which has to name a line of the file. -/
def checkRef (file : List Text) (ref : LineRef) : Outcome (List LineRef.Mismatch) :=
  if file.length < ref.line then refuse (.missingLine ref.line file.length)
  else
    let actual := LineRef.hashOf ref.line (file.getD (ref.line - 1) [])
    .ok (if actual = ref.hash then [] else [⟨ref.line, ref.hash, actual⟩])

/-- The mismatches of one edit, which has to make sense on its own. -/
def check (file : List Text) (e : TargetEdit) : Outcome (List LineRef.Mismatch) :=
  if e.target.last < e.target.first then refuse (.backwardRange e.target.first e.target.last)
  else if e.target.isInsertion && e.lines.isEmpty then refuse .nothingToInsert
  else do return (← e.target.refs.mapM (checkRef file)).flatten

def checkAll (file : List Text) (edits : List TargetEdit) : Outcome Unit := do
  let mismatches := (← edits.mapM (check file)).flatten
  if mismatches.isEmpty then return ()
  refuse (.staleReferences mismatches file)

/-! ## Changes -/

/-- From the bottom up; at one line by rank, and by the order of the request after that. -/
def le (x y : TargetEdit) : Bool :=
  y.target.last < x.target.last ||
    (x.target.last == y.target.last && x.target.rank ≤ y.target.rank)

/-- Where the lines of an edit go, how many lines give way, and the lines themselves. -/
def change (lines : List Text) (e : TargetEdit) : Outcome (Nat × Nat × List Text) :=
  match e.target with
  | .after ref => do
    let anchor ← fetch lines (ref.line - 1)
    let echoes := 1 < e.lines.length && e.lines.head?.any (LineRef.sameShape · anchor)
    return (ref.line, 0, if echoes then e.lines.drop 1 else e.lines)
  | .before ref => do
    let anchor ← fetch lines (ref.line - 1)
    let echoes := 1 < e.lines.length && e.lines.getLast?.any (LineRef.sameShape · anchor)
    return (ref.line - 1, 0, if echoes then e.lines.dropLast else e.lines)
  | .single _ | .range _ _ => do
    let first := e.target.first
    let last := e.target.last
    let count := last - first + 1
    let new ← LineRef.dropEcho lines first last e.lines
    return (first - 1, count, LineRef.keepSpacing ((lines.drop (first - 1)).take count) new)

/-- One edit on what the edits below it have made. -/
def step (done : LineOutcome) (e : TargetEdit) : Outcome LineOutcome := do
  let (place, count, new) ← change done.lines e
  return {
    lines := done.lines.take place ++ new ++ done.lines.drop (place + count)
    firstChanged := some ((done.firstChanged.map (min · (place + 1))).getD (place + 1))
    added := done.added + new.length
    removed := done.removed + count }

end TargetEdit

/-- The outcome of line edits on the lines of a file. -/
def applyLineEdits (file : List Text) (edits : List LineEdit) : Outcome LineOutcome := do
  let read ← edits.mapM LineEdit.read
  TargetEdit.checkAll file read
  (read.mergeSort TargetEdit.le).foldlM TargetEdit.step { lines := file }

end LoosePatch
