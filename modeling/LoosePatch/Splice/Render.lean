import LoosePatch.Indent.Reconcile
import LoosePatch.Locate.Placement
import LoosePatch.Refusal

/-!
The replacement that a placed hunk makes: a range of file lines, and the lines that take its
place. Kept lines are copied from the file, never from the hunk.
-/

namespace LoosePatch

/-- The lines from `start` up to but not including `stop` give way to `replacement`. -/
structure Splice where
  start : Nat
  stop : Nat
  replacement : List Text
  deriving DecidableEq, Repr

namespace Splice

/-- The lines of a list from `start` up to but not including `stop`. -/
def slice {β : Type} (lines : List β) (start stop : Nat) : List β := (lines.take stop).drop start

def apply (lines : List Text) (s : Splice) : List Text :=
  lines.take s.start ++ s.replacement ++ lines.drop (max s.start s.stop)

variable {α : Type} [Score α]

/-- The matched lines as the hunk and as the file have them. -/
def pairs (lines : List Text) (hunk : Hunk) (placement : Placement α) : Outcome (List Indent.Pair) :=
  let matched := hunk.edits.zipIdx.filterMap fun (e, i) => (placement.lineOf? i).map (e, ·)
  matched.mapM fun (e, line) => do return ⟨e.text, ← fetch lines line, e.isRemove⟩

/-- Walks the edits from file line `cursor` on and gives the lines to write and the line reached.
`added` holds the added lines as they go into the file. Lines above the cursor are left out: they
are dropped context, repeats, or belong to the hunk above. Nothing depends on what a line is. -/
def emit {β : Type} (lines : List β) (lineOf? : Nat → Option Nat) :
    (cursor : Nat) → (added : List β) → List (Edit × Nat) → Outcome (List β × Nat)
  | cursor, _, [] => .ok ([], cursor)
  | cursor, added, (e, i) :: edits =>
    match e.kind with
    | .add =>
      match added with
      | [] => .error (.fault .outsideList)
      | line :: added => do
        let (out, stop) ← emit lines lineOf? cursor added edits
        return (line :: out, stop)
    | .ellipsis => do
      let next := max cursor ((edits.findSome? fun (_, j) => lineOf? j).getD cursor)
      let (out, stop) ← emit lines lineOf? next added edits
      return (slice lines cursor next ++ out, stop)
    | .keep =>
      match lineOf? i with
      | none => emit lines lineOf? cursor added edits
      | some line =>
        if line < cursor then emit lines lineOf? cursor added edits
        else do
          let kept ← fetch lines line
          let (out, stop) ← emit lines lineOf? (line + 1) added edits
          return (slice lines cursor line ++ kept :: out, stop)
    | .remove =>
      match lineOf? i with
      | none => emit lines lineOf? cursor added edits
      | some line =>
        if line < cursor then emit lines lineOf? cursor added edits
        else do
          let (out, stop) ← emit lines lineOf? (line + 1) added edits
          return (slice lines cursor line ++ out, stop)

/-- The splice of a placed hunk. Above `floor` the lines belong to the splice of another hunk. -/
def ofHunk (lines : List Text) (hunk : Hunk) (placement : Placement α) (profile : Indent.Profile)
    (floor : Option Nat) : Outcome Splice := do
  let added := Indent.reconcile (← pairs lines hunk placement) hunk.addedLines profile
  if placement.positions.isEmpty then
    let place := placement.insertAt.getD placement.start
    return ⟨place, place, added⟩
  let start := max placement.start (floor.getD 0)
  let (out, stop) ← emit lines placement.lineOf? start added hunk.edits.zipIdx
  return ⟨start, stop, out⟩

end Splice
end LoosePatch
