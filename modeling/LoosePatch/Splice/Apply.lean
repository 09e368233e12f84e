import LoosePatch.Locate.Hunk
import LoosePatch.Splice.Floor
import LoosePatch.Splice.Render

/-!
All hunks of a diff on one file. Every hunk is placed in the file as it was, then the splices are
made from the bottom up, so that no splice moves the lines of another.
-/

namespace LoosePatch

variable {α : Type} [Score α]

/-- Places hunks in the same file, numbered from `number` on. -/
def locateAll (config : Config α) (lines : List Text) : (number : Nat) → List Hunk →
    Outcome (List (Located α))
  | _, [] => .ok []
  | number, hunk :: hunks => do
    let placement ← hunk.locate config lines number
    return ⟨number, hunk, placement⟩ :: (← locateAll config lines (number + 1) hunks)

/-- A splice with the number of its hunk. -/
abbrev NumberedSplice := Nat × Splice

/-- From the bottom of the file up; at one place later hunks first, so that they end up below. -/
def NumberedSplice.ge (x y : NumberedSplice) : Bool :=
  y.2.start < x.2.start || (x.2.start == y.2.start &&
    (y.2.stop < x.2.stop || (x.2.stop == y.2.stop && y.1 ≤ x.1)))

/-- Makes splices in the order in which they do not move each other. -/
def spliceAll (lines : List Text) (splices : List NumberedSplice) : List Text :=
  ((splices.mergeSort NumberedSplice.ge).map Prod.snd).foldl Splice.apply lines

/-- The lines after all hunks, and the place of each hunk in diff order. -/
def applyHunks (config : Config α) (lines : List Text) (hunks : List Hunk) :
    Outcome (List Text × List (Placement α)) := do
  let located ← locateAll config lines 1 hunks
  let floors ← Located.floors lines located
  let profile := Indent.profile lines
  let splices ← located.mapM fun x => do
    return (x.number, ← Splice.ofHunk lines x.hunk x.placement profile (floors.lookup x.number))
  return (spliceAll lines splices, located.map (·.placement))

end LoosePatch
