import LoosePatch.Locate.Placement
import LoosePatch.Refusal

/-!
Hunks that meet. Neighbouring hunks may share lines that both keep; the lower one then starts at a
floor, below the lines of the upper one. Any other line that two hunks cover is a conflict.
-/

namespace LoosePatch

/-- A hunk with its number in the diff, counted from 1, and its place. -/
structure Located (α : Type) where
  number : Nat
  hunk : Hunk
  placement : Placement α
  deriving DecidableEq

namespace Located

variable {α : Type} [Score α]

def start (x : Located α) : Nat := x.placement.start

def stop (x : Located α) : Nat := x.placement.stop

/-- File order: by start, then by end, then by number. -/
def le (x y : Located α) : Bool :=
  x.start < y.start || (x.start == y.start &&
    (x.stop < y.stop || (x.stop == y.stop && x.number ≤ y.number)))

/-- The first line from `low` up to but not including `high` that the hunk removes. -/
def removedIn (low high : Nat) (hunk : Hunk) : (positions : List (Nat × Nat)) → Outcome (Option Nat)
  | [] => .ok none
  | (i, line) :: positions =>
    if low ≤ line ∧ line < high then do
      let e ← fetch hunk.edits i
      if e.isRemove then return some line else removedIn low high hunk positions
    else removedIn low high hunk positions

/-- The first edit, in edit order, that is matched from line `low` on. -/
def firstEditFrom (low : Nat) (x : Located α) : Outcome Nat :=
  chosen ((x.placement.positions.filter fun (_, line) => low ≤ line).map Prod.fst).min?

def lastMatched (x : Located α) : Outcome Nat := chosen (x.placement.positions.map Prod.fst).max?

/-- A line that two hunks cannot both have, if the upper one ends below the start of the lower
one. From its first shared line on, the upper hunk may add lines only after its last matched line;
up to its first own line, the lower hunk may only keep lines. -/
def conflict? (upper lower : Located α) : Outcome (Option Nat) := do
  let low := lower.start
  let high := upper.stop
  if let some line ← removedIn low high upper.hunk upper.placement.positions then return some line
  if let some line ← removedIn low high lower.hunk lower.placement.positions then return some line
  if lower.stop ≤ high then return some low
  let shared ← firstEditFrom low upper
  let last ← upper.lastMatched
  if ((upper.hunk.edits.take last).drop shared).any Edit.isAdd then return some low
  let own ← firstEditFrom high lower
  if (lower.hunk.edits.take own).any fun e => e.isAdd || e.isRemove then return some (high - 1)
  if lower.hunk.edits.length < own then .error (.fault .outsideList)
  return none

/-- The floor of a hunk below others, none if it shares no line with them. -/
def floor? (file : List Text) (lower : Located α) : List (Located α) → (floor : Option Nat) →
    Outcome (Option Nat)
  | [], floor => .ok floor
  | upper :: others, floor =>
    if upper.stop ≤ lower.start then floor? file lower others floor
    else do
      match ← conflict? upper lower with
      | some line =>
        refuse (.conflict upper.number lower.number line lower.hunk.oldLines
          ((file.take lower.stop).drop lower.start))
      | none => floor? file lower others (some (max (floor.getD lower.start) upper.stop))

/-- Floors by the numbers of hunks. -/
abbrev Floors := List (Nat × Nat)

def setFloor (number : Nat) (floor : Option Nat) (floors : Floors) : Floors :=
  match floor with
  | some line => (number, line) :: floors.filter (·.1 ≠ number)
  | none => floors

/-- Adds the floors of hunks in file order to those of the hunks above them. -/
def floorsBelow (file : List Text) (above : List (Located α)) (floors : Floors) : List (Located α) →
    Outcome Floors
  | [] => .ok floors
  | x :: rest => do
    let floor ← floor? file x above (floors.lookup x.number)
    floorsBelow file (above ++ [x]) (setFloor x.number floor floors) rest

/-- The floors of hunks, unless two hunks are in conflict. -/
def floors (file : List Text) (located : List (Located α)) : Outcome Floors :=
  floorsBelow file [] [] (located.mergeSort le)

end Located
end LoosePatch
