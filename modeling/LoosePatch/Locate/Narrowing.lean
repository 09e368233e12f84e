import LoosePatch.Locate.View

/-!
Narrower views of a hunk, tried when its old lines as a whole have no place that can be decided
on: the removed lines only, repeated context once, or context left out at both ends. Of several
placements of such a view, the lines it leaves out choose.
-/

namespace LoosePatch

namespace View

/-! ## The views -/

/-- The removed lines, if they stand together among kept lines. -/
def changedLines? (old : Segment) : Option Segment :=
  let core := old.dropWhile (·.edit.isKeep)
  let changed := core.takeWhile (·.edit.isRemove)
  let rest := core.dropWhile (·.edit.isRemove)
  if old.any (·.edit.isKeep) && !changed.isEmpty && rest.all (·.edit.isKeep) then some changed else none

/-- The size, less one, of the longest block of kept lines in front that repeats what was just
kept. -/
def repeated? (kept : Segment) (next : OldLine) (rest : Segment) : Option Nat :=
  (List.range ((next :: rest).take kept.length).length).reverse.find? fun k =>
    let block := next :: rest.take k
    block.all (·.edit.isKeep) &&
      Segment.texts block == Segment.texts (kept.drop (kept.length - (k + 1)))

/-- Appends lines to those already kept, leaving out blocks that repeat their end. -/
def collapseInto (kept : Segment) (old : Segment) : Segment :=
  match old with
  | [] => kept
  | next :: rest =>
    match repeated? kept next rest with
    | some k => collapseInto kept (rest.drop k)
    | none => collapseInto (kept ++ [next]) rest
termination_by old.length
decreasing_by
  · simp only [List.length_drop, List.length_cons]; omega
  · simp

def collapsed? (old : Segment) : Option Segment :=
  let kept := collapseInto [] old
  if kept.length = old.length then none else some kept

/-- The most context lines that are left out at either end. -/
def mostTrimmed : Nat := 3

/-- How many lines of context there are in front and at the end, up to `mostTrimmed`. -/
def trimmable (old : Segment) : Nat × Nat :=
  let lead := (old.takeWhile (·.edit.isKeep)).length
  let trail := ((old.drop lead).reverse.takeWhile (·.edit.isKeep)).length
  (min lead mostTrimmed, min trail mostTrimmed)

/-- The views with context left out at the ends: fewer lines first, then fewer in front. -/
def trimmed (old : Segment) : List Segment :=
  let (lead, trail) := trimmable old
  let cuts := (List.range' 1 (lead + trail)).flatMap fun total =>
    (List.range (min total lead + 1)).filterMap fun front =>
      if total - front ≤ trail then some (front, total - front) else none
  let views := cuts.map fun (front, back) => (old.take (old.length - back)).drop front
  views.filter (!·.isEmpty)

/-- The narrower views of a hunk without ellipsis, in the order in which they are tried. -/
def narrowings (segments : List Segment) : List (Narrowing × Segment) :=
  match segments with
  | [old] =>
    ((changedLines? old).map (Narrowing.changedLines, ·)).toList ++
      ((collapsed? old).map (Narrowing.collapsed, ·)).toList ++
      (trimmed old).map (Narrowing.trimmed, ·)
  | _ => []

/-! ## The lines left out -/

/-- The old lines before and after a view. -/
def leftOut (old view : Segment) : List Text × List Text :=
  match view.head?, view.getLast? with
  | some first, some last =>
    (Segment.texts (old.filter (·.index < first.index)), Segment.texts (old.filter (last.index < ·.index)))
  | _, _ => ([], [])

/-- Looks for lines in order, walking away from a placement: how many are found, and how many
others lie between. -/
def walk : (wanted around : List Text) → Nat × Nat
  | [], _ => (0, 0)
  | text :: wanted, around =>
    match around.idxOf? text with
    | some k =>
      let (found, gap) := walk wanted (around.drop (k + 1))
      (found + 1, k + gap)
    | none => walk wanted around

variable {α : Type} [Score α]

/-- How well the lines left out sit around a placement; above it no further than `floor`. -/
def contextFit (lines : List Text) (before after : List Text) (floor : Nat) (p : Placement α) : Nat × Nat :=
  let loose := lines.map Text.loose
  let above := ((loose.take p.start).drop floor).reverse
  let (foundAbove, gapAbove) := walk (before.reverse.map Text.loose) above
  let (foundBelow, gapBelow) := walk (after.map Text.loose) (loose.drop p.stop)
  (foundAbove + foundBelow, gapAbove + gapBelow)

/-- The first fit is better: more lines found, or as many with fewer others between. -/
def betterFit (x y : Nat × Nat) : Bool := y.1 < x.1 || (x.1 == y.1 && x.2 < y.2)

/-- The placements around which the lines left out sit best. -/
def leaders (scored : List ((Nat × Nat) × Placement α)) : List (Placement α) :=
  match scored with
  | [] => []
  | (first, _) :: rest =>
    let top := rest.foldl (fun top (fit, _) => if betterFit fit top then fit else top) first
    (scored.filter fun (fit, _) => fit = top).map Prod.snd

end View

namespace Clues

variable {α : Type} [Score α]

/-- The placement of a narrower view, and the placements it was chosen from. -/
def selectNarrow (clues : Clues α) (config : Config α) (lines : List Text) (old view : Segment) :
    Option (Placement α) × List (Placement α) :=
  let below := match clues.anchorLine? with
    | some place => (place, View.find config lines [view] place)
    | none => (0, [])
  let (floor, placements) := if below.2.isEmpty then (0, View.find config lines [view] 0) else below
  match placements with
  | [] => (none, [])
  | [p] => (some p, [p])
  | _ =>
    let (before, after) := View.leftOut old view
    let leaders := View.leaders (placements.map fun p => (View.contextFit lines before after floor p, p))
    (clues.decide? leaders, leaders)

end Clues
end LoosePatch
