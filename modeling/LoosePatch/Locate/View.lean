import LoosePatch.Locate.Anchor
import LoosePatch.Locate.Placement

/-!
Views: the old lines of a hunk, cut into segments where an ellipsis stands for any lines. A view
is placed by its first segment; each later one follows at its first place after the one before.
-/

namespace LoosePatch

/-- An old line of a hunk with the index of its edit. -/
structure OldLine where
  index : Nat
  edit : Edit
  deriving DecidableEq, Repr

abbrev Segment := List OldLine

namespace Segment

def texts (segment : Segment) : List Text := segment.map (·.edit.text)

/-- The edits of a segment on consecutive file lines from `place` on. -/
def positionsAt (segment : Segment) (place : Nat) : List (Nat × Nat) :=
  (segment.zipIdx place).map fun (old, line) => (old.index, line)

end Segment

/-- The segments of a hunk's old lines; none of them is empty. -/
def Hunk.oldView (hunk : Hunk) : List Segment :=
  let pieces := hunk.edits.zipIdx.splitOnP fun (e, _) => e.isEllipsis
  let segments := pieces.map fun piece =>
    piece.filterMap fun (e, i) => if e.isOld then some (⟨i, e⟩ : OldLine) else none
  segments.filter (!·.isEmpty)

namespace View

variable {α : Type} [Score α]

/-- Places the later segments one after the other from `cursor` on. -/
def followSegments (config : Config α) (lines : List Text) :
    List Segment → (cursor : Nat) → α → Option (List (Nat × Nat) × α)
  | [], _, confidence => some ([], confidence)
  | segment :: segments, cursor, confidence =>
    match (Sequence.seek config lines (Segment.texts segment) cursor).bind (·.places.head?) with
    | none => none
    | some (place, c) =>
      (followSegments config lines segments (place + segment.length) (Score.least confidence c)).map
        fun (positions, c) => (Segment.positionsAt segment place ++ positions, c)

/-- The placements of a view, one for each place of its first segment from `start` on at which
the later segments follow. -/
def find (config : Config α) (lines : List Text) (segments : List Segment) (start : Nat) :
    List (Placement α) :=
  match segments with
  | [] => []
  | first :: later =>
    match Sequence.seek config lines (Segment.texts first) start with
    | none => []
    | some found => found.places.filterMap fun (place, c) =>
      (followSegments config lines later (place + first.length) c).map fun (positions, c) =>
        { start := place
          confidence := c
          strategy := .lines found.level
          positions := Segment.positionsAt first place ++ positions }

end View

/-! ## Choosing among placements -/

/-- What else a hunk says about its place. -/
structure Clues (α : Type) where
  anchor : Option (Anchoring α) := none
  hint : Option Int := none
  endsFile : Bool := false

namespace Clues

variable {α : Type} [Score α]

def anchorLine? (clues : Clues α) : Option Nat :=
  match clues.anchor with
  | some (.line place _) => some place
  | _ => none

/-- The lines that an undecided anchor may mean. -/
def anchorCandidates (clues : Clues α) : List Nat :=
  match clues.anchor with
  | some (.candidates lines _) => lines
  | _ => []

/-- The only one of some placements that comes first after any of the lines, if there is one. -/
def onlyAfter (lines : List Nat) (placements : List (Placement α)) : Option (Placement α) :=
  match lines.filterMap fun line => placements.find? fun p => line ≤ p.start with
  | [] => none
  | p :: picks => if picks.all fun q => q.start = p.start then some p else none

/-- The only placement that is nearest to the hinted line, if there is one. -/
def onlyNearest (target : Int) (placements : List (Placement α)) : Option (Placement α) :=
  match Anchor.nearest target (placements.map (·.start)) with
  | [place] => placements.find? fun p => p.start = place
  | _ => none

/-- Chooses between equally good placements by the anchor, the line hint, or the end of the file,
in that order. -/
def breakTie (clues : Clues α) (placements : List (Placement α)) : Option (Placement α) :=
  onlyAfter clues.anchorCandidates placements
    <|> clues.hint.bind (onlyNearest · placements)
    <|> if clues.endsFile then placements.getLast? else none

/-- The only placement, or the one that the clues choose. -/
def decide? (clues : Clues α) (placements : List (Placement α)) : Option (Placement α) :=
  match placements with
  | [] => none
  | [p] => some p
  | _ => clues.breakTie placements

/-- The placement of a whole view: the first one from a resolved anchor on, else the one that is
decided on in the whole file. Also gives the placements it was chosen from. -/
def select (clues : Clues α) (config : Config α) (lines : List Text) (segments : List Segment) :
    Option (Placement α) × List (Placement α) :=
  let below := match clues.anchorLine? with
    | some place => View.find config lines segments place
    | none => []
  match below with
  | p :: _ => (some p, below)
  | [] =>
    let everywhere := View.find config lines segments 0
    (clues.decide? everywhere, everywhere)

end Clues
end LoosePatch
