import LoosePatch.Locate.Narrowing
import LoosePatch.Refusal

/-!
The one place that a hunk applies to: for its old lines as a whole, else for a narrower view of
them, else a report of why there is none.
-/

namespace LoosePatch

namespace Diagnosis

variable {α : Type} [Score α]

/-- Below this mean similarity the lines are not in the file at all. -/
def staleSimilarity : α := Score.decimal 5 1

def similaritySum (total : α) : (pattern lines : List Text) → Option α
  | [], _ => some total
  | _ :: _, [] => none
  | expected :: pattern, actual :: lines =>
    similaritySum (total + Similarity.similarity actual expected) pattern lines

/-- The first place whose lines are most similar to the pattern, up to the tolerance. -/
def closest (lines pattern : List Text) : Option (Nat × α) :=
  let pattern := pattern.map Text.loose
  let scored := Sequence.scanFrom
    (fun rest => (similaritySum Score.zero pattern rest).map (Sequence.mean · pattern))
    (lines.map Text.loose) 0
  match scored with
  | [] => none
  | first :: rest =>
    some (rest.foldl (fun best (i, x) => if best.2 + Score.tolerance < x then (i, x) else best) first)

/-- The numbers of the lines at which two texts differ by more than spacing. -/
def changedLines (place : Nat) (expected actual : List Text) : List Nat :=
  ((expected.zip actual).zipIdx (place + 1)).filterMap fun ((e, a), n) =>
    if e.loose = a.loose then none else some n

/-- Why the old lines of a hunk have no place: the most similar lines have changed, or nothing
resembles them. -/
def explain (lines : List Text) (segments : List Segment) (clues : Clues α) (number : Nat) : Refusal :=
  let expected := (segments.head?.map Segment.texts).getD []
  match (closest lines expected : Option (Nat × α)) with
  | some (place, x) =>
    if staleSimilarity ≤ x then
      let actual := (lines.drop place).take expected.length
      .stale number place expected actual (changedLines place expected actual) lines
    else .notFound number expected near lines
  | none => .notFound number expected near lines
where
  near : Nat :=
    match clues.anchorLine?, clues.hint with
    | some place, _ => place
    | none, some hint => if 0 ≤ hint ∧ hint < lines.length then hint.toNat else 0
    | none, none => 0

end Diagnosis

namespace Hunk

variable {α : Type} [Score α]

/-- The confidence in a narrower view is at most this. -/
def narrowedCap : α := Score.decimal 9 1

/-- The place of added lines alone: below a resolved anchor, at the end of the file, or at the
hinted line. -/
def locateInsertion (lines : List Text) (hunk : Hunk) (anchor : Option (Anchoring α)) (number : Nat) :
    Outcome (Placement α) :=
  let inserted (place : Nat) (confidence : α) (strategy : Strategy) : Placement α :=
    { start := place, confidence, strategy, insertAt := some place }
  match anchor with
  | some (.line place confidence) => .ok (inserted (place + 1) confidence .anchor)
  | some (.candidates places _) => refuse (.ambiguousAnchor number places lines)
  | some (.missing anchor) => refuse (.anchorNotFound number anchor)
  | none =>
    if hunk.endsFile then .ok (inserted lines.length Score.one .endOfFile)
    else
      match hunk.hint with
      | none => refuse (.nothingLocates number)
      | some hint =>
        let place := hint.insertIndex
        if 0 ≤ place ∧ place ≤ lines.length then .ok (inserted place.toNat Score.one .lineHint)
        else refuse (.outsideFile number (place + 1) lines.length)

/-- A placement of a narrower view as a placement of the hunk. -/
def narrowed (view : Narrowing) (number : Nat) (p : Placement α) : Placement α :=
  { p with
    strategy := match p.strategy with
      | .lines level => .narrowed view level
      | strategy => strategy
    confidence := Score.least p.confidence narrowedCap
    notes := p.notes ++ [.narrowed number view] }

/-- The placement by the first narrower view that has one, or the placements that could not be
told apart: those given, or else those of the first view with several. -/
def locateNarrowed (config : Config α) (lines : List Text) (clues : Clues α) (number : Nat) (old : Segment) :
    List (Narrowing × Segment) → List (Placement α) → Option (Placement α) × List (Placement α)
  | [], undecided => (none, undecided)
  | (narrowing, view) :: views, undecided =>
    match clues.selectNarrow config lines old view with
    | (some p, _) => (some (narrowed narrowing number p), undecided)
    | (none, leaders) =>
      locateNarrowed config lines clues number old views
        (if 1 < leaders.length ∧ undecided.length ≤ 1 then leaders else undecided)

/-- What is worth knowing about the anchor of a placed hunk. -/
def anchorNotes (anchor : Option (Anchoring α)) (number start : Nat) : List (Note α) :=
  match anchor with
  | some (.missing anchor) => [.anchorMissing number anchor]
  | some (.line place _) => if start < place then [.aboveAnchor number place] else []
  | _ => []

def withNotes (anchor : Option (Anchoring α)) (number : Nat) (p : Placement α) : Placement α :=
  let inexact := if p.isFuzzy then [.inexact number p.strategy p.start p.confidence] else []
  { p with notes := p.notes ++ anchorNotes anchor number p.start ++ inexact }

/-- The single place of a hunk in a file, or why there is none. -/
def locate (config : Config α) (lines : List Text) (hunk : Hunk) (number : Nat) : Outcome (Placement α) :=
  let hint := hunk.hint.map LineHint.oldIndex
  let anchor := Anchor.resolve config lines hunk.anchors hint
  if hunk.isInsertion then locateInsertion lines hunk anchor number
  else
    let clues : Clues α := { anchor, hint, endsFile := hunk.endsFile }
    let segments := hunk.oldView
    let (whole, candidates) := clues.select config lines segments
    let (placement, undecided) :=
      match whole with
      | some p => (some p, candidates)
      | none =>
        locateNarrowed config lines clues number (segments.head?.getD []) (View.narrowings segments)
          candidates
    match placement with
    | some p => .ok (withNotes anchor number p)
    | none =>
      if 1 < undecided.length then refuse (.ambiguousPlace number (undecided.map (·.start)) lines)
      else refuse (Diagnosis.explain lines segments clues number)

end Hunk
end LoosePatch
