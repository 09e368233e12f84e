import LoosePatch.Config.Basic
import LoosePatch.Text.Loose
import LoosePatch.Text.Similarity

/-!
Runs of lines in a file. A run is looked for at one level after the other, each more lenient than
the one before, and all places of the first level that has any are the answer.
-/

namespace LoosePatch

/-- The levels, strictest first. -/
inductive Level where
  | exact
  | trailing
  | surrounding
  | loose
  | opening
  | fuzzy
  | character
  deriving DecidableEq, Repr

def Level.tag : Level → String
  | exact => "exact"
  | trailing => "rstrip"
  | surrounding => "strip"
  | loose => "normalized"
  | opening => "prefix"
  | fuzzy => "fuzzy"
  | character => "character"

/-- The places that one level found, in file order, with the confidence in each. -/
structure Found (α : Type) where
  level : Level
  places : List (Nat × α)

namespace Sequence

variable {α : Type} [Score α]

/-- The value of `f` at every tail of a file where it has one; tails are numbered from `i`. -/
def scan {β : Type} (f : List Text → Option β) : (i : Nat) → List Text → List (Nat × β)
  | _, [] => []
  | i, line :: rest =>
    match f (line :: rest) with
    | some b => (i, b) :: scan f (i + 1) rest
    | none => scan f (i + 1) rest

/-- The value of `f` at every tail from line `start` on. -/
def scanFrom {β : Type} (f : List Text → Option β) (lines : List Text) (start : Nat) : List (Nat × β) :=
  scan f start (lines.drop start)

/-! ## Equal lines -/

/-- The levels at which lines are equal under a common reading: the reading, the confidence, and
whether the level is lenient. -/
structure Equality (α : Type) where
  level : Level
  reading : Text → Text
  confidence : α
  lenient : Bool

def equalities : List (Equality α) := [
  ⟨.exact, id, Score.one, false⟩,
  ⟨.trailing, Text.trimEnd, Score.decimal 99 2, false⟩,
  ⟨.surrounding, Text.trim, Score.decimal 98 2, true⟩,
  ⟨.loose, Text.loose, Score.decimal 97 2, true⟩]

/-- The places from `start` on at which the pattern's lines equal the file's under `reading`. -/
def equalPlaces (reading : Text → Text) (lines pattern : List Text) (start : Nat) : List Nat :=
  let pattern := pattern.map reading
  (scanFrom (fun rest => if pattern.isPrefixOf rest then some () else none) (lines.map reading) start).map
    Prod.fst

def seekEqual (config : Config α) (lines pattern : List Text) (start : Nat) : Option (Found α) :=
  equalities.findSome? fun e =>
    if e.lenient && !config.allowFuzzy then none
    else
      match equalPlaces e.reading lines pattern start with
      | [] => none
      | places => some ⟨e.level, places.map (·, e.confidence)⟩

/-! ## Similar lines -/

/-- A score by similarity never stands for equality. -/
def similarityCap : α := Score.decimal 96 2

def mean (total : α) (pattern : List Text) : α := total / ((pattern.length : Nat) : α)

/-- The sum over the lines of how much of the file's line the pattern's line covers, as long as
each opens the file's line. -/
def openingTotal (total : α) : (pattern lines : List Text) → Option α
  | [], _ => some total
  | _ :: _, [] => none
  | expected :: pattern, actual :: lines =>
    if actual = expected then openingTotal (total + Score.one) pattern lines
    else if !expected.isEmpty && expected.isPrefixOf actual then
      openingTotal (total + ((expected.length : Nat) : α) / ((actual.length : Nat) : α)) pattern lines
    else none

def openingPlaces (lines pattern : List Text) (start : Nat) : List (Nat × α) :=
  scanFrom (fun rest => (openingTotal Score.zero pattern rest).map (mean · pattern)) lines start

/-- The sum of the similarities of the lines, given up as soon as the rest cannot lift it to
`required`. -/
def fuzzyTotal (required total : α) : (pattern lines : List Text) → Option α
  | [], _ => some total
  | _ :: _, [] => none
  | expected :: pattern, actual :: lines =>
    let remaining : α := ((pattern.length : Nat) : α)
    let floor := required - total - remaining
    let total := total +
      if Score.zero < floor then Similarity.similarityAtLeast actual expected floor
      else Similarity.similarity actual expected
    if total + remaining < required - Score.tolerance then none
    else fuzzyTotal required total pattern lines

def fuzzyPlaces (lines pattern : List Text) (start : Nat) (threshold : α) : List (Nat × α) :=
  let required := threshold * ((pattern.length : Nat) : α)
  scanFrom (fun rest => (fuzzyTotal required Score.zero pattern rest).map (mean · pattern)) lines start

/-- The places at which the lines, taken together, are similar to the pattern. -/
def characterPlaces (lines pattern : List Text) (start : Nat) (threshold : α) : List (Nat × α) :=
  let target := Text.unlines pattern
  scanFrom (fun rest =>
    if rest.length < pattern.length then none
    else
      let ratio := Similarity.similarityAtLeast (Text.unlines (rest.take pattern.length)) target threshold
      if threshold - Score.tolerance ≤ ratio then some ratio else none) lines start

/-- The greatest of some scores. -/
def best : List α → Option α
  | [] => none
  | x :: xs => some (xs.foldl Score.greatest x)

/-- The places whose score is the best one, up to the tolerance. -/
def winners (scored : List (Nat × α)) : List (Nat × α) :=
  match best (scored.map Prod.snd) with
  | none => []
  | some top => scored.filter fun (_, x) => decide (top - Score.tolerance ≤ x)

def capped (level : Level) (scored : List (Nat × α)) : Option (Found α) :=
  match scored with
  | [] => none
  | _ => some ⟨level, scored.map fun (i, x) => (i, Score.least x similarityCap)⟩

/-- Several places at which the lines only open the file's lines are an answer even when
similarity would tell them apart; a single one has to reach the threshold. -/
def seekOpening (config : Config α) (lines pattern : List Text) (start : Nat) : Option (Found α) :=
  match openingPlaces lines pattern start with
  | [(i, x)] => if config.fuzzyThreshold ≤ x then capped .opening [(i, x)] else none
  | scored => capped .opening scored

def seekSimilar (config : Config α) (lines pattern : List Text) (start : Nat) : Option (Found α) :=
  let loose := lines.map Text.loose
  let loosePattern := pattern.map Text.loose
  seekOpening config loose loosePattern start
    <|> capped .fuzzy (winners (fuzzyPlaces loose loosePattern start config.fuzzyThreshold))
    <|> capped .character (winners (characterPlaces (lines.map Text.bare) (pattern.map Text.bare) start
      config.fuzzyThreshold))

/-- The places of `pattern` in `lines` from `start` on. Nothing is found wherever one looks. -/
def seek (config : Config α) (lines pattern : List Text) (start : Nat) : Option (Found α) :=
  if pattern.isEmpty then some ⟨.exact, [(start, Score.one)]⟩
  else if lines.length < start + pattern.length then none
  else
    seekEqual config lines pattern start
      <|> if config.allowFuzzy then seekSimilar config lines pattern start else none

end Sequence
end LoosePatch
