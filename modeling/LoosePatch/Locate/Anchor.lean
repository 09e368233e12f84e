import LoosePatch.Locate.Sequence

/-!
Anchors: texts of lines that a hunk comes after. Several anchors narrow the place step by step,
each being looked for below the line of the one before.
-/

namespace LoosePatch

inductive AnchorLevel where
  | exact
  | trimmed
  | opening
  | substring
  | loose
  | fuzzy
  deriving DecidableEq, Repr

def AnchorLevel.tag : AnchorLevel → String
  | exact => "exact"
  | trimmed => "trimmed"
  | opening => "prefix"
  | substring => "substring"
  | loose => "normalized"
  | fuzzy => "fuzzy"

/-- The lines that an anchor may mean, found at one level. -/
structure AnchorHits (α : Type) where
  lines : List Nat
  confidence : α
  level : AnchorLevel

/-- Where the anchors of a hunk point. -/
inductive Anchoring (α : Type) where
  | line (place : Nat) (confidence : α)
  /-- Two lines or more, in file order. -/
  | candidates (lines : List Nat) (confidence : α)
  /-- An anchor that is nowhere to be found. -/
  | missing (anchor : Text)

namespace Anchor

variable {α : Type} [Score α]

/-! ## One anchor -/

/-- Lines with their numbers, from `start` on. -/
def numbered (lines : List Text) (start : Nat) : List (Text × Nat) := lines.zipIdx.drop start

def linesWhere (p : Text → Bool) (lines : List (Text × Nat)) : List Nat :=
  (lines.filter fun (line, _) => p line).map Prod.snd

/-- The spellings of a target: a call without arguments also opens one with arguments. -/
def spellings (target : Text) : List Text :=
  if ['(', ')'].isSuffixOf target && 2 < target.length then [target, target.dropLast] else [target]

/-- Whether a long enough spelling stands in the line, and takes up enough of it if asked for. -/
def standsIn (config : Config α) (wantsShare : Bool) (target line : Text) : Bool :=
  (spellings target).any fun v =>
    config.substringMinLength ≤ v.length && v.occursIn line &&
      !(wantsShare && decide (((v.length : Nat) : α) < config.substringMinRatio * ((line.length : Nat) : α)))

def hits? (lines : List Nat) (confidence : α) (level : AnchorLevel) : Option (AnchorHits α) :=
  if lines.isEmpty then none else some ⟨lines, confidence, level⟩

def fuzzyHits (config : Config α) (target : Text) (lines : List (Text × Nat)) : Option (AnchorHits α) :=
  let scored := (lines.map fun (line, i) =>
      (i, Similarity.similarityAtLeast line target config.anchorThreshold)).filter
    fun (_, x) => decide (config.anchorThreshold ≤ x)
  match Sequence.best (scored.map Prod.snd) with
  | none => none
  | some top => hits? ((Sequence.winners scored).map Prod.fst) top .fuzzy

/-- The lines from `start` on that the anchor means, at the first level that has any. -/
def find (config : Config α) (lines : List Text) (anchor : Text) (start : Nat) : Option (AnchorHits α) :=
  let target := anchor.trim
  if target.isEmpty then none
  else
    let given := numbered lines start
    let trimmed := given.map fun (line, i) => (line.trim, i)
    let loose := given.map fun (line, i) => (line.loose, i)
    let looseTarget := target.loose
    let inside := linesWhere (standsIn config false target) trimmed
    hits? (linesWhere (· = anchor) given) Score.one .exact
      <|> hits? (linesWhere (· = target) trimmed) (Score.decimal 99 2) .trimmed
      <|> hits? (linesWhere (fun l => (spellings target).any (·.isPrefixOf l)) trimmed)
        (Score.decimal 95 2) .opening
      <|> hits? (linesWhere (standsIn config true target) trimmed) (Score.decimal 92 2) .substring
      <|> (if inside.length = 1 then hits? inside (Score.decimal 9 1) .substring else none)
      <|> if config.allowFuzzy then
        hits? (linesWhere (looseTarget.isPrefixOf ·) loose) (Score.decimal 97 2) .loose
          <|> fuzzyHits config looseTarget loose
      else none

/-! ## An anchor of several phrases -/

/-- Reads words as phrases, each found below the line of the one before by `search`; the longest
phrase that is found is taken. The first phrase may be kept from being all words. Gives the line
of the last phrase. -/
def phrases (search : Text → Nat → Option Nat) (notWhole : Bool) (words : List Text) (start : Nat) :
    Option Nat :=
  match words with
  | [] => none
  | word :: rest =>
    let sizes := (List.range (if notWhole then rest.length else rest.length + 1)).reverse
    let found := sizes.findSome? fun k =>
      (search ([' '].intercalate (word :: rest.take k)) start).map (k, ·)
    match found with
    | none => none
    | some (k, line) =>
      if (rest.drop k).isEmpty then some line else phrases search false (rest.drop k) (line + 1)
termination_by words.length
decreasing_by simp only [List.length_drop, List.length_cons]; omega

/-- The first line that means a phrase, without leniency. -/
def strictLine (config : Config α) (lines : List Text) (phrase : Text) (start : Nat) : Option Nat :=
  (find { config with allowFuzzy := false } lines phrase start).bind fun hits => hits.lines.head?

/-- The lines that an anchor means, as a whole or phrase by phrase. -/
def locate (config : Config α) (lines : List Text) (anchor : Text) (start : Nat) : List Nat × α :=
  match find config lines anchor start with
  | some hits => (hits.lines, hits.confidence)
  | none =>
    match phrases (strictLine config lines) true anchor.words start with
    | some line => ([line], Score.decimal 9 1)
    | none => ([], Score.zero)

/-! ## All anchors -/

/-- Follows anchors down from a line; a missing one is the error. -/
def follow (config : Config α) (lines : List Text) : List Text → Nat → α → Except Text (Nat × α)
  | [], line, confidence => .ok (line, confidence)
  | anchor :: anchors, line, confidence =>
    match locate config lines anchor (line + 1) with
    | ([], _) => .error anchor
    | (next :: _, c) => follow config lines anchors next (Score.least confidence c)

/-- The entries of a list that are nearest to `target`. -/
def nearest (target : Int) (places : List Nat) : List Nat :=
  let distance (p : Nat) : Nat := ((p : Int) - target).natAbs
  match (places.map distance).min? with
  | none => []
  | some least => places.filter fun p => distance p = least

/-- Puts an end of a chain in file order; of two chains to one line the first counts. -/
def insertEnd (line : Nat) (confidence : α) : List (Nat × α) → List (Nat × α)
  | [] => [(line, confidence)]
  | (l, c) :: rest =>
    if line < l then (line, confidence) :: (l, c) :: rest
    else if line = l then (l, c) :: rest
    else (l, c) :: insertEnd line confidence rest

/-- The ends of all chains in file order, and the anchor that broke the last broken chain. -/
def ends (chains : List (Except Text (Nat × α))) : List (Nat × α) × Option Text :=
  chains.foldl (fun (found, missing) chain =>
    match chain with
    | .ok (line, confidence) => (insertEnd line confidence found, missing)
    | .error anchor => (found, some anchor)) ([], none)

/-- Where nested anchors point, the outermost first; a line hint chooses between several lines.
Without anchors there is nothing to say. -/
def resolve (config : Config α) (lines anchors : List Text) (hint : Option Int) : Option (Anchoring α) :=
  match anchors with
  | [] => none
  | first :: rest =>
    match locate config lines first 0 with
    | ([], _) => some (.missing first)
    | (hits, confidence) =>
      match ends (hits.map fun hit => follow config lines rest hit confidence) with
      | ([], missing) => some (.missing (missing.getD first))
      | (found@((_, c) :: others), _) =>
        let places := found.map Prod.fst
        let places := match hint with
          | some target => nearest target places
          | none => places
        match places with
        | [place] => some (.line place ((found.lookup place).getD c))
        | _ => some (.candidates places (others.foldl (fun acc (_, c) => Score.least acc c) c))

end Anchor
end LoosePatch
