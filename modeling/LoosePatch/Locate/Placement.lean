import LoosePatch.Hunk.Basic
import LoosePatch.Locate.Sequence
import LoosePatch.Numeric.Fixed
import LoosePatch.Text.Quoted

/-!
Placements: where the old lines of a hunk were found, how, and with what confidence.
-/

namespace LoosePatch

/-- How a view of a hunk leaves out some of its old lines. -/
inductive Narrowing where
  | changedLines
  | collapsed
  | trimmed
  deriving DecidableEq, Repr

def Narrowing.label : Narrowing → String
  | changedLines => "changed lines"
  | collapsed => "collapsed context"
  | trimmed => "trimmed context"

/-- What placed a hunk: its old lines, all or some of them, at some level; or for added lines
alone an anchor, the end of the file or a line number. -/
inductive Strategy where
  | lines (level : Level)
  | narrowed (view : Narrowing) (level : Level)
  | anchor
  | endOfFile
  | lineHint
  deriving DecidableEq, Repr

def Strategy.text : Strategy → String
  | lines level => level.tag
  | narrowed view level => view.label ++ "/" ++ level.tag
  | anchor => "anchor"
  | endOfFile => "end of file"
  | lineHint => "line hint"

/-- What is worth knowing about a placement. -/
inductive Note (α : Type) where
  | narrowed (hunk : Nat) (view : Narrowing)
  | anchorMissing (hunk : Nat) (anchor : Text)
  | aboveAnchor (hunk line : Nat)
  | inexact (hunk : Nat) (strategy : Strategy) (place : Nat) (confidence : α)
  deriving DecidableEq

def Note.message {α : Type} [Score α] : Note α → String
  | narrowed hunk view => s!"Hunk {hunk}: located by " ++ view.label ++ " only"
  | anchorMissing hunk anchor =>
    s!"Hunk {hunk}: anchor " ++ String.ofList anchor.quoted ++ " not found; located by content"
  | aboveAnchor hunk line => s!"Hunk {hunk}: matched above its anchor at line {line + 1}"
  | inexact hunk strategy place confidence =>
    s!"Hunk {hunk}: " ++ strategy.text ++ s!" match at line {place + 1} (confidence " ++
      String.ofList (fixedRat 2 (Score.exact confidence)) ++ ")"

/-- A place for a hunk. `positions` pairs the index of each matched edit with a file line, both
ascending; added lines alone have an `insertAt` instead. -/
structure Placement (α : Type) where
  start : Nat
  confidence : α
  strategy : Strategy
  positions : List (Nat × Nat) := []
  insertAt : Option Nat := none
  notes : List (Note α) := []
  deriving DecidableEq

namespace Placement

variable {α : Type} [Score α]

/-- One past the last matched file line. -/
def stop (p : Placement α) : Nat :=
  match (p.positions.map Prod.snd).max? with
  | some last => last + 1
  | none => p.start

def isFuzzy (p : Placement α) : Bool := decide (p.confidence < Score.one)

/-- The file line that an edit is matched to. -/
def lineOf? (p : Placement α) (edit : Nat) : Option Nat := p.positions.lookup edit

end Placement
end LoosePatch
