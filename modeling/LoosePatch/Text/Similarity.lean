import LoosePatch.Numeric.Score
import LoosePatch.Text.Basic

/-!
How alike two texts are: twice the number of matched characters over the total length. The
matched characters are those of the longest common run, the first of them in the first text and
then in the second, and of what is matched in the same way on its two sides.
-/

namespace LoosePatch.Similarity

/-! ## The longest common run -/

structure Run where
  left : Nat
  right : Nat
  size : Nat
  deriving DecidableEq, Repr

/-- The lengths of the common runs that end at one character of the first text and at each of the
second, from those that end one character earlier. -/
def nextRow (c : Char) (b : Text) (row : List Nat) : List Nat :=
  List.zipWith (fun d n => if c == d then n + 1 else 0) b (0 :: row)

/-- The first run in a row that is longer than `best`. -/
def improve (i : Nat) : (j : Nat) → List Nat → Run → Run
  | _, [], best => best
  | j, n :: row, best => improve i (j + 1) row (if best.size < n then ⟨i + 1 - n, j + 1 - n, n⟩ else best)

def longestFrom (b : Text) : (i : Nat) → Text → List Nat → Run → Run
  | _, [], _, best => best
  | i, c :: a, row, best =>
    let row := nextRow c b row
    longestFrom b (i + 1) a row (improve i 0 row best)

def longest (a b : Text) : Run := longestFrom b 0 a (b.map fun _ => 0) ⟨0, 0, 0⟩

/-! ## Matched characters -/

/-- The number of characters matched between two texts. -/
def matched (a b : Text) : Nat :=
  match longest a b with
  | ⟨i, j, k⟩ =>
    if _h : 0 < k ∧ i + k ≤ a.length then
      matched (a.take i) (b.take j) + k + matched (a.drop (i + k)) (b.drop (j + k))
    else 0
termination_by a.length
decreasing_by
  · simp only [List.length_take]; omega
  · simp only [List.length_drop]; omega

/-- The number of characters that the texts have in common, wherever they stand. -/
def shared : Text → Text → Nat
  | [], _ => 0
  | c :: a, b => if b.contains c then shared a (b.erase c) + 1 else shared a b

/-! ## Ratios -/

variable {α : Type} [Score α]

def ratioOf (count length : Nat) : α :=
  if length = 0 then Score.one else ((2 * count : Nat) : α) / ((length : Nat) : α)

def ratio (a b : Text) : α := ratioOf (matched a b) (a.length + b.length)

/-- A bound on `ratio` from the lengths alone. -/
def lengthBound (a b : Text) : α := ratioOf (min a.length b.length) (a.length + b.length)

/-- A bound on `ratio` from the characters, wherever they stand. -/
def sharedBound (a b : Text) : α := ratioOf (shared a b) (a.length + b.length)

def similarity (a b : Text) : α := if a = b then Score.one else ratio a b

/-- The similarity, or zero when a bound shows that it is below `floor`. -/
def similarityAtLeast (a b : Text) (floor : α) : α :=
  if a = b then Score.one
  else if (lengthBound a b : α) < floor ∨ (sharedBound a b : α) < floor then Score.zero
  else ratio a b

end LoosePatch.Similarity
