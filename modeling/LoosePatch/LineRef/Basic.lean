import LoosePatch.Digest.Sha256
import LoosePatch.Text.Quoted

/-!
References to lines by number and hash. The hash is taken of the number and the text together, so
a reference goes stale when either changes.
-/

namespace LoosePatch

structure LineRef where
  line : Nat
  hash : Text
  deriving DecidableEq, Repr

namespace LineRef

def hashLength : Nat := 4

/-- A carriage return at the end of a line is no part of what is hashed. -/
def hashed (line : Text) : Text := if line.getLast? = some '\r' then line.dropLast else line

def hashOf (number : Int) (line : Text) : Text :=
  let bytes := (signedNumeral number ++ '\x00' :: hashed line).toBytes
  ((Sha256.digest bytes.toList).flatMap fun b => hexDigits 2 b.toNat).take hashLength

/-- A line as it is shown with its reference. -/
def row (number : Int) (line : Text) : Text :=
  signedNumeral number ++ ':' :: hashOf number line ++ '|' :: ' ' :: line

/-- Consecutive lines from number `first` on, each with its reference. -/
def rows (first : Int) : List Text → List Text
  | [] => []
  | line :: lines => row first line :: rows (first + 1) lines

/-- What the file holds now at a reference that has gone stale. -/
structure Mismatch where
  line : Nat
  expected : Text
  actual : Text
  deriving DecidableEq, Repr

end LineRef
end LoosePatch
