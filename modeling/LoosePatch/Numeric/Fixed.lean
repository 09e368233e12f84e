import LoosePatch.Numeric.Binary64
import LoosePatch.Text.Digit

/-!
Decimals with a fixed number of places. A quotient is rounded to the nearest multiple of the last
place, and a tie goes to the even neighbour.
-/

namespace LoosePatch

/-- The whole number nearest to `num / den`; of two equally near ones the even one. -/
def roundDiv (num den : Nat) : Nat :=
  let q := num / den
  let twice := 2 * (num % den)
  if twice < den then q
  else if den < twice then q + 1
  else if q % 2 = 0 then q else q + 1

/-- The quotient `num / den` rounded to `places` decimals, in units of the last place. -/
def roundedUnits (places num den : Nat) : Nat := roundDiv (num * Nat.pow 10 places) den

/-- A count of units of the last of `places` decimals, written with a point. -/
def fixedText (places : Nat) (negative : Bool) (units : Nat) : Text :=
  let ds := numeral units
  let ds := List.replicate (places + 1 - ds.length) '0' ++ ds
  let sign := if negative then ['-'] else []
  sign ++ ds.take (ds.length - places) ++ '.' :: ds.drop (ds.length - places)

/-- A rational number with `places` decimals. -/
def fixedRat (places : Nat) (x : Rat) : Text :=
  fixedText places (x.num < 0) (roundedUnits places x.num.natAbs x.den)

/-- A binary64 number with `places` decimals, rounded from its exact value. -/
def fixedFloat (places : Nat) (x : Float) : Text :=
  match Binary64.ofFloat x with
  | .nan => "nan".toList
  | .infinite negative => if negative then "-inf".toList else "inf".toList
  | .finite negative m e =>
    let q := Binary64.scaled m e
    fixedText places negative (roundedUnits places q.num q.den)

/-- The binary64 number nearest to `x` rounded to `places` decimals. -/
def roundPlaces (places : Nat) (x : Rat) : Float :=
  let size := Float.ofScientific (roundedUnits places x.num.natAbs x.den) true places
  if x.num < 0 then -size else size

end LoosePatch
