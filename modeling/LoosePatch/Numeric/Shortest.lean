import LoosePatch.Numeric.Binary64
import LoosePatch.Text.Digit

/-!
The shortest decimal that reads back as a given binary64 number. Grids with one, two, … digits are
tried in turn; the first one with a point in the interval of reals that round to the number gives
the digits, and of two points the nearer one is taken.
-/

namespace LoosePatch

/-- The decimal `digits · 10^exponent`. -/
structure Decimal where
  digits : Nat
  exponent : Int
  deriving DecidableEq, Repr

namespace Shortest

/-- The largest `k` with `10^k ≤ num / den`. -/
def magnitude (num den : Nat) : Int :=
  if den ≤ num then ((Nat.toDigits 10 (num / den)).length : Int) - 1
  else
    let l := (Nat.toDigits 10 (den / num)).length
    if den ≤ num * Nat.pow 10 (l - 1) then 1 - (l : Int) else -(l : Int)

/-- Whether `(a · 10^k) ≤ b` or `<`, with all three read exactly. -/
private def within (inclusive : Bool) (low high : Fraction) (d : Nat) (k : Int) : Bool :=
  let scale := Nat.pow 10 k.natAbs
  let (num, den) := if 0 ≤ k then (d * scale, 1) else (d, scale)
  let above := low.num * den
  let below := num * low.den
  let above' := num * high.den
  let below' := high.num * den
  if inclusive then above ≤ below && above' ≤ below' else above < below && above' < below'

/-- The points next to the value on the grid of multiples of `10^k`. -/
private def grid (value low high : Fraction) (inclusive : Bool) (k : Int) : Option Decimal :=
  let scale := Nat.pow 10 k.natAbs
  let (num, den) := if 0 ≤ k then (value.num, value.den * scale) else (value.num * scale, value.den)
  let d := num / den
  let rest := 2 * (num % den)
  let lowerFits := within inclusive low high d k && 0 < d
  let upperFits := within inclusive low high (d + 1) k
  let lowerNearer := rest < den || (rest == den && d % 2 == 0)
  if lowerFits && (lowerNearer || !upperFits) then some ⟨d, k⟩
  else if upperFits then some ⟨d + 1, k⟩
  else none

/-- The shortest decimal of a positive number `m · 2^e`. -/
def ofPositive (m : Nat) (e : Int) : Decimal :=
  let value := Binary64.scaled (4 * m) (e - 2)
  let gapBelow := if m = Nat.pow 2 52 ∧ -1074 < e then 1 else 2
  let low := Binary64.scaled (4 * m - gapBelow) (e - 2)
  let high := Binary64.scaled (4 * m + 2) (e - 2)
  let top := magnitude value.num value.den
  let found := (List.range 17).findSome? fun n => grid value low high (m % 2 == 0) (top - (n : Nat))
  found.getD ⟨0, 0⟩

/-- Where positional notation ends, and how exponents are written. -/
structure Style where
  firstPositional : Int := -4
  lastPositional : Int := 15
  exponentWidth : Nat := 2

private def exponentText (style : Style) (x : Int) : Text :=
  let ds := numeral x.natAbs
  let sign := if x < 0 then '-' else '+'
  'e' :: sign :: (List.replicate (style.exponentWidth - ds.length) '0' ++ ds)

private def dropZeros (d : Decimal) : List Char × Int :=
  let ds := numeral d.digits
  let kept := (ds.reverse.dropWhile (· == '0')).reverse
  (kept, d.exponent + (ds.length - kept.length : Nat))

/-- A decimal with a point, or with an exponent outside the positional range. -/
def write (style : Style) (d : Decimal) : Text :=
  let (ds, k) := dropZeros d
  let point := (ds.length : Int) + k
  let scientific := point - 1
  if style.firstPositional ≤ scientific ∧ scientific ≤ style.lastPositional then
    if point ≤ 0 then ['0', '.'] ++ List.replicate point.natAbs '0' ++ ds
    else if (ds.length : Int) ≤ point then ds ++ List.replicate (point.toNat - ds.length) '0' ++ ['.', '0']
    else ds.take point.toNat ++ '.' :: ds.drop point.toNat
  else
    let body := if ds.length ≤ 1 then ds else ds.take 1 ++ '.' :: ds.drop 1
    body ++ exponentText style scientific

end Shortest

/-- The shortest text that reads back as the number. -/
def shortestText (x : Float) : Text :=
  match Binary64.ofFloat x with
  | .nan => "nan".toList
  | .infinite negative => if negative then "-inf".toList else "inf".toList
  | .finite negative m e =>
    let body := if m = 0 then "0.0".toList else Shortest.write {} (Shortest.ofPositive m e)
    if negative then '-' :: body else body

end LoosePatch
