import LoosePatch.Numeric.Shortest
import LoosePatch.Text.Blank

/-!
Numbers as they are given: whole, or with a fraction or exponent. Whole numbers keep their exact
value, the others are binary64.
-/

namespace LoosePatch

inductive Number where
  | whole (n : Int)
  | real (x : Float)

namespace Number

def text : Number → Text
  | whole n => signedNumeral n
  | real x => shortestText x

def toFloat : Number → Float
  | whole n => Float.ofInt n
  | real x => x

/-- Whether the number lies between 0 and 1, both included. -/
def isRatio : Number → Bool
  | whole n => 0 ≤ n && n ≤ 1
  | real x => 0.0 ≤ x && x ≤ 1.0

/-! ## Reading decimals -/

/-- The binary64 number nearest to `mantissa · 10^exponent`; `width` is the length of the
mantissa. -/
def nearest (mantissa : Nat) (width : Nat) (exponent : Int) : Float :=
  if mantissa = 0 then 0.0
  else if 400 < (width : Int) + exponent then 1.0 / 0.0
  else if (width : Int) + exponent < -400 then 0.0
  else Float.ofScientific mantissa (exponent < 0) exponent.natAbs

/-- The digits of a run in which single underscores may stand between digits, and the rest. -/
def readDigits : Text → Text × Text
  | [] => ([], [])
  | [c] => if isDigit c then ([c], []) else ([], [c])
  | c :: d :: s =>
    if isDigit c then
      let (ds, rest) := if d = '_' ∧ s.head?.any isDigit then readDigits s else readDigits (d :: s)
      (c :: ds, rest)
    else ([], c :: d :: s)

/-- An optional sign: whether it is a minus, and the rest. -/
def readSign : Text → Bool × Text
  | '-' :: s => (true, s)
  | '+' :: s => (false, s)
  | s => (false, s)

/-- The exponent at the end of a numeral, zero if there is none. -/
def readExponent? : Text → Option Int
  | [] => some 0
  | c :: s =>
    if c == 'e' || c == 'E' then
      let (negative, s) := readSign s
      let (ds, rest) := readDigits s
      if ds.isEmpty || !rest.isEmpty then none
      else some (if negative then -(ds.digitsValue : Int) else ds.digitsValue)
    else none

/-- An unsigned numeral: digits with an optional point and exponent. -/
def readMagnitude? (s : Text) : Option Float :=
  let (ahead, rest) := readDigits s
  let (places, rest) :=
    match rest with
    | '.' :: rest => readDigits rest
    | _ => ([], rest)
  if ahead.isEmpty && places.isEmpty then none
  else do
    let exponent ← readExponent? rest
    let ds := ahead ++ places
    some (nearest ds.digitsValue (ds.dropWhile (digitValue? · == some 0)).length (exponent - places.length))

/-- Reads a decimal, an infinity or a NaN, with blanks around it. The information separators do
not count as blanks here. -/
def readReal? (s : Text) : Option Float :=
  let (negative, body) := readSign (s.trimBy fun c => isBlank c && !(28 ≤ c.toNat && c.toNat < 32))
  let word := body.map Char.toLower
  let size :=
    if word == "inf".toList || word == "infinity".toList then some (1.0 / 0.0)
    else if word == "nan".toList then some (0.0 / 0.0)
    else readMagnitude? body
  size.map fun x => if negative then -x else x

end Number
end LoosePatch
