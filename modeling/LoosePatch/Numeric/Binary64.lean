/-!
The exact value of a binary64 number: a sign and a whole mantissa times a power of two, an
infinity, or not a number.
-/

namespace LoosePatch

inductive Binary64 where
  | nan
  | infinite (negative : Bool)
  | finite (negative : Bool) (mantissa : Nat) (exponent : Int)
  deriving DecidableEq, Repr

/-- A fraction of natural numbers, not necessarily in lowest terms. -/
structure Fraction where
  num : Nat
  den : Nat
  deriving DecidableEq, Repr

namespace Binary64

def ofFloat (x : Float) : Binary64 :=
  let bits : Nat := x.toBits.toNat
  let negative := bits / Nat.pow 2 63 == 1
  let field : Nat := bits / Nat.pow 2 52 % 2048
  let significand : Nat := bits % Nat.pow 2 52
  if field = 2047 then (if significand = 0 then infinite negative else nan)
  else if field = 0 then finite negative significand (-1074)
  else finite negative (significand + Nat.pow 2 52) ((field : Int) - 1075)

/-- The value `m · 2^e` as a fraction. -/
def scaled (m : Nat) (e : Int) : Fraction :=
  match e with
  | .ofNat k => ⟨m * Nat.pow 2 k, 1⟩
  | .negSucc k => ⟨m, Nat.pow 2 (k + 1)⟩

end Binary64

/-- The exact value of a finite binary64 number, and zero for the others. -/
def exactValue (x : Float) : Rat :=
  match Binary64.ofFloat x with
  | .finite negative m e =>
    let q := Binary64.scaled m e
    mkRat (if negative then -(q.num : Int) else q.num) q.den
  | _ => 0

end LoosePatch
