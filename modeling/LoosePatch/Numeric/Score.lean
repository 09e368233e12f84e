import LoosePatch.Numeric.Binary64

/-!
Numbers that rate a match. The search is written once for any such numbers: binary64 when it runs,
exact fractions when it is reasoned about.
-/

namespace LoosePatch

class Score (α : Type) extends Add α, Sub α, Mul α, Div α, LT α, LE α, NatCast α where
  [decLt : DecidableLT α]
  [decLe : DecidableLE α]
  /-- The quotient `mantissa / 10^places`, rounded as this kind of number rounds. -/
  decimal : (mantissa places : Nat) → α
  exact : α → Rat

instance Score.decidableLT {α : Type} [Score α] : DecidableLT α := Score.decLt

instance Score.decidableLE {α : Type} [Score α] : DecidableLE α := Score.decLe

instance Score.ofFloat : Score Float where
  natCast n := Float.ofNat n
  decimal mantissa places := Float.ofScientific mantissa true places
  exact := exactValue

instance Score.ofRat : Score Rat where
  decimal mantissa places := mkRat mantissa (Nat.pow 10 places)
  exact x := x

namespace Score

variable {α : Type} [Score α]

def zero : α := ((0 : Nat) : α)

def one : α := ((1 : Nat) : α)

/-- The tolerance of comparisons between computed scores. -/
def tolerance : α := decimal 1 9

/-- The smaller of two scores, the first of equal ones. -/
def least (x y : α) : α := if y < x then y else x

/-- The greater of two scores, the first of equal ones. -/
def greatest (x y : α) : α := if x < y then y else x

end Score
end LoosePatch
