/-!
# Rounding a quotient to a whole number
-/

namespace DesignTokens.Decimal

/-- Where a quotient halfway between two whole numbers goes. -/
inductive Tie where
  | toEven
  | up
deriving DecidableEq

/-- The whole number nearest to `num / den`. -/
def roundDiv (tie : Tie) (num den : Nat) : Nat :=
  let quotient := num / den
  let rest := num % den
  if 2 * rest < den then quotient
  else if den < 2 * rest then quotient + 1
  else match tie with
    | .up => quotient + 1
    | .toEven => if quotient % 2 = 0 then quotient else quotient + 1

end DesignTokens.Decimal
