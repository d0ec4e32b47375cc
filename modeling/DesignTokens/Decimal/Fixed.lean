import DesignTokens.Decimal.Shortest

/-!
# Decimal text with a fixed number of places
-/

namespace DesignTokens.Decimal

/-- The digits of `significand * 2 ^ exponent` with `places` digits after the point. The exact
value is rounded, and a tie goes to the even digit. -/
def fixedDigits (places significand : Nat) (exponent : Int) : List Char :=
  let quotient := Binary64.scaled (significand * Nat.pow 10 places) 1 (-exponent)
  positional (roundDiv .toEven quotient.1 quotient.2) (-places)

def fixed (places : Nat) (x : Float) : String :=
  match Binary64.ofFloat x with
  | .nan => "NaN"
  | .infinite negative => signed negative ['i', 'n', 'f']
  | .finite negative significand exponent =>
      signed negative (fixedDigits places significand exponent)

end DesignTokens.Decimal
