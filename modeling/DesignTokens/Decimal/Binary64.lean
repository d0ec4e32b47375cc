import DesignTokens.Decimal.Rounding

/-!
# Doubles taken apart

A finite double is `significand * 2 ^ exponent`. All work on digits happens on that form, in
exact arithmetic on natural numbers; `nearest` goes back from a quotient to the double next to it.
-/

namespace DesignTokens.Decimal

inductive Binary64 where
  | nan
  | infinite (negative : Bool)
  | finite (negative : Bool) (significand : Nat) (exponent : Int)
deriving DecidableEq

namespace Binary64

/-- The exponent of the least positive double. -/
def leastExponent : Int := -1074

def ofBits (bits : Nat) : Binary64 :=
  let negative := bits / Nat.pow 2 63 % 2 == 1
  let biased := bits / Nat.pow 2 52 % Nat.pow 2 11
  let fraction := bits % Nat.pow 2 52
  if biased = 2047 then
    if fraction = 0 then .infinite negative else .nan
  else if biased = 0 then .finite negative fraction leastExponent
  else .finite negative (Nat.pow 2 52 + fraction) (leastExponent + (biased - 1 : Nat))

def ofFloat (x : Float) : Binary64 :=
  ofBits x.toBits.toNat

/-- `num / den` in units of `2 ^ exponent`, as a quotient of natural numbers. -/
def scaled (num den : Nat) (exponent : Int) : Nat × Nat :=
  match exponent with
  | .ofNat e => (num, den * Nat.pow 2 e)
  | .negSucc e => (num * Nat.pow 2 (e + 1), den)

/-- The exponent at which `num / den` has 53 binary digits before the point, or the least one. -/
def fittingExponent (num den : Nat) : Int :=
  let low := (num.log2 : Int) - den.log2 - 53
  let quotient := scaled num den low
  max leastExponent (if quotient.1 / quotient.2 < Nat.pow 2 53 then low else low + 1)

def infinityBits : Nat := 2047 * Nat.pow 2 52

/-- The bits of the double nearest to `num / den`; a tie goes to the even significand, and what
lies beyond the largest double becomes infinite. -/
def nearestBits (num den : Nat) : Nat :=
  if num = 0 then 0
  else
    let exponent := fittingExponent num den
    let quotient := scaled num den exponent
    let significand := roundDiv .toEven quotient.1 quotient.2
    min infinityBits ((exponent - leastExponent).toNat * Nat.pow 2 52 + significand)

def withSign (negative : Bool) (bits : Nat) : Float :=
  Float.ofBits (UInt64.ofNat (if negative then Nat.pow 2 63 + bits else bits))

/-- The double nearest to plus or minus `num / den`. -/
def nearest (negative : Bool) (num den : Nat) : Float :=
  withSign negative (nearestBits num den)

end Binary64

/-- The double nearest to a natural number. -/
def ofNat (n : Nat) : Float :=
  Binary64.nearest false n 1

def ofInt (n : Int) : Float :=
  Binary64.nearest (n < 0) n.natAbs 1

/-- True of every double except NaN and the two infinities. -/
def isFinite (x : Float) : Bool :=
  match Binary64.ofFloat x with
  | .finite .. => true
  | _ => false

/-- The nearest whole number; a half goes away from zero. The sign of zero stays. -/
def roundToWhole (x : Float) : Float :=
  match Binary64.ofFloat x with
  | .finite negative significand exponent =>
      match exponent with
      | .ofNat _ => x
      | .negSucc e => Binary64.nearest negative (roundDiv .up significand (Nat.pow 2 (e + 1))) 1
  | _ => x

end DesignTokens.Decimal
