import DesignTokens.Decimal.Binary64
import DesignTokens.Text.Digits

/-!
# Reading decimals

Digits with a decimal exponent name one rational number; the double next to it is what they read as.
-/

namespace DesignTokens.Decimal

/-- Decimal exponents beyond this one, either way, lead out of the range of doubles. -/
def exponentBound : Nat := 400

/-- The double nearest to `digits * 10 ^ exponent`. The first two cases answer without writing
out a power of ten whose size the text does not bound. -/
def toDouble (negative : Bool) (digits : Nat) (exponent : Int) : Float :=
  if digits = 0 ∨ exponent + digits.log2 + exponentBound < 0 then Binary64.withSign negative 0
  else if (exponentBound : Int) < exponent then Binary64.withSign negative Binary64.infinityBits
  else Binary64.nearest negative (digits * Nat.pow 10 exponent.toNat) (Nat.pow 10 (-exponent).toNat)

/-- A decimal text taken apart: sign, digits before and after the point, exponent. -/
structure Numeral where
  negative : Bool
  whole : List Char
  fraction : List Char
  exponent : Int
deriving DecidableEq

namespace Numeral

def toFloat (n : Numeral) : Float :=
  toDouble n.negative (Text.natOfDigits 10 (n.whole ++ n.fraction)) (n.exponent - n.fraction.length)

end Numeral

def splitSign : List Char → Bool × List Char
  | '-' :: rest => (true, rest)
  | '+' :: rest => (false, rest)
  | text => (false, text)

/-- An exponent with its sign; at least one digit. -/
def exponent? (text : List Char) : Option Int :=
  let (negative, digits) := splitSign text
  if digits ≠ [] ∧ digits.all Char.isDigit then
    some (if negative then -Text.natOfDigits 10 digits else Text.natOfDigits 10 digits)
  else none

/-- The part of a numeral after its digits: nothing, or `e` and an exponent. -/
def exponentPart? : List Char → Option Int
  | [] => some 0
  | c :: rest => if c = 'e' ∨ c = 'E' then exponent? rest else none

/-- Sign, digits with at most one point among or around them, and an exponent. -/
def numeral? (text : List Char) : Option Numeral := do
  let (negative, body) := splitSign text
  let whole := body.takeWhile Char.isDigit
  let (fraction, rest) := match body.dropWhile Char.isDigit with
    | '.' :: more => (more.takeWhile Char.isDigit, more.dropWhile Char.isDigit)
    | other => ([], other)
  if whole ++ fraction = [] then none
  let exponent ← exponentPart? rest
  pure ⟨negative, whole, fraction, exponent⟩

/-- Reads a numeral, `inf`, `infinity` or `nan` in any case of letters, each with an optional sign. -/
def read? (text : String) : Option Float :=
  let (negative, body) := splitSign text.toList
  let word := String.ofList (body.map Char.toLower)
  if word = "inf" ∨ word = "infinity" then
    some (Binary64.withSign negative Binary64.infinityBits)
  else if word = "nan" then some (Binary64.withSign negative (Binary64.infinityBits + Nat.pow 2 51))
  else (numeral? text.toList).map Numeral.toFloat

end DesignTokens.Decimal
