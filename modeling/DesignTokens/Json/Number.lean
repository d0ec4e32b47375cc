import DesignTokens.Decimal.Reading
import DesignTokens.Document

/-!
# JSON numbers

Whole numbers that fit in 64 bits are exact. All others become doubles: as many leading digits as
fit in 64 bits are scaled by a power of ten in one floating-point operation, so the last bit can
differ from that of the nearest double.
-/

namespace DesignTokens.Json

/-- A number as written: digits before the point, digits after it, exponent. -/
structure NumberText where
  negative : Bool
  whole : List Char
  fraction : Option (List Char)
  exponent : Option (Bool × List Char)
deriving DecidableEq

def splitDigits (text : List Char) : List Char × List Char :=
  (text.takeWhile Char.isDigit, text.dropWhile Char.isDigit)

/-- Digits without a leading zero, other than zero itself. -/
def wholePart? : List Char → Option (List Char × List Char)
  | '0' :: rest => if rest.head?.any Char.isDigit then none else some (['0'], rest)
  | text =>
      match splitDigits text with
      | ([], _) => none
      | digits => some digits

def fractionPart? : List Char → Option (Option (List Char) × List Char)
  | '.' :: rest =>
      match splitDigits rest with
      | ([], _) => none
      | (digits, after) => some (some digits, after)
  | text => some (none, text)

def exponentPart? : List Char → Option (Option (Bool × List Char) × List Char)
  | c :: rest =>
      if c = 'e' ∨ c = 'E' then
        let (negative, body) := Decimal.splitSign rest
        match splitDigits body with
        | ([], _) => none
        | (digits, after) => some (some (negative, digits), after)
      else some (none, c :: rest)
  | [] => some (none, [])

/-- Reads a number at the start of a text. -/
def number? (text : List Char) : Option (NumberText × List Char) := do
  let (negative, body) := match text with
    | '-' :: rest => (true, rest)
    | other => (false, other)
  let (whole, afterWhole) ← wholePart? body
  let (fraction, afterFraction) ← fractionPart? afterWhole
  let (exponent, rest) ← exponentPart? afterFraction
  pure (⟨negative, whole, fraction, exponent⟩, rest)

namespace NumberText

/-- The largest significand that is gathered exactly. -/
def significandLimit : Nat := Nat.pow 2 64 - 1

/-- The largest exponent that is written out; larger ones lead out of range. -/
def exponentLimit : Nat := Nat.pow 2 31 - 1

/-- Takes in digits as long as the number stays within the limit. -/
def gather (limit : Nat) : Nat → List Char → Nat × List Char
  | n, [] => (n, [])
  | n, c :: rest =>
      let next := 10 * n + (Text.digit? c).getD 0
      if limit < next then (n, c :: rest) else gather limit next rest

/-- Divides by `10 ^ 308` while the exponent is below what one division covers. -/
def scaleDown : Nat → Float → Int → Float
  | 0, x, _ => x
  | fuel + 1, x, exponent =>
      if exponent < -308 then
        if x == 0 then x else scaleDown fuel (x / Decimal.ofNat (Nat.pow 10 308)) (exponent + 308)
      else x / Decimal.ofNat (Nat.pow 10 exponent.natAbs)

/-- `significand * 10 ^ exponent`; `none` beyond the largest double. Four divisions reach zero. -/
def scale (significand : Nat) (exponent : Int) : Option Float :=
  let x := Decimal.ofNat significand
  if 0 ≤ exponent then
    if 308 < exponent then
      if significand = 0 then some x else none
    else
      let y := x * Decimal.ofNat (Nat.pow 10 exponent.toNat)
      if Decimal.isFinite y then some y else none
  else some (scaleDown 4 x exponent)

/-- The double of a number whose leading digits make up `significand * 10 ^ exponent`. -/
def toDouble (n : NumberText) (significand : Nat) (exponent : Int) : Document :=
  let magnitude :=
    match n.exponent with
    | none => scale significand exponent
    | some (negative, digits) =>
        match gather exponentLimit 0 digits with
        | (e, []) => scale significand (if negative then exponent - e else exponent + e)
        | _ => if significand = 0 ∨ negative then some 0 else none
  match magnitude with
  | some x => .float (if n.negative then -x else x)
  | none => .malformed

def toDocument (n : NumberText) : Document :=
  let (significand, dropped) := gather significandLimit 0 n.whole
  match n.fraction with
  | some digits =>
      let (longer, ignored) := gather significandLimit significand digits
      n.toDouble longer (dropped.length - (digits.length - ignored.length : Nat))
  | none =>
      if n.exponent = none ∧ dropped = [] then
        if n.negative then
          if significand = 0 ∨ Nat.pow 2 63 < significand then .float (-(Decimal.ofNat significand))
          else .int (-significand)
        else .int significand
      else n.toDouble significand dropped.length

end NumberText

end DesignTokens.Json
