import DesignTokens.Decimal.Fixed
import DesignTokens.Decimal.Reading
import DesignTokens.Text.Blank

/-!
# Lengths

A length is a number text followed by a unit. Pixel lengths become multiples of a base font size
(`rem`) and back; texts of any other shape pass through untouched.
-/

namespace DesignTokens

/-- A numeric text in two parts, as written. -/
structure NumericText where
  number : String
  unit : String
deriving DecidableEq

namespace NumericText

def isSign (c : Char) : Bool :=
  c = '+' || c = '-'

def isDigitOrPoint (c : Char) : Bool :=
  c.isDigit || c = '.'

/-- A percent sign, or any number of ASCII letters. -/
def isUnit (text : List Char) : Bool :=
  text = ['%'] || text.all Char.isAlpha

/-- Digits with at most one point among or around them. -/
def isMagnitude (text : List Char) : Bool :=
  text.any Char.isDigit && text.count '.' ≤ 1

/-- Splits a numeric text into its sign, the digits and points after it, and the rest. -/
def pieces (text : List Char) : List Char × List Char × List Char :=
  let sign := (text.take 1).filter isSign
  let body := text.drop sign.length
  (sign, body.takeWhile isDigitOrPoint, body.dropWhile isDigitOrPoint)

/-- Reads a text, blanks around it aside, as a number and a unit. The number is an optional sign
and a magnitude; the unit may be empty. -/
def parse? (raw : String) : Option NumericText :=
  let (sign, magnitude, unit) := pieces (Text.trim raw.toList)
  if isMagnitude magnitude && isUnit unit then
    some ⟨String.ofList (sign ++ magnitude), String.ofList unit⟩
  else none

end NumericText

/-- A finite number of some unit. -/
structure Length where
  value : Float
  unit : String

namespace Length

def parse? (raw : String) : Option Length := do
  let text ← NumericText.parse? raw
  let value ← Decimal.read? text.number
  if Decimal.isFinite value then some ⟨value, text.unit⟩ else none

/-- A base size by which lengths can be divided. -/
def isBase (size : Float) : Bool :=
  Decimal.isFinite size && 0 < size

def precision : Float := 10000

def dropTrailing (c : Char) (text : List Char) : List Char :=
  (text.reverse.dropWhile (· = c)).reverse

/-- A number rounded to four places, without trailing zeros. -/
def formatNumber (value : Float) : String :=
  let rounded := Decimal.roundToWhole (value * precision) / precision
  let text := (Decimal.fixed 4 rounded).toList
  let short := dropTrailing '.' (dropTrailing '0' text)
  if short = ['-', '0'] then "0" else String.ofList short

/-- A pixel length in units of the base size; every other text as it is. -/
def pxToRem (raw : String) (base : Float) : String :=
  if isBase base then
    match parse? raw with
    | some length => if length.unit = "px" then formatNumber (length.value / base) ++ "rem" else raw
    | none => raw
  else raw

/-- A length in units of the base size, in pixels. -/
def remToPx (raw : String) (base : Float) : Option String :=
  if isBase base then
    match parse? raw with
    | some length =>
        if length.unit = "rem" then some (formatNumber (length.value * base) ++ "px") else none
    | none => none
  else none

end Length

end DesignTokens
