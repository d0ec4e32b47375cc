import DesignTokens.Decimal.Reading
import DesignTokens.Document

/-!
# Dates and times in TOML

A moment is a date, a time of day or both, and then perhaps with an offset. It is kept as its text
in a normal form. As a table a moment has one member, whose key nothing else should use: a table
that begins with that key has to hold a moment's text there.
-/

namespace DesignTokens.Toml

/-- A fixed count of digits whose number lies in a range. -/
def fixedDigits? (count low high : Nat) (text : List Char) : Option (List Char × List Char) :=
  let digits := text.take count
  let n := Text.natOfDigits 10 digits
  if digits.length = count ∧ digits.all Char.isDigit ∧ low ≤ n ∧ n ≤ high then
    some (digits, text.drop count)
  else none

def expect? (c : Char) : List Char → Option (List Char)
  | d :: rest => if c = d then some rest else none
  | [] => none

def daysInMonth (year month : Nat) : Nat :=
  if month = 2 then
    if year % 4 = 0 ∧ (year % 100 ≠ 0 ∨ year % 400 = 0) then 29 else 28
  else if month = 4 ∨ month = 6 ∨ month = 9 ∨ month = 11 then 30
  else 31

/-- A date, as written. -/
def date? (text : List Char) : Option (List Char × List Char) := do
  let (year, rest) ← fixedDigits? 4 0 9999 text
  let rest ← expect? '-' rest
  let (month, rest) ← fixedDigits? 2 1 12 rest
  let rest ← expect? '-' rest
  let (day, after) ← fixedDigits? 2 1 (daysInMonth (Text.natOfDigits 10 year) (Text.natOfDigits 10 month)) rest
  pure (year ++ '-' :: month ++ '-' :: day, after)

/-- Fractions of a second count to nine places. -/
def secondPlaces : Nat := 9

/-- The fraction of a second, without trailing zeros. -/
def secondFraction (text : List Char) : List Char × List Char :=
  match text with
  | '.' :: rest =>
      let digits := rest.takeWhile Char.isDigit
      if digits = [] then ([], text)
      else
        let short := ((digits.take secondPlaces).reverse.dropWhile (· = '0')).reverse
        (if short = [] then [] else '.' :: short, rest.dropWhile Char.isDigit)
  | _ => ([], text)

/-- A time of day; a minute may have a leap second. -/
def time? (text : List Char) : Option (List Char × List Char) := do
  let (hour, rest) ← fixedDigits? 2 0 23 text
  let rest ← expect? ':' rest
  let (minute, rest) ← fixedDigits? 2 0 59 rest
  let rest ← expect? ':' rest
  let (second, rest) ← fixedDigits? 2 0 60 rest
  let (fraction, after) := secondFraction rest
  pure (hour ++ ':' :: minute ++ ':' :: second ++ fraction, after)

def hoursAndMinutes? (text : List Char) : Option (List Char × List Char) := do
  let (hour, rest) ← fixedDigits? 2 0 23 text
  let rest ← expect? ':' rest
  let (minute, after) ← fixedDigits? 2 0 59 rest
  pure (hour ++ ':' :: minute, after)

/-- The offset from universal time; an offset of no minutes is written with a plus sign. -/
def offset? : List Char → Option (List Char × List Char)
  | 'Z' :: after => some (['Z'], after)
  | 'z' :: after => some (['Z'], after)
  | '+' :: rest => do
      let (written, after) ← hoursAndMinutes? rest
      pure ('+' :: written, after)
  | '-' :: rest => do
      let (written, after) ← hoursAndMinutes? rest
      pure ((if written = ['0', '0', ':', '0', '0'] then '+' else '-') :: written, after)
  | _ => none

def isDateDelimiter (c : Char) : Bool := c = 'T' || c = 't' || c = ' '

/-- A date with or without a time and an offset, or a time alone. -/
def moment? (text : List Char) : Option (Document × List Char) :=
  match date? text with
  | some (date, after) =>
      let withTime : Option (List Char × List Char) :=
        match after with
        | c :: rest => if isDateDelimiter c then time? rest else none
        | [] => none
      match withTime with
      | none => some (.moment (String.ofList date), after)
      | some (time, afterTime) =>
          match offset? afterTime with
          | some (offset, rest) => some (.moment (String.ofList (date ++ 'T' :: time ++ offset)), rest)
          | none => some (.moment (String.ofList (date ++ 'T' :: time)), afterTime)
  | none => do
      let (time, after) ← time? text
      pure (.moment (String.ofList time), after)

/-- True of the texts that are moments as a whole. -/
def isMomentText (text : List Char) : Bool :=
  (moment? text).any (fun result => result.2 = [])

def isMoment : Document → Bool
  | .text written => isMomentText written.toList
  | _ => false

/-- What a table that begins with the key of moments holds under it. -/
def momentMember? : List (String × Document) → Option Document
  | (key, first) :: _ => if key = Document.momentKey then some first else none
  | [] => none

mutual

/-- True when every table in a document that begins with the key of moments is one. Its other
members do not count then. -/
def areMomentsSound : Document → Bool
  | .list items => areItemMomentsSound items
  | .table members =>
      match momentMember? members with
      | some first => isMoment first
      | none => areMemberMomentsSound members
  | _ => true

def areItemMomentsSound : List Document → Bool
  | [] => true
  | item :: rest => areMomentsSound item && areItemMomentsSound rest

def areMemberMomentsSound : List (String × Document) → Bool
  | [] => true
  | (_, value) :: rest => areMomentsSound value && areMemberMomentsSound rest

end

/-- True when all that the table of a whole text holds stands for values. The whole is a table even
if it begins with the key of moments. -/
def isValue : Document → Bool
  | .table members => areMemberMomentsSound members
  | document => areMomentsSound document

end DesignTokens.Toml
