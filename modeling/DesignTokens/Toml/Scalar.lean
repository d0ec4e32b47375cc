import DesignTokens.Decimal.Reading
import DesignTokens.Document
import DesignTokens.Toml.Moment
import DesignTokens.Toml.Quoted

/-!
# Scalars in TOML

Numbers and booleans, and the choice among all scalars. Whatever may follow a scalar is left to the
reader, which accepts only blanks, a comment, a line end or punctuation there.
-/

namespace DesignTokens.Toml

/-- The rest of a run of digits whose first one has been read; an underscore stands between two. -/
def moreDigits (isDigit : Char → Bool) : List Char → List Char × List Char
  | '_' :: c :: rest =>
      if isDigit c then
        let (digits, after) := moreDigits isDigit rest
        (c :: digits, after)
      else ([], '_' :: c :: rest)
  | c :: rest =>
      if isDigit c then
        let (digits, after) := moreDigits isDigit rest
        (c :: digits, after)
      else ([], c :: rest)
  | [] => ([], [])

/-- A run of at least one digit, underscores left out. -/
def digits? (isDigit : Char → Bool) : List Char → Option (List Char × List Char)
  | c :: rest =>
      if isDigit c then
        let (digits, after) := moreDigits isDigit rest
        some (c :: digits, after)
      else none
  | [] => none

/-- Decimal digits without a leading zero, other than zero itself. -/
def decimalDigits? : List Char → Option (List Char × List Char)
  | '0' :: rest => some (['0'], rest)
  | text => digits? Char.isDigit text

def boundedInt (n : Int) (after : List Char) : Option (Document × List Char) :=
  if Document.fitsInt64 n then some (.int n, after) else none

def inBase (base : Nat) (text : List Char) : Option (Document × List Char) := do
  let (digits, after) ← digits? (Text.isDigitBelow base) text
  boundedInt (Text.natOfDigits base digits) after

/-- A whole number: decimal with an optional sign, or hex, octal or binary without one. -/
def integer? : List Char → Option (Document × List Char)
  | '0' :: 'x' :: rest => inBase 16 rest
  | '0' :: 'o' :: rest => inBase 8 rest
  | '0' :: 'b' :: rest => inBase 2 rest
  | text => do
      let (negative, body) := Decimal.splitSign text
      let (digits, after) ← decimalDigits? body
      let n := Text.natOfDigits 10 digits
      boundedInt (if negative then -n else n) after

def exponent? : List Char → Option (Int × List Char)
  | c :: rest =>
      if c = 'e' ∨ c = 'E' then do
        let (negative, body) := Decimal.splitSign rest
        let (digits, after) ← digits? Char.isDigit body
        let n := Text.natOfDigits 10 digits
        pure (if negative then -n else n, after)
      else none
  | [] => none

/-- A decimal number with a fraction, an exponent or both. Positive overflow is no number, while
negative overflow is minus infinity. -/
def decimalFloat? (text : List Char) : Option (Document × List Char) := do
  let (negative, body) := Decimal.splitSign text
  let (whole, afterWhole) ← decimalDigits? body
  let (fraction, exponent, after) ← match afterWhole with
    | '.' :: rest => do
        let (fraction, afterFraction) ← digits? Char.isDigit rest
        match exponent? afterFraction with
        | some (exponent, after) => pure (fraction, exponent, after)
        | none => pure (fraction, 0, afterFraction)
    | _ => do
        let (exponent, after) ← exponent? afterWhole
        pure ([], exponent, after)
  let x := Decimal.Numeral.toFloat ⟨negative, whole, fraction, exponent⟩
  if Decimal.isFinite x ∨ negative then some (.float x, after) else none

def specialFloat? (text : List Char) : Option (Document × List Char) :=
  let (negative, body) := Decimal.splitSign text
  match body with
  | 'i' :: 'n' :: 'f' :: after =>
      some (.float (Decimal.Binary64.withSign negative Decimal.Binary64.infinityBits), after)
  | 'n' :: 'a' :: 'n' :: after =>
      some (.float (Decimal.Binary64.withSign negative (Decimal.Binary64.infinityBits + Nat.pow 2 51)), after)
  | _ => none

/-- The first of several readings that succeeds. -/
def scalar? (text : List Char) : Option (Document × List Char) :=
  match text with
  | 't' :: 'r' :: 'u' :: 'e' :: after => some (.bool true, after)
  | 'f' :: 'a' :: 'l' :: 's' :: 'e' :: after => some (.bool false, after)
  | _ =>
      (string? text).map (fun result => (.text (String.ofList result.1), result.2))
        <|> moment? text <|> decimalFloat? text <|> specialFloat? text <|> integer? text

end DesignTokens.Toml
