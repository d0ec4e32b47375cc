import DesignTokens.Digest.Sha256
import DesignTokens.Length
import DesignTokens.Naming.Slug
import DesignTokens.Property
import DesignTokens.Text.Digits

/-!
# Name fragments

The last part of a variable name, made from a raw value or a key. Normalization loses information,
so each fragment has one canonical spelling that owns it; every other spelling gets `_` and eight
hex digits of its digest. Plain fragments hold no `_`.
-/

namespace DesignTokens.Fragment

/-- Bytes of the digest that a marked fragment shows. -/
def markBytes : Nat := 4

def mark (source : String) : String :=
  String.ofList (((Sha256.digest source.toUTF8.toList).take markBytes).flatMap (fun b => Text.hexPair b.toNat))

/-- A fragment with the mark of the text it was made from. -/
def marked (fragment source : String) : String :=
  fragment ++ "_" ++ mark source

/-- The number of a numeric text without its plus sign, split into minus sign and magnitude. -/
def splitMinus (number : List Char) : Bool × List Char :=
  let unsigned := match number with
    | '+' :: rest => rest
    | other => other
  match unsigned with
  | '-' :: rest => (true, rest)
  | other => (false, other)

/-- The unit as it stands in a fragment. -/
def unitWord (nativeUnit unit : String) : List Char :=
  if unit = "%" then ['p', 'c', 't']
  else if unit = nativeUnit then []
  else unit.toList.map Char.toLower

/-- True of the units that a fragment gives back: the native one, a percent sign, and any other
word of small letters except the one that stands for the percent sign. -/
def isCanonicalUnit (nativeUnit unit : String) : Bool :=
  unit = nativeUnit || unit = "%" ||
    (unit ≠ "" && unit ≠ "pct" && unit.toList.all Char.isLower)

def numericWord (nativeUnit : String) (text : NumericText) : List Char :=
  let (negative, magnitude) := splitMinus text.number.toList
  (if negative then ['n'] else []) ++
    (if magnitude.head? = some '.' then ['0'] else []) ++
    magnitude.map (fun c => if c = '.' then '-' else c) ++
    unitWord nativeUnit text.unit

/-- True of the one spelling that owns a numeric fragment: no blanks around, no plus sign, and a
digit on both sides of the point. -/
def isCanonicalNumber (nativeUnit raw : String) (text : NumericText) : Bool :=
  let magnitude := (splitMinus text.number.toList).2
  raw = text.number ++ text.unit &&
    text.number.toList.head? ≠ some '+' &&
    (magnitude.head?.any Char.isDigit) &&
    magnitude.getLast? ≠ some '.' &&
    isCanonicalUnit nativeUnit text.unit

/-- True of the fragments that a numeric value could have. -/
def looksNumeric (fragment : List Char) : Bool :=
  let rest := match fragment with
    | 'n' :: rest => rest
    | other => other
  rest.head?.any Char.isDigit &&
    (rest.dropWhile (fun c => c.isDigit || c = '-')).all Char.isLower

/-- The fragment of a class property value. A numeric value drops the native unit, a leading `-`
becomes `n`, a point `-` and a percent sign `pct`; other values are slugs. -/
def ofValue (p : Property) (raw : String) : String :=
  let nativeUnit := p.rule.nativeUnit
  let (fragment, canonical) := match NumericText.parse? raw with
    | some text =>
        (String.ofList (numericWord nativeUnit text), isCanonicalNumber nativeUnit raw text)
    | none =>
        let slug := Slug.slugify raw
        (slug, raw = slug && !looksNumeric slug.toList)
  if canonical then fragment else marked fragment raw

/-- The fragment of a table key. A key that is the spelling of its slug keeps the plain slug. -/
def ofKey (key : String) : String :=
  let slug := Slug.slugify key
  if key = Slug.keySpelling slug then slug else marked slug key

end DesignTokens.Fragment
