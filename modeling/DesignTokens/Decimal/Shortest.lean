import DesignTokens.Decimal.Binary64

/-!
# The shortest decimal text of a double

The text has the fewest digits that read back as the same double, of those the ones nearest to
it, and never an exponent.
-/

namespace DesignTokens.Decimal

namespace Shortest

/-- The numbers that round to a positive double, as `(low, high)` in quarters of the unit of its
significand. Below a power of two the doubles lie twice as close. -/
def interval (significand : Nat) (exponent : Int) : Nat × Nat :=
  let low :=
    if significand = Nat.pow 2 52 && Binary64.leastExponent < exponent then 4 * significand - 1
    else 4 * significand - 2
  (low, 4 * significand + 2)

/-- Factors `(f, g)` such that `c * 10 ^ place` compares with `a * 2 ^ exponent` as `c * f` does
with `a * g`. -/
def commonFactors (place exponent : Int) : Nat × Nat :=
  (Nat.pow 10 place.toNat * Nat.pow 2 (-exponent).toNat,
    Nat.pow 2 exponent.toNat * Nat.pow 10 (-place).toNat)

/-- The multiple of `10 ^ place` nearest to the double among those that round to it. A tie goes up. -/
def onGrid (significand : Nat) (exponent place : Int) : Option Nat :=
  let factors := commonFactors place (exponent - 2)
  let ends := interval significand exponent
  let inside := fun c : Nat =>
    if significand % 2 = 0 then ends.1 * factors.2 ≤ c * factors.1 && c * factors.1 ≤ ends.2 * factors.2
    else ends.1 * factors.2 < c * factors.1 && c * factors.1 < ends.2 * factors.2
  let value := 4 * significand * factors.2
  let below := value / factors.1
  let above := below + 1
  match inside below, inside above with
  | false, false => none
  | true, false => some below
  | false, true => some above
  | true, true =>
      some (if value - below * factors.1 < above * factors.1 - value then below else above)

/-- Tries the grids of `10 ^ place`, `10 ^ (place - 1)` and so on. -/
def coarsest (significand : Nat) (exponent : Int) : Nat → Int → Nat × Int
  | 0, _ => (0, 0)
  | fuel + 1, place =>
      match onGrid significand exponent place with
      | some (c + 1) => (c + 1, place)
      | _ => coarsest significand exponent fuel (place - 1)

/-- A power of ten above the double; `30103 / 100000` is just above the logarithm of two. -/
def topPlace (significand : Nat) (exponent : Int) : Int :=
  (exponent + significand.log2 + 1) * 30103 / 100000 + 1

/-- The shortest decimal of a positive double, as digits and the power of ten they count.
Seventeen digits always suffice and the first place tried is at most two too high. -/
def decimal (significand : Nat) (exponent : Int) : Nat × Int :=
  coarsest significand exponent 24 (topPlace significand exponent)

end Shortest

/-- The digits of `digits * 10 ^ place` in positional notation. -/
def positional (digits : Nat) (place : Int) : List Char :=
  let text := Nat.toDigits 10 digits
  match place with
  | .ofNat zeros => text ++ List.replicate zeros '0'
  | .negSucc e =>
      let places := e + 1
      let padded := List.replicate (places + 1 - text.length) '0' ++ text
      padded.take (padded.length - places) ++ '.' :: padded.drop (padded.length - places)

def signed (negative : Bool) (text : List Char) : String :=
  String.ofList (if negative then '-' :: text else text)

/-- The shortest text of a double. Whole numbers have no point and zero keeps its sign. -/
def shortest (x : Float) : String :=
  match Binary64.ofFloat x with
  | .nan => "NaN"
  | .infinite negative => signed negative ['i', 'n', 'f']
  | .finite negative 0 _ => signed negative ['0']
  | .finite negative (m + 1) exponent =>
      let decimal := Shortest.decimal (m + 1) exponent
      signed negative (positional decimal.1 decimal.2)

end DesignTokens.Decimal
