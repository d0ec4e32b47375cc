/-!
# Digits

Numbers written in digits of a base up to sixteen, and how digits are told from other characters.
-/

namespace DesignTokens.Text

/-- A character of a class is none of those outside of it. -/
theorem ne_of_isIn {isIn : Char → Bool} {c other : Char} (h : isIn c) (hother : isIn other = false) :
    c ≠ other := by
  intro heq
  rw [heq, hother] at h
  cases h

theorem isAlpha_eq_false_of_isDigit {c : Char} (h : c.isDigit) : c.isAlpha = false := by
  have hlast : c.toNat ≤ 57 := of_decide_eq_true (Bool.and_eq_true_iff.1 h).2
  have hupper : c.isUpper = false := by
    apply decide_eq_false
    intro ⟨hcapital, _⟩
    have hfirst : 65 ≤ c.toNat := hcapital
    omega
  have hlower : c.isLower = false := by
    apply Bool.and_eq_false_imp.2
    intro hsmall
    have hfirst : 97 ≤ c.toNat := of_decide_eq_true hsmall
    omega
  exact Bool.or_eq_false_iff.2 ⟨hupper, hlower⟩

theorem isDigit_eq_false_of_isAlpha {c : Char} (h : c.isAlpha) : c.isDigit = false := by
  cases hdigit : c.isDigit with
  | false => rfl
  | true =>
      rw [isAlpha_eq_false_of_isDigit hdigit] at h
      cases h

/-- The value of a digit; letters of either case go on from ten to fifteen. -/
def digit? (c : Char) : Option Nat :=
  if c.isDigit then some (c.toNat - '0'.toNat)
  else if 'a' ≤ c ∧ c ≤ 'f' then some (c.toNat - 'a'.toNat + 10)
  else if 'A' ≤ c ∧ c ≤ 'F' then some (c.toNat - 'A'.toNat + 10)
  else none

def isDigitBelow (base : Nat) (c : Char) : Bool :=
  (digit? c).any (· < base)

/-- The number that digits of a base denote. -/
def natOfDigits (base : Nat) (digits : List Char) : Nat :=
  digits.foldl (fun n c => base * n + (digit? c).getD 0) 0

/-- The number that hex digits denote, if they all are hex digits. -/
def hexNumber? (digits : List Char) : Option Nat :=
  if digits.all (isDigitBelow 16) then some (natOfDigits 16 digits) else none

/-- Two lower-case hex digits of a number below 256. -/
def hexPair (n : Nat) : List Char :=
  [Nat.digitChar (n / 16), Nat.digitChar (n % 16)]

theorem digit?_digitChar : ∀ n, n < 16 → digit? (Nat.digitChar n) = some n := by
  decide

/-- Reading two digits gives back the number they were written for. -/
theorem hexNumber?_hexPair {n : Nat} (h : n < 256) : hexNumber? (hexPair n) = some n := by
  have high := digit?_digitChar (n / 16) (by omega)
  have low := digit?_digitChar (n % 16) (by omega)
  have hhigh : n / 16 < 16 := by omega
  have hlow : n % 16 < 16 := by omega
  have hsum : 16 * (n / 16) + n % 16 = n := by omega
  simp [hexNumber?, hexPair, natOfDigits, isDigitBelow, high, low, hhigh, hlow, hsum]

end DesignTokens.Text
