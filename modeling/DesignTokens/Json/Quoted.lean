import DesignTokens.Text.Digits

/-!
# Quoted text

The inside of a JSON string, up to its closing quote, and the escapes of characters in it.
-/

namespace DesignTokens.Json

/-- What one character or escape of a string stands for: a character, or a 16-bit code unit that
may be half of a pair. -/
inductive Unit16 where
  | char (c : Char)
  | code (n : Nat)
deriving DecidableEq

/-- The character that a backslash and a letter stand for. -/
def shortEscape? : Char → Option Char
  | '"' => some '"'
  | '\\' => some '\\'
  | '/' => some '/'
  | 'b' => some '\x08'
  | 'f' => some '\x0c'
  | 'n' => some '\n'
  | 'r' => some '\r'
  | 't' => some '\t'
  | _ => none

/-- Control characters stand in strings only as escapes. -/
def isControl (c : Char) : Bool := c.toNat < 0x20

/-- Reads up to the closing quote, which is taken off the rest. -/
def scan : List Char → Option (List Unit16 × List Char)
  | [] => none
  | '"' :: rest => some ([], rest)
  | '\\' :: 'u' :: a :: b :: c :: d :: rest => do
      let n ← Text.hexNumber? [a, b, c, d]
      let (units, after) ← scan rest
      pure (.code n :: units, after)
  | '\\' :: c :: rest => do
      let escaped ← shortEscape? c
      let (units, after) ← scan rest
      pure (.char escaped :: units, after)
  | c :: rest =>
      if isControl c || c = '\\' then none
      else do
        let (units, after) ← scan rest
        pure (.char c :: units, after)

def isLeading (n : Nat) : Bool := 0xD800 ≤ n && n ≤ 0xDBFF

def isTrailing (n : Nat) : Bool := 0xDC00 ≤ n && n ≤ 0xDFFF

/-- The character of a leading and a trailing code unit. -/
def pairChar (leading trailing : Nat) : Char :=
  Char.ofNat ((leading - 0xD800) * 0x400 + (trailing - 0xDC00) + 0x10000)

/-- The text of the units; `none` when a half of a pair stands alone. -/
def resolve : List Unit16 → Option (List Char)
  | [] => some []
  | .char c :: rest => (resolve rest).map (c :: ·)
  | .code n :: rest =>
      if isTrailing n then none
      else if isLeading n then
        match rest with
        | .code m :: more =>
            if isTrailing m then (resolve more).map (pairChar n m :: ·) else none
        | _ => none
      else (resolve rest).map (Char.ofNat n :: ·)

/-- A character as it is written inside quotes. -/
def escape (c : Char) : List Char :=
  match c with
  | '"' => ['\\', '"']
  | '\\' => ['\\', '\\']
  | '\x08' => ['\\', 'b']
  | '\x0c' => ['\\', 'f']
  | '\n' => ['\\', 'n']
  | '\r' => ['\\', 'r']
  | '\t' => ['\\', 't']
  | c => if isControl c then ['\\', 'u', '0', '0'] ++ Text.hexPair c.toNat else [c]

def quoted (text : String) : List Char :=
  '"' :: text.toList.flatMap escape ++ ['"']

end DesignTokens.Json
