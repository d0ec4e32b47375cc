import DesignTokens.Text.Digits

/-!
# Quoted text in TOML

Four kinds of string: basic ones with escapes and literal ones without, each on one line or on
several. Every function here starts after the opening quotes and takes the closing ones off.
-/

namespace DesignTokens.Toml

def isSpace (c : Char) : Bool := c = ' ' || c = '\t'

/-- Characters that may stand in comments and strings: no control characters except the tab. -/
def isPlain (c : Char) : Bool :=
  c = '\t' || (0x20 ≤ c.toNat && c.toNat ≠ 0x7F)

/-- Takes off one line end. -/
def lineBreak? : List Char → Option (List Char)
  | '\n' :: rest => some rest
  | '\r' :: '\n' :: rest => some rest
  | _ => none

def skipLineBreak (text : List Char) : List Char :=
  (lineBreak? text).getD text

def shortEscape? : Char → Option Char
  | 'b' => some '\x08'
  | 't' => some '\t'
  | 'n' => some '\n'
  | 'f' => some '\x0c'
  | 'r' => some '\r'
  | '"' => some '"'
  | '\\' => some '\\'
  | _ => none

/-- The character of a code point in hex; halves of pairs and numbers out of range are none. -/
def codePoint? (digits : List Char) : Option Char := do
  let n ← Text.hexNumber? digits
  if h : n.isValidChar then some (Char.ofNatAux n h) else none

abbrev Scanned := Option (List Char × List Char)

def Scanned.cons (c : Char) (scanned : Scanned) : Scanned :=
  scanned.map (fun result => (c :: result.1, result.2))

/-- A basic string on one line. -/
def basic : List Char → Scanned
  | [] => none
  | '"' :: rest => some ([], rest)
  | '\\' :: 'u' :: a :: b :: c :: d :: rest => do
      let code ← codePoint? [a, b, c, d]
      Scanned.cons code (basic rest)
  | '\\' :: 'U' :: a :: b :: c :: d :: e :: f :: g :: h :: rest => do
      let code ← codePoint? [a, b, c, d, e, f, g, h]
      Scanned.cons code (basic rest)
  | '\\' :: c :: rest => do
      let escaped ← shortEscape? c
      Scanned.cons escaped (basic rest)
  | c :: rest => if isPlain c && c ≠ '\\' then Scanned.cons c (basic rest) else none

/-- A literal string on one line. -/
def literal : List Char → Scanned
  | [] => none
  | '\'' :: rest => some ([], rest)
  | c :: rest => if isPlain c then Scanned.cons c (literal rest) else none

/-- Ends a string on several lines. Up to two quotes right before the closing three belong to it. -/
def close (quote : Char) : List Char → List Char × List Char
  | c :: d :: rest =>
      if c = quote then
        if d = quote then ([quote, quote], rest) else ([quote], d :: rest)
      else ([], c :: d :: rest)
  | [c] => if c = quote then ([quote], []) else ([], [c])
  | [] => ([], [])

/-- A basic string on several lines. While `joining`, after a backslash at the end of a line, blanks
and line ends are left out. -/
def multiBasic : Bool → List Char → Scanned
  | _, [] => none
  | _, '"' :: '"' :: '"' :: rest => some (close '"' rest)
  | joining, '\r' :: '\n' :: rest =>
      if joining then multiBasic true rest else Scanned.cons '\n' (multiBasic false rest)
  | joining, '\n' :: rest =>
      if joining then multiBasic true rest else Scanned.cons '\n' (multiBasic false rest)
  | _, '\\' :: 'u' :: a :: b :: c :: d :: rest => do
      let code ← codePoint? [a, b, c, d]
      Scanned.cons code (multiBasic false rest)
  | _, '\\' :: 'U' :: a :: b :: c :: d :: e :: f :: g :: h :: rest => do
      let code ← codePoint? [a, b, c, d, e, f, g, h]
      Scanned.cons code (multiBasic false rest)
  | joining, c :: rest =>
      if joining && isSpace c then multiBasic true rest
      else if c = '\\' then
        if (lineBreak? (rest.dropWhile isSpace)).isSome then multiBasic true rest
        else match rest with
          | e :: more => do
              let escaped ← shortEscape? e
              Scanned.cons escaped (multiBasic false more)
          | [] => none
      else if isPlain c then Scanned.cons c (multiBasic false rest)
      else none

/-- A literal string on several lines. -/
def multiLiteral : List Char → Scanned
  | [] => none
  | '\'' :: '\'' :: '\'' :: rest => some (close '\'' rest)
  | '\r' :: '\n' :: rest => Scanned.cons '\n' (multiLiteral rest)
  | '\n' :: rest => Scanned.cons '\n' (multiLiteral rest)
  | c :: rest => if isPlain c then Scanned.cons c (multiLiteral rest) else none

/-- A string of any kind, from its opening quotes on. -/
def string? : List Char → Scanned
  | '"' :: '"' :: '"' :: rest => multiBasic false (skipLineBreak rest)
  | '"' :: rest => basic rest
  | '\'' :: '\'' :: '\'' :: rest => multiLiteral (skipLineBreak rest)
  | '\'' :: rest => literal rest
  | _ => none

end DesignTokens.Toml
