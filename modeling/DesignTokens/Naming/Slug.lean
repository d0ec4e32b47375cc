/-!
# Slugs

A slug is a text in kebab case: runs of lower-case ASCII letters and digits joined by single
dashes. Each slug has one key spelling, in which a dash before a letter becomes a capital.
-/

namespace DesignTokens.Slug

/-- What stands before the next letter or digit. -/
inductive Position where
  /-- Nothing has been written yet. -/
  | start
  /-- Other characters, after something has been written. -/
  | gap
  /-- A capital letter. -/
  | capital
  /-- A small letter or a digit. -/
  | plain
deriving DecidableEq

namespace Position

/-- True when a dash goes before the letter or digit `c`: after a gap, and before a capital that
opens a hump. -/
def dashBefore (p : Position) (c : Char) : Bool :=
  match p with
  | .start => false
  | .gap => true
  | .capital => false
  | .plain => c.isUpper

def afterGap : Position → Position
  | .start => .start
  | _ => .gap

end Position

/-- The kebab-case form of a text read from a position on. -/
def kebab : Position → List Char → List Char
  | _, [] => []
  | p, c :: rest =>
      if c.isAlphanum then
        let tail := c.toLower :: kebab (if c.isUpper then .capital else .plain) rest
        if p.dashBefore c then '-' :: tail else tail
      else kebab p.afterGap rest

/-- The slug of texts without any ASCII letter or digit. -/
def fallback : List Char := ['v', 'a', 'l', 'u', 'e']

def ofChars (text : List Char) : List Char :=
  match kebab .start text with
  | [] => fallback
  | slug => slug

/-- Lower-case kebab form; any run of other characters becomes one dash. -/
def slugify (text : String) : String :=
  String.ofList (ofChars text.toList)

def spell : List Char → List Char
  | [] => []
  | [c] => [c]
  | c :: next :: rest =>
      if c = '-' ∧ next.isLower then next.toUpper :: spell rest
      else c :: spell (next :: rest)

/-- The one key that owns a slug: `-x` becomes `X`, `-1` stays. -/
def keySpelling (slug : String) : String :=
  String.ofList (spell slug.toList)

/-- The position that a text leaves behind. -/
def Position.after : Position → List Char → Position
  | p, [] => p
  | p, c :: rest =>
      if c.isAlphanum then after (if c.isUpper then .capital else .plain) rest
      else after p.afterGap rest

theorem kebab_append (p : Position) (first second : List Char) :
    kebab p (first ++ second) = kebab p first ++ kebab (p.after first) second := by
  induction first generalizing p with
  | nil => rfl
  | cons c rest ih =>
    simp only [List.cons_append, kebab, Position.after]
    split <;> simp only [ih]
    split <;> rfl

end DesignTokens.Slug
