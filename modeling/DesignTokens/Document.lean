import DesignTokens.SortedMap

/-!
# Documents

The tree that a JSON or TOML text stands for, with the members of tables in the order of the text.
-/

namespace DesignTokens

inductive Document where
  | null
  | bool (value : Bool)
  | int (value : Int)
  | float (value : Float)
  | text (value : String)
  | list (items : List Document)
  | table (members : List (String × Document))
  /-- A date, a time of day or both, in its written form. -/
  | moment (written : String)
  /-- A well-formed piece of text that denotes no value, such as a number out of range. -/
  | malformed

namespace Document

mutual

/-- How deep lists and tables are nested. -/
def depth : Document → Nat
  | .list items => 1 + depthOfItems items
  | .table members => 1 + depthOfMembers members
  | _ => 0

def depthOfItems : List Document → Nat
  | [] => 0
  | item :: rest => max item.depth (depthOfItems rest)

def depthOfMembers : List (String × Document) → Nat
  | [] => 0
  | (_, value) :: rest => max value.depth (depthOfMembers rest)

end

mutual

/-- True when no part is malformed. -/
def isSound : Document → Bool
  | .malformed => false
  | .list items => areItemsSound items
  | .table members => areMembersSound members
  | _ => true

def areItemsSound : List Document → Bool
  | [] => true
  | item :: rest => item.isSound && areItemsSound rest

def areMembersSound : List (String × Document) → Bool
  | [] => true
  | (_, value) :: rest => value.isSound && areMembersSound rest

end

mutual

/-- The document with the members of every table in ascending order of their keys. Of several
members with one key the last one counts. -/
def sorted : Document → Document
  | .list items => .list (sortedItems items)
  | .table members => .table (SortedMap.ofList (sortedMembers members)).entries
  | other => other

def sortedItems : List Document → List Document
  | [] => []
  | item :: rest => item.sorted :: sortedItems rest

def sortedMembers : List (String × Document) → List (String × Document)
  | [] => []
  | (key, value) :: rest => (key, value.sorted) :: sortedMembers rest

end

/-- True of the whole numbers that fit in 64 bits with a sign. -/
def fitsInt64 (n : Int) : Bool := -Int.pow 2 63 ≤ n && n < Int.pow 2 63

/-- The only key of a date or time that is read as a table. -/
def momentKey : String := "$__toml_private_datetime"

/-- The members of a document that can be read as a table. -/
def members? : Document → Option (List (String × Document))
  | .table members => some members
  | .moment written => some [(momentKey, .text written)]
  | _ => none

end Document

end DesignTokens
