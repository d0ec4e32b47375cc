import DesignTokens.Decimal.Shortest
import DesignTokens.Format
import DesignTokens.SortedMap

/-!
# Reading records from documents

A record is written as a table of its fields, or as a list of them in the order of declaration.
The first error in the order of the text is the one that is told.
-/

namespace DesignTokens

/-- Why a document does not have the shape that is read. -/
inductive ShapeError where
  | missingField (name : String)
  | duplicateField (name : String)
  | unknownVariant (found : String) (expected : List String)
  /-- Neither a text nor a number where a raw value stands. -/
  | noRawValue
  | invalidType
  | invalidLength
  /-- Any other misfit, which is told without words. -/
  | misfit
deriving DecidableEq

namespace ShapeError

def quoted (word : String) : String := "`" ++ word ++ "`"

def expectedText : List String → String
  | [] => "there are no variants"
  | [one] => "expected " ++ quoted one
  | [one, two] => "expected " ++ quoted one ++ " or " ++ quoted two
  | many => "expected one of " ++ ", ".intercalate (many.map quoted)

def message? : ShapeError → Option String
  | .missingField name => some ("missing field " ++ quoted name)
  | .duplicateField name => some ("duplicate field " ++ quoted name)
  | .unknownVariant found expected =>
      some ("unknown variant " ++ quoted found ++ ", " ++ expectedText expected)
  | .noRawValue => some "data did not match any variant of untagged enum RawRepr"
  | .invalidType => some "invalid type"
  | .invalidLength => some "invalid length"
  | .misfit => none

end ShapeError

abbrev Reading (α : Type) := Document → Except ShapeError α

namespace Reading

def text : Reading String
  | .text s => .ok s
  | _ => .error .invalidType

def number : Reading Float
  | .float x => .ok x
  | .int n => .ok (Decimal.ofInt n)
  | _ => .error .invalidType

def flag : Reading Bool
  | .bool b => .ok b
  | _ => .error .invalidType

/-- A raw value keeps the text of a number, so that `700` and `"700"` are the same value. Whole
numbers of more than 64 bits are doubles. -/
def raw : Reading String
  | .text s => .ok s
  | .int n => .ok (if Document.fitsInt64 n then toString n else Decimal.shortest (Decimal.ofInt n))
  | .float x => .ok (Decimal.shortest x)
  | _ => .error .noRawValue

def optional {α : Type} (read : Reading α) : Reading (Option α)
  | .null => .ok none
  | document => (read document).map some

/-- A table of values by free keys; of several values for one key the last one counts. -/
def map {α : Type} (read : Reading α) : Reading (SortedMap α) := fun document =>
  match document.members? with
  | some members => do
      let entries ← members.mapM (fun m => (read m.2).map (fun a => (m.1, a)))
      pure (SortedMap.ofList entries)
  | none => .error .invalidType

/-- The choice of a name. -/
def named {α : Type} (choices : List (String × α)) (name : String) : Except ShapeError α :=
  match choices.lookup name with
  | some a => .ok a
  | none => .error (.unknownVariant name (choices.map (·.1)))

/-- One of several names. It may also be the only key of a table, over nothing: `null` in JSON, an
empty table or list in TOML. -/
def choice {α : Type} (format : Format) (choices : List (String × α)) : Reading α := fun document =>
  match format, document with
  | _, .text name => named choices name
  | .json, .table ((name, payload) :: rest) => do
      let a ← named choices name
      match payload, rest with
      | .null, [] => .ok a
      | .null, _ => .error .misfit
      | _, _ => .error .invalidType
  | .toml, .table [(name, payload)] => do
      let a ← named choices name
      match payload with
      | .table [] => .ok a
      | .list [] => .ok a
      | _ => .error .misfit
  | _, _ => .error .misfit

end Reading

/-- One field of a record: how its document changes the record read so far. -/
structure Field (α : Type) where
  name : String
  isRequired : Bool
  read : Reading (α → α)

/-- A field over the setter of its place. -/
def Field.of {α β : Type} (name : String) (read : Reading β) (set : β → α → α) : Field α :=
  ⟨name, false, fun document => (read document).map set⟩

def Field.required {α : Type} (field : Field α) : Field α :=
  { field with isRequired := true }

/-- The fields of a record in order of declaration, the record before any is read, and what becomes
of members that are no fields. -/
structure Schema (α : Type) where
  blank : α
  fields : List (Field α)
  other : String → Document → α → α

namespace Schema

variable {α : Type}

/-- A record that passes over unknown members. -/
def closed (blank : α) (fields : List (Field α)) : Schema α :=
  ⟨blank, fields, fun _ _ record => record⟩

def field? (schema : Schema α) (name : String) : Option (Field α) :=
  schema.fields.find? (fun field => field.name = name)

/-- Reads members in the order of the text. A field may come once only. -/
def readMembers (schema : Schema α) :
    List String → α → List (String × Document) → Except ShapeError (α × List String)
  | seen, record, [] => .ok (record, seen)
  | seen, record, (key, document) :: rest =>
      match schema.field? key with
      | none => readMembers schema seen (schema.other key document record) rest
      | some field =>
          if seen.contains key then .error (.duplicateField key)
          else do
            let update ← field.read document
            readMembers schema (key :: seen) (update record) rest

def readTable (schema : Schema α) (members : List (String × Document)) : Except ShapeError α := do
  let (record, seen) ← schema.readMembers [] schema.blank members
  match schema.fields.find? (fun field => field.isRequired && !seen.contains field.name) with
  | some field => .error (.missingField field.name)
  | none => .ok record

/-- Reads fields by their position; the items that are left over come with the record. -/
def readItems : List (Field α) → α → List Document → Except ShapeError (α × List Document)
  | [], record, rest => .ok (record, rest)
  | field :: fields, record, [] =>
      if field.isRequired then .error .invalidLength else readItems fields record []
  | field :: fields, record, document :: rest => do
      let update ← field.read document
      readItems fields (update record) rest

/-- In TOML a list may be longer than the record. -/
def readList (schema : Schema α) (format : Format) (list : List Document) : Except ShapeError α := do
  let (record, rest) ← readItems schema.fields schema.blank list
  if format = .json ∧ !rest.isEmpty then .error .misfit else .ok record

def readAsTable (schema : Schema α) : Reading α := fun document =>
  match document.members? with
  | some members => schema.readTable members
  | none => .error .invalidType

def read (schema : Schema α) (format : Format) : Reading α
  | .list list => schema.readList format list
  | document => schema.readAsTable document

end Schema

end DesignTokens
