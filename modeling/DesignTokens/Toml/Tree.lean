import DesignTokens.Document

/-!
# Tables under construction

TOML builds its tables piece by piece, and what a table was made by decides what may still be added
to it: a header fills a table that deeper headers only implied, dotted keys extend tables made by
dotted keys, and a value is never extended.
-/

namespace DesignTokens.Toml

/-- What a table was made by. -/
inductive Origin where
  /-- A header of its own, or the start of the text. -/
  | header
  /-- A header of a table inside it. -/
  | implied
  /-- A dotted key. -/
  | dotted
deriving DecidableEq

inductive Node where
  | value (document : Document)
  | table (origin : Origin) (members : List (String × Node))
  /-- The tables of an array of tables, in order. -/
  | tables (elements : List (List (String × Node)))

abbrev Members := List (String × Node)

namespace Members

def get? (key : String) (members : Members) : Option Node :=
  (List.find? (fun m => m.1 = key) members).map (·.2)

/-- Replaces the node of a key that is there. -/
def replace (key : String) (node : Node) (members : Members) : Members :=
  List.map (fun m => if m.1 = key then (key, node) else m) members

def remove (key : String) (members : Members) : Members :=
  List.filter (fun m => m.1 ≠ key) members

end Members

/-- Changes the table at a path, making the tables on the way as far as they are missing. In an
array of tables the path goes on in the last one. A `dotted` path may not enter a table that has a
header. -/
def changeAt (dotted : Bool) :
    List String → (Origin → Members → Option Members) → Origin → Members → Option Members
  | [], change, origin, members => change origin members
  | key :: path, change, _, members =>
      match members.get? key with
      | none => do
          let origin := if dotted then .dotted else .implied
          let inner ← changeAt dotted path change origin []
          pure (members ++ [(key, .table origin inner)])
      | some (.value _) => none
      | some (.tables elements) => do
          let last ← elements.getLast?
          let inner ← changeAt dotted path change .header last
          pure (members.replace key (.tables (elements.dropLast ++ [inner])))
      | some (.table origin inner) =>
          if dotted ∧ origin = .header then none
          else do
            let changed ← changeAt dotted path change origin inner
            pure (members.replace key (.table origin changed))

/-- Adds a value under a dotted key. The table it goes to must come from dotted keys, unless it is
the one that the key starts from. -/
def addValue (path : List String) (key : String) (document : Document) (members : Members) :
    Option Members :=
  changeAt true path
    (fun origin found =>
      if path ≠ [] ∧ origin ≠ .dotted then none
      else if (found.get? key).isSome then none
      else some (found ++ [(key, .value document)]))
    .header members

/-- A header: its path, its last key, and whether it adds to an array of tables. -/
structure Header where
  path : List String
  key : String
  isArray : Bool
deriving DecidableEq

/-- What stands already where a header's table goes. A table that was implied is taken out, to come
back filled in the last place; anything else there is an error. -/
def openTable (header : Header) (found : Members) : Option (Members × Members) :=
  match header.isArray, found.get? header.key with
  | false, none => some (found, [])
  | false, some (.table .implied members) => some (found.remove header.key, members)
  | true, none => some (found, [])
  | true, some (.tables _) => some (found, [])
  | _, _ => none

def placeTable (header : Header) (filled : Members) (found : Members) : Members :=
  if header.isArray then
    match found.get? header.key with
    | some (.tables elements) => found.replace header.key (.tables (elements ++ [filled]))
    | _ => found ++ [(header.key, .tables [filled])]
  else found ++ [(header.key, .table .header filled)]

/-- Adds the table of a header to the whole; `fill` puts the values under the header into it. -/
def addTable (header : Header) (fill : Members → Option Members) (root : Members) : Option Members :=
  changeAt false header.path
    (fun _ found => do
      let (others, start) ← openTable header found
      let filled ← fill start
      pure (placeTable header filled others))
    .header root

mutual

def Node.toDocument : Node → Document
  | .value document => document
  | .table _ members => .table (membersToDocument members)
  | .tables elements => .list (elementsToDocument elements)

def membersToDocument : List (String × Node) → List (String × Document)
  | [] => []
  | (key, node) :: rest => (key, node.toDocument) :: membersToDocument rest

def elementsToDocument : List (List (String × Node)) → List Document
  | [] => []
  | members :: rest => .table (membersToDocument members) :: elementsToDocument rest

end

end DesignTokens.Toml
