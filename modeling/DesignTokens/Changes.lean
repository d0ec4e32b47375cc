import DesignTokens.Snapshot

/-!
# Changes

The dotted keys of the fields in which two snapshots differ.
-/

namespace DesignTokens

abbrev ChangeSet := SortedSet

namespace Changes

/-- `class.property`, with the breakpoint between them for a per-breakpoint property. -/
def slotKey (className : String) (slot : Slot) : String :=
  match slot.breakpoint? with
  | some b => className ++ "." ++ b.name ++ "." ++ slot.property.configKey
  | none => className ++ "." ++ slot.property.configKey

def variableKey (name : String) : String := "variable." ++ name

def widthKey (b : Breakpoint) : String := "breakpoints." ++ b.name

/-- The key of an entry in one of the maps of a config. -/
def entryKey (map key : String) : String := map ++ "." ++ key

def fontFamilyMap : String := "fontFamilyMap"

def ofWidths (current previous : Widths) : List String :=
  (Breakpoint.all.filter (fun b => current.at b ≠ previous.at b)).map widthKey

/-- The entries that were added, removed or changed. -/
def ofMap (map : String) (current previous : SortedMap String) : List String :=
  ((current.keys ++ previous.keys).filter (fun key => current.get? key ≠ previous.get? key)).map
    (entryKey map)

/-- The slots in which the values differ. -/
def ofClass (className : String) (current previous : ClassSpec) : List String :=
  (Slot.all.filter (fun slot => current.value? slot ≠ previous.value? slot)).map (slotKey className)

/-- A class that was not there before counts as one that declared nothing. -/
def ofClasses (current previous : SortedMap ClassSpec) : List String :=
  current.entries.flatMap (fun entry =>
    ofClass entry.1 entry.2 ((previous.get? entry.1).getD .empty))

/-- Everything that classes declared which are gone. -/
def ofRemovedClasses (current previous : SortedMap ClassSpec) : List String :=
  (previous.entries.filter (fun entry => !current.contains entry.1)).flatMap (fun entry =>
    ofClass entry.1 .empty entry.2)

/-- The variables that are new or have another value. -/
def ofVariables (current previous : SortedMap String) : List String :=
  (current.entries.filter (fun entry => previous.get? entry.1 ≠ some entry.2)).map (fun entry =>
    variableKey entry.1)

/-- The keys of all differences, in no particular order. -/
def keys (current previous : Snapshot) (onRemovedClass : RemovedClassPolicy) : List String :=
  ofWidths current.breakpoints previous.breakpoints ++
    ofMap fontFamilyMap current.fontFamilies previous.fontFamilies ++
    ofMap Property.spacing.configKey current.spacing previous.spacing ++
    ofMap Property.color.configKey current.colors previous.colors ++
    ofClasses current.classes previous.classes ++
    (if onRemovedClass = .flag then ofRemovedClasses current.classes previous.classes else []) ++
    ofVariables current.values previous.values

def compare (current previous : Snapshot) (onRemovedClass : RemovedClassPolicy) : ChangeSet :=
  SortedSet.ofList (keys current previous onRemovedClass)

/-- What changed since the previous snapshot. Without one the first-run policy decides between
nothing and every field that is not empty. -/
def diff (current : Snapshot) (previous : Option Snapshot) (policy : ChangePolicy) : ChangeSet :=
  match previous with
  | some snapshot => compare current snapshot policy.onRemovedClass
  | none =>
      match policy.onFirstRun with
      | .markNone => .empty
      | .markAll => compare current .empty policy.onRemovedClass

end Changes

end DesignTokens
