/-!
# Maps and sets of text in ascending order

A map is the list of its entries with strictly ascending keys, so two maps with the same
entries are equal and every listing comes out in the order of the keys' code points.
-/

namespace DesignTokens

/-- A finite map from text to `α`, listed by ascending key. -/
structure SortedMap (α : Type) where
  entries : List (String × α)
  ascending : entries.Pairwise (fun a b => a.1 < b.1)
deriving DecidableEq

namespace SortedMap

variable {α β : Type}

/-- Puts one entry at its place; an entry that already has the key is replaced. -/
def place (key : String) (value : α) : List (String × α) → List (String × α)
  | [] => [(key, value)]
  | entry :: rest =>
      if key < entry.1 then (key, value) :: entry :: rest
      else if key = entry.1 then (key, value) :: rest
      else entry :: place key value rest

theorem mem_place {key : String} {value : α} {entry : String × α} :
    ∀ {entries : List (String × α)},
      entry ∈ place key value entries → entry = (key, value) ∨ entry ∈ entries
  | [], h => by simpa [place] using h
  | head :: rest, h => by
      unfold place at h
      split at h
      · simpa using h
      · split at h
        · rcases List.mem_cons.1 h with h | h
          · exact Or.inl h
          · exact Or.inr (List.mem_cons_of_mem _ h)
        · rcases List.mem_cons.1 h with h | h
          · exact Or.inr (h ▸ List.mem_cons_self)
          · rcases mem_place h with h | h
            · exact Or.inl h
            · exact Or.inr (List.mem_cons_of_mem _ h)

theorem text_lt_of_not_lt {a b : String} (h : ¬ a < b) (hne : a ≠ b) : b < a := by
  rcases Decidable.em (b < a) with hlt | hle
  · exact hlt
  · exact absurd (String.le_antisymm (String.not_lt.1 hle) (String.not_lt.1 h)) hne

theorem place_ascending (key : String) (value : α) :
    ∀ {entries : List (String × α)}, entries.Pairwise (fun a b => a.1 < b.1) →
      (place key value entries).Pairwise (fun a b => a.1 < b.1)
  | [], _ => by simp [place]
  | head :: rest, h => by
      have hrest := List.pairwise_cons.1 h
      unfold place
      split
      · rename_i hlt
        refine List.pairwise_cons.2 ⟨fun entry hmem => ?_, h⟩
        rcases List.mem_cons.1 hmem with rfl | hmem
        · exact hlt
        · exact String.lt_trans hlt (hrest.1 _ hmem)
      · rename_i hnlt
        split
        · rename_i heq
          subst heq
          exact List.pairwise_cons.2 ⟨fun entry hmem => hrest.1 _ hmem, hrest.2⟩
        · rename_i hne
          refine List.pairwise_cons.2 ⟨fun entry hmem => ?_, place_ascending key value hrest.2⟩
          rcases mem_place hmem with rfl | hmem
          · exact text_lt_of_not_lt hnlt hne
          · exact hrest.1 _ hmem

def empty : SortedMap α := ⟨[], List.Pairwise.nil⟩

instance : EmptyCollection (SortedMap α) := ⟨empty⟩

instance : Inhabited (SortedMap α) := ⟨empty⟩

/-- The map with `key` bound to `value`, whatever it was bound to before. -/
def insert (map : SortedMap α) (key : String) (value : α) : SortedMap α :=
  ⟨place key value map.entries, place_ascending key value map.ascending⟩

/-- Of several entries with one key the last one counts. -/
def ofList (entries : List (String × α)) : SortedMap α :=
  entries.foldl (fun map entry => map.insert entry.1 entry.2) empty

def get? (map : SortedMap α) (key : String) : Option α :=
  map.entries.lookup key

def contains (map : SortedMap α) (key : String) : Bool :=
  (map.get? key).isSome

def keys (map : SortedMap α) : List String :=
  map.entries.map (·.1)

def isEmpty (map : SortedMap α) : Bool :=
  map.entries.isEmpty

/-- Applies `f` to every value; the keys stay. -/
def map (f : α → β) (m : SortedMap α) : SortedMap β :=
  ⟨m.entries.map (fun entry => (entry.1, f entry.2)),
    List.pairwise_map.2 m.ascending⟩

theorem lookup_cons_eq (key : String) (entry : String × α) (rest : List (String × α)) :
    (entry :: rest).lookup key = if key = entry.1 then some entry.2 else rest.lookup key := by
  obtain ⟨head, value⟩ := entry
  by_cases h : key = head
  · simp [h]
  · simp [List.lookup_cons, beq_false_of_ne h, h]

theorem lookup_place (key other : String) (value : α) :
    ∀ entries : List (String × α), (place key value entries).lookup other =
      if other = key then some value else entries.lookup other
  | [] => lookup_cons_eq other (key, value) []
  | head :: rest => by
      have ih := lookup_place key other value rest
      unfold place
      split
      · exact lookup_cons_eq other (key, value) (head :: rest)
      · split
        · rename_i heq
          subst heq
          simp only [lookup_cons_eq]
          split <;> rfl
        · rename_i hne
          rw [lookup_cons_eq, ih, lookup_cons_eq]
          by_cases h : other = key
          · subst h
            simp [hne]
          · simp [h]

@[simp] theorem get?_empty (key : String) : (empty : SortedMap α).get? key = none := rfl

theorem get?_insert (m : SortedMap α) (key other : String) (value : α) :
    (m.insert key value).get? other = if other = key then some value else m.get? other :=
  lookup_place key other value m.entries

end SortedMap

/-- A finite set of text, listed in ascending order. -/
structure SortedSet where
  elements : List String
  ascending : elements.Pairwise (· < ·)
deriving DecidableEq

namespace SortedSet

def place (key : String) : List String → List String
  | [] => [key]
  | head :: rest =>
      if key < head then key :: head :: rest
      else if key = head then head :: rest
      else head :: place key rest

theorem mem_place {key other : String} :
    ∀ {elements : List String}, other ∈ place key elements ↔ other = key ∨ other ∈ elements
  | [] => by simp [place]
  | head :: rest => by
      unfold place
      split
      · simp
      · split
        · rename_i heq
          subst heq
          simp
        · simp only [List.mem_cons, @mem_place key other rest]
          constructor
          · rintro (h | h | h)
            · exact Or.inr (Or.inl h)
            · exact Or.inl h
            · exact Or.inr (Or.inr h)
          · rintro (h | h | h)
            · exact Or.inr (Or.inl h)
            · exact Or.inl h
            · exact Or.inr (Or.inr h)

theorem place_ascending (key : String) :
    ∀ {elements : List String}, elements.Pairwise (· < ·) →
      (place key elements).Pairwise (· < ·)
  | [], _ => by simp [place]
  | head :: rest, h => by
      have hrest := List.pairwise_cons.1 h
      unfold place
      split
      · rename_i hlt
        refine List.pairwise_cons.2 ⟨fun other hmem => ?_, h⟩
        rcases List.mem_cons.1 hmem with rfl | hmem
        · exact hlt
        · exact String.lt_trans hlt (hrest.1 _ hmem)
      · rename_i hnlt
        split
        · exact h
        · rename_i hne
          refine List.pairwise_cons.2 ⟨fun other hmem => ?_, place_ascending key hrest.2⟩
          rcases mem_place.1 hmem with rfl | hmem
          · exact SortedMap.text_lt_of_not_lt hnlt hne
          · exact hrest.1 _ hmem

def empty : SortedSet := ⟨[], List.Pairwise.nil⟩

instance : EmptyCollection SortedSet := ⟨empty⟩

instance : Inhabited SortedSet := ⟨empty⟩

def insert (set : SortedSet) (key : String) : SortedSet :=
  ⟨place key set.elements, place_ascending key set.ascending⟩

def ofList (keys : List String) : SortedSet :=
  keys.foldl insert empty

def contains (set : SortedSet) (key : String) : Bool :=
  set.elements.contains key

def size (set : SortedSet) : Nat :=
  set.elements.length

def isEmpty (set : SortedSet) : Bool :=
  set.elements.isEmpty

instance : Membership String SortedSet := ⟨fun set key => key ∈ set.elements⟩

theorem mem_insert {set : SortedSet} {key other : String} :
    other ∈ set.insert key ↔ other = key ∨ other ∈ set :=
  mem_place

theorem mem_foldl_insert {key : String} :
    ∀ {keys : List String} {set : SortedSet},
      key ∈ keys.foldl insert set ↔ key ∈ keys ∨ key ∈ set
  | [], set => by simp
  | head :: rest, set => by
      simp only [List.foldl_cons, @mem_foldl_insert key rest, mem_insert, List.mem_cons]
      constructor
      · rintro (h | h | h)
        · exact Or.inl (Or.inr h)
        · exact Or.inl (Or.inl h)
        · exact Or.inr h
      · rintro ((h | h) | h)
        · exact Or.inr (Or.inl h)
        · exact Or.inl h
        · exact Or.inr (Or.inr h)

theorem mem_ofList {keys : List String} {key : String} : key ∈ ofList keys ↔ key ∈ keys := by
  unfold ofList
  rw [mem_foldl_insert]
  constructor
  · rintro (h | h)
    · exact h
    · exact absurd h List.not_mem_nil
  · exact Or.inl

end SortedSet

end DesignTokens
