import DesignTokens.Proofs.Changes.Leaves
import DesignTokens.Proofs.Naming.Labels

/-!
# Which leaves share a key

Keys are flat texts, while class names and the keys of maps may hold dots. The leaf of a key can still
be told, with one exception: a class that is named like a map, or goes on after its word, has slots
whose keys read like those of the map's entries.
-/

namespace DesignTokens

/-! ## Paths of slots -/

namespace Slot

theorem not_mem_dash_path (slot : Slot) : '-' ∉ slot.path.toList := by
  have hall : ∀ s ∈ all, '-' ∉ s.path.toList := by decide
  exact hall slot (mem_all slot)

theorem path_ne_name (slot : Slot) (b : Breakpoint) : slot.path ≠ b.name := by
  have hall : ∀ s ∈ all, ∀ b ∈ Breakpoint.all, s.path ≠ b.name := by decide
  exact hall slot (mem_all slot) b (by cases b <;> decide)

theorem path_injective {slot other : Slot} (h : slot.path = other.path) : slot = other := by
  have hall : ∀ s ∈ all, ∀ t ∈ all, s.path = t.path → s = t := by decide
  exact hall slot (mem_all slot) other (mem_all other) h

/-- No path ends in another one. -/
theorem path_ne_append (slot other : Slot) (rest : String) : slot.path ≠ rest ++ "." ++ other.path := by
  have hall : ∀ s ∈ all, ∀ t ∈ all, ¬ '.' :: t.path.toList <:+ s.path.toList := by decide
  intro h
  refine hall slot (mem_all slot) other (mem_all other) ⟨rest.toList, ?_⟩
  simp [h]

end Slot

/-! ## Keys that begin with a fixed word -/

theorem eq_of_word_point {word other rest more : String} (hword : '.' ∉ word.toList)
    (hother : '.' ∉ other.toList) (h : word ++ "." ++ rest = other ++ "." ++ more) :
    word = other ∧ rest = more := by
  rcases (joined_eq_joined_iff (c := '.') rfl).1 h with heq | ⟨_, rfl, -⟩ | ⟨_, rfl, -⟩
  · exact heq
  · simp at hother
  · simp at hword

/-- A class and one of its slots make the key of a word and a text. -/
theorem slot_key_eq_iff {className word rest : String} (hword : '.' ∉ word.toList) {slot : Slot} :
    (Leaf.slot className slot).key = word ++ "." ++ rest ↔ (className = word ∧ rest = slot.path) ∨
      ∃ more, className = word ++ "." ++ more ∧ rest = more ++ "." ++ slot.path := by
  rw [Leaf.key, joined_eq_joined_iff (c := '.') rfl]
  constructor
  · rintro (⟨hname, hpath⟩ | ⟨more, rfl, -⟩ | ⟨more, hname, hrest⟩)
    · exact .inl ⟨hname, hpath.symm⟩
    · simp at hword
    · exact .inr ⟨more, hname, hrest⟩
  · rintro (⟨hname, hpath⟩ | ⟨more, hname, hrest⟩)
    · exact .inl ⟨hname, hpath.symm⟩
    · exact .inr (.inr ⟨more, hname, hrest⟩)

namespace Leaf

/-- The word and the text that make a key which is not that of a slot. -/
def parts? : Leaf → Option (String × String)
  | .width b => some ("breakpoints", b.name)
  | .entry map name => some (map.word, name)
  | .slot _ _ => none
  | .value name => some ("variable", name)

theorem key_of_parts? {leaf : Leaf} {word rest : String} (h : leaf.parts? = some (word, rest)) :
    leaf.key = word ++ "." ++ rest ∧ '.' ∉ word.toList := by
  cases leaf with
  | width b =>
      cases h
      exact ⟨rfl, by decide⟩
  | entry map name =>
      cases h
      exact ⟨rfl, by cases map <;> decide⟩
  | slot className slot => cases h
  | value name =>
      cases h
      exact ⟨rfl, by decide⟩

/-- Reads a leaf back from its parts. -/
def ofParts? (word rest : String) : Option Leaf :=
  if word = "breakpoints" then (Breakpoint.ofName? rest).map .width
  else if word = "variable" then some (.value rest)
  else ([ValueMap.fontFamilies, .spacing, .colors].find? (fun map => map.word = word)).map (.entry · rest)

theorem ofParts?_of_parts? {leaf : Leaf} {word rest : String} (h : leaf.parts? = some (word, rest)) :
    ofParts? word rest = some leaf := by
  cases leaf with
  | width b =>
      cases h
      cases b <;> decide
  | entry map name =>
      cases h
      cases map <;> simp [ofParts?, ValueMap.word]
  | slot className slot => cases h
  | value name =>
      cases h
      simp [ofParts?]

theorem parts?_injective {leaf other : Leaf} {parts : String × String} (h : leaf.parts? = some parts)
    (h' : other.parts? = some parts) : leaf = other := by
  have hread := ofParts?_of_parts? h
  rw [ofParts?_of_parts? h'] at hread
  exact (Option.some.inj hread).symm

/-- The class is named like the map, or goes on after its word, and the entry's key ends in the path of
the slot: the key of the slot reads like that of the entry. -/
def Imitates (className : String) (slot : Slot) (map : ValueMap) (name : String) : Prop :=
  (className = map.word ∧ name = slot.path) ∨
    ∃ more, className = map.word ++ "." ++ more ∧ name = more ++ "." ++ slot.path

/-- A slot and an entry that it imitates. -/
def Confused : Leaf → Leaf → Prop
  | .slot className place, .entry map name => Imitates className place map name
  | .entry map name, .slot className place => Imitates className place map name
  | _, _ => False

end Leaf

/-! ## Names of variables in keys -/

theorem Label.not_mem_point (label : Label) : '.' ∉ label.text.toList := by
  have hfragment : '.' ∉ label.fragment.toList := fun hmem =>
    absurd (label.plain '.' hmem) (by decide)
  cases h : label.owned with
  | true => rwa [Label.text_of_owned h]
  | false =>
      rw [Label.text_of_not_owned h, Fragment.toList_marked, List.mem_append, List.mem_cons]
      rintro (hmem | heq | hmem)
      · exact hfragment hmem
      · exact absurd heq (by decide)
      · exact absurd (Fragment.isHexDigit_of_mem_mark hmem) (by decide)

namespace Namer

/-- After its last dash a name holds no dot. -/
theorem exists_name_eq_dash (n : Namer) (p : Property) (text : String) :
    ∃ start label, n.name p text = start ++ "-" ++ label ∧ '.' ∉ label.toList := by
  have hstem : ∃ start, n.stem p = start ++ "-" := by
    unfold stem
    split
    · exact ⟨_, rfl⟩
    · exact ⟨_, rfl⟩
  obtain ⟨start, hstart⟩ := hstem
  exact ⟨start, (n.label p text).text, by rw [name_eq, hstart], Label.not_mem_point _⟩

/-- No name ends like the key of a slot. -/
theorem name_ne_path (n : Namer) (p : Property) (text : String) (slot : Slot) :
    n.name p text ≠ slot.path := by
  obtain ⟨start, label, hname, -⟩ := n.exists_name_eq_dash p text
  intro h
  apply slot.not_mem_dash_path
  simp [← h, hname]

theorem name_ne_append_path (n : Namer) (p : Property) (text more : String) (slot : Slot) :
    n.name p text ≠ more ++ "." ++ slot.path := by
  obtain ⟨start, label, hname, hlabel⟩ := n.exists_name_eq_dash p text
  have hdash : "-".toList = ['-'] := rfl
  have hpoint : ".".toList = ['.'] := rfl
  intro h
  have hchars := congrArg String.toList (hname.symm.trans h)
  simp only [String.toList_append, List.append_assoc, hdash, hpoint, List.singleton_append] at hchars
  -- Whichever of the last dash and the dot comes first, the other one stands in what follows it.
  rcases List.append_eq_append_iff.1 hchars with ⟨between, -, hrest⟩ | ⟨between, -, hrest⟩
  · have hmem : '.' ∈ '-' :: label.toList := by simp [hrest]
    exact hlabel ((List.mem_cons.1 hmem).resolve_left (by decide))
  · have hmem : '-' ∈ '.' :: slot.path.toList := by simp [hrest]
    exact slot.not_mem_dash_path ((List.mem_cons.1 hmem).resolve_left (by decide))

end Namer

/-! ## Equal keys -/

namespace Leaf

/-- The variable of the leaf, if it is one, is named by the namer. -/
def IsNamed (n : Namer) : Leaf → Prop
  | .value name => ∃ p text, name = n.name p text
  | _ => True

theorem slot_key_eq_slot_key {className name : String} {slot place : Slot}
    (h : (Leaf.slot className slot).key = (Leaf.slot name place).key) :
    Leaf.slot className slot = Leaf.slot name place := by
  rcases (joined_eq_joined_iff (c := '.') rfl).1 h with ⟨rfl, hpath⟩ | ⟨rest, -, hpath⟩ | ⟨rest, -, hpath⟩
  · rw [Slot.path_injective hpath]
  · exact absurd hpath (Slot.path_ne_append _ _ _)
  · exact absurd hpath (Slot.path_ne_append _ _ _)

/-- Of the leaves that are no slots only entries share keys with slots. -/
theorem slot_key_eq_key_iff {n : Namer} {className : String} {slot : Slot} {leaf : Leaf}
    (hnamed : leaf.IsNamed n) : (Leaf.slot className slot).key = leaf.key ↔
      Leaf.slot className slot = leaf ∨ (Leaf.slot className slot).Confused leaf := by
  cases leaf with
  | slot name place =>
      constructor
      · exact fun h => .inl (slot_key_eq_slot_key h)
      · rintro (h | h)
        · rw [h]
        · cases h
  | entry map name =>
      have hparts : (Leaf.entry map name).parts? = some (map.word, name) := rfl
      obtain ⟨hkey, hword⟩ := key_of_parts? hparts
      rw [hkey, slot_key_eq_iff hword]
      constructor
      · exact .inr
      · exact fun h => h.resolve_left (by simp)
  | width b =>
      have hparts : (Leaf.width b).parts? = some ("breakpoints", b.name) := rfl
      obtain ⟨hkey, hword⟩ := key_of_parts? hparts
      have hpoint : '.' ∉ b.name.toList := by cases b <;> decide
      rw [hkey, slot_key_eq_iff hword]
      constructor
      · rintro (⟨-, hpath⟩ | ⟨more, -, hrest⟩)
        · exact absurd hpath.symm (slot.path_ne_name b)
        · simp [hrest] at hpoint
      · rintro (h | h)
        · cases h
        · cases h
  | value name =>
      have hparts : (Leaf.value name).parts? = some ("variable", name) := rfl
      obtain ⟨hkey, hword⟩ := key_of_parts? hparts
      obtain ⟨p, text, rfl⟩ := hnamed
      rw [hkey, slot_key_eq_iff hword]
      constructor
      · rintro (⟨-, hpath⟩ | ⟨more, -, hrest⟩)
        · exact absurd hpath (n.name_ne_path p text slot)
        · exact absurd hrest (n.name_ne_append_path p text more slot)
      · rintro (h | h)
        · cases h
        · cases h

theorem confused_comm {leaf other : Leaf} : leaf.Confused other ↔ other.Confused leaf := by
  cases leaf <;> cases other <;> exact Iff.rfl

theorem not_confused {leaf other : Leaf} {parts parts' : String × String} (h : leaf.parts? = some parts)
    (h' : other.parts? = some parts') : ¬ leaf.Confused other := by
  cases leaf <;> cases other <;> simp_all [Confused, parts?]

/-- Leaves that share a key are one leaf, or a slot and an entry that it imitates. -/
theorem key_eq_key_iff {n : Namer} {leaf other : Leaf} (hleaf : leaf.IsNamed n) (hother : other.IsNamed n) :
    leaf.key = other.key ↔ leaf = other ∨ leaf.Confused other := by
  cases hparts : leaf.parts? with
  | none =>
      cases leaf with
      | slot className slot => exact slot_key_eq_key_iff hother
      | _ => cases hparts
  | some parts =>
      cases hparts' : other.parts? with
      | none =>
          cases other with
          | slot className slot => rw [eq_comm, slot_key_eq_key_iff hleaf, eq_comm, confused_comm]
          | _ => cases hparts'
      | some parts' =>
          obtain ⟨hkey, hword⟩ := key_of_parts? hparts
          obtain ⟨hkey', hword'⟩ := key_of_parts? hparts'
          constructor
          · intro h
            rw [hkey, hkey'] at h
            obtain ⟨hfirst, hsecond⟩ := eq_of_word_point hword hword' h
            rw [Prod.ext hfirst hsecond] at hparts
            exact .inl (parts?_injective hparts hparts')
          · rintro (rfl | hconfused)
            · rfl
            · exact absurd hconfused (not_confused hparts hparts')

end Leaf

end DesignTokens
