import DesignTokens.Changes
import DesignTokens.Proofs.Maps

/-!
# What an empty set of changes means

No change is reported exactly where the compared parts agree, value by value.
-/

namespace DesignTokens.Changes

/-! ## The parts of a comparison -/

theorem ofWidths_eq_nil_iff {current previous : Widths} :
    ofWidths current previous = [] ↔ current = previous := by
  have hat : (∀ b, current.at b = previous.at b) ↔ current = previous := by
    constructor
    · intro h
      have hmobile := h .mobile
      have hdesktop := h .desktop
      cases current
      cases previous
      simp only [Widths.at] at hmobile hdesktop
      rw [hmobile, hdesktop]
    · intro h b
      rw [h]
  rw [← hat]
  constructor
  · intro h b
    have hall : b ∈ Breakpoint.all := by cases b <;> decide
    simp only [ofWidths, List.map_eq_nil_iff, List.filter_eq_nil_iff] at h
    simpa using h b hall
  · intro h
    simp [ofWidths, h]

theorem ofMap_eq_nil_iff {map : String} {current previous : SortedMap String} :
    ofMap map current previous = [] ↔ current = previous := by
  constructor
  · intro h
    simp only [ofMap, List.map_eq_nil_iff, List.filter_eq_nil_iff] at h
    refine SortedMap.ext_get? (fun key => ?_)
    by_cases hkey : key ∈ current.keys ++ previous.keys
    · simpa using h key hkey
    · simp only [List.mem_append, not_or, ← SortedMap.get?_eq_none_iff] at hkey
      rw [hkey.1, hkey.2]
  · intro h
    simp [ofMap, h]

theorem ofClass_eq_nil_iff {className : String} {current previous : ClassSpec} :
    ofClass className current previous = [] ↔ ∀ slot, current.value? slot = previous.value? slot := by
  constructor
  · intro h slot
    simp only [ofClass, List.map_eq_nil_iff, List.filter_eq_nil_iff] at h
    simpa using h slot (Slot.mem_all slot)
  · intro h
    simp [ofClass, h]

/-- What a map of classes declares in a slot of a class; a class that is not there declares nothing. -/
def slotValue? (classes : SortedMap ClassSpec) (className : String) (slot : Slot) : Option String :=
  (classes.get? className).bind (fun spec => spec.value? slot)

theorem slotValue?_withoutUnknown (classes : SortedMap ClassSpec) (name : String) (slot : Slot) :
    slotValue? (classes.map ClassSpec.withoutUnknown) name slot =
      slotValue? classes name slot := by
  rw [slotValue?, SortedMap.get?_map, slotValue?]
  cases classes.get? name with
  | none => rfl
  | some spec => exact ClassSpec.value?_withoutUnknown spec slot

theorem value?_getD_empty (spec : Option ClassSpec) (slot : Slot) :
    (spec.getD .empty).value? slot = spec.bind (fun found => found.value? slot) := by
  cases spec with
  | none => exact ClassSpec.value?_empty slot
  | some spec => rfl

theorem ofClasses_eq_nil_iff {current previous : SortedMap ClassSpec} :
    ofClasses current previous = [] ↔ ∀ name spec, current.get? name = some spec →
      ∀ slot, spec.value? slot = slotValue? previous name slot := by
  simp only [ofClasses, List.flatMap_eq_nil_iff, ofClass_eq_nil_iff, value?_getD_empty, slotValue?]
  constructor
  · intro h name spec hspec
    exact h (name, spec) (SortedMap.get?_eq_some_iff.1 hspec)
  · intro h entry hmem
    exact h entry.1 entry.2 (SortedMap.get?_eq_some_iff.2 hmem)

theorem ofRemovedClasses_eq_nil_iff {current previous : SortedMap ClassSpec} :
    ofRemovedClasses current previous = [] ↔ ∀ name spec, previous.get? name = some spec →
      current.get? name = none → ∀ slot, spec.value? slot = none := by
  simp only [ofRemovedClasses, List.flatMap_eq_nil_iff, ofClass_eq_nil_iff, List.mem_filter,
    ClassSpec.value?_empty]
  constructor
  · intro h name spec hspec hnone slot
    have hgone : (!current.contains name) = true := by simp [SortedMap.contains, hnone]
    exact (h (name, spec) ⟨SortedMap.get?_eq_some_iff.1 hspec, hgone⟩ slot).symm
  · intro h entry hmem slot
    have hnone : current.get? entry.1 = none := by simpa [SortedMap.contains] using hmem.2
    exact (h entry.1 entry.2 (SortedMap.get?_eq_some_iff.2 hmem.1) hnone slot).symm

theorem ofVariables_eq_nil_iff {current previous : SortedMap String} :
    ofVariables current previous = [] ↔
      ∀ name value, current.get? name = some value → previous.get? name = some value := by
  simp only [ofVariables, List.map_eq_nil_iff, List.filter_eq_nil_iff, decide_eq_true_eq,
    Decidable.not_not, ne_eq]
  constructor
  · intro h name value hvalue
    exact h (name, value) (SortedMap.get?_eq_some_iff.1 hvalue)
  · intro h entry hmem
    exact h entry.1 entry.2 (SortedMap.get?_eq_some_iff.2 hmem)

/-! ## Whole comparisons -/

theorem compare_eq_empty_iff {current previous : Snapshot} {onRemovedClass : RemovedClassPolicy} :
    compare current previous onRemovedClass = .empty ↔ keys current previous onRemovedClass = [] :=
  SortedSet.ofList_eq_empty_iff

/-- Nothing has changed since the same snapshot. -/
theorem compare_self (snapshot : Snapshot) (onRemovedClass : RemovedClassPolicy) :
    compare snapshot snapshot onRemovedClass = .empty := by
  have hclasses : ofClasses snapshot.classes snapshot.classes = [] := by
    rw [ofClasses_eq_nil_iff]
    intro name spec hspec slot
    rw [slotValue?, hspec]
    rfl
  have hremoved : ofRemovedClasses snapshot.classes snapshot.classes = [] := by
    rw [ofRemovedClasses_eq_nil_iff]
    intro name spec hspec hnone
    rw [hspec] at hnone
    cases hnone
  have hvariables : ofVariables snapshot.values snapshot.values = [] :=
    ofVariables_eq_nil_iff.2 (fun _ _ h => h)
  rw [compare_eq_empty_iff, keys, ofWidths_eq_nil_iff.2 rfl, ofMap_eq_nil_iff.2 rfl,
    ofMap_eq_nil_iff.2 rfl, ofMap_eq_nil_iff.2 rfl, hclasses, hremoved, hvariables]
  cases onRemovedClass <;> rfl

theorem diff_self (snapshot : Snapshot) (policy : ChangePolicy) :
    diff snapshot (some snapshot) policy = .empty :=
  compare_self snapshot policy.onRemovedClass

/-- The parts that agree when nothing has changed and removed classes are flagged. -/
structure Unchanged (current previous : Snapshot) : Prop where
  breakpoints : current.breakpoints = previous.breakpoints
  fontFamilies : current.fontFamilies = previous.fontFamilies
  spacing : current.spacing = previous.spacing
  colors : current.colors = previous.colors
  slots : ∀ name slot, slotValue? current.classes name slot = slotValue? previous.classes name slot
  values : ∀ name value, current.values.get? name = some value → previous.values.get? name = some value

theorem slots_eq_of_changes {current previous : SortedMap ClassSpec}
    (h : ofClasses current previous = []) (hremoved : ofRemovedClasses current previous = [])
    (name : String) (slot : Slot) : slotValue? current name slot = slotValue? previous name slot := by
  cases hcurrent : current.get? name with
  | some spec =>
      rw [← ofClasses_eq_nil_iff.1 h name spec hcurrent slot, slotValue?, hcurrent]
      rfl
  | none =>
      rw [slotValue?, hcurrent, slotValue?]
      cases hprevious : previous.get? name with
      | none => rfl
      | some spec => exact (ofRemovedClasses_eq_nil_iff.1 hremoved name spec hprevious hcurrent slot).symm

/-- An empty set of changes leaves nothing that could have changed. -/
theorem unchanged_of_diff_eq_empty {current previous : Snapshot} {policy : ChangePolicy}
    (hflag : policy.onRemovedClass = .flag) (h : diff current (some previous) policy = .empty) :
    Unchanged current previous := by
  rw [diff, hflag, compare_eq_empty_iff, keys, if_pos rfl] at h
  simp only [List.append_eq_nil_iff, ofWidths_eq_nil_iff, ofMap_eq_nil_iff] at h
  obtain ⟨⟨⟨⟨⟨⟨hwidths, hfamilies⟩, hspacing⟩, hcolors⟩, hclasses⟩, hremoved⟩, hvalues⟩ := h
  exact ⟨hwidths, hfamilies, hspacing, hcolors, slots_eq_of_changes hclasses hremoved,
    ofVariables_eq_nil_iff.1 hvalues⟩

end DesignTokens.Changes
