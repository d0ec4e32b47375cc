import DesignTokens.Proofs.Maps
import DesignTokens.Proofs.Naming.Labels

/-!
# Names of font families

A family that the alias map names is marked by its alias and itself joined with `=`, any other one by
itself alone. Families share a name only if their marks agree: by digests of two texts, or because one
family together with an alias imitates the text of the other.
-/

namespace DesignTokens.Namer

variable {n : Namer} {family other key : String}

/-! ## Aliases of the map -/

theorem get?_of_mappedAlias? (h : n.mappedAlias? family = some key) :
    n.fontFamilies.get? key = some family := by
  obtain ⟨entry, hentry, rfl⟩ := Option.map_eq_some_iff.1 h
  have hfamily : entry.2 = family := by simpa using List.find?_some hentry
  rw [SortedMap.get?_eq_some_iff, ← hfamily]
  exact List.mem_of_find?_eq_some hentry

/-- One alias is given to one family only. -/
theorem eq_of_mappedAlias? (h : n.mappedAlias? family = some key)
    (hother : n.mappedAlias? other = some key) : family = other := by
  have hget := get?_of_mappedAlias? h
  rw [get?_of_mappedAlias? hother] at hget
  exact (Option.some.inj hget).symm

theorem isReserved_of_mappedAlias? (h : n.mappedAlias? family = some key) :
    n.isReserved (Slug.slugify key) = true := by
  unfold isReserved
  rw [List.any_eq_true]
  exact ⟨key, SortedMap.mem_keys.2 ⟨family, get?_of_mappedAlias? h⟩, by simp⟩

/-! ## The two kinds of label -/

theorem fragment_of_mapped (h : n.mappedAlias? family = some key) :
    (n.familyLabel family).fragment = Slug.slugify key := by
  simp only [familyLabel, h]

theorem source_of_mapped (h : n.mappedAlias? family = some key) :
    (n.familyLabel family).source = key ++ "=" ++ family := by
  simp only [familyLabel, h]

theorem source_of_unmapped (h : n.mappedAlias? family = none) :
    (n.familyLabel family).source = family := by
  simp only [familyLabel, h]

theorem key_of_owned (h : n.mappedAlias? family = some key) (howned : (n.familyLabel family).owned = true) :
    key = Slug.keySpelling (n.familyLabel family).fragment := by
  simp only [familyLabel, h, decide_eq_true_eq] at howned ⊢
  exact howned

theorem family_of_owned (h : n.mappedAlias? family = none) (howned : (n.familyLabel family).owned = true) :
    family = (n.familyLabel family).fragment ∧ n.isReserved (n.familyLabel family).fragment = false := by
  simp only [familyLabel, h, Bool.and_eq_true, decide_eq_true_eq, Bool.not_eq_true'] at howned ⊢
  exact howned

/-- A plain fragment belongs to one family: a derived one is never that of an alias. -/
theorem eq_of_owned (howned : (n.familyLabel family).owned = true)
    (hother : (n.familyLabel other).owned = true)
    (hfragment : (n.familyLabel family).fragment = (n.familyLabel other).fragment) : family = other := by
  cases h : n.mappedAlias? family with
  | some key =>
      cases h' : n.mappedAlias? other with
      | some key' =>
          have hkey : key = key' := by
            rw [key_of_owned h howned, key_of_owned h' hother, hfragment]
          subst hkey
          exact eq_of_mappedAlias? h h'
      | none =>
          have hfree := (family_of_owned h' hother).2
          rw [← hfragment, fragment_of_mapped h, isReserved_of_mappedAlias? h] at hfree
          cases hfree
  | none =>
      cases h' : n.mappedAlias? other with
      | some key =>
          have hfree := (family_of_owned h howned).2
          rw [hfragment, fragment_of_mapped h', isReserved_of_mappedAlias? h'] at hfree
          cases hfree
      | none => rw [(family_of_owned h howned).1, (family_of_owned h' hother).1, hfragment]

/-! ## Marks -/

/-- An alias and its family, joined, read like the text that `other` is marked by: as `other` itself, or
as a longer alias and a rest of the family. -/
def Imitates (n : Namer) (family other : String) : Prop :=
  ∃ key, n.mappedAlias? family = some key ∧
    ((n.mappedAlias? other = none ∧ other = key ++ "=" ++ family) ∨
      ∃ rest, n.mappedAlias? other = some (key ++ "=" ++ rest) ∧ family = rest ++ "=" ++ other)

theorem Imitates.source_eq (h : n.Imitates family other) :
    (n.familyLabel family).source = (n.familyLabel other).source := by
  obtain ⟨key, hkey, ⟨hother, heq⟩ | ⟨rest, hother, heq⟩⟩ := h
  · rw [source_of_mapped hkey, source_of_unmapped hother, heq]
  · rw [source_of_mapped hkey, source_of_mapped hother, heq]
    simp only [String.append_assoc]

theorem source_eq_iff : (n.familyLabel family).source = (n.familyLabel other).source ↔
    family = other ∨ n.Imitates family other ∨ n.Imitates other family := by
  constructor
  · intro h
    cases hfamily : n.mappedAlias? family with
    | some key =>
        rw [source_of_mapped hfamily] at h
        cases hother : n.mappedAlias? other with
        | some key' =>
            rw [source_of_mapped hother, joined_eq_joined_iff (c := '=') (by rfl)] at h
            rcases h with ⟨-, heq⟩ | ⟨rest, rfl, heq⟩ | ⟨rest, rfl, heq⟩
            · exact .inl heq
            · exact .inr (.inl ⟨key, hfamily, .inr ⟨rest, hother, heq⟩⟩)
            · exact .inr (.inr ⟨key', hother, .inr ⟨rest, hfamily, heq⟩⟩)
        | none =>
            rw [source_of_unmapped hother] at h
            exact .inr (.inl ⟨key, hfamily, .inl ⟨hother, h.symm⟩⟩)
    | none =>
        rw [source_of_unmapped hfamily] at h
        cases hother : n.mappedAlias? other with
        | some key =>
            rw [source_of_mapped hother] at h
            exact .inr (.inr ⟨key, hother, .inl ⟨hfamily, h⟩⟩)
        | none =>
            rw [source_of_unmapped hother] at h
            exact .inl h
  · rintro (rfl | h | h)
    · rfl
    · exact h.source_eq
    · exact h.source_eq.symm

/-- Without an equals sign no family imitates another. -/
theorem not_imitates (hfamily : '=' ∉ family.toList) (hother : '=' ∉ other.toList) :
    ¬ n.Imitates family other := by
  rintro ⟨key, -, ⟨-, rfl⟩ | ⟨rest, -, rfl⟩⟩
  · exact hother (by simp)
  · exact hfamily (by simp)

/-- Two families share a name only if both are marked, under one fragment, and the marked texts are one by
imitation or differ with the same first bytes of their digests. Families without `=` never imitate. -/
theorem family_name_eq_iff (n : Namer) (family other : String) :
    (n.name .fontFamily family = n.name .fontFamily other ↔ family = other ∨
      ((n.familyLabel family).owned = false ∧ (n.familyLabel other).owned = false ∧
        (n.familyLabel family).fragment = (n.familyLabel other).fragment ∧
        (n.Imitates family other ∨ n.Imitates other family ∨
          ((n.familyLabel family).source ≠ (n.familyLabel other).source ∧
            Fragment.digestHead (n.familyLabel family).source =
              Fragment.digestHead (n.familyLabel other).source)))) ∧
      ('=' ∉ family.toList → '=' ∉ other.toList →
        ¬ n.Imitates family other ∧ ¬ n.Imitates other family) := by
  refine ⟨?_, fun hfamily hother => ⟨not_imitates hfamily hother, not_imitates hother hfamily⟩⟩
  have hlabel : ∀ text, n.label .fontFamily text = n.familyLabel text := fun _ => rfl
  rw [name_eq_iff, hlabel, hlabel, Label.text_eq_iff]
  constructor
  · rintro ⟨hfragment, howned, hdigest⟩
    cases hfamily : (n.familyLabel family).owned with
    | true => exact .inl (eq_of_owned hfamily (howned ▸ hfamily) hfragment)
    | false =>
        by_cases hsource : (n.familyLabel family).source = (n.familyLabel other).source
        · rcases source_eq_iff.1 hsource with heq | himitates
          · exact .inl heq
          · exact .inr ⟨rfl, howned ▸ hfamily, hfragment, himitates.imp_right .inl⟩
        · exact .inr ⟨rfl, howned ▸ hfamily, hfragment, .inr (.inr ⟨hsource, hdigest hfamily⟩)⟩
  · rintro (rfl | ⟨hfamily, hother, hfragment, hmark⟩)
    · exact ⟨rfl, rfl, fun _ => rfl⟩
    · refine ⟨hfragment, hfamily.trans hother.symm, fun _ => ?_⟩
      rcases hmark with h | h | ⟨-, hdigest⟩
      · rw [h.source_eq]
      · rw [h.source_eq]
      · exact hdigest

/-- One alias extends another by an equals sign, which then stands on either side of the join. -/
def imitatingNamer : Namer where
  brand := "tf"
  category := "typo"
  fontFamilies := .ofList [("Body", "=Inter"), ("Body=", "Inter")]

theorem imitated_family_name :
    "=Inter" ≠ "Inter" ∧ imitatingNamer.name .fontFamily "=Inter" = imitatingNamer.name .fontFamily "Inter" ∧
      (imitatingNamer.familyLabel "=Inter").source = (imitatingNamer.familyLabel "Inter").source := by
  decide +kernel

end DesignTokens.Namer
