import DesignTokens.Proofs.Naming.Labels

/-!
# Keys that own their slugs

The spelling of a slug turns a dash and the letter after it into a capital, and a hump is turned back into
a dash. Two capitals in a row are read as one hump, so that a slug with a single letter between a dash and
the next hump is not the slug of its spelling. Such a slug has no owner; every other slug has exactly one.
-/

namespace DesignTokens

namespace Slug

/-- The text begins with a dash and a letter, which are spelled as a capital. -/
def OpensHump (text : List Char) : Prop :=
  ∃ x, x.isLower ∧ ['-', x] <+: text

/-- Two dashes with a single letter between them and a letter behind: two capitals in a row when spelled. -/
def JoinsHumps (text : List Char) : Prop :=
  ∃ x y, x.isLower ∧ y.isLower ∧ ['-', x, '-', y] <:+: text

section

variable {c : Char} {rest : List Char}

/-! ## Where humps are joined -/

theorem not_opensHump_of_isWordChar (hc : isWordChar c) : ¬ OpensHump (c :: rest) := by
  intro ⟨x, _, hprefix⟩
  exact ne_dash_of_isWordChar hc (List.cons_prefix_cons.1 hprefix).1.symm

theorem opensHump_dash_iff : OpensHump ('-' :: c :: rest) ↔ c.isLower := by
  simp [OpensHump, List.cons_prefix_cons]

theorem joinsHumps_cons_iff (hc : isWordChar c) : JoinsHumps (c :: rest) ↔ JoinsHumps rest := by
  have hne := (ne_dash_of_isWordChar hc).symm
  simp [JoinsHumps, List.infix_cons_iff (a := c), List.cons_prefix_cons, hne]

theorem joinsHumps_dash_iff (hc : isWordChar c) :
    JoinsHumps ('-' :: c :: rest) ↔ (c.isLower ∧ OpensHump rest) ∨ JoinsHumps rest := by
  have hskip : JoinsHumps (c :: rest) ↔ JoinsHumps rest := joinsHumps_cons_iff hc
  rw [← hskip]
  simp only [JoinsHumps, OpensHump]
  constructor
  · intro ⟨x, y, hx, hy, hinfix⟩
    cases List.infix_cons_iff.1 hinfix with
    | inl hprefix =>
        simp only [List.cons_prefix_cons, true_and] at hprefix
        obtain ⟨rfl, hrest⟩ := hprefix
        exact .inl ⟨hx, y, hy, by simpa [List.cons_prefix_cons] using hrest⟩
    | inr hlater => exact .inr ⟨x, y, hx, hy, hlater⟩
  · intro h
    cases h with
    | inl hhere =>
        obtain ⟨hc, y, hy, hprefix⟩ := hhere
        exact ⟨c, y, hc, hy, List.infix_cons_iff.2 (.inl (by simpa [List.cons_prefix_cons] using hprefix))⟩
    | inr hlater =>
        obtain ⟨x, y, hx, hy, hinfix⟩ := hlater
        exact ⟨x, y, hx, hy, List.infix_cons_iff.2 (.inr hinfix)⟩

/-! ## Spellings -/

theorem spell_of_isWordChar (hc : isWordChar c) : spell (c :: rest) = c :: spell rest := by
  cases rest with
  | nil => rfl
  | cons next more => simp [spell, ne_dash_of_isWordChar hc]

theorem spell_letter (hc : c.isLower) : spell ('-' :: c :: rest) = c.toUpper :: spell rest := by
  simp [spell, hc]

theorem spell_digit (hc : isWordChar c) (hletter : c.isLower = false) :
    spell ('-' :: c :: rest) = '-' :: c :: spell rest := by
  simp [spell, hletter, spell_of_isWordChar hc]

/-- A capital opens a hump where no other capital stands before it. -/
theorem kebab_toUpper (hc : c.isLower) {p : Position} (hp : p = .plain ∨ p = .capital) :
    kebab p (c.toUpper :: rest) =
      (if p = .plain then ['-'] else []) ++ c :: kebab .capital rest := by
  obtain ⟨-, -, hupper, hlower⟩ := Text.casing_of_isLower hc
  have halphanum : c.toUpper.isAlphanum :=
    Bool.or_eq_true_iff.2 (.inl (Bool.or_eq_true_iff.2 (.inl hupper)))
  rw [kebab_of_isAlphanum halphanum, hupper, hlower]
  cases hp with
  | inl hplain => simp [hplain, Position.dashBefore, hupper]
  | inr hcapital => simp [hcapital, Position.dashBefore]

/-- What goes on in a slug is read back from its spelling unless it joins humps; after a capital, it must not
begin with a hump either. -/
theorem Tail.kebab_spell_iff (htail : Tail rest) :
    (kebab .plain (spell rest) = rest ↔ ¬ JoinsHumps rest) ∧
      (kebab .capital (spell rest) = rest ↔ ¬ JoinsHumps rest ∧ ¬ OpensHump rest) := by
  induction htail with
  | nil => simp [spell, kebab, JoinsHumps, OpensHump]
  | char hc _ ih =>
      rw [spell_of_isWordChar hc, kebab_of_isWordChar hc (by simp), kebab_of_isWordChar hc (by simp),
        joinsHumps_cons_iff hc]
      simpa [not_opensHump_of_isWordChar hc] using ih.1
  | @dash c rest hc _ ih =>
      have hdash := ne_dash_of_isWordChar hc
      cases hletter : c.isLower with
      | true =>
          rw [spell_letter hletter, kebab_toUpper hletter (.inl rfl), kebab_toUpper hletter (.inr rfl),
            joinsHumps_dash_iff hc, opensHump_dash_iff]
          simp [hletter, hdash, ih.2, and_comm]
      | false =>
          rw [spell_digit hc hletter, kebab_dash hc (by simp), kebab_dash hc (by simp),
            joinsHumps_dash_iff hc, opensHump_dash_iff]
          simp [hletter, ih.1]

end

theorem slugify_keySpelling_iff {slug : String} (h : IsSlug slug) :
    slugify (keySpelling slug) = slug ↔ ¬ JoinsHumps slug.toList := by
  obtain ⟨c, rest, heq, hc, htail⟩ := isSlug_iff.1 h
  rw [← String.toList_inj, toList_slugify, keySpelling, String.toList_ofList, heq, spell_of_isWordChar hc,
    kebab_of_isWordChar hc (by simp), joinsHumps_cons_iff hc]
  simpa using htail.kebab_spell_iff.1

end Slug

namespace Fragment

open Slug

variable {key : String}

theorem ofKey_of_owner (h : key = keySpelling (slugify key)) : ofKey key = slugify key := by
  simp only [ofKey, if_pos h]

theorem ofKey_of_ne (h : key ≠ keySpelling (slugify key)) : ofKey key = marked (slugify key) key := by
  simp only [ofKey, if_neg h]

/-- A key has a slug as its plain fragment only if it is the spelling of it, and then only if it is read back
as that slug. -/
theorem ofKey_eq_slugify_iff {text : String} :
    ofKey key = slugify text ↔ key = keySpelling (slugify text) ∧ slugify key = slugify text := by
  by_cases howner : key = keySpelling (slugify key)
  · rw [ofKey_of_owner howner]
    constructor
    · intro hslug
      exact ⟨hslug ▸ howner, hslug⟩
    · exact fun h => h.2
  · rw [ofKey_of_ne howner]
    constructor
    · exact fun heq => absurd heq.symm (ne_marked (isPlain_slugify text))
    · intro ⟨hkey, hslug⟩
      rw [hslug] at howner
      exact absurd hkey howner

theorem slugify_keySpelling_slugify_iff (text : String) :
    slugify (keySpelling (slugify text)) = slugify text ↔ ¬ JoinsHumps (slugify text).toList :=
  slugify_keySpelling_iff (isSlug_slugify text)

theorem ofKey_eq_iff {text : String} : ofKey key = slugify text ↔
    key = keySpelling (slugify text) ∧ ¬ JoinsHumps (slugify text).toList := by
  rw [ofKey_eq_slugify_iff]
  refine and_congr_right fun hkey => ?_
  rw [hkey, slugify_keySpelling_slugify_iff]

/-- A slug is the fragment of its spelling and of no other key, unless it joins two humps; then it is the
fragment of no key at all. Its spelling is read back as the slug in the same cases, and every other key with
the slug is marked. -/
theorem slug_owner_iff (text : String) :
    ((∀ key, ofKey key = slugify text ↔ key = keySpelling (slugify text)) ↔
        ¬ JoinsHumps (slugify text).toList) ∧
      (JoinsHumps (slugify text).toList → ∀ key, ofKey key ≠ slugify text) ∧
      (slugify (keySpelling (slugify text)) = slugify text ↔ ¬ JoinsHumps (slugify text).toList) ∧
      ∀ key, slugify key = slugify text → key ≠ keySpelling (slugify text) →
        ofKey key = marked (slugify text) key := by
  refine ⟨?_, ?_, slugify_keySpelling_slugify_iff text, ?_⟩
  · constructor
    · intro howner
      exact (ofKey_eq_iff.1 ((howner _).2 rfl)).2
    · intro hapart key
      rw [ofKey_eq_iff]
      exact and_iff_left hapart
  · intro hjoins key heq
    exact (ofKey_eq_iff.1 heq).2 hjoins
  · intro key hslug hne
    rw [← hslug] at hne
    rw [ofKey_of_ne hne, hslug]

/-- Single letters stand in this slug, but no dash and letter come after one that is spelled as a capital. -/
theorem slug_owner_iff_sizes :
    slugify "a B-2 cd" = "a-b-2-cd" ∧ (∀ key, ofKey key = "a-b-2-cd" ↔ key = "aB-2Cd") ∧
      slugify "aB-2Cd" = "a-b-2-cd" ∧ ofKey "a B-2 cd" = marked "a-b-2-cd" "a B-2 cd" := by
  have hslug : slugify "a B-2 cd" = "a-b-2-cd" := by decide
  have hspelling : keySpelling "a-b-2-cd" = "aB-2Cd" := by decide
  obtain ⟨howner, -, hread, hmarked⟩ := slug_owner_iff "a B-2 cd"
  rw [hslug, hspelling] at howner hread hmarked
  have hback : slugify "aB-2Cd" = "a-b-2-cd" := by decide
  exact ⟨hslug, howner.2 (hread.1 hback), hback, hmarked _ hslug (by decide)⟩

/-- The capitals of `aBC` are one hump, so that no key has the plain fragment `a-b-c`. -/
theorem ownerless_slug :
    slugify "a-b-c" = "a-b-c" ∧ keySpelling "a-b-c" = "aBC" ∧ slugify "aBC" = "a-bc" ∧
      ofKey "aBC" ≠ "a-b-c" ∧ ∀ key, ofKey key ≠ "a-b-c" := by
  have hslug : slugify "a-b-c" = "a-b-c" := by decide
  have hjoins : JoinsHumps "a-b-c".toList := ⟨'b', 'c', by decide, by decide, by decide⟩
  have hnone : ∀ key, ofKey key ≠ "a-b-c" := by
    intro key heq
    rw [← hslug] at heq
    rw [← hslug] at hjoins
    exact (ofKey_eq_iff.1 heq).2 hjoins
  exact ⟨hslug, by decide, by decide, hnone "aBC", hnone⟩

end Fragment

end DesignTokens
