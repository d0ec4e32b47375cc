import DesignTokens.Proofs.Naming.Labels

/-!
# Spellings that own their fragments

A fragment tells the one spelling that owns it. So two texts of a property have one name only where
neither owns its fragment, and then only if the fragments and the first bytes of the digests are the same.
-/

namespace DesignTokens

namespace Fragment

/-! ## Reading a numeric fragment -/

def isDigitOrDash (c : Char) : Bool :=
  c.isDigit || c = '-'

/-- A character of a numeric fragment as it stands in a magnitude. -/
def pointed (c : Char) : Char :=
  if c = '-' then '.' else c

/-- The unit that a fragment ends in. -/
def spelledUnit (nativeUnit : String) (word : List Char) : List Char :=
  if word = [] then nativeUnit.toList
  else if word = ['p', 'c', 't'] then ['%']
  else word

/-- The minus sign of a fragment, and what follows it. -/
def splitN (fragment : List Char) : List Char × List Char :=
  match fragment with
  | 'n' :: rest => (['-'], rest)
  | other => ([], other)

/-- The numeric text that owns a fragment. -/
def spelledNumber (nativeUnit : String) (fragment : List Char) : List Char :=
  let (sign, rest) := splitN fragment
  sign ++ (rest.takeWhile isDigitOrDash).map pointed ++
    spelledUnit nativeUnit (rest.dropWhile isDigitOrDash)

/-- The raw value that owns a fragment. -/
def valueSpelling (nativeUnit fragment : String) : String :=
  if looksNumeric fragment.toList then String.ofList (spelledNumber nativeUnit fragment.toList)
  else fragment

theorem pointed_dashed {c : Char} (h : NumericText.isDigitOrPoint c) : pointed (dashed c) = c := by
  unfold dashed
  split
  · rename_i hpoint
    rw [hpoint]
    rfl
  · have hne : c ≠ '-' := (NumericText.ne_sign_of_isDigitOrPoint h).2
    rw [pointed, if_neg hne]

theorem isDigitOrDash_dashed {c : Char} (h : NumericText.isDigitOrPoint c) : isDigitOrDash (dashed c) := by
  unfold dashed
  split
  · decide
  · rename_i hpoint
    simp [isDigitOrDash, NumericText.isDigit_of_ne_point h hpoint]

theorem isDigitOrDash_of_isLower {c : Char} (h : c.isLower) : isDigitOrDash c = false := by
  have halpha : c.isAlpha := Bool.or_eq_true_iff.2 (.inr h)
  have hdash : c ≠ '-' := Text.ne_of_isIn h (by decide)
  simp [isDigitOrDash, Text.isDigit_eq_false_of_isAlpha halpha, hdash]

/-- The words of canonical units are small letters, and give the unit back. -/
theorem unitWord_of_canonical {nativeUnit unit : String} (h : isCanonicalUnit nativeUnit unit) :
    (unitWord nativeUnit unit).all Char.isLower ∧
      spelledUnit nativeUnit (unitWord nativeUnit unit) = unit.toList := by
  unfold unitWord
  by_cases hpercent : unit = "%"
  · subst hpercent
    rw [if_pos rfl]
    exact ⟨by decide, rfl⟩
  · by_cases hnative : unit = nativeUnit
    · subst hnative
      rw [if_neg hpercent, if_pos rfl]
      exact ⟨rfl, rfl⟩
    · simp only [isCanonicalUnit, hnative, hpercent, decide_false, Bool.false_or, Bool.and_eq_true,
        decide_eq_true_eq] at h
      obtain ⟨⟨hempty, hpct⟩, hletters⟩ := h
      have hword : unit.toList.map Char.toLower = unit.toList := by
        rw [List.map_congr_left (fun c hc => (Text.casing_of_isLower (List.all_eq_true.1 hletters c hc)).2.1),
          List.map_id']
      have hne : unit.toList ≠ [] := fun heq => hempty (String.toList_inj.1 heq)
      have hnepct : unit.toList ≠ ['p', 'c', 't'] := fun heq => hpct (String.toList_inj.1 heq)
      rw [if_neg hpercent, if_neg hnative, hword]
      refine ⟨hletters, ?_⟩
      rw [spelledUnit, if_neg hne, if_neg hnepct]

theorem splitN_of_isDigit {d : Char} (h : d.isDigit) (rest : List Char) :
    splitN (d :: rest) = ([], d :: rest) := by
  have hn : d ≠ 'n' := Text.ne_of_isIn h (by decide)
  simp [splitN, hn]

theorem looksNumeric_eq (fragment : List Char) :
    looksNumeric fragment = ((splitN fragment).2.head?.any Char.isDigit &&
      ((splitN fragment).2.dropWhile isDigitOrDash).all Char.isLower) := by
  cases fragment with
  | nil => rfl
  | cons c rest =>
      by_cases hn : c = 'n'
      · subst hn
        rfl
      · have hword : isDigitOrDash = fun c => c.isDigit || decide (c = '-') := rfl
        simp [looksNumeric, splitN, hn, hword]

/-- The parts of a number that owns its fragment. -/
structure Canonical (nativeUnit raw : String) (text : NumericText) (sign magnitude : List Char) : Prop where
  parts : text.Parts sign magnitude
  raw : raw.toList = sign ++ magnitude ++ text.unit.toList
  sign : sign = [] ∨ sign = ['-']
  starts : ∃ d rest, magnitude = d :: rest ∧ d.isDigit
  unit : isCanonicalUnit nativeUnit text.unit

theorem exists_canonical {nativeUnit raw : String} {text : NumericText}
    (hparse : NumericText.parse? raw = some text) (h : isCanonicalNumber nativeUnit raw text) :
    ∃ sign magnitude, Canonical nativeUnit raw text sign magnitude := by
  obtain ⟨sign, magnitude, hparts⟩ := NumericText.exists_parts hparse
  simp only [isCanonicalNumber, splitMinus_eq hparts, Bool.and_eq_true, decide_eq_true_eq] at h
  obtain ⟨⟨⟨⟨hraw, hplus⟩, hdigit⟩, -⟩, hunit⟩ := h
  refine ⟨sign, magnitude, hparts, ?_, ?_, ?_, hunit⟩
  · rw [hraw, String.toList_append, hparts.number]
  · rcases hparts.sign with hnone | rfl | hminus
    · exact .inl hnone
    · rw [hparts.number] at hplus
      exact absurd rfl hplus
    · exact .inr hminus
  · cases magnitude with
    | nil => cases hdigit
    | cons d rest => exact ⟨d, rest, rfl, hdigit⟩

section

variable {nativeUnit raw : String} {text : NumericText} {sign magnitude : List Char}

theorem Canonical.splitN_numericWord (h : Canonical nativeUnit raw text sign magnitude) :
    splitN (numericWord nativeUnit text) =
      (sign, magnitude.map dashed ++ unitWord nativeUnit text.unit) := by
  obtain ⟨d, rest, rfl, hd⟩ := h.starts
  have hpoint : d ≠ '.' := Text.ne_of_isIn hd (by decide)
  have hdashed : dashed d = d := if_neg hpoint
  rw [numericWord_eq nativeUnit h.parts]
  rcases h.sign with rfl | rfl
  · simpa [hpoint, hdashed] using splitN_of_isDigit hd _
  · simp [hpoint, splitN]

/-- The magnitude and the unit of a fragment are told apart by their characters. -/
theorem Canonical.split_word (h : Canonical nativeUnit raw text sign magnitude) :
    (magnitude.map dashed ++ unitWord nativeUnit text.unit).takeWhile isDigitOrDash =
        magnitude.map dashed ∧
      (magnitude.map dashed ++ unitWord nativeUnit text.unit).dropWhile isDigitOrDash =
        unitWord nativeUnit text.unit := by
  have hmagnitude : ∀ c ∈ magnitude.map dashed, isDigitOrDash c := by
    intro c hc
    obtain ⟨original, horiginal, rfl⟩ := List.mem_map.1 hc
    exact isDigitOrDash_dashed (h.parts.isDigitOrPoint original horiginal)
  have hletters := (unitWord_of_canonical h.unit).1
  rw [List.takeWhile_append_of_pos hmagnitude, List.dropWhile_append_of_pos hmagnitude]
  cases hword : unitWord nativeUnit text.unit with
  | nil => simp
  | cons c rest =>
      rw [hword] at hletters
      have hc := isDigitOrDash_of_isLower (List.all_eq_true.1 hletters c List.mem_cons_self)
      simp [hc]

theorem Canonical.looksNumeric (h : Canonical nativeUnit raw text sign magnitude) :
    looksNumeric (numericWord nativeUnit text) := by
  rw [looksNumeric_eq, h.splitN_numericWord, h.split_word.2, (unitWord_of_canonical h.unit).1]
  obtain ⟨d, rest, rfl, hd⟩ := h.starts
  have hpoint : d ≠ '.' := Text.ne_of_isIn hd (by decide)
  simp [dashed, hpoint, hd]

theorem Canonical.spelledNumber (h : Canonical nativeUnit raw text sign magnitude) :
    spelledNumber nativeUnit (numericWord nativeUnit text) = raw.toList := by
  have hmagnitude : (magnitude.map dashed).map pointed = magnitude := by
    rw [List.map_map]
    have hsame := List.map_congr_left (f := pointed ∘ dashed) (g := id)
      (fun c hc => pointed_dashed (h.parts.isDigitOrPoint c hc))
    rw [hsame, List.map_id]
  simp only [Fragment.spelledNumber, h.splitN_numericWord, h.split_word.1, h.split_word.2, hmagnitude,
    (unitWord_of_canonical h.unit).2, h.raw]

end

/-- A raw value that owns its fragment is the one that the fragment tells. -/
theorem valueSpelling_bareValue {p : Property} {raw : String} (h : ownsValue p raw = true) :
    valueSpelling p.rule.nativeUnit (bareValue p raw) = raw := by
  cases hparse : NumericText.parse? raw with
  | some text =>
      simp only [ownsValue, hparse] at h
      obtain ⟨sign, magnitude, hcanonical⟩ := exists_canonical hparse h
      simp only [bareValue, hparse, valueSpelling, String.toList_ofList, hcanonical.looksNumeric, if_true,
        hcanonical.spelledNumber, String.ofList_toList]
  | none =>
      simp only [ownsValue, hparse, Bool.and_eq_true, decide_eq_true_eq, Bool.not_eq_true'] at h
      simp only [bareValue, hparse, valueSpelling, h.2, Bool.false_eq_true, if_false]
      exact h.1.symm

/-- The text of a property that owns a fragment; of font families the fragment alone does not tell. -/
def spelling (p : Property) (fragment : String) : String :=
  if p.scope = .flat then Slug.keySpelling fragment else valueSpelling p.rule.nativeUnit fragment

end Fragment

/-! ## Names of values and keys -/

namespace Namer

/-- The names of a property tell its texts apart, digests aside. -/
structure TellsApart (n : Namer) (p : Property) : Prop where
  shared : ∀ {first second : String}, n.name p first = n.name p second ↔ first = second ∨
    ((n.label p first).owned = false ∧ (n.label p second).owned = false ∧
      (n.label p first).fragment = (n.label p second).fragment ∧
      Fragment.digestHead first = Fragment.digestHead second)
  owner : ∀ {owner other : String}, (n.label p owner).owned = true →
    n.name p owner = n.name p other → owner = other
  plain : ∀ {text : String}, (n.label p text).owned = true →
    n.name p text = n.stem p ++ (n.label p text).fragment
  marked : ∀ {text : String}, (n.label p text).owned = false →
    n.name p text = n.stem p ++ ((n.label p text).fragment ++ "_" ++ Fragment.mark text)
  fragment : ∀ text : String, ∀ c ∈ (n.label p text).fragment.toList, c.isLower ∨ c.isDigit ∨ c = '-'
  mark : ∀ text : String, (Fragment.mark text).length = 8 ∧
    ∀ c ∈ (Fragment.mark text).toList, c.isDigit ∨ ('a' ≤ c ∧ c ≤ 'f')

variable (n : Namer) {p : Property} (hp : p ≠ .fontFamily)

include hp

theorem source_label (text : String) : (n.label p text).source = text := by
  rcases p.naming_cases with hfamily | ⟨hnaming, -⟩ | ⟨hnaming, -⟩
  · exact absurd hfamily hp
  · rw [label_of_classScoped n hnaming]
    rfl
  · rw [label_of_flat n hnaming]
    rfl

theorem spelling_label {text : String} (h : (n.label p text).owned = true) :
    Fragment.spelling p (n.label p text).fragment = text := by
  rcases p.naming_cases with hfamily | ⟨hnaming, hscope⟩ | ⟨hnaming, hscope⟩
  · exact absurd hfamily hp
  · rw [label_of_classScoped n hnaming, Label.owned_ofValue] at h
    rw [label_of_classScoped n hnaming, Label.fragment_ofValue, Fragment.spelling, if_neg hscope]
    exact Fragment.valueSpelling_bareValue h
  · rw [label_of_flat n hnaming, Label.owned_ofKey, decide_eq_true_eq] at h
    rw [label_of_flat n hnaming, Label.fragment_ofKey, Fragment.spelling, if_pos hscope]
    exact h.symm

/-- Texts with one label are equal, unless both are marked alike. -/
theorem text_label_eq_iff {first second : String} :
    (n.label p first).text = (n.label p second).text ↔ first = second ∨
      ((n.label p first).owned = false ∧ (n.label p second).owned = false ∧
        (n.label p first).fragment = (n.label p second).fragment ∧
        Fragment.digestHead first = Fragment.digestHead second) := by
  rw [Label.text_eq_iff, source_label n hp, source_label n hp]
  constructor
  · rintro ⟨hfragment, howned, hdigest⟩
    cases h : (n.label p first).owned with
    | true =>
        have hfirst := spelling_label n hp h
        have hsecond := spelling_label n hp (howned ▸ h)
        left
        rw [← hfirst, ← hsecond, hfragment]
    | false => exact .inr ⟨rfl, howned ▸ h, hfragment, hdigest h⟩
  · rintro (rfl | ⟨hfirst, hsecond, hfragment, hdigest⟩)
    · exact ⟨rfl, rfl, fun _ => rfl⟩
    · exact ⟨hfragment, hfirst.trans hsecond.symm, fun _ => hdigest⟩

theorem tellsApart : n.TellsApart p where
  shared := by
    intro first second
    rw [name_eq_iff, text_label_eq_iff n hp]
  owner := by
    intro owner other howned hname
    rw [name_eq_iff, text_label_eq_iff n hp] at hname
    rcases hname with heq | ⟨hmarked, -⟩
    · exact heq
    · rw [howned] at hmarked
      cases hmarked
  plain := by
    intro text howned
    rw [name_eq, Label.text_of_owned howned]
  marked := by
    intro text hmarked
    rw [name_eq, Label.text_of_not_owned hmarked, source_label n hp]
    rfl
  fragment := by
    intro text c hc
    have hplain := (n.label p text).plain c hc
    simpa [Fragment.isPlainChar, or_assoc] using hplain
  mark := by
    intro text
    refine ⟨Fragment.length_mark text, ?_⟩
    intro c hc
    have hhex := Fragment.isHexDigit_of_mem_mark hc
    simpa [Fragment.isHexDigit] using hhex

omit hp

def sampleNamer : Namer := ⟨"tf", "typo", .empty⟩

/-- A quoted length has the fragment of the bare one, which owns it. -/
theorem tellsApart_letterSpacing :
    Property.letterSpacing ≠ .fontFamily ∧ sampleNamer.TellsApart .letterSpacing ∧
      (sampleNamer.label .letterSpacing "16px").owned = true ∧
      (sampleNamer.label .letterSpacing "16px").fragment =
        (sampleNamer.label .letterSpacing "\"16px\"").fragment ∧
      sampleNamer.name .letterSpacing "16px" ≠ sampleNamer.name .letterSpacing "\"16px\"" := by
  have hp : Property.letterSpacing ≠ .fontFamily := by decide
  have howned : (sampleNamer.label .letterSpacing "16px").owned = true := by decide
  have hapart := tellsApart sampleNamer hp
  refine ⟨hp, hapart, howned, by decide, ?_⟩
  intro hname
  exact absurd (hapart.owner howned hname) (by decide)

end Namer

end DesignTokens
