import DesignTokens.Naming.Namer
import DesignTokens.Proofs.Naming.Slugs
import DesignTokens.Proofs.NumericText

/-!
# Labels

Every variable name ends in a label: a fragment that stands alone where the text is the spelling that
owns it, and carries the mark of a source text elsewhere. Fragments hold no `_`, so that two labels
read alike only if their fragments are equal and both stand alone or both carry one mark.
-/

namespace DesignTokens

/-- Two texts joined at a character are told apart, unless that character stands in one of their parts. -/
theorem joined_eq_joined_iff {mark : String} {c : Char} (hmark : mark.toList = [c]) {a b f g : String} :
    a ++ mark ++ f = b ++ mark ++ g ↔ (a = b ∧ f = g) ∨
      (∃ rest, b = a ++ mark ++ rest ∧ f = rest ++ mark ++ g) ∨
      ∃ rest, a = b ++ mark ++ rest ∧ g = rest ++ mark ++ f := by
  constructor
  · intro h
    have hchars := congrArg String.toList h
    simp only [String.toList_append, hmark, List.append_assoc, List.singleton_append] at hchars
    -- One of the first parts continues the other, by nothing or from the mark of the other side on.
    rcases List.append_eq_append_iff.1 hchars with ⟨more, hb, hrest⟩ | ⟨more, ha, hrest⟩
    · cases more with
      | nil =>
          refine .inl ⟨String.toList_inj.1 (by simpa using hb.symm), String.toList_inj.1 ?_⟩
          exact (List.cons.inj hrest).2
      | cons d rest =>
          obtain ⟨hd, hf⟩ := List.cons.inj hrest
          refine .inr (.inl ⟨String.ofList rest, String.toList_inj.1 ?_, String.toList_inj.1 ?_⟩)
          · simp [hb, hmark, hd]
          · simp [hf, hmark]
    · cases more with
      | nil =>
          refine .inl ⟨String.toList_inj.1 (by simpa using ha), String.toList_inj.1 ?_⟩
          exact (List.cons.inj hrest).2.symm
      | cons d rest =>
          obtain ⟨hd, hg⟩ := List.cons.inj hrest
          refine .inr (.inr ⟨String.ofList rest, String.toList_inj.1 ?_, String.toList_inj.1 ?_⟩)
          · simp [ha, hmark, hd]
          · simp [hg, hmark]
  · rintro (⟨rfl, rfl⟩ | ⟨rest, rfl, rfl⟩ | ⟨rest, rfl, rfl⟩)
    · rfl
    · simp only [String.append_assoc]
    · simp only [String.append_assoc]

namespace Fragment

/-- A small ASCII letter, a digit or a dash. -/
def isPlainChar (c : Char) : Bool :=
  c.isLower || c.isDigit || c = '-'

def IsPlain (fragment : String) : Prop :=
  ∀ c ∈ fragment.toList, isPlainChar c

/-- The bytes of a text's digest that its mark shows. -/
def digestHead (source : String) : List UInt8 :=
  (Sha256.digest source.toUTF8.toList).take markBytes

/-- A digit or a small letter up to `f`. -/
def isHexDigit (c : Char) : Bool :=
  c.isDigit || ('a' ≤ c && c ≤ 'f')

/-! ## Marks -/

theorem hexPair_injective {m n : Nat} (hm : m < 256) (hn : n < 256)
    (h : Text.hexPair m = Text.hexPair n) : m = n := by
  have hread := Text.hexNumber?_hexPair hm
  rw [h, Text.hexNumber?_hexPair hn] at hread
  exact (Option.some.inj hread).symm

theorem flatMap_hexPair_injective {first second : List UInt8}
    (h : first.flatMap (fun b => Text.hexPair b.toNat) = second.flatMap (fun b => Text.hexPair b.toNat)) :
    first = second := by
  induction first generalizing second with
  | nil =>
      cases second with
      | nil => rfl
      | cons b rest => simp [Text.hexPair] at h
  | cons b rest ih =>
      cases second with
      | nil => simp [Text.hexPair] at h
      | cons b' rest' =>
          rw [List.flatMap_cons, List.flatMap_cons] at h
          obtain ⟨hpair, hrest⟩ := List.append_inj h rfl
          have hbyte := hexPair_injective b.toNat_lt b'.toNat_lt hpair
          rw [UInt8.toNat_inj.1 hbyte, ih hrest]

theorem mark_eq_iff {first second : String} :
    mark first = mark second ↔ digestHead first = digestHead second := by
  unfold mark
  rw [String.ofList_inj]
  constructor
  · exact flatMap_hexPair_injective
  · intro h
    exact congrArg _ h

theorem length_flatMap_hexPair (bytes : List UInt8) :
    (bytes.flatMap (fun b => Text.hexPair b.toNat)).length = 2 * bytes.length := by
  induction bytes with
  | nil => rfl
  | cons b rest ih =>
      rw [List.flatMap_cons, List.length_append, ih, List.length_cons]
      simp only [Text.hexPair, List.length_cons, List.length_nil]
      omega

theorem length_mark (source : String) : (mark source).toList.length = 2 * markBytes := by
  rw [mark, String.toList_ofList, length_flatMap_hexPair, List.length_take, Sha256.digest_length]
  rfl

theorem isHexDigit_digitChar : ∀ n, n < 16 → isHexDigit (Nat.digitChar n) := by
  decide

theorem isHexDigit_of_mem_mark {source : String} {c : Char} (h : c ∈ (mark source).toList) :
    isHexDigit c := by
  rw [mark, String.toList_ofList, List.mem_flatMap] at h
  obtain ⟨b, -, hc⟩ := h
  have hb := b.toNat_lt
  simp only [Text.hexPair, List.mem_cons, List.not_mem_nil, or_false] at hc
  rcases hc with rfl | rfl
  · exact isHexDigit_digitChar _ (by omega)
  · exact isHexDigit_digitChar _ (by omega)

theorem IsPlain.not_mem_underscore {fragment : String} (h : IsPlain fragment) : '_' ∉ fragment.toList := by
  intro hmem
  exact absurd (h '_' hmem) (by decide)

theorem toList_marked (fragment source : String) :
    (marked fragment source).toList = fragment.toList ++ '_' :: (mark source).toList := by
  simp [marked]

theorem marked_eq_iff {first second source source' : String} :
    marked first source = marked second source' ↔
      first = second ∧ digestHead source = digestHead source' := by
  rw [← mark_eq_iff]
  constructor
  · intro h
    have hchars := congrArg String.toList h
    rw [toList_marked, toList_marked] at hchars
    obtain ⟨hfragment, hmark⟩ := List.append_inj' hchars (by simp [length_mark])
    exact ⟨String.toList_inj.1 hfragment, String.toList_inj.1 (List.cons.inj hmark).2⟩
  · rintro ⟨rfl, hmark⟩
    rw [marked, marked, hmark]

theorem ne_marked {plain fragment source : String} (h : IsPlain plain) : plain ≠ marked fragment source := by
  rintro rfl
  apply h.not_mem_underscore
  rw [toList_marked]
  simp

end Fragment

/-! ## Labels -/

structure Label where
  fragment : String
  plain : Fragment.IsPlain fragment
  /-- The text is the spelling that owns the fragment. -/
  owned : Bool
  /-- What the mark is made from. -/
  source : String

namespace Label

def text (label : Label) : String :=
  if label.owned then label.fragment else Fragment.marked label.fragment label.source

theorem text_of_owned {label : Label} (h : label.owned = true) : label.text = label.fragment :=
  if_pos h

theorem text_of_not_owned {label : Label} (h : label.owned = false) :
    label.text = Fragment.marked label.fragment label.source := by
  simp [text, h]

/-- Labels with marks that differ, or of which only one has a mark, do not read alike. -/
theorem text_eq_iff {first second : Label} :
    first.text = second.text ↔ first.fragment = second.fragment ∧ first.owned = second.owned ∧
      (first.owned = false → Fragment.digestHead first.source = Fragment.digestHead second.source) := by
  cases h : first.owned <;> cases h' : second.owned
  · rw [text_of_not_owned h, text_of_not_owned h', Fragment.marked_eq_iff]
    simp
  · rw [text_of_not_owned h, text_of_owned h']
    simpa using (Fragment.ne_marked second.plain).symm
  · rw [text_of_owned h, text_of_not_owned h']
    simpa using Fragment.ne_marked first.plain
  · rw [text_of_owned h, text_of_owned h']
    simp

end Label

/-! ## Plain fragments -/

namespace Fragment

theorem isPlainChar_of_isWordChar {c : Char} (h : Slug.isWordChar c) : isPlainChar c := by
  rw [isPlainChar, Bool.or_eq_true]
  exact .inl h

theorem isPlainChar_toLower {c : Char} (h : c.isAlphanum) : isPlainChar c.toLower :=
  isPlainChar_of_isWordChar (Slug.isWordChar_toLower h)

theorem isPlain_slugify (text : String) : IsPlain (Slug.slugify text) := by
  obtain ⟨c, rest, heq, hc, htail⟩ := Slug.isSlug_iff.1 (Slug.isSlug_slugify text)
  rw [IsPlain, heq, List.forall_mem_cons]
  refine ⟨isPlainChar_of_isWordChar hc, ?_⟩
  intro d hd
  cases htail.isWordChar_or_dash d hd with
  | inl hword => exact isPlainChar_of_isWordChar hword
  | inr hdash => simp [isPlainChar, hdash]

theorem splitMinus_eq {text : NumericText} {sign magnitude : List Char}
    (h : text.Parts sign magnitude) :
    splitMinus text.number.toList = (decide (sign = ['-']), magnitude) := by
  have hbare : splitMinus magnitude = (false, magnitude) := by
    cases magnitude with
    | nil => rfl
    | cons c rest =>
        obtain ⟨hplus, hminus⟩ := NumericText.ne_sign_of_isDigitOrPoint (h.isDigitOrPoint c List.mem_cons_self)
        simp [splitMinus, hplus, hminus]
  rw [h.number]
  rcases h.sign with rfl | rfl | rfl
  · exact hbare
  · cases magnitude with
    | nil => rfl
    | cons c rest =>
        obtain ⟨-, hminus⟩ := NumericText.ne_sign_of_isDigitOrPoint (h.isDigitOrPoint c List.mem_cons_self)
        simp [splitMinus, hminus]
  · rfl

/-- A character of a magnitude as it stands in a fragment. -/
def dashed (c : Char) : Char :=
  if c = '.' then '-' else c

theorem numericWord_eq {text : NumericText} {sign magnitude : List Char} (nativeUnit : String)
    (h : text.Parts sign magnitude) :
    numericWord nativeUnit text = (if sign = ['-'] then ['n'] else []) ++
      (if magnitude.head? = some '.' then ['0'] else []) ++ magnitude.map dashed ++
        unitWord nativeUnit text.unit := by
  simp only [numericWord, splitMinus_eq h, decide_eq_true_eq]
  rfl

theorem isPlainChar_dashed {c : Char} (h : NumericText.isDigitOrPoint c) : isPlainChar (dashed c) := by
  unfold dashed
  split
  · decide
  · rename_i hpoint
    simp [isPlainChar, NumericText.isDigit_of_ne_point h hpoint]

theorem isPlainChar_of_mem_unitWord {nativeUnit unit : String} (hunit : NumericText.isUnit unit.toList)
    {c : Char} (h : c ∈ unitWord nativeUnit unit) : isPlainChar c := by
  unfold unitWord at h
  split at h
  · have hall : ['p', 'c', 't'].all isPlainChar = true := by decide
    exact List.all_eq_true.1 hall c h
  · rename_i hpercent
    split at h
    · cases h
    · have hletters : unit.toList.all Char.isAlpha := by
        have hne : unit.toList ≠ ['%'] := fun heq => hpercent (String.toList_inj.1 heq)
        simpa [NumericText.isUnit, hne] using hunit
      obtain ⟨letter, hletter, rfl⟩ := List.mem_map.1 h
      apply isPlainChar_toLower
      simp [Char.isAlphanum, List.all_eq_true.1 hletters letter hletter]

theorem isPlainChar_of_mem_numericWord {raw nativeUnit : String} {text : NumericText}
    (hparse : NumericText.parse? raw = some text) {c : Char} (h : c ∈ numericWord nativeUnit text) :
    isPlainChar c := by
  obtain ⟨sign, magnitude, hparts⟩ := NumericText.exists_parts hparse
  rw [numericWord_eq nativeUnit hparts] at h
  simp only [List.mem_append, List.mem_map] at h
  rcases h with ((hsign | hzero) | ⟨c, hc, rfl⟩) | hunit
  · split at hsign
    · rw [List.mem_singleton.1 hsign]
      decide
    · cases hsign
  · split at hzero
    · rw [List.mem_singleton.1 hzero]
      decide
    · cases hzero
  · exact isPlainChar_dashed (hparts.isDigitOrPoint c hc)
  · exact isPlainChar_of_mem_unitWord hparts.isUnit hunit

/-- The fragment of a raw value, before any mark. -/
def bareValue (p : Property) (raw : String) : String :=
  match NumericText.parse? raw with
  | some text => String.ofList (numericWord p.rule.nativeUnit text)
  | none => Slug.slugify raw

/-- True of the raw values that own their fragments. -/
def ownsValue (p : Property) (raw : String) : Bool :=
  match NumericText.parse? raw with
  | some text => isCanonicalNumber p.rule.nativeUnit raw text
  | none => raw = Slug.slugify raw && !looksNumeric (Slug.slugify raw).toList

theorem isPlain_bareValue (p : Property) (raw : String) : IsPlain (bareValue p raw) := by
  unfold bareValue
  split
  · rename_i text hparse
    intro c hc
    rw [String.toList_ofList] at hc
    exact isPlainChar_of_mem_numericWord hparse hc
  · exact isPlain_slugify raw

end Fragment

/-! ## The labels of names -/

/-- Font families apart, the names of class properties hold the category and those of tables do not. -/
theorem Property.naming_cases (p : Property) :
    p = .fontFamily ∨ (p.rule.naming = .classScoped ∧ p.scope ≠ .flat) ∨
      (p.rule.naming = .flat p.cssProperty ∧ p.scope = .flat) := by
  cases p <;> decide

namespace Label

def ofValue (p : Property) (raw : String) : Label where
  fragment := Fragment.bareValue p raw
  plain := Fragment.isPlain_bareValue p raw
  owned := Fragment.ownsValue p raw
  source := raw

def ofKey (key : String) : Label where
  fragment := Slug.slugify key
  plain := Fragment.isPlain_slugify key
  owned := key = Slug.keySpelling (Slug.slugify key)
  source := key

@[simp] theorem fragment_ofValue (p : Property) (raw : String) :
    (ofValue p raw).fragment = Fragment.bareValue p raw := by
  rw [ofValue]

@[simp] theorem owned_ofValue (p : Property) (raw : String) :
    (ofValue p raw).owned = Fragment.ownsValue p raw := by
  rw [ofValue]

@[simp] theorem fragment_ofKey (key : String) : (ofKey key).fragment = Slug.slugify key := by
  rw [ofKey]

@[simp] theorem owned_ofKey (key : String) :
    (ofKey key).owned = decide (key = Slug.keySpelling (Slug.slugify key)) := by
  rw [ofKey]

theorem text_ofValue (p : Property) (raw : String) : (ofValue p raw).text = Fragment.ofValue p raw := by
  cases h : NumericText.parse? raw with
  | some text => simp only [Label.text, ofValue, Fragment.bareValue, Fragment.ownsValue, Fragment.ofValue, h]
  | none => simp only [Label.text, ofValue, Fragment.bareValue, Fragment.ownsValue, Fragment.ofValue, h]

theorem text_ofKey (key : String) : (ofKey key).text = Fragment.ofKey key := by
  simp only [text, ofKey, Fragment.ofKey, decide_eq_true_eq]

end Label

namespace Namer

/-- The label of a font family. An alias from the map is part of what its mark is made from. -/
def familyLabel (n : Namer) (family : String) : Label :=
  match n.mappedAlias? family with
  | some found =>
      ⟨Slug.slugify found, Fragment.isPlain_slugify found,
        found = Slug.keySpelling (Slug.slugify found), found ++ "=" ++ family⟩
  | none =>
      ⟨derivedAlias family, Fragment.isPlain_slugify _,
        family = derivedAlias family && !n.isReserved (derivedAlias family), family⟩

theorem text_familyLabel (n : Namer) (family : String) :
    (n.familyLabel family).text = n.fontFragment family := by
  cases h : n.mappedAlias? family with
  | some found => simp only [familyLabel, fontFragment, Label.text, h, decide_eq_true_eq]
  | none => simp only [familyLabel, fontFragment, Label.text, h]

def label (n : Namer) (p : Property) (text : String) : Label :=
  match p.rule.naming with
  | .classScoped => .ofValue p text
  | .fontAlias => n.familyLabel text
  | .flat _ => .ofKey text

theorem label_of_classScoped (n : Namer) {p : Property} (h : p.rule.naming = .classScoped) (text : String) :
    n.label p text = .ofValue p text := by
  rw [label, h]

theorem label_of_flat (n : Namer) {p : Property} {word : String} (h : p.rule.naming = .flat word)
    (text : String) : n.label p text = .ofKey text := by
  rw [label, h]

/-- What all names of a property begin with. -/
def stem (n : Namer) (p : Property) : String :=
  if p.scope = .flat then "--" ++ n.brand ++ "-" ++ p.cssProperty ++ "-"
  else "--" ++ n.brand ++ "-" ++ n.category ++ "-" ++ p.cssProperty ++ "-"

theorem name_eq (n : Namer) (p : Property) (text : String) :
    n.name p text = n.stem p ++ (n.label p text).text := by
  rcases p.naming_cases with rfl | ⟨hnaming, hscope⟩ | ⟨hnaming, hscope⟩
  · have hword : "-font-family-" = "-" ++ ("font-family" ++ "-") := by decide
    show "--" ++ n.brand ++ "-" ++ n.category ++ "-font-family-" ++ n.fontFragment text = _
    rw [← text_familyLabel, hword, ← String.append_assoc, ← String.append_assoc]
    rfl
  · rw [label_of_classScoped n hnaming, Label.text_ofValue, stem, if_neg hscope, name, hnaming]
  · rw [label_of_flat n hnaming, Label.text_ofKey, stem, if_pos hscope, name, hnaming]

theorem name_eq_iff (n : Namer) (p : Property) {first second : String} :
    n.name p first = n.name p second ↔ (n.label p first).text = (n.label p second).text := by
  rw [name_eq, name_eq, String.append_right_inj]

end Namer

end DesignTokens
