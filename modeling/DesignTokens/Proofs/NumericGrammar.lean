import DesignTokens.Proofs.NumericText

/-!
# The grammar of numeric texts

A numeric text is a number and a unit: an optional sign, digits with at most one point, and then a percent
sign or letters. Reading accepts exactly the texts of this grammar, which can be split in one way only. The
parts can be cut out at byte offsets, too: no text, whatever its characters, has a cut inside a character.
-/

namespace DesignTokens

namespace NumericText

/-! ## Numbers and units -/

/-- Digits, at least one of them, with at most one point before, among or after them. -/
inductive Magnitude : List Char → Prop where
  | whole {digits : List Char} (hne : digits ≠ []) (hdigits : ∀ c ∈ digits, c.isDigit) : Magnitude digits
  | pointed {before after : List Char} (hne : before ++ after ≠ [])
      (hdigits : ∀ c ∈ before ++ after, c.isDigit) : Magnitude (before ++ '.' :: after)

/-- The number is an optional sign and a magnitude; the unit is a percent sign, or letters if there are any. -/
structure InGrammar (text : NumericText) : Prop where
  number : ∃ sign magnitude, text.number.toList = sign ++ magnitude ∧
    (sign = [] ∨ sign = ['+'] ∨ sign = ['-']) ∧ Magnitude magnitude
  unit : text.unit = "%" ∨ ∀ c ∈ text.unit.toList, c.isAlpha

theorem count_point_of_digits {digits : List Char} (h : ∀ c ∈ digits, c.isDigit) : digits.count '.' = 0 := by
  apply List.count_eq_zero_of_not_mem
  intro hpoint
  exact absurd (h '.' hpoint) (by decide)

theorem digits_of_count_point {text : List Char} (hall : ∀ c ∈ text, isDigitOrPoint c)
    (h : text.count '.' = 0) : ∀ c ∈ text, c.isDigit := by
  intro c hc
  apply isDigit_of_ne_point (hall c hc)
  intro hpoint
  subst hpoint
  exact List.count_eq_zero.1 h hc

theorem any_isDigit {digits : List Char} (hne : digits ≠ []) (h : ∀ c ∈ digits, c.isDigit) :
    digits.any Char.isDigit := by
  obtain ⟨c, hc⟩ := List.exists_mem_of_ne_nil digits hne
  exact List.any_eq_true.2 ⟨c, hc, h c hc⟩

theorem Magnitude.valid {text : List Char} (h : Magnitude text) :
    (∀ c ∈ text, isDigitOrPoint c) ∧ isMagnitude text := by
  cases h with
  | whole hne hdigits =>
      refine ⟨fun c hc => isDigitOrPoint_of_isDigit (hdigits c hc), ?_⟩
      simp [isMagnitude, any_isDigit hne hdigits, count_point_of_digits hdigits]
  | @pointed before after hne hdigits =>
      have hany := any_isDigit hne hdigits
      rw [List.forall_mem_append] at hdigits
      have hbefore : ∀ c ∈ before, isDigitOrPoint c := fun c hc => isDigitOrPoint_of_isDigit (hdigits.1 c hc)
      have hafter : ∀ c ∈ after, isDigitOrPoint c := fun c hc => isDigitOrPoint_of_isDigit (hdigits.2 c hc)
      constructor
      · exact List.forall_mem_append.2 ⟨hbefore, List.forall_mem_cons.2 ⟨by decide, hafter⟩⟩
      · rw [List.any_append] at hany
        simp [isMagnitude, hany, count_point_of_digits hdigits.1, count_point_of_digits hdigits.2]

theorem magnitude_of_valid {text : List Char} (hall : ∀ c ∈ text, isDigitOrPoint c) (h : isMagnitude text) :
    Magnitude text := by
  simp only [isMagnitude, Bool.and_eq_true, decide_eq_true_eq, List.any_eq_true] at h
  obtain ⟨⟨d, hd, hdigit⟩, hcount⟩ := h
  by_cases hpoint : '.' ∈ text
  · obtain ⟨before, after, rfl⟩ := List.append_of_mem hpoint
    rw [List.count_append, List.count_cons_self] at hcount
    rw [List.forall_mem_append, List.forall_mem_cons] at hall
    have hbefore := digits_of_count_point hall.1 (by omega)
    have hafter := digits_of_count_point hall.2.2 (by omega)
    refine .pointed ?_ (List.forall_mem_append.2 ⟨hbefore, hafter⟩)
    -- The digit is not the point, so it stands on one side of it.
    intro hnone
    obtain ⟨rfl, rfl⟩ := List.append_eq_nil_iff.1 hnone
    rw [List.mem_singleton.1 hd] at hdigit
    exact absurd hdigit (by decide)
  · exact .whole (List.ne_nil_of_mem hd) (digits_of_count_point hall (List.count_eq_zero.2 hpoint))

theorem isUnit_iff {unit : String} : isUnit unit.toList ↔ unit = "%" ∨ ∀ c ∈ unit.toList, c.isAlpha := by
  have hpercent : unit.toList = ['%'] ↔ unit = "%" := by
    rw [← String.toList_inj]
    rfl
  simp [isUnit, hpercent]

theorem inGrammar_iff {text : NumericText} :
    text.InGrammar ↔ ∃ sign magnitude, Parts text sign magnitude := by
  constructor
  · intro ⟨⟨sign, magnitude, hnumber, hsign, hmagnitude⟩, hunit⟩
    obtain ⟨hdigits, hvalid⟩ := hmagnitude.valid
    exact ⟨sign, magnitude, hnumber, hsign, hdigits, hvalid, isUnit_iff.2 hunit⟩
  · intro ⟨sign, magnitude, hparts⟩
    exact ⟨⟨sign, magnitude, hparts.number, hparts.sign,
      magnitude_of_valid hparts.isDigitOrPoint hparts.isMagnitude⟩, isUnit_iff.1 hparts.isUnit⟩

/-- A text can be split into a number and a unit in one way only. -/
theorem InGrammar.eq_of_append_eq {first second : NumericText} (hfirst : first.InGrammar)
    (hsecond : second.InGrammar) (h : first.number ++ first.unit = second.number ++ second.unit) :
    first = second := by
  obtain ⟨sign, magnitude, hparts⟩ := inGrammar_iff.1 hfirst
  obtain ⟨sign', magnitude', hparts'⟩ := inGrammar_iff.1 hsecond
  have hchars := congrArg String.toList h
  rw [String.toList_append, String.toList_append] at hchars
  have hpieces := hparts.pieces_eq
  rw [hchars, hparts'.pieces_eq] at hpieces
  simp only [Prod.mk.injEq] at hpieces
  obtain ⟨hsign, hmagnitude, hunit⟩ := hpieces
  have hnumber : first.number = second.number := by
    apply String.toList_injective
    rw [hparts.number, hparts'.number, hsign, hmagnitude]
  exact congr (congrArg NumericText.mk hnumber) (String.toList_injective hunit.symm)

end NumericText

/-! ## Byte offsets -/

namespace Text

/-- The part of a text from one byte offset to another. There is none unless both stand between characters,
and the second one not before the first. -/
def slice? (text : String) (first last : Nat) : Option String :=
  if h : (String.Pos.Raw.mk first).IsValid text ∧ (String.Pos.Raw.mk last).IsValid text ∧ first ≤ last then
    some (text.extract (text.pos ⟨first⟩ h.1) (text.pos ⟨last⟩ h.2.1))
  else none

/-- The byte offset of the first character that passes a test, in a text that begins at this offset. -/
def findOffset? (test : Char → Bool) : Nat → List Char → Option Nat
  | _, [] => none
  | offset, c :: rest => if test c then some offset else findOffset? test (offset + c.utf8Size) rest

theorem slice?_append (before middle after : String) :
    slice? (before ++ middle ++ after) before.utf8ByteSize (before.utf8ByteSize + middle.utf8ByteSize) =
      some middle := by
  have hfirst : (String.Pos.Raw.mk before.utf8ByteSize).IsValid (before ++ middle ++ after) :=
    String.Pos.Raw.isValid_iff_exists_append.2 ⟨before, middle ++ after, String.append_assoc, rfl⟩
  have hlast : (String.Pos.Raw.mk (before.utf8ByteSize + middle.utf8ByteSize)).IsValid
      (before ++ middle ++ after) :=
    String.Pos.Raw.isValid_iff_exists_append.2 ⟨before ++ middle, after, rfl, by simp [String.Pos.Raw.ext_iff]⟩
  rw [slice?, dif_pos ⟨hfirst, hlast, Nat.le_add_right _ _⟩]
  congr 1
  apply String.toByteArray_inj.1
  have hskip := ByteArray.extract_append_size_add (a := before.toByteArray)
    (b := middle.toByteArray ++ after.toByteArray) (i := 0) (j := middle.utf8ByteSize)
  have htake := ByteArray.extract_append_eq_left (a := middle.toByteArray) (b := after.toByteArray) rfl
  simpa [ByteArray.append_assoc] using hskip.trans htake

theorem slice?_zero (before after : String) :
    slice? (before ++ after) 0 before.utf8ByteSize = some before := by
  simpa using slice?_append "" before after

theorem slice?_end (before after : String) :
    slice? (before ++ after) before.utf8ByteSize (before ++ after).utf8ByteSize = some after := by
  simpa using slice?_append before after ""

theorem findOffset?_append {test : Char → Bool} {before after : List Char} (h : ∀ c ∈ before, test c = false)
    (offset : Nat) : findOffset? test offset (before ++ after) =
      findOffset? test (offset + (String.ofList before).utf8ByteSize) after := by
  induction before generalizing offset with
  | nil => simp
  | cons c rest ih =>
      rw [List.forall_mem_cons] at h
      simp [findOffset?, h.1, ih h.2, String.ofList_cons, Nat.add_assoc]

end Text

namespace NumericText

/-- Reads a text by cutting parts out of it at byte offsets. There is no result at all if one of the cuts is
not between characters. -/
def readSlices? (raw : String) : Option (Option NumericText) := do
  let value := String.ofList (Text.trim raw.toList)
  let start := if value.toList.head?.any isSign then 1 else 0
  let body ← Text.slice? value start value.utf8ByteSize
  let found := Text.findOffset? (fun c => !isDigitOrPoint c) 0 body.toList
  let cut := (found.map (· + start)).getD value.utf8ByteSize
  let number ← Text.slice? value 0 cut
  let magnitude ← Text.slice? number start number.utf8ByteSize
  let unit ← Text.slice? value cut value.utf8ByteSize
  some (if isMagnitude magnitude.toList && isUnit unit.toList then some ⟨number, unit⟩ else none)

/-- A sign takes one byte. -/
theorem start_eq (text : List Char) :
    (if text.head?.any isSign then 1 else 0) = (String.ofList (pieces text).1).utf8ByteSize := by
  cases text with
  | nil => rfl
  | cons c rest =>
      by_cases hsign : isSign c
      · have hc : c = '+' ∨ c = '-' := by simpa [isSign] using hsign
        cases hc with
        | inl hplus => subst hplus; rfl
        | inr hminus => subst hminus; rfl
      · simp [pieces, hsign]

/-- The unit begins at the first character after the sign that is neither a digit nor a point. -/
theorem cut_eq (text : List Char) (sign : Nat) :
    ((Text.findOffset? (fun c => !isDigitOrPoint c) 0 ((pieces text).2.1 ++ (pieces text).2.2)).map
        (· + sign)).getD (sign + (String.ofList (pieces text).2.1).utf8ByteSize +
          (String.ofList (pieces text).2.2).utf8ByteSize) =
      sign + (String.ofList (pieces text).2.1).utf8ByteSize := by
  have hdigits : ∀ c ∈ (pieces text).2.1, (!isDigitOrPoint c) = false := by
    intro c hc
    simp [isDigitOrPoint_of_pieces text c hc]
  rw [Text.findOffset?_append hdigits]
  cases hunit : (pieces text).2.2 with
  | nil => simp [Text.findOffset?]
  | cons c rest =>
      have hc : isDigitOrPoint c = false := by
        have hhead := List.head?_dropWhile_not isDigitOrPoint (text.drop (pieces text).1.length)
        have hrest : (text.drop (pieces text).1.length).dropWhile isDigitOrPoint = c :: rest := hunit
        rw [hrest] at hhead
        exact hhead
      simp [Text.findOffset?, hc, Nat.add_comm]

/-- Every cut is between characters, and what is cut out are the pieces. -/
theorem readSlices?_eq (raw : String) : readSlices? raw = some (parse? raw) := by
  have hstart := start_eq (Text.trim raw.toList)
  have hcut := cut_eq (Text.trim raw.toList)
  have htext := append_pieces (Text.trim raw.toList)
  simp only [readSlices?, parse?, String.toList_ofList]
  generalize Text.trim raw.toList = text at hstart hcut htext ⊢
  rw [hstart]
  generalize pieces text = parts at hcut htext ⊢
  obtain ⟨sign, magnitude, unit⟩ := parts
  subst htext
  have hbody := Text.slice?_end (String.ofList sign) (String.ofList (magnitude ++ unit))
  have hnumber := Text.slice?_zero (String.ofList (sign ++ magnitude)) (String.ofList unit)
  have hmagnitude := Text.slice?_end (String.ofList sign) (String.ofList magnitude)
  have hunit := Text.slice?_end (String.ofList (sign ++ magnitude)) (String.ofList unit)
  simp only [String.ofList_append, String.utf8ByteSize_append, String.append_assoc, Nat.add_assoc]
    at hcut hbody hnumber hmagnitude hunit ⊢
  simp [hbody, hcut, hnumber, hmagnitude, hunit]

/-- A text is read as a number and a unit exactly if it is made of these two, blanks around it aside, and they
are in the grammar. No text is made of a number and a unit in two ways, and no cut that is made to take them
apart falls inside a character. -/
theorem parse?_exact (raw : String) :
    (∀ text, parse? raw = some text ↔
        Text.trim raw.toList = text.number.toList ++ text.unit.toList ∧ text.InGrammar) ∧
      (∀ first second : NumericText, first.InGrammar → second.InGrammar →
        first.number ++ first.unit = second.number ++ second.unit → first = second) ∧
      readSlices? raw = some (parse? raw) := by
  refine ⟨?_, fun _ _ => InGrammar.eq_of_append_eq, readSlices?_eq raw⟩
  intro text
  rw [inGrammar_iff]
  exact parse?_eq_some_iff

/-- A negative number without a digit before its point, and a unit that is not made of ASCII letters. -/
theorem parse?_exact_units :
    parse? "\u00a0-.5em\u2003" = some ⟨"-.5", "em"⟩ ∧ InGrammar ⟨"-.5", "em"⟩ ∧
      ¬ InGrammar ⟨"-", ".5em"⟩ ∧ parse? "12\u00b5m" = none ∧ readSlices? "12\u00b5m" = some none := by
  obtain ⟨hread, hunique, -⟩ := parse?_exact "\u00a0-.5em\u2003"
  obtain ⟨-, -, hslices⟩ := parse?_exact "12\u00b5m"
  have hlength : parse? "\u00a0-.5em\u2003" = some ⟨"-.5", "em"⟩ := by decide
  have hmicro : parse? "12\u00b5m" = none := by decide
  have hgrammar := ((hread _).1 hlength).2
  refine ⟨hlength, hgrammar, ?_, hmicro, hmicro ▸ hslices⟩
  intro hother
  exact absurd (hunique _ _ hgrammar hother (by decide)) (by decide)

end NumericText

end DesignTokens
