import DesignTokens.Length
import DesignTokens.Text.Digits

/-!
# Parts of numeric texts

A numeric text that could be read is a sign, a magnitude of digits and at most one point, and a unit.
-/

namespace DesignTokens.NumericText

/-- The number of a numeric text is this sign and this magnitude. -/
structure Parts (text : NumericText) (sign magnitude : List Char) : Prop where
  number : text.number.toList = sign ++ magnitude
  sign : sign = [] ∨ sign = ['+'] ∨ sign = ['-']
  isDigitOrPoint : ∀ c ∈ magnitude, isDigitOrPoint c
  isMagnitude : isMagnitude magnitude
  isUnit : isUnit text.unit.toList

theorem sign_of_pieces (text : List Char) :
    (pieces text).1 = [] ∨ (pieces text).1 = ['+'] ∨ (pieces text).1 = ['-'] := by
  cases text with
  | nil => exact .inl rfl
  | cons c rest =>
      by_cases hsign : isSign c
      · have hc : c = '+' ∨ c = '-' := by simpa [isSign] using hsign
        rcases hc with rfl | rfl
        · exact .inr (.inl rfl)
        · exact .inr (.inr rfl)
      · left
        simp [pieces, hsign]

theorem isDigitOrPoint_of_pieces (text : List Char) : ∀ c ∈ (pieces text).2.1, isDigitOrPoint c :=
  fun c hc => List.all_eq_true.1 List.all_takeWhile c hc

theorem exists_parts {raw : String} {text : NumericText} (h : parse? raw = some text) :
    ∃ sign magnitude, Parts text sign magnitude := by
  have hsign := sign_of_pieces (Text.trim raw.toList)
  have hdigits := isDigitOrPoint_of_pieces (Text.trim raw.toList)
  unfold parse? at h
  generalize pieces (Text.trim raw.toList) = parts at h hsign hdigits
  obtain ⟨sign, magnitude, unit⟩ := parts
  by_cases hvalid : (isMagnitude magnitude && isUnit unit) = true
  · simp only [hvalid, if_true] at h
    obtain rfl := Option.some.inj h
    rw [Bool.and_eq_true] at hvalid
    exact ⟨sign, magnitude, by simp, hsign, hdigits, hvalid.1, by simpa using hvalid.2⟩
  · simp [hvalid] at h

theorem isDigitOrPoint_of_isDigit {c : Char} (h : c.isDigit) : isDigitOrPoint c := by
  simp [isDigitOrPoint, h]

theorem isDigit_of_ne_point {c : Char} (h : isDigitOrPoint c) (hpoint : c ≠ '.') : c.isDigit := by
  simpa [isDigitOrPoint, hpoint] using h

theorem ne_sign_of_isDigitOrPoint {c : Char} (h : isDigitOrPoint c) : c ≠ '+' ∧ c ≠ '-' :=
  ⟨Text.ne_of_isIn h (by decide), Text.ne_of_isIn h (by decide)⟩

/-! ## Pieces put together -/

/-- Nothing is lost between the pieces. -/
theorem append_pieces (text : List Char) :
    (pieces text).1 ++ ((pieces text).2.1 ++ (pieces text).2.2) = text := by
  have hbody : (pieces text).2.1 ++ (pieces text).2.2 = text.drop (pieces text).1.length :=
    List.takeWhile_append_dropWhile
  rw [hbody]
  cases text with
  | nil => rfl
  | cons c rest => by_cases hsign : isSign c <;> simp [pieces, hsign]

theorem not_isDigitOrPoint_of_isAlpha {c : Char} (h : c.isAlpha) : isDigitOrPoint c = false := by
  have hpoint : c ≠ '.' := Text.ne_of_isIn h (by decide)
  simp [isDigitOrPoint, hpoint, Text.isDigit_eq_false_of_isAlpha h]

/-- A unit does not go on with the digits before it. -/
theorem not_isDigitOrPoint_of_isUnit {c : Char} {rest : List Char} (h : isUnit (c :: rest)) :
    isDigitOrPoint c = false := by
  simp only [isUnit, List.cons.injEq, List.all_cons, Bool.or_eq_true, Bool.and_eq_true,
    decide_eq_true_eq] at h
  rcases h with ⟨rfl, -⟩ | ⟨halpha, -⟩
  · decide
  · exact not_isDigitOrPoint_of_isAlpha halpha

/-- What follows a sign is the magnitude up to the unit. -/
theorem split_body {magnitude unit : List Char} (hdigits : ∀ c ∈ magnitude, isDigitOrPoint c)
    (hunit : isUnit unit) :
    (magnitude ++ unit).takeWhile isDigitOrPoint = magnitude ∧
      (magnitude ++ unit).dropWhile isDigitOrPoint = unit := by
  rw [List.takeWhile_append_of_pos hdigits, List.dropWhile_append_of_pos hdigits]
  cases unit with
  | nil => simp
  | cons c rest => simp [not_isDigitOrPoint_of_isUnit hunit]

/-- A sign, a magnitude and a unit are the pieces of what they make up. -/
theorem pieces_append {sign magnitude unit : List Char} (hsign : sign = [] ∨ sign = ['+'] ∨ sign = ['-'])
    (hdigits : ∀ c ∈ magnitude, isDigitOrPoint c) (hmagnitude : isMagnitude magnitude) (hunit : isUnit unit) :
    pieces (sign ++ (magnitude ++ unit)) = (sign, magnitude, unit) := by
  obtain ⟨htake, hdrop⟩ := split_body hdigits hunit
  rcases hsign with rfl | rfl | rfl
  · cases magnitude with
    | nil => simp [isMagnitude] at hmagnitude
    | cons c rest =>
        obtain ⟨hplus, hminus⟩ := ne_sign_of_isDigitOrPoint (hdigits c List.mem_cons_self)
        have hno : isSign c = false := by simp [isSign, hplus, hminus]
        rw [List.cons_append] at htake hdrop
        simp [pieces, hno, htake, hdrop]
  · simp [pieces, isSign, htake, hdrop]
  · simp [pieces, isSign, htake, hdrop]

theorem Parts.pieces_eq {text : NumericText} {sign magnitude : List Char} (h : Parts text sign magnitude) :
    pieces (text.number.toList ++ text.unit.toList) = (sign, magnitude, text.unit.toList) := by
  rw [h.number, List.append_assoc]
  exact pieces_append h.sign h.isDigitOrPoint h.isMagnitude h.isUnit

/-- A text is read as the number and the unit that its two parts are. -/
theorem parse?_eq_some_iff {raw : String} {text : NumericText} :
    parse? raw = some text ↔
      Text.trim raw.toList = text.number.toList ++ text.unit.toList ∧
        ∃ sign magnitude, Parts text sign magnitude := by
  constructor
  · intro h
    refine ⟨?_, exists_parts h⟩
    have hpieces := append_pieces (Text.trim raw.toList)
    simp only [parse?, Option.ite_none_right_eq_some, Option.some.injEq] at h
    obtain ⟨-, rfl⟩ := h
    simpa using hpieces.symm
  · intro ⟨htrim, sign, magnitude, hparts⟩
    have hpieces := hparts.pieces_eq
    rw [← htrim] at hpieces
    simp only [parse?, hpieces, hparts.isMagnitude, hparts.isUnit, Bool.and_true, if_true]
    rw [← hparts.number]
    simp

end DesignTokens.NumericText
