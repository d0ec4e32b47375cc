import DesignTokens.Proofs.NumericText

/-!
# Which texts are converted

Only a number of pixels becomes a multiple of the base size, and only such a multiple becomes pixels; every
other text is left as it is. What comes out of a conversion ends with its unit, so it is no longer what
that conversion looks for, whatever the base.
-/

namespace DesignTokens

namespace Text

/-- A text that does not end with a blank ends the same when it is trimmed. -/
theorem trim_concat {c : Char} (h : isBlank c = false) (text : List Char) :
    trim (text ++ [c]) = trimStart text ++ [c] := by
  have hstart : trimStart (text ++ [c]) = trimStart text ++ [c] := by
    unfold trimStart
    rw [List.dropWhile_append]
    split
    · rename_i hempty
      simp [List.isEmpty_iff.1 hempty, h]
    · rfl
  simp [trim, trimEnd, hstart, h]

end Text

namespace Length

variable {raw unit : String}

/-- The text, blanks around it aside, is a number of finite value and then this unit. -/
def Measures (raw unit : String) : Prop :=
  ∃ number sign magnitude value, Text.trim raw.toList = number.toList ++ unit.toList ∧
    NumericText.Parts ⟨number, unit⟩ sign magnitude ∧
    Decimal.read? number = some value ∧ Decimal.isFinite value = true

theorem parse?_eq_some_iff {length : Length} :
    parse? raw = some length ↔ ∃ number, NumericText.parse? raw = some ⟨number, length.unit⟩ ∧
      Decimal.read? number = some length.value ∧ Decimal.isFinite length.value = true := by
  obtain ⟨value, unit⟩ := length
  simp only [parse?, Option.bind_eq_bind, Option.bind_eq_some_iff, Option.ite_none_right_eq_some,
    Option.some.injEq, Length.mk.injEq]
  constructor
  · intro ⟨⟨number, found⟩, htext, read, hread, hfinite, hvalue, hunit⟩
    subst hvalue
    subst hunit
    exact ⟨number, htext, hread, hfinite⟩
  · intro ⟨number, htext, hread, hfinite⟩
    exact ⟨⟨number, unit⟩, htext, value, hread, hfinite, rfl, rfl⟩

theorem measures_iff : Measures raw unit ↔ ∃ value, parse? raw = some ⟨value, unit⟩ := by
  simp only [Measures, parse?_eq_some_iff, NumericText.parse?_eq_some_iff]
  constructor
  · intro ⟨number, sign, magnitude, value, htrim, hparts, hvalue⟩
    exact ⟨value, number, ⟨htrim, sign, magnitude, hparts⟩, hvalue⟩
  · intro ⟨value, number, ⟨htrim, sign, magnitude, hparts⟩, hvalue⟩
    exact ⟨number, sign, magnitude, value, htrim, hparts, hvalue⟩

theorem Measures.unit_eq {other : String} (h : Measures raw unit) (hother : Measures raw other) :
    unit = other := by
  obtain ⟨value, hparse⟩ := measures_iff.1 h
  obtain ⟨value', hparse'⟩ := measures_iff.1 hother
  exact congrArg Length.unit (Option.some.inj (hparse.symm.trans hparse'))

/-- No blank stands behind the last letter of a unit, so it is the last character. -/
theorem Measures.last_eq {text front : List Char} {last c : Char} (h : Measures (String.ofList (text ++ [c])) unit)
    (hunit : unit.toList = front ++ [last]) (hc : Text.isBlank c = false) : c = last := by
  obtain ⟨number, -, -, -, htrim, -⟩ := h
  rw [String.toList_ofList, Text.trim_concat hc, hunit, ← List.append_assoc] at htrim
  exact (List.append_singleton_inj.1 htrim).2

variable {base : Float}

theorem isBase_iff : isBase base = true ↔ Decimal.isFinite base = true ∧ 0 < base := by
  simp [isBase]

theorem pxToRem_of_measures (hbase : isBase base) (h : Measures raw "px") :
    ∃ number, pxToRem raw base = number ++ "rem" := by
  obtain ⟨value, hparse⟩ := measures_iff.1 h
  exact ⟨formatNumber (value / base), by simp [pxToRem, hbase, hparse]⟩

theorem pxToRem_of_not_measures (h : ¬ (isBase base ∧ Measures raw "px")) : pxToRem raw base = raw := by
  unfold pxToRem
  split
  · rename_i hbase
    split
    · rename_i length hparse
      refine if_neg fun hunit => h ⟨hbase, measures_iff.2 ⟨length.value, ?_⟩⟩
      rw [hparse, ← hunit]
    · rfl
  · rfl

/-- What was converted does not measure pixels. -/
theorem not_measures_append_rem (number : String) : ¬ Measures (number ++ "rem") "px" := by
  intro h
  have htext : number ++ "rem" = String.ofList (number.toList ++ ['r', 'e'] ++ ['m']) := by
    apply String.toList_injective
    simp
  rw [htext] at h
  exact absurd (h.last_eq (show "px".toList = ['p'] ++ ['x'] from rfl) (by decide)) (by decide)

theorem isSome_remToPx_iff : (remToPx raw base).isSome ↔ isBase base ∧ Measures raw "rem" := by
  unfold remToPx
  rw [measures_iff]
  by_cases hbase : isBase base = true
  · simp only [hbase, if_true, true_and]
    cases hparse : parse? raw with
    | none => simp
    | some length =>
        obtain ⟨value, unit⟩ := length
        by_cases hunit : unit = "rem" <;> simp [hunit]
  · simp [hbase]

theorem pxToRem_pxToRem (hbase : isBase base) (raw : String) (other : Float) :
    pxToRem (pxToRem raw base) other = pxToRem raw base := by
  by_cases h : Measures raw "px"
  · obtain ⟨number, hrem⟩ := pxToRem_of_measures hbase h
    rw [hrem]
    exact pxToRem_of_not_measures fun hboth => not_measures_append_rem number hboth.2
  · rw [pxToRem_of_not_measures (fun hboth => h hboth.2)]
    exact pxToRem_of_not_measures fun hboth => h hboth.2

/-- A text is changed exactly if it measures pixels and the base is finite and positive, and then into a text
that ends with `rem`; it is turned back exactly if it measures `rem` for such a base. No text is converted
both ways, and to convert once more changes nothing. -/
theorem conversion_exact (raw : String) (base : Float) :
    (pxToRem raw base ≠ raw ↔ (Decimal.isFinite base = true ∧ 0 < base) ∧ Measures raw "px") ∧
      (pxToRem raw base ≠ raw → ∃ number, pxToRem raw base = number ++ "rem") ∧
      ((remToPx raw base).isSome ↔ (Decimal.isFinite base = true ∧ 0 < base) ∧ Measures raw "rem") ∧
      (∀ other, pxToRem raw base ≠ raw → remToPx raw other = none) ∧
      ∀ other, Decimal.isFinite base = true → 0 < base →
        pxToRem (pxToRem raw base) other = pxToRem raw base := by
  rw [← isBase_iff]
  have hchanged : pxToRem raw base ≠ raw ↔ isBase base ∧ Measures raw "px" := by
    constructor
    · exact fun hne => Classical.not_not.1 fun hnot => hne (pxToRem_of_not_measures hnot)
    · intro ⟨hbase, hpx⟩ heq
      obtain ⟨number, hrem⟩ := pxToRem_of_measures hbase hpx
      rw [heq] at hrem
      exact not_measures_append_rem number (hrem ▸ hpx)
  refine ⟨hchanged, ?_, isSome_remToPx_iff, ?_, ?_⟩
  · intro hne
    obtain ⟨hbase, hpx⟩ := hchanged.1 hne
    exact pxToRem_of_measures hbase hpx
  · intro other hne
    refine Option.not_isSome_iff_eq_none.1 fun hsome => ?_
    have hunit := (hchanged.1 hne).2.unit_eq (isSome_remToPx_iff.1 hsome).2
    exact absurd hunit (by decide)
  · intro other hfinite hpositive
    exact pxToRem_pxToRem (isBase_iff.2 ⟨hfinite, hpositive⟩) raw other

/-- A signed number of pixels between blanks, converted for two bases one after the other. -/
theorem conversion_exact_blanks :
    pxToRem "\t+24px " 16 ≠ "\t+24px " ∧ remToPx "\t+24px " 16 = none ∧
      pxToRem (pxToRem "\t+24px " 16) 10 = pxToRem "\t+24px " 16 := by
  obtain ⟨hchanged, -, -, hnone, htwice⟩ := conversion_exact "\t+24px " 16
  have hbase : Decimal.isFinite 16 = true ∧ (0 : Float) < 16 := by decide +kernel
  have hne : pxToRem "\t+24px " 16 ≠ "\t+24px " := by decide +kernel
  exact ⟨hne, hnone 16 hne, htwice 10 hbase.1 hbase.2⟩

end Length

end DesignTokens
