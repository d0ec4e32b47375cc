import DesignTokens.Naming.Slug
import DesignTokens.Text.Blank
import DesignTokens.Text.Digits

/-!
# The form of slugs

A slug is made of runs of small letters and digits, with a single dash between each two of them. Whatever
text is read, what comes out has this form and keeps the letters and digits of the text in order; a text
that has the form already is left as it is.
-/

namespace DesignTokens

namespace Text

variable {c : Char}

/-! ## Letters -/

/-- A character with a number between two others is one of these. -/
theorem mem_of_between {first last : Nat} (hfirst : first ≤ c.toNat) (hlast : c.toNat ≤ last) :
    c ∈ (List.range' first (last + 1 - first)).map Char.ofNat := by
  rw [List.mem_map]
  exact ⟨c.toNat, List.mem_range'_1.2 ⟨hfirst, by omega⟩, Char.ofNat_toNat c⟩

/-- A small letter is no capital, and comes back from its capital. -/
theorem casing_of_isLower (h : c.isLower) :
    c.isUpper = false ∧ c.toLower = c ∧ c.toUpper.isUpper ∧ c.toUpper.toLower = c := by
  have hall : ((List.range' 97 26).map Char.ofNat).all (fun d =>
      d.isUpper = false ∧ d.toLower = d ∧ d.toUpper.isUpper ∧ d.toUpper.toLower = d) = true := by
    decide +kernel
  have hbounds := Bool.and_eq_true_iff.1 h
  have hmem := mem_of_between (of_decide_eq_true hbounds.1) (of_decide_eq_true hbounds.2)
  exact of_decide_eq_true (List.all_eq_true.1 hall c hmem)

theorem isLower_toLower (h : c.isUpper) : c.toLower.isLower := by
  have hall : ((List.range' 65 26).map Char.ofNat).all (·.toLower.isLower) = true := by decide +kernel
  have hbounds := of_decide_eq_true h
  exact List.all_eq_true.1 hall c (mem_of_between hbounds.1 hbounds.2)

theorem toNat_of_isAlphanum (h : c.isAlphanum) : 48 ≤ c.toNat ∧ c.toNat ≤ 122 := by
  rcases Bool.or_eq_true_iff.1 h with halpha | hdigit
  · rcases Bool.or_eq_true_iff.1 halpha with hupper | hlower
    · have hbounds : 65 ≤ c.toNat ∧ c.toNat ≤ 90 := of_decide_eq_true hupper
      omega
    · have hfirst : 97 ≤ c.toNat := of_decide_eq_true (Bool.and_eq_true_iff.1 hlower).1
      have hlast : c.toNat ≤ 122 := of_decide_eq_true (Bool.and_eq_true_iff.1 hlower).2
      omega
  · have hfirst : 48 ≤ c.toNat := of_decide_eq_true (Bool.and_eq_true_iff.1 hdigit).1
    have hlast : c.toNat ≤ 57 := of_decide_eq_true (Bool.and_eq_true_iff.1 hdigit).2
    omega

theorem isAlphanum_of_isBlank (h : isBlank c) : c.isAlphanum = false := by
  apply Bool.eq_false_iff.2
  intro halphanum
  have hbounds := toNat_of_isAlphanum halphanum
  simp only [isBlank, blankRanges, List.any_cons, List.any_nil, Bool.or_false, Bool.or_eq_true,
    Bool.and_eq_true, decide_eq_true_eq] at h
  omega

end Text

namespace Slug

/-- A small ASCII letter or a digit. -/
def isWordChar (c : Char) : Bool :=
  c.isLower || c.isDigit

/-- Runs of small letters and digits, none of them empty, joined by single dashes. -/
def IsSlug (text : String) : Prop :=
  ∃ runs : List (List Char), runs ≠ [] ∧ (∀ run ∈ runs, run ≠ [] ∧ ∀ c ∈ run, isWordChar c) ∧
    text.toList = ['-'].intercalate runs

/-! ## Letters and digits -/

section

variable {c : Char}

theorem isUpper_of_isWordChar (h : isWordChar c) : c.isUpper = false := by
  cases Bool.or_eq_true_iff.1 h with
  | inl hlower => exact (Text.casing_of_isLower hlower).1
  | inr hdigit => exact (Bool.or_eq_false_iff.1 (Text.isAlpha_eq_false_of_isDigit hdigit)).1

theorem isAlphanum_of_isWordChar (h : isWordChar c) : c.isAlphanum := by
  cases Bool.or_eq_true_iff.1 h with
  | inl hlower => exact Bool.or_eq_true_iff.2 (.inl (Bool.or_eq_true_iff.2 (.inr hlower)))
  | inr hdigit => exact Bool.or_eq_true_iff.2 (.inr hdigit)

theorem toLower_of_isWordChar (h : isWordChar c) : c.toLower = c :=
  dif_neg (of_decide_eq_false (isUpper_of_isWordChar h))

theorem isWordChar_toLower (h : c.isAlphanum) : isWordChar c.toLower := by
  cases hupper : c.isUpper with
  | true => exact Bool.or_eq_true_iff.2 (.inl (Text.isLower_toLower hupper))
  | false =>
      have hword : (c.isUpper || c.isLower || c.isDigit) = true := h
      rw [hupper, Bool.false_or] at hword
      rw [toLower_of_isWordChar hword]
      exact hword

theorem ne_dash_of_isWordChar (h : isWordChar c) : c ≠ '-' :=
  Text.ne_of_isIn h (by decide)

end

/-! ## What follows a letter or digit -/

/-- What may follow a letter or digit in a slug: a dash only where another letter or digit comes after it. -/
inductive Tail : List Char → Prop where
  | nil : Tail []
  | char {c : Char} {rest : List Char} (hc : isWordChar c) (htail : Tail rest) : Tail (c :: rest)
  | dash {c : Char} {rest : List Char} (hc : isWordChar c) (htail : Tail rest) : Tail ('-' :: c :: rest)

theorem Tail.isWordChar_or_dash {rest : List Char} (htail : Tail rest) :
    ∀ c ∈ rest, isWordChar c ∨ c = '-' := by
  induction htail with
  | nil => simp
  | char hc _ ih => exact List.forall_mem_cons.2 ⟨.inl hc, ih⟩
  | dash hc _ ih => exact List.forall_mem_cons.2 ⟨.inr rfl, List.forall_mem_cons.2 ⟨.inl hc, ih⟩⟩

theorem Tail.append {run rest : List Char} (hrun : ∀ c ∈ run, isWordChar c) (htail : Tail rest) :
    Tail (run ++ rest) := by
  induction run with
  | nil => exact htail
  | cons c more ih =>
      have hmore := ih fun d hd => hrun d (List.mem_cons_of_mem c hd)
      exact .char (hrun c List.mem_cons_self) hmore

/-- Joined runs begin with a letter or digit. -/
theorem exists_tail_of_runs {runs : List (List Char)} (hne : runs ≠ [])
    (hruns : ∀ run ∈ runs, run ≠ [] ∧ ∀ c ∈ run, isWordChar c) :
    ∃ c rest, ['-'].intercalate runs = c :: rest ∧ isWordChar c ∧ Tail rest := by
  induction runs with
  | nil => exact absurd rfl hne
  | cons run others ih =>
      obtain ⟨hrun, hword⟩ := hruns run List.mem_cons_self
      cases run with
      | nil => exact absurd rfl hrun
      | cons c more =>
          have hmore : ∀ d ∈ more, isWordChar d := fun d hd => hword d (List.mem_cons_of_mem c hd)
          cases others with
          | nil =>
              refine ⟨c, more, List.intercalate_singleton, hword c List.mem_cons_self, ?_⟩
              simpa using Tail.append hmore .nil
          | cons next others =>
              obtain ⟨d, rest, heq, hd, htail⟩ := ih (by simp)
                (fun run hmem => hruns run (List.mem_cons_of_mem _ hmem))
              refine ⟨c, more ++ '-' :: d :: rest, ?_, hword c List.mem_cons_self,
                Tail.append hmore (.dash hd htail)⟩
              rw [List.intercalate_cons_cons, heq]
              simp

/-- A letter or digit opens the first of several runs, and each dash of the rest begins another one. -/
theorem exists_runs_of_tail {rest : List Char} (htail : Tail rest) {c : Char} (hc : isWordChar c) :
    ∃ runs : List (List Char), runs ≠ [] ∧ (∀ run ∈ runs, run ≠ [] ∧ ∀ d ∈ run, isWordChar d) ∧
      c :: rest = ['-'].intercalate runs := by
  induction htail generalizing c with
  | nil => exact ⟨[[c]], by simp, by simpa using hc, by simp⟩
  | char hd _ ih =>
      obtain ⟨runs, hne, hruns, heq⟩ := ih hd
      cases runs with
      | nil => exact absurd rfl hne
      | cons run others =>
          rw [List.forall_mem_cons] at hruns
          refine ⟨(c :: run) :: others, by simp, ?_, ?_⟩
          · rw [List.forall_mem_cons]
            exact ⟨⟨by simp, List.forall_mem_cons.2 ⟨hc, hruns.1.2⟩⟩, hruns.2⟩
          · rw [List.intercalate_cons_cons_left, heq]
  | dash hd _ ih =>
      obtain ⟨runs, hne, hruns, heq⟩ := ih hd
      refine ⟨[c] :: runs, by simp, ?_, ?_⟩
      · rw [List.forall_mem_cons]
        exact ⟨by simpa using hc, hruns⟩
      · rw [List.intercalate_cons_of_ne_nil hne, heq]
        simp

theorem isSlug_iff {text : String} :
    IsSlug text ↔ ∃ c rest, text.toList = c :: rest ∧ isWordChar c ∧ Tail rest := by
  constructor
  · intro ⟨runs, hne, hruns, heq⟩
    obtain ⟨c, rest, hjoined, hc, htail⟩ := exists_tail_of_runs hne hruns
    exact ⟨c, rest, heq.trans hjoined, hc, htail⟩
  · intro ⟨c, rest, heq, hc, htail⟩
    obtain ⟨runs, hne, hruns, hjoined⟩ := exists_runs_of_tail htail hc
    exact ⟨runs, hne, hruns, heq.trans hjoined⟩

theorem Tail.getLast?_ne {rest : List Char} (htail : Tail rest) {c : Char} (hc : isWordChar c) :
    (c :: rest).getLast? ≠ some '-' := by
  induction htail generalizing c with
  | nil => simpa using ne_dash_of_isWordChar hc
  | char hd _ ih => simpa using ih hd
  | dash hd _ ih => simpa using ih hd

theorem Tail.not_double {rest : List Char} (htail : Tail rest) {c : Char} (hc : isWordChar c) :
    ¬ ['-', '-'] <:+: c :: rest := by
  induction htail generalizing c with
  | nil => simp [List.infix_cons_iff, List.prefix_cons_iff]
  | char hd _ ih =>
      have hne := (ne_dash_of_isWordChar hc).symm
      simpa [List.infix_cons_iff (a := c), List.cons_prefix_cons, hne] using ih hd
  | dash hd _ ih =>
      have hne := (ne_dash_of_isWordChar hc).symm
      have hnext := (ne_dash_of_isWordChar hd).symm
      rw [List.infix_cons_iff, List.infix_cons_iff]
      simpa [List.cons_prefix_cons, hne, hnext] using ih hd

/-! ## The kebab form -/

section

variable {p : Position} {c : Char} {rest text : List Char}

theorem kebab_of_isAlphanum (h : c.isAlphanum) : kebab p (c :: rest) =
    (if p.dashBefore c then ['-'] else []) ++
      c.toLower :: kebab (if c.isUpper then .capital else .plain) rest := by
  rw [kebab, if_pos h]
  cases p.dashBefore c <;> rfl

theorem kebab_of_not_isAlphanum (h : c.isAlphanum = false) : kebab p (c :: rest) = kebab p.afterGap rest := by
  simp [kebab, h]

theorem afterGap_ne_start (hp : p ≠ .start) : p.afterGap ≠ .start := by
  cases p <;> simp_all [Position.afterGap]

theorem tail_kebab (hp : p ≠ .start) : Tail (kebab p text) := by
  induction text generalizing p with
  | nil => exact .nil
  | cons c rest ih =>
      cases halphanum : c.isAlphanum with
      | true =>
          have hc := isWordChar_toLower halphanum
          have htail : Tail (kebab (if c.isUpper then .capital else .plain) rest) :=
            ih (by split <;> simp)
          rw [kebab_of_isAlphanum halphanum]
          split
          · exact .dash hc htail
          · exact .char hc htail
      | false =>
          rw [kebab_of_not_isAlphanum halphanum]
          exact ih (afterGap_ne_start hp)

/-- From the start on nothing is written before the first letter or digit. -/
theorem kebab_start_cases (text : List Char) :
    kebab .start text = [] ∨ ∃ c rest, kebab .start text = c :: rest ∧ isWordChar c ∧ Tail rest := by
  induction text with
  | nil => exact .inl rfl
  | cons c rest ih =>
      cases halphanum : c.isAlphanum with
      | true =>
          right
          rw [kebab_of_isAlphanum halphanum]
          exact ⟨c.toLower, _, rfl, isWordChar_toLower halphanum, tail_kebab (by split <;> simp)⟩
      | false =>
          rw [kebab_of_not_isAlphanum halphanum]
          exact ih

theorem kebab_eq_nil (h : ∀ c ∈ text, c.isAlphanum = false) : kebab p text = [] := by
  induction text generalizing p with
  | nil => rfl
  | cons c rest ih =>
      rw [List.forall_mem_cons] at h
      rw [kebab_of_not_isAlphanum h.1]
      exact ih h.2

theorem after_start (h : ∀ c ∈ text, c.isAlphanum = false) : Position.start.after text = .start := by
  induction text with
  | nil => rfl
  | cons c rest ih =>
      rw [List.forall_mem_cons] at h
      simpa [Position.after, Position.afterGap, h.1] using ih h.2

/-- The letters and digits of a text are kept, as small ones and in order. -/
theorem filter_kebab (p : Position) (text : List Char) :
    (kebab p text).filter (· != '-') = (text.filter Char.isAlphanum).map Char.toLower := by
  induction text generalizing p with
  | nil => rfl
  | cons c rest ih =>
      cases halphanum : c.isAlphanum with
      | true =>
          have hne := ne_dash_of_isWordChar (isWordChar_toLower halphanum)
          rw [kebab_of_isAlphanum halphanum, List.filter_cons_of_pos halphanum, List.map_cons]
          split <;> simp [hne, ih]
      | false => simp [kebab_of_not_isAlphanum halphanum, halphanum, ih]

theorem kebab_ne_nil (hc : c ∈ text) (halphanum : c.isAlphanum) : kebab p text ≠ [] := by
  intro hempty
  have hfilter := filter_kebab p text
  rw [hempty, List.filter_nil, eq_comm, List.map_eq_nil_iff] at hfilter
  exact List.ne_nil_of_mem (List.mem_filter.2 ⟨hc, halphanum⟩) hfilter

/-! ## Slugs that are read -/

theorem kebab_of_isWordChar (hc : isWordChar c) (hp : p ≠ .gap) :
    kebab p (c :: rest) = c :: kebab .plain rest := by
  have hupper := isUpper_of_isWordChar hc
  have hdash : p.dashBefore c = false := by
    cases p <;> simp_all [Position.dashBefore]
  simp [kebab_of_isAlphanum (isAlphanum_of_isWordChar hc), hdash, hupper, toLower_of_isWordChar hc]

/-- A dash that is read is written again before the letter or digit after it. -/
theorem kebab_dash (hc : isWordChar c) (hp : p ≠ .start) :
    kebab p ('-' :: c :: rest) = '-' :: c :: kebab .plain rest := by
  have hgap : p.afterGap = .gap := by
    cases p <;> simp_all [Position.afterGap]
  rw [kebab_of_not_isAlphanum (by decide), hgap, kebab_of_isAlphanum (isAlphanum_of_isWordChar hc)]
  simp [Position.dashBefore, isUpper_of_isWordChar hc, toLower_of_isWordChar hc]

theorem Tail.kebab_eq (htail : Tail rest) : kebab .plain rest = rest := by
  induction htail with
  | nil => rfl
  | char hc _ ih => rw [kebab_of_isWordChar hc (by simp), ih]
  | dash hc _ ih => rw [kebab_dash hc (by simp), ih]

end

/-! ## Slugs of texts -/

theorem toList_slugify (text : String) : (slugify text).toList =
    if kebab .start text.toList = [] then fallback else kebab .start text.toList := by
  rw [slugify, String.toList_ofList, ofChars]
  split <;> simp_all

theorem isSlug_slugify (text : String) : IsSlug (slugify text) := by
  cases kebab_start_cases text.toList with
  | inl hempty =>
      have hword : ∀ c ∈ fallback, isWordChar c := List.all_eq_true.1 (by decide)
      exact ⟨[fallback], by simp, by simpa [fallback] using hword, by simp [toList_slugify, hempty]⟩
  | inr h =>
      obtain ⟨c, rest, hkebab, hc, htail⟩ := h
      exact isSlug_iff.2 ⟨c, rest, by simp [toList_slugify, hkebab], hc, htail⟩

theorem slugify_of_isSlug {text : String} (h : IsSlug text) : slugify text = text := by
  obtain ⟨c, rest, heq, hc, htail⟩ := isSlug_iff.1 h
  apply String.toList_injective
  simp [toList_slugify, heq, kebab_of_isWordChar hc, htail.kebab_eq]

theorem slugify_eq_self_iff {text : String} : slugify text = text ↔ IsSlug text :=
  ⟨fun h => h ▸ isSlug_slugify text, slugify_of_isSlug⟩

/-- What stands around a text without letters and digits is not seen. -/
theorem slugify_surrounded {before after : String} (hbefore : ∀ c ∈ before.toList, c.isAlphanum = false)
    (hafter : ∀ c ∈ after.toList, c.isAlphanum = false) (text : String) :
    slugify (before ++ text ++ after) = slugify text := by
  apply String.toList_injective
  simp [toList_slugify, kebab_append, kebab_eq_nil hbefore, kebab_eq_nil hafter, after_start hbefore]

theorem isAlphanum_of_allBlank {text : String} (h : Text.allBlank text) :
    ∀ c ∈ text.toList, c.isAlphanum = false :=
  fun c hc => Text.isAlphanum_of_isBlank (List.all_eq_true.1 h c hc)

/-- Whatever text is read, its slug is a slug in form: never empty, with no dash first, last or next to another
one. The slugs are the texts that stay as they are. Blanks around a text do not count, letters and digits are
kept in order, and a text without any is given the slug `value`. -/
theorem slugify_normal_form (text : String) :
    IsSlug (slugify text) ∧
      (slugify text ≠ "" ∧ (slugify text).toList.head? ≠ some '-' ∧
        (slugify text).toList.getLast? ≠ some '-' ∧ ¬ ['-', '-'] <:+: (slugify text).toList) ∧
      slugify (slugify text) = slugify text ∧
      (slugify text = text ↔ IsSlug text) ∧
      (∀ before after, Text.allBlank before → Text.allBlank after →
        slugify (before ++ text ++ after) = slugify text) ∧
      ((∀ c ∈ text.toList, c.isAlphanum = false) → slugify text = "value") ∧
      ((∃ c ∈ text.toList, c.isAlphanum) → (slugify text).toList.filter (· != '-') =
        (text.toList.filter Char.isAlphanum).map Char.toLower) := by
  have hslug := isSlug_slugify text
  refine ⟨hslug, ?_, slugify_of_isSlug hslug, slugify_eq_self_iff, ?_, ?_, ?_⟩
  · obtain ⟨c, rest, heq, hc, htail⟩ := isSlug_iff.1 hslug
    refine ⟨?_, ?_, ?_, ?_⟩
    · intro hempty
      simp [hempty] at heq
    · simpa [heq] using ne_dash_of_isWordChar hc
    · rw [heq]
      exact htail.getLast?_ne hc
    · rw [heq]
      exact htail.not_double hc
  · intro before after hbefore hafter
    exact slugify_surrounded (isAlphanum_of_allBlank hbefore) (isAlphanum_of_allBlank hafter) text
  · intro hnone
    simp [slugify, ofChars, kebab_eq_nil hnone, fallback]
  · intro ⟨c, hc, halphanum⟩
    rw [toList_slugify, if_neg (kebab_ne_nil hc halphanum), filter_kebab]

/-- Two words with characters beyond ASCII, between a tab and a wide blank. -/
theorem slugify_normal_form_words :
    slugify ("\t" ++ "Gr\u00f6\u00dfe XL" ++ "\u3000") = slugify "Gr\u00f6\u00dfe XL" ∧
      slugify "Gr\u00f6\u00dfe XL" = "gr-e-xl" ∧ IsSlug "gr-e-xl" ∧
      (slugify "Gr\u00f6\u00dfe XL").toList.filter (· != '-') = ['g', 'r', 'e', 'x', 'l'] ∧
      slugify "\u00f6" = "value" := by
  obtain ⟨hslug, -, -, -, hblank, -, hkept⟩ := slugify_normal_form "Gr\u00f6\u00dfe XL"
  obtain ⟨-, -, -, -, -, hnone, -⟩ := slugify_normal_form "\u00f6"
  have heq : slugify "Gr\u00f6\u00dfe XL" = "gr-e-xl" := by decide
  refine ⟨hblank "\t" "\u3000" (by decide) (by decide), heq, heq ▸ hslug, ?_, hnone (by simp)⟩
  rw [hkept ⟨'G', by decide, by decide⟩]
  decide

end Slug

end DesignTokens
