import DesignTokens.Proofs.Css.Identifiers
import DesignTokens.Proofs.Validation
import DesignTokens.Stylesheet.Printer

/-!
# Class selectors

Different selectors have different texts. Read by the rules of CSS a class selector names its class, unless
the name has a line break or a NUL, which no backslash can escape, or starts with a dash that a digit or
nothing follows, where no identifier starts.
-/

namespace DesignTokens.Selector

/-! ## Escaped characters -/

/-- CSS has the same characters of names. -/
theorem isName_eq (c : Char) : Css.isName c = isNameChar c := by
  simp only [Css.isName, Css.isNameStart, isNameChar, Char.isAlphanum]
  ac_rfl

/-- The first character of a name as it is written. -/
def escapeFirst (c : Char) : List Char :=
  if c.isDigit then ['\\', '3', c, ' '] else escapeChar c

theorem escape_cons (c : Char) (rest : List Char) :
    escape (c :: rest) = escapeFirst c ++ rest.flatMap escapeChar := rfl

theorem isNameChar_of_isDigit {c : Char} (h : c.isDigit) : isNameChar c = true := by
  simp [isNameChar, Char.isAlphanum, h]

theorem escapeChar_of_isNameChar {c : Char} (h : isNameChar c = true) : escapeChar c = [c] := by
  rw [escapeChar, if_pos h]

theorem escapeChar_of_not_isNameChar {c : Char} (h : isNameChar c = false) : escapeChar c = ['\\', c] := by
  rw [escapeChar, h, if_neg Bool.false_ne_true]

theorem ne_backslash {c : Char} (h : isNameChar c = true) : c ≠ '\\' :=
  Text.ne_of_isIn h (by decide)

/-! ## Texts of selectors -/

/-- What is written for a character tells it, and where the next one starts. -/
theorem escapeChar_append_inj {c d : Char} {rest more : List Char}
    (h : escapeChar c ++ rest = escapeChar d ++ more) : c = d ∧ rest = more := by
  cases hc : isNameChar c with
  | true =>
      cases hd : isNameChar d with
      | true =>
          rw [escapeChar_of_isNameChar hc, escapeChar_of_isNameChar hd] at h
          exact List.cons.inj h
      | false =>
          rw [escapeChar_of_isNameChar hc, escapeChar_of_not_isNameChar hd] at h
          exact absurd (List.cons.inj h).1 (ne_backslash hc)
  | false =>
      cases hd : isNameChar d with
      | true =>
          rw [escapeChar_of_not_isNameChar hc, escapeChar_of_isNameChar hd] at h
          exact absurd (List.cons.inj h).1.symm (ne_backslash hd)
      | false =>
          rw [escapeChar_of_not_isNameChar hc, escapeChar_of_not_isNameChar hd] at h
          exact List.cons.inj (List.cons.inj h).2

theorem escapeChar_ne_nil (c : Char) : escapeChar c ≠ [] := by
  unfold escapeChar
  split
  · exact List.cons_ne_nil _ _
  · exact List.cons_ne_nil _ _

theorem flatMap_escapeChar_injective {first second : List Char}
    (h : first.flatMap escapeChar = second.flatMap escapeChar) : first = second := by
  induction first generalizing second with
  | nil =>
      cases second with
      | nil => rfl
      | cons d more =>
          rw [List.flatMap_nil, List.flatMap_cons, eq_comm, List.append_eq_nil_iff] at h
          exact absurd h.1 (escapeChar_ne_nil d)
  | cons c rest ih =>
      cases second with
      | nil =>
          rw [List.flatMap_nil, List.flatMap_cons, List.append_eq_nil_iff] at h
          exact absurd h.1 (escapeChar_ne_nil c)
      | cons d more =>
          rw [List.flatMap_cons, List.flatMap_cons] at h
          obtain ⟨rfl, hrest⟩ := escapeChar_append_inj h
          rw [ih hrest]

/-- A digit by its code point is not written like any other first character. -/
theorem digit_ne_escapeChar {c d : Char} {rest more : List Char} :
    '\\' :: '3' :: c :: ' ' :: rest ≠ escapeChar d ++ more := by
  intro h
  cases hd : isNameChar d with
  | true =>
      rw [escapeChar_of_isNameChar hd] at h
      exact ne_backslash hd (List.cons.inj h).1.symm
  | false =>
      rw [escapeChar_of_not_isNameChar hd] at h
      have hthree : '3' = d := (List.cons.inj (List.cons.inj h).2).1
      rw [← hthree] at hd
      exact absurd hd (by decide)

theorem escapeFirst_append_inj {c d : Char} {rest more : List Char}
    (h : escapeFirst c ++ rest = escapeFirst d ++ more) : c = d ∧ rest = more := by
  unfold escapeFirst at h
  split at h <;> split at h
  · simpa using h
  · exact absurd h digit_ne_escapeChar
  · exact absurd h.symm digit_ne_escapeChar
  · exact escapeChar_append_inj h

theorem escape_injective {first second : List Char} (h : escape first = escape second) :
    first = second := by
  have hne : ∀ c rest, escape (c :: rest) ≠ [] := by
    intro c rest hnil
    rw [escape_cons, List.append_eq_nil_iff] at hnil
    have hfirst := hnil.1
    unfold escapeFirst at hfirst
    split at hfirst
    · cases hfirst
    · exact escapeChar_ne_nil c hfirst
  cases first with
  | nil =>
      cases second with
      | nil => rfl
      | cons d more => exact absurd h.symm (hne d more)
  | cons c rest =>
      cases second with
      | nil => exact absurd h (hne c rest)
      | cons d more =>
          rw [escape_cons, escape_cons] at h
          obtain ⟨rfl, hrest⟩ := escapeFirst_append_inj h
          rw [flatMap_escapeChar_injective hrest]

theorem text_injective {first second : Selector} (h : first.text = second.text) : first = second := by
  cases first with
  | root =>
      cases second with
      | root => rfl
      | className name =>
          have hhead := congrArg (fun text => text.toList.head?) h
          simp [text] at hhead
  | className name =>
      cases second with
      | root =>
          have hhead := congrArg (fun text => text.toList.head?) h
          simp [text] at hhead
      | className other =>
          rw [text, text, String.append_right_inj, String.ofList_inj] at h
          rw [String.toList_inj.1 (escape_injective h)]

/-! ## Reading a class selector -/

/-- True of the characters that CSS takes for themselves, also after a backslash. -/
def isKept (c : Char) : Bool :=
  c ≠ '\n' && c ≠ '\r' && c ≠ '\x0c' && c ≠ '\x00'

/-- An identifier that starts with this name is one as it is written. -/
structure Readable (name : List Char) : Prop where
  kept : ∀ c ∈ name, isKept c
  notDash : name ≠ ['-']
  notDashDigit : ∀ d rest, name = '-' :: d :: rest → d.isDigit = false

theorem seen_of_isKept {c : Char} (h : isKept c) : Css.seen c = c := by
  simp only [isKept, Bool.and_eq_true, decide_eq_true_eq] at h
  obtain ⟨⟨⟨-, hreturn⟩, hfeed⟩, hnul⟩ := h
  simp [Css.seen, hreturn, hfeed, hnul]

/-- Hex digits are written as they are. -/
theorem isHexDigit_of_not_isNameChar {c : Char} (h : isNameChar c = false) : Css.isHexDigit c = false := by
  rw [← isName_eq] at h
  simp only [Css.isName, Css.isNameStart_eq, Bool.or_eq_false_iff] at h
  obtain ⟨⟨⟨⟨⟨hupper, hlower⟩, -⟩, -⟩, hdigit⟩, -⟩ := h
  have hsmall : ¬ ('a' ≤ c ∧ c ≤ 'f') := by
    rintro ⟨hfirst, hlast⟩
    have hz : c ≤ 'z' := Char.le_trans hlast (by decide)
    have hletter : c.isLower = true := Bool.and_eq_true_iff.2 ⟨decide_eq_true hfirst, decide_eq_true hz⟩
    rw [hlower] at hletter
    cases hletter
  have hcapital : ¬ ('A' ≤ c ∧ c ≤ 'F') := by
    rintro ⟨hfirst, hlast⟩
    have hz : c ≤ 'Z' := Char.le_trans hlast (by decide)
    have hletter : c.isUpper = true := decide_eq_true ⟨hfirst, hz⟩
    rw [hupper] at hletter
    cases hletter
  simp [Css.isHexDigit, Text.digit?, hdigit, hsmall, hcapital]

variable {c : Char} {rest : List Char}

theorem name_escapeChar (h : isKept c) :
    Css.name (escapeChar c ++ rest) = (c :: (Css.name rest).1, (Css.name rest).2) := by
  cases hc : isNameChar c with
  | true =>
      rw [escapeChar_of_isNameChar hc, List.singleton_append,
        Css.name_of_isName ((isName_eq c).trans hc)]
  | false =>
      have hbreak : c ≠ '\n' := Text.ne_of_isIn h (by decide)
      have hescape := Css.name_escape (c :: rest) (by simpa using hbreak)
      rw [Css.escaped_of_not_isHexDigit (isHexDigit_of_not_isNameChar hc)] at hescape
      rw [escapeChar_of_not_isNameChar hc]
      exact hescape

theorem name_flatMap_escapeChar {text : List Char} (h : ∀ c ∈ text, isKept c) :
    Css.name (text.flatMap escapeChar ++ rest) = (text ++ (Css.name rest).1, (Css.name rest).2) := by
  induction text with
  | nil => rfl
  | cons c more ih =>
      rw [List.flatMap_cons, List.append_assoc, name_escapeChar (h c List.mem_cons_self),
        ih (fun d hd => h d (List.mem_cons_of_mem _ hd))]
      rfl

/-- The code point of a digit, with the blank after it, is read as the digit. -/
theorem escaped_digit (h : c.isDigit) : Css.escaped ('3' :: c :: ' ' :: rest) = (c, rest) := by
  have hvalue : Text.digit? c = some (c.toNat - '0'.toNat) := by rw [Text.digit?, if_pos h]
  have hhex : Css.isHexDigit c = true := by rw [Css.isHexDigit, hvalue, Option.isSome_some]
  have hthree : Css.isHexDigit '3' = true := by decide
  have hblank : Css.isHexDigit ' ' = false := by decide
  have hdigits : (('3' :: c :: ' ' :: rest).take 6).takeWhile Css.isHexDigit = ['3', c] := by
    simp [hthree, hhex, hblank]
  have hzero : 48 ≤ c.toNat := of_decide_eq_true (Bool.and_eq_true_iff.1 h).1
  have hnumber : Text.natOfDigits 16 ['3', c] = c.toNat := by
    have htext : Text.digit? '3' = some 3 := by decide
    simp only [Text.natOfDigits, List.foldl_cons, List.foldl_nil, htext, hvalue, Option.getD_some]
    have hoffset : '0'.toNat = 48 := rfl
    omega
  have hvalid : c.toNat.isValidChar := c.valid
  have hcode : Css.ofCodePoint c.toNat = c := by
    rw [Css.ofCodePoint, if_neg (by omega), Char.ofNat_toNat]
  simp only [Css.escaped, hdigits, hnumber, hcode]
  rfl

theorem name_escapeFirst (h : isKept c) :
    Css.name (escapeFirst c ++ rest) = (c :: (Css.name rest).1, (Css.name rest).2) := by
  unfold escapeFirst
  split
  · rename_i hdigit
    have hescape := Css.name_escape ('3' :: c :: ' ' :: rest) (by simp)
    rw [escaped_digit hdigit] at hescape
    exact hescape
  · exact name_escapeChar h

theorem name_escape {name : List Char} (h : ∀ c ∈ name, isKept c) :
    Css.name (escape name ++ rest) = (name ++ (Css.name rest).1, (Css.name rest).2) := by
  cases name with
  | nil => rfl
  | cons c more =>
      rw [escape_cons, List.append_assoc, name_escapeFirst (h c List.mem_cons_self),
        name_flatMap_escapeChar (fun d hd => h d (List.mem_cons_of_mem _ hd))]
      rfl

theorem isKept_of_mem_escapeChar {d : Char} (h : isKept d) (hc : c ∈ escapeChar d) : isKept c := by
  unfold escapeChar at hc
  split at hc
  · rw [List.mem_singleton.1 hc]
    exact h
  · rcases List.mem_cons.1 hc with rfl | hrest
    · decide
    · rw [List.mem_singleton.1 hrest]
      exact h

theorem isKept_of_mem_escapeFirst {d : Char} (h : isKept d) (hc : c ∈ escapeFirst d) : isKept c := by
  unfold escapeFirst at hc
  split at hc
  · simp only [List.mem_cons, List.not_mem_nil, or_false] at hc
    rcases hc with rfl | rfl | rfl | rfl
    · decide
    · decide
    · exact h
    · decide
  · exact isKept_of_mem_escapeChar h hc

theorem isKept_of_mem_escape {name : List Char} (h : ∀ c ∈ name, isKept c) (hc : c ∈ escape name) :
    isKept c := by
  cases name with
  | nil => cases hc
  | cons first more =>
      rw [escape_cons, List.mem_append, List.mem_flatMap] at hc
      rcases hc with hfirst | ⟨d, hd, hmem⟩
      · exact isKept_of_mem_escapeFirst (h first List.mem_cons_self) hfirst
      · exact isKept_of_mem_escapeChar (h d (List.mem_cons_of_mem _ hd)) hmem

theorem preprocess_escape {name : List Char} (h : ∀ c ∈ name, isKept c) (rest : List Char) :
    Css.preprocess (escape name ++ rest) = escape name ++ Css.preprocess rest := by
  apply Css.preprocess_append
  · intro hreturn
    exact absurd (isKept_of_mem_escape h hreturn) (by decide)
  · intro c hc
    exact seen_of_isKept (isKept_of_mem_escape h hc)

/-! ## Where an identifier starts -/

theorem startsEscape_of_not_isNameChar (hc : isNameChar c = false) (hkept : isKept c) (rest : List Char) :
    Css.startsEscape (escapeChar c ++ rest) = true := by
  have hbreak : c ≠ '\n' := Text.ne_of_isIn hkept (by decide)
  rw [escapeChar_of_not_isNameChar hc]
  simpa [Css.startsEscape] using hbreak

/-- A character that is neither digit nor dash starts an identifier, as it is or escaped. -/
theorem startsIdentifier_escapeChar (hkept : isKept c) (hdigit : c.isDigit = false) (hdash : c ≠ '-')
    (rest : List Char) :
    Css.startsIdentifier (escapeChar c ++ rest) = true ∧
      Css.startsIdentifier ('-' :: (escapeChar c ++ rest)) = true := by
  cases hc : isNameChar c with
  | true =>
      have hstart : Css.isNameStart c = true := by
        have hname := (isName_eq c).trans hc
        simpa [Css.isName, hdigit, hdash] using hname
      rw [escapeChar_of_isNameChar hc]
      simp [Css.startsIdentifier, hstart, hdash]
  | false =>
      have hescape := startsEscape_of_not_isNameChar hc hkept rest
      rw [escapeChar_of_not_isNameChar hc] at hescape ⊢
      simp only [List.cons_append, List.nil_append] at hescape ⊢
      simp [Css.startsIdentifier, hescape]

/-- The first two characters decide. -/
theorem startsIdentifier_escape {name : List Char} (h : Readable name) (hne : name ≠ []) :
    Css.startsIdentifier (escape name ++ rest) = true := by
  cases name with
  | nil => exact absurd rfl hne
  | cons c more =>
      have hkept := h.kept c List.mem_cons_self
      rw [escape_cons, List.append_assoc, escapeFirst]
      split
      · rfl
      · rename_i hdigit
        by_cases hdash : c = '-'
        · subst hdash
          cases more with
          | nil => exact absurd rfl h.notDash
          | cons d others =>
              by_cases hsecond : d = '-'
              · subst hsecond
                rfl
              · have hkept' := h.kept d (List.mem_cons_of_mem _ List.mem_cons_self)
                have hstart := (startsIdentifier_escapeChar hkept' (h.notDashDigit d others rfl) hsecond
                  (others.flatMap escapeChar ++ rest)).2
                rw [List.flatMap_cons, List.append_assoc]
                exact hstart
        · exact (startsIdentifier_escapeChar hkept (by simpa using hdigit) hdash _).1

theorem identifier?_escape {name : List Char} (h : Readable name) (hne : name ≠ [])
    (hends : Css.EndsName (Css.preprocess rest)) :
    Css.identifier? (Css.preprocess (escape name ++ rest)) = some (name, Css.preprocess rest) := by
  rw [preprocess_escape h.kept, Css.identifier?, if_pos (startsIdentifier_escape h hne), name_escape h.kept,
    Css.name_of_endsName hends, List.append_nil]

/-! ## Names that are not read back -/

theorem lost_cases (h : isKept c = false) : c = '\n' ∨ c = '\r' ∨ c = '\x0c' ∨ c = '\x00' := by
  refine Classical.byContradiction (fun hnone => ?_)
  simp only [not_or] at hnone
  simp [isKept, hnone] at h

/-- After a backslash a line break ends the name, and a NUL is read as another character. -/
theorem head?_name_of_lost (h : isKept c = false) (rest : List Char) :
    (Css.name (Css.preprocess ('\\' :: c :: rest))).1.head? ≠ some c := by
  rw [Css.preprocess_cons (by decide)]
  rcases lost_cases h with rfl | rfl | rfl | rfl
  · rw [Css.preprocess_cons (by decide)]
    simp [Css.seen, Css.name_line_break]
  · obtain ⟨more, hmore⟩ := Css.exists_preprocess_return rest
    simp [hmore, Css.seen, Css.name_line_break]
  · rw [Css.preprocess_cons (by decide)]
    simp [Css.seen, Css.name_line_break]
  · rw [Css.preprocess_cons (by decide)]
    have hreplaced : Css.replacement ≠ '\n' := by decide
    have hescape := Css.name_escape (Css.replacement :: Css.preprocess rest) (by simp [hreplaced])
    rw [Css.escaped_of_not_isHexDigit (by decide)] at hescape
    have hseen : Css.seen '\\' = '\\' ∧ Css.seen '\x00' = Css.replacement := by decide
    have hother : Css.replacement ≠ '\x00' := by decide
    rw [hseen.1, hseen.2, hescape]
    simpa using hother

theorem escape_append_lost {before after : List Char} (h : isKept c = false) :
    escape (before ++ c :: after) = escape before ++ '\\' :: c :: after.flatMap escapeChar := by
  have hwritten : escapeChar c = ['\\', c] ∧ c.isDigit = false := by
    rcases lost_cases h with rfl | rfl | rfl | rfl <;> decide
  cases before with
  | nil =>
      rw [List.nil_append, escape_cons, escapeFirst, hwritten.1, hwritten.2]
      rfl
  | cons first more =>
      rw [List.cons_append, escape_cons, escape_cons, List.flatMap_append, List.flatMap_cons, hwritten.1,
        List.append_assoc]
      rfl

theorem exists_first_lost {name : List Char} (h : ¬ ∀ c ∈ name, isKept c) :
    ∃ before c after, name = before ++ c :: after ∧ (∀ d ∈ before, isKept d) ∧ isKept c = false := by
  induction name with
  | nil => exact absurd (by simp) h
  | cons first rest ih =>
      cases hfirst : isKept first with
      | false => exact ⟨[], first, rest, rfl, by simp, hfirst⟩
      | true =>
          have hrest : ¬ ∀ c ∈ rest, isKept c := by
            intro hall
            exact h (List.forall_mem_cons.2 ⟨hfirst, hall⟩)
          obtain ⟨before, c, after, rfl, hbefore, hc⟩ := ih hrest
          exact ⟨first :: before, c, after, rfl, List.forall_mem_cons.2 ⟨hfirst, hbefore⟩, hc⟩

theorem kept_of_name_eq {name : List Char}
    (h : (Css.name (Css.preprocess (escape name ++ rest))).1 = name) : ∀ c ∈ name, isKept c := by
  refine Classical.byContradiction (fun hlost => ?_)
  obtain ⟨before, c, after, rfl, hbefore, hc⟩ := exists_first_lost hlost
  rw [escape_append_lost hc, List.append_assoc, preprocess_escape hbefore, name_escape hbefore] at h
  have htail := List.append_cancel_left h
  apply head?_name_of_lost hc (after.flatMap escapeChar ++ rest)
  rw [List.cons_append, List.cons_append] at htail
  rw [htail, List.head?_cons]

theorem readable_of_identifier? {name after : List Char} (hends : Css.EndsName (Css.preprocess rest))
    (h : Css.identifier? (Css.preprocess (escape name ++ rest)) = some (name, after)) : Readable name := by
  unfold Css.identifier? at h
  split at h
  · rename_i hstart
    have hname := congrArg Prod.fst (Option.some.inj h)
    have hkept := kept_of_name_eq hname
    rw [preprocess_escape hkept] at hstart
    refine ⟨hkept, ?_, ?_⟩
    · rintro rfl
      have hdash : escape ['-'] = ['-'] := rfl
      rw [hdash, List.singleton_append, (Css.startsIdentifier_of_endsName hends).2] at hstart
      cases hstart
    · rintro d more rfl
      rw [escape_cons, List.flatMap_cons] at hstart
      cases hdigit : d.isDigit with
      | false => rfl
      | true =>
          have hdash : escapeFirst '-' = ['-'] := by decide
          rw [escapeChar_of_isNameChar (isNameChar_of_isDigit hdigit), hdash, List.append_assoc,
            List.singleton_append, List.append_assoc, List.singleton_append,
            Css.startsIdentifier_dash_digit hdigit] at hstart
          cases hstart
  · cases h

/-! ## Selectors of rules -/

/-- After the written name of a class a rule goes on with a blank or a brace. -/
theorem exists_render_className (name : String) (declarations : List Declaration) (layout : Layout) :
    ∃ rest, Css.EndsName (Css.preprocess rest) ∧
      (StyleRule.render layout ⟨.className name, declarations⟩).toList =
        '.' :: (escape name.toList ++ rest) := by
  cases layout with
  | minified =>
      refine ⟨'\x7b' :: ((";".intercalate (declarations.map (fun d => d.property ++ ":" ++ d.value))).toList ++
        ['\x7d']), Css.endsName_preprocess_cons (by decide) (by decide) _, ?_⟩
      simp [StyleRule.render, text]
  | lines =>
      refine ⟨' ' :: '\x7b' :: '\n' :: (("\n".intercalate (declarations.map
        (fun d => "  " ++ d.property ++ ": " ++ d.value ++ ";"))).toList ++ ['\n', '\x7d']),
        Css.endsName_preprocess_cons (by decide) (by decide) _, ?_⟩
      simp [StyleRule.render, text]

/-- In every rule for an accepted class a reader of CSS takes exactly the name of the class from the
selector, if and only if the name is readable. -/
theorem className_read_iff {config : Config} (hvalid : config.validate = .ok ()) {name : String}
    (hname : name ∈ config.classes.keys) :
    (∀ rest, Css.EndsName (Css.preprocess rest) →
      (Css.identifier? (Css.preprocess (escape name.toList ++ rest)) =
          some (name.toList, Css.preprocess rest) ↔ Readable name.toList)) ∧
    ∀ layout declarations, ∃ rest, Css.EndsName (Css.preprocess rest) ∧
      (StyleRule.render layout ⟨.className name, declarations⟩).toList =
        '.' :: (escape name.toList ++ rest) := by
  refine ⟨?_, fun layout declarations => exists_render_className name declarations layout⟩
  intro rest hends
  have hne : name.toList ≠ [] := by
    intro hnil
    exact (Config.accepted_of_validate hvalid).className_ne_empty hname (String.toList_inj.1 hnil)
  constructor
  · exact readable_of_identifier? hends
  · exact fun hreadable => identifier?_escape hreadable hne hends

/-- A class whose name starts with a digit and holds a colon and a slash. -/
def fractionConfig : Config where
  brand := "tf"
  category := "typo"
  baseFontSize := 16
  breakpoints := ⟨"375px", "1024px"⟩
  classes := .ofList [("2xl:w-1/2", { ClassSpec.empty with fontWeight := some "700" })]
  fontFamilies := .empty
  spacing := .empty
  colors := .empty
  build := .default

theorem className_read_iff_fraction :
    fractionConfig.validate = .ok () ∧ "2xl:w-1/2" ∈ fractionConfig.classes.keys ∧
      Css.identifier? (Css.preprocess (escape "2xl:w-1/2".toList)) = some ("2xl:w-1/2".toList, []) := by
  have hvalid : fractionConfig.validate = .ok () := Config.validate_eq_ok (by decide +kernel)
  have hname : "2xl:w-1/2" ∈ fractionConfig.classes.keys := by decide
  have hreadable : Readable "2xl:w-1/2".toList := by
    refine ⟨List.all_eq_true.1 (by decide), by decide, ?_⟩
    intro d rest heq
    simp at heq
  have hends : Css.EndsName (Css.preprocess []) := by
    intro c hc
    cases hc
  have hread := ((className_read_iff hvalid hname).1 [] hends).2 hreadable
  rw [List.append_nil] at hread
  exact ⟨hvalid, hname, hread⟩

/-- A class whose name starts with a dash and a digit, and one with a line break. -/
def dashedConfig : Config :=
  { fractionConfig with classes := .ofList [
    ("-2xl", { ClassSpec.empty with fontWeight := some "700" }),
    ("a\nb", { ClassSpec.empty with fontWeight := some "700" })] }

/-- The first selector is no identifier, and the second one names another class. -/
theorem misread_className :
    dashedConfig.validate = .ok () ∧
      "-2xl" ∈ dashedConfig.classes.keys ∧
      Css.identifier? (Css.preprocess (escape "-2xl".toList)) = none ∧
      "a\nb" ∈ dashedConfig.classes.keys ∧
      Css.identifier? (Css.preprocess (escape "a\nb".toList)) = some (['a'], ['\\', '\n', 'b']) := by
  have hvalid : dashedConfig.validate = .ok () := Config.validate_eq_ok (by decide +kernel)
  refine ⟨hvalid, by decide, by decide, by decide, ?_⟩
  have hwritten : Css.preprocess (escape "a\nb".toList) = ['a', '\\', '\n', 'b'] := by decide
  have hname : Css.name ['a', '\\', '\n', 'b'] = (['a'], ['\\', '\n', 'b']) := by
    rw [Css.name_of_isName (by decide), Css.name_line_break]
  rw [hwritten, Css.identifier?, hname]
  rfl

end DesignTokens.Selector
