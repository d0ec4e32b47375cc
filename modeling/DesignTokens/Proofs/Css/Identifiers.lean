import DesignTokens.Text.Digits

/-!
# Identifiers of CSS

How a reader of CSS takes an identifier from the start of a text. It sees one kind of line end and no
NUL, asks whether an identifier starts, and takes characters of names and escapes while they go on.
-/

namespace DesignTokens.Css

/-! ## Characters -/

/-- Stands for what CSS cannot hold. -/
def replacement : Char := '\ufffd'

def isNameStart (c : Char) : Bool :=
  c.isAlpha || c = '_' || 0x80 ≤ c.toNat

/-- True of the characters that may follow at the start of a name. -/
def isName (c : Char) : Bool :=
  isNameStart c || c.isDigit || c = '-'

def isHexDigit (c : Char) : Bool :=
  (Text.digit? c).isSome

def isSpace (c : Char) : Bool :=
  c = '\n' || c = '\t' || c = ' '

/-! ## Reading -/

/-- A character as the reader sees it. -/
def seen (c : Char) : Char :=
  if c = '\r' ∨ c = '\x0c' then '\n' else if c = '\x00' then replacement else c

/-- The text that the reader sees. -/
def preprocess : List Char → List Char
  | [] => []
  | '\r' :: '\n' :: rest => '\n' :: preprocess rest
  | c :: rest => seen c :: preprocess rest

/-- A backslash begins an escape unless a line ends after it. -/
def startsEscape : List Char → Bool
  | '\\' :: rest => rest.head? ≠ some '\n'
  | _ => false

/-- An identifier starts with a letter or an escape, before which one dash may stand, or with two
dashes. -/
def startsIdentifier : List Char → Bool
  | [] => false
  | c :: rest =>
      if c = '-' then rest.head?.any (fun d => isNameStart d || d = '-') || startsEscape rest
      else isNameStart c || startsEscape (c :: rest)

/-- The character of a code point; CSS has none for zero. -/
def ofCodePoint (n : Nat) : Char :=
  if n = 0 ∨ ¬ n.isValidChar then replacement else Char.ofNat n

/-- One blank after the digits of an escape belongs to it. -/
def dropSpace : List Char → List Char
  | [] => []
  | c :: rest => if isSpace c then rest else c :: rest

/-- The character that an escape denotes, and what follows the escape. The text is what stands after
the backslash: up to six hex digits, or the character itself. -/
def escaped (text : List Char) : Char × List Char :=
  match (text.take 6).takeWhile isHexDigit with
  | [] => (text.headD replacement, text.tail)
  | digits => (ofCodePoint (Text.natOfDigits 16 digits), dropSpace (text.drop digits.length))

theorem length_dropSpace_le (text : List Char) : (dropSpace text).length ≤ text.length := by
  cases text with
  | nil => exact Nat.le_refl _
  | cons c rest =>
      rw [dropSpace]
      split
      · exact Nat.le_succ rest.length
      · exact Nat.le_refl _

theorem length_escaped_le (text : List Char) : (escaped text).2.length ≤ text.length := by
  unfold escaped
  split
  · simp
  · exact Nat.le_trans (length_dropSpace_le _) (by simp)

/-- The name at the start of a text, and what follows it. -/
def name : List Char → List Char × List Char
  | [] => ([], [])
  | c :: rest =>
      if isName c then
        let following := name rest
        (c :: following.1, following.2)
      else if startsEscape (c :: rest) then
        let found := escaped rest
        let following := name found.2
        (found.1 :: following.1, following.2)
      else ([], c :: rest)
termination_by text => text.length
decreasing_by
  · exact Nat.lt_succ_self _
  · have hlength := length_escaped_le rest
    exact Nat.lt_succ_of_le hlength

/-- The identifier at the start of a text, and what follows it. -/
def identifier? (text : List Char) : Option (List Char × List Char) :=
  if startsIdentifier text then some (name text) else none

/-- No character of a name and no escape stands at the start. -/
def EndsName (text : List Char) : Prop :=
  ∀ c, text.head? = some c → isName c = false ∧ c ≠ '\\'

/-! ## What the reader sees -/

theorem preprocess_cons {c : Char} (h : c ≠ '\r') (rest : List Char) :
    preprocess (c :: rest) = seen c :: preprocess rest := by
  rw [preprocess]
  intro more hc
  exact absurd hc h

/-- A character after a carriage return may be the second half of one line end. -/
theorem exists_preprocess_return (rest : List Char) :
    ∃ more, preprocess ('\r' :: rest) = '\n' :: more := by
  cases rest with
  | nil => exact ⟨[], rfl⟩
  | cons d more =>
      by_cases hd : d = '\n'
      · subst hd
        exact ⟨preprocess more, rfl⟩
      · refine ⟨preprocess (d :: more), ?_⟩
        rw [preprocess]
        · rfl
        · intro other _ heq
          exact hd (List.cons.inj heq).1

theorem preprocess_append {written : List Char} (hreturn : '\r' ∉ written)
    (hsame : ∀ c ∈ written, seen c = c) (rest : List Char) :
    preprocess (written ++ rest) = written ++ preprocess rest := by
  induction written with
  | nil => rfl
  | cons c more ih =>
      have hc : c ≠ '\r' := fun heq => hreturn (heq ▸ List.mem_cons_self)
      rw [List.cons_append, preprocess_cons hc, hsame c List.mem_cons_self,
        ih (fun hmem => hreturn (List.mem_cons_of_mem _ hmem))
          (fun d hd => hsame d (List.mem_cons_of_mem _ hd)), List.cons_append]

/-! ## Steps of the reader -/

theorem isNameStart_eq (c : Char) :
    isNameStart c = (c.isUpper || c.isLower || c = '_' || 0x80 ≤ c.toNat) := rfl

theorem isNameStart_eq_false {c : Char} (h : isName c = false) : isNameStart c = false := by
  simp only [isName, Bool.or_eq_false_iff] at h
  exact h.1.1

theorem name_of_isName {c : Char} (h : isName c = true) (rest : List Char) :
    name (c :: rest) = (c :: (name rest).1, (name rest).2) := by
  rw [name, if_pos h]

theorem name_escape (text : List Char) (h : text.head? ≠ some '\n') :
    name ('\\' :: text) = ((escaped text).1 :: (name (escaped text).2).1, (name (escaped text).2).2) := by
  have hname : isName '\\' = false := by decide
  have hstart : startsEscape ('\\' :: text) = true := by simpa [startsEscape] using h
  rw [name, hname, if_neg Bool.false_ne_true, if_pos hstart]

theorem escaped_of_not_isHexDigit {c : Char} (h : isHexDigit c = false) (rest : List Char) :
    escaped (c :: rest) = (c, rest) := by
  have hdigits : ((c :: rest).take 6).takeWhile isHexDigit = [] := by
    rw [List.take_succ_cons, List.takeWhile_cons_of_neg (by simp [h])]
  simp only [escaped, hdigits, List.headD_cons, List.tail_cons]

theorem startsEscape_of_ne {c : Char} (h : c ≠ '\\') (rest : List Char) :
    startsEscape (c :: rest) = false := by
  unfold startsEscape
  split
  · rename_i heq
    exact absurd (List.cons.inj heq).1 h
  · rfl

/-- A name ends before a character that is seen as one that no name goes on with. -/
theorem endsName_preprocess_cons {c : Char} (hreturn : c ≠ '\r')
    (hends : isName (seen c) = false ∧ seen c ≠ '\\') (rest : List Char) :
    EndsName (preprocess (c :: rest)) := by
  rw [preprocess_cons hreturn]
  intro d hd
  rw [← Option.some.inj hd]
  exact hends

theorem startsEscape_of_endsName {text : List Char} (h : EndsName text) : startsEscape text = false := by
  cases text with
  | nil => rfl
  | cons c rest => exact startsEscape_of_ne (h c rfl).2 rest

theorem name_of_endsName {text : List Char} (h : EndsName text) : name text = ([], text) := by
  cases text with
  | nil => rw [name]
  | cons c rest =>
      rw [name, (h c rfl).1, if_neg Bool.false_ne_true, startsEscape_of_endsName h,
        if_neg Bool.false_ne_true]

/-- At a line break after a backslash a name ends. -/
theorem name_line_break (rest : List Char) : name ('\\' :: '\n' :: rest) = ([], '\\' :: '\n' :: rest) := by
  have hname : isName '\\' = false := by decide
  have hstart : startsEscape ('\\' :: '\n' :: rest) = false := rfl
  rw [name, hname, if_neg Bool.false_ne_true, hstart, if_neg Bool.false_ne_true]

/-- Where names end no identifier starts, not even after a dash. -/
theorem startsIdentifier_of_endsName {text : List Char} (h : EndsName text) :
    startsIdentifier text = false ∧ startsIdentifier ('-' :: text) = false := by
  have hescape := startsEscape_of_endsName h
  cases text with
  | nil => exact ⟨rfl, rfl⟩
  | cons c rest =>
      have hname := (h c rfl).1
      have hdash : c ≠ '-' := by
        rintro rfl
        exact absurd hname (by decide)
      simp [startsIdentifier, isNameStart_eq_false hname, hdash, hescape]

theorem isNameStart_of_isDigit {c : Char} (h : c.isDigit) : isNameStart c = false := by
  have hlast : c.toNat ≤ 57 := of_decide_eq_true (Bool.and_eq_true_iff.1 h).2
  obtain ⟨hupper, hlower⟩ := Bool.or_eq_false_iff.1 (Text.isAlpha_eq_false_of_isDigit h)
  have hunderscore : c ≠ '_' := Text.ne_of_isIn h (by decide)
  have hascii : ¬ 0x80 ≤ c.toNat := by omega
  simp [isNameStart_eq, hupper, hlower, hunderscore, hascii]

/-- No identifier starts with a dash and a digit. -/
theorem startsIdentifier_dash_digit {c : Char} (h : c.isDigit) (rest : List Char) :
    startsIdentifier ('-' :: c :: rest) = false := by
  have hdash : c ≠ '-' := Text.ne_of_isIn h (by decide)
  have hslash : c ≠ '\\' := Text.ne_of_isIn h (by decide)
  simp [startsIdentifier, isNameStart_of_isDigit h, hdash, startsEscape_of_ne hslash]

end DesignTokens.Css
