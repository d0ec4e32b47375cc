import DesignTokens.Json.Reader
import DesignTokens.Json.Writer

/-!
# JSON reads back what it wrote

For documents of texts and tables, which is all that snapshots are made of. Reading is said with
whatever follows the document, so that it can be said member by member.
-/

namespace DesignTokens.Json

/-! ## Strings -/

theorem hexNumber?_code {n : Nat} (h : n < 256) :
    Text.hexNumber? ('0' :: '0' :: Text.hexPair n) = some n := by
  have hpair := Text.hexNumber?_hexPair h
  have hzero : Text.digit? '0' = some 0 := by decide
  unfold Text.hexNumber? at hpair ⊢
  split at hpair
  · rename_i hall
    rw [List.all_cons, List.all_cons, hall]
    simpa [Text.isDigitBelow, hzero, Text.natOfDigits] using hpair
  · cases hpair

theorem scan_code {c : Char} (h : isControl c = true) (rest : List Char) :
    scan ('\\' :: 'u' :: '0' :: '0' :: (Text.hexPair c.toNat ++ rest)) =
      (scan rest).map (fun scanned => (.code c.toNat :: scanned.1, scanned.2)) := by
  have hsmall : c.toNat < 0x20 := by simpa [isControl] using h
  have hcode := hexNumber?_code (n := c.toNat) (by omega)
  unfold Text.hexPair at hcode ⊢
  rw [List.cons_append, List.cons_append, List.nil_append, scan, hcode]
  cases scan rest <;> rfl

theorem scan_short {c escaped : Char} (hc : c ≠ 'u') (h : shortEscape? c = some escaped)
    (rest : List Char) :
    scan ('\\' :: c :: rest) =
      (scan rest).map (fun scanned => (.char escaped :: scanned.1, scanned.2)) := by
  rw [scan, h]
  · cases scan rest <;> rfl
  · intro _ _ _ _ _ hu _
    exact hc hu

theorem scan_plain {c : Char} (hquote : c ≠ '"') (hslash : c ≠ '\\') (h : isControl c = false)
    (rest : List Char) :
    scan (c :: rest) = (scan rest).map (fun scanned => (.char c :: scanned.1, scanned.2)) := by
  rw [scan]
  · simp only [h, hslash, Bool.false_or, decide_false, Bool.false_eq_true, if_false]
    cases scan rest <;> rfl
  · exact hquote
  · intro _ _ _ _ _ heq _
    exact hslash heq
  · intro _ _ heq _
    exact hslash heq

theorem resolve_code {c : Char} (h : isControl c = true) (rest : List Unit16) :
    resolve (.code c.toNat :: rest) = (resolve rest).map (c :: ·) := by
  have hsmall : c.toNat < 0x20 := by simpa [isControl] using h
  have htrailing : isTrailing c.toNat = false := by
    simp only [isTrailing, Bool.and_eq_false_iff, decide_eq_false_iff_not]
    omega
  have hleading : isLeading c.toNat = false := by
    simp only [isLeading, Bool.and_eq_false_iff, decide_eq_false_iff_not]
    omega
  have hunit : resolve (.code c.toNat :: rest) = (resolve rest).map (Char.ofNat c.toNat :: ·) := by
    rw [resolve.eq_def]
    simp only [htrailing, hleading, Bool.false_eq_true, if_false]
  rw [hunit, Char.ofNat_toNat]

/-- Every character is written as one unit that stands for it. -/
theorem exists_unit (c : Char) :
    ∃ unit, (∀ rest, scan (escape c ++ rest) =
        (scan rest).map (fun scanned => (unit :: scanned.1, scanned.2))) ∧
      ∀ units, resolve (unit :: units) = (resolve units).map (c :: ·) := by
  have hshort : ∀ letter escaped, letter ≠ 'u' → shortEscape? letter = some escaped →
      ∃ unit, (∀ rest, scan (['\\', letter] ++ rest) =
          (scan rest).map (fun scanned => (unit :: scanned.1, scanned.2))) ∧
        ∀ units, resolve (unit :: units) = (resolve units).map (escaped :: ·) := by
    intro letter escaped hne h
    exact ⟨.char escaped, scan_short hne h, fun _ => rfl⟩
  unfold escape
  split
  case h_8 =>
    split
    · rename_i hcontrol
      exact ⟨.code c.toNat, scan_code hcontrol, resolve_code hcontrol⟩
    · rename_i hcontrol
      refine ⟨.char c, scan_plain ?_ ?_ ?_, fun _ => rfl⟩
      · assumption
      · assumption
      · exact Bool.eq_false_iff.2 hcontrol
  all_goals exact hshort _ _ (by decide) rfl

/-- A scan ends at the closing quote, with units that stand for the text. -/
theorem scan_escape (text rest : List Char) :
    ∃ units, scan (text.flatMap escape ++ '"' :: rest) = some (units, rest) ∧
      resolve units = some text := by
  induction text with
  | nil => exact ⟨[], by simp [scan], rfl⟩
  | cons c more ih =>
      obtain ⟨units, hscan, hresolve⟩ := ih
      obtain ⟨unit, hone, htext⟩ := exists_unit c
      refine ⟨unit :: units, ?_, ?_⟩
      · rw [List.flatMap_cons, List.append_assoc, hone, hscan]
        rfl
      · rw [htext, hresolve]
        rfl

theorem quoted_append (text : String) (rest : List Char) :
    quoted text ++ rest = '"' :: (text.toList.flatMap escape ++ '"' :: rest) := by
  simp [quoted]

/-! ## Blanks -/

theorem skipSpace_of_not_isSpace {c : Char} (h : isSpace c = false) (rest : List Char) :
    skipSpace (c :: rest) = c :: rest := by
  simp [skipSpace, h]

theorem skipSpace_lineBreak (level : Nat) (rest : List Char) :
    skipSpace (lineBreak level ++ rest) = skipSpace rest := by
  have hspaces : ∀ n, skipSpace (List.replicate n ' ' ++ rest) = skipSpace rest := by
    intro n
    induction n with
    | zero => rfl
    | succ n ih => exact ih
  exact hspaces (2 * level)

theorem value_congr {first second : List Char} (h : skipSpace first = skipSpace second) (fuel : Nat) :
    value fuel first = value fuel second := by
  cases fuel with
  | zero => rfl
  | succ fuel => simp only [value, h]

theorem members_congr {first second : List Char} (h : skipSpace first = skipSpace second) (fuel : Nat) :
    members fuel first = members fuel second := by
  cases fuel with
  | zero => rfl
  | succ fuel => simp only [members, h]

/-! ## Documents -/

/-- A document of texts and tables. -/
inductive Plain : Document → Prop where
  | text (s : String) : Plain (.text s)
  | table (members : List (String × Document)) (h : ∀ member ∈ members, Plain member.2) :
      Plain (.table members)

/-- What a document reads back to, whatever follows it. -/
def ReadsBack (document : Document) : Prop :=
  ∀ (level fuel : Nat) (rest : List Char), (write level document).length ≤ fuel →
    value fuel (write level document ++ rest) = some (document, rest)

theorem readsBack_text (s : String) : ReadsBack (.text s) := by
  intro level fuel rest hfuel
  obtain ⟨units, hscan, hresolve⟩ := scan_escape s.toList rest
  have hpos : 0 < (write level (.text s)).length := by simp [write, quoted]
  obtain ⟨fuel, rfl⟩ : ∃ n, fuel = n + 1 := ⟨fuel - 1, by omega⟩
  rw [write, quoted_append, value, skipSpace_of_not_isSpace (by decide)]
  simp [hscan, textOf, hresolve]

theorem value_space (fuel : Nat) (rest : List Char) : value fuel (' ' :: rest) = value fuel rest :=
  value_congr (show skipSpace (' ' :: rest) = skipSpace rest from rfl) fuel

section Member

variable {key : String} {document : Document} {level fuel : Nat} (h : ReadsBack document)
  (hfuel : (write level document).length ≤ fuel)

include h hfuel

theorem members_last {tail after : List Char} (hend : skipSpace tail = '}' :: after) :
    members (fuel + 1) (quoted key ++ ':' :: ' ' :: (write level document ++ tail)) =
      some ([(some key, document)], after) := by
  obtain ⟨units, hscan, hresolve⟩ :=
    scan_escape key.toList (':' :: ' ' :: (write level document ++ tail))
  have hvalue := h level fuel tail hfuel
  have hcolon := skipSpace_of_not_isSpace (c := ':') rfl (' ' :: (write level document ++ tail))
  rw [quoted_append, members, skipSpace_of_not_isSpace (by decide)]
  simp [hscan, hcolon, value_space, hvalue, hend, hresolve]

theorem members_more {tail more after : List Char} {found : List Member}
    (hcomma : skipSpace tail = ',' :: more) (hmore : members fuel more = some (found, after)) :
    members (fuel + 1) (quoted key ++ ':' :: ' ' :: (write level document ++ tail)) =
      some ((some key, document) :: found, after) := by
  obtain ⟨units, hscan, hresolve⟩ :=
    scan_escape key.toList (':' :: ' ' :: (write level document ++ tail))
  have hvalue := h level fuel tail hfuel
  have hcolon := skipSpace_of_not_isSpace (c := ':') rfl (' ' :: (write level document ++ tail))
  rw [quoted_append, members, skipSpace_of_not_isSpace (by decide)]
  simp [hscan, hcolon, value_space, hvalue, hcomma, hmore, hresolve]

end Member

/-- The text of the members from one on, up to the closing brace. -/
def memberChars (level : Nat) (member : String × Document) (others : List (String × Document)) :
    List Char :=
  quoted member.1 ++ ':' :: ' ' :: (write (level + 1) member.2 ++
    (writeMembers (level + 1) others ++ (lineBreak level ++ ['}'])))

theorem memberChars_append (level : Nat) (member : String × Document)
    (others : List (String × Document)) (rest : List Char) :
    memberChars level member others ++ rest =
      quoted member.1 ++ ':' :: ' ' :: (write (level + 1) member.2 ++
        (writeMembers (level + 1) others ++ (lineBreak level ++ '}' :: rest))) := by
  simp [memberChars]

theorem write_length_lt_memberChars (level : Nat) (member : String × Document)
    (others : List (String × Document)) :
    (write (level + 1) member.2).length < (memberChars level member others).length := by
  simp [memberChars, quoted]
  omega

theorem writeMembers_cons (level : Nat) (next : String × Document) (others : List (String × Document))
    (rest : List Char) :
    writeMembers (level + 1) (next :: others) ++ (lineBreak level ++ '}' :: rest) =
      ',' :: (lineBreak (level + 1) ++ (memberChars level next others ++ rest)) := by
  simp [writeMembers, memberChars]

theorem memberChars_cons_length (level : Nat) (member next : String × Document)
    (others : List (String × Document)) :
    (memberChars level next others).length < (memberChars level member (next :: others)).length := by
  have hcons := congrArg List.length (writeMembers_cons level next others [])
  simp only [List.length_append, List.length_cons, List.length_nil] at hcons
  simp only [memberChars, List.length_append, List.length_cons, List.length_nil] at hcons ⊢
  omega

theorem members_memberChars {level : Nat} {member : String × Document}
    {others : List (String × Document)} (h : ∀ found ∈ member :: others, ReadsBack found.2)
    (fuel : Nat) (rest : List Char) (hfuel : (memberChars level member others).length ≤ fuel) :
    members fuel (memberChars level member others ++ rest) =
      some ((member :: others).map (fun found => (some found.1, found.2)), rest) := by
  induction others generalizing member fuel with
  | nil =>
      have hwrite := write_length_lt_memberChars level member []
      obtain ⟨fuel, rfl⟩ : ∃ n, fuel = n + 1 := ⟨fuel - 1, by omega⟩
      have hend : skipSpace (writeMembers (level + 1) [] ++ (lineBreak level ++ '}' :: rest)) =
          '}' :: rest := by
        rw [writeMembers, List.nil_append, skipSpace_lineBreak, skipSpace_of_not_isSpace (by decide)]
      rw [memberChars_append, members_last (h member List.mem_cons_self) (by omega) hend]
      rfl
  | cons next others ih =>
      have hwrite := write_length_lt_memberChars level member (next :: others)
      have hshorter := memberChars_cons_length level member next others
      obtain ⟨fuel, rfl⟩ : ∃ n, fuel = n + 1 := ⟨fuel - 1, by omega⟩
      have hnext := ih (fun found hmem => h found (List.mem_cons_of_mem _ hmem)) fuel (by omega)
      rw [← members_congr (skipSpace_lineBreak (level + 1) _)] at hnext
      rw [memberChars_append, writeMembers_cons, members_more (h member List.mem_cons_self) (by omega)
        (skipSpace_of_not_isSpace (by decide) _) hnext]
      rfl

theorem objectOf_named (members : List (String × Document)) :
    objectOf (members.map (fun found => (some found.1, found.2))) = .table members := by
  have hnamed : (members.map (fun found => ((some found.1, found.2) : Member))).mapM
      (fun m => m.1.map (fun key => (key, m.2))) = some members := by
    induction members with
    | nil => rfl
    | cons member others ih => simp [List.mapM_cons, ih]
  simp [objectOf, hnamed]

theorem readsBack_table {members : List (String × Document)}
    (h : ∀ member ∈ members, ReadsBack member.2) : ReadsBack (.table members) := by
  intro level fuel rest hfuel
  cases members with
  | nil =>
      obtain ⟨fuel, rfl⟩ : ∃ n, fuel = n + 1 := ⟨fuel - 1, by simp [write] at hfuel; omega⟩
      rfl
  | cons member others =>
      have hwrite : write level (.table (member :: others)) =
          '{' :: (lineBreak (level + 1) ++ memberChars level member others) := by
        simp [write, memberChars]
      rw [hwrite] at hfuel ⊢
      simp only [List.length_cons, List.length_append] at hfuel
      obtain ⟨fuel, rfl⟩ : ∃ n, fuel = n + 1 := ⟨fuel - 1, by omega⟩
      have hlength : (memberChars level member others).length ≤ fuel := by omega
      have hmembers := members_memberChars h fuel rest hlength
      obtain ⟨body, hbody⟩ : ∃ body, memberChars level member others ++ rest = '"' :: body :=
        ⟨_, by rw [memberChars_append, quoted_append]⟩
      have hskip := skipSpace_lineBreak (level + 1) ('"' :: body)
      rw [skipSpace_of_not_isSpace (by decide)] at hskip
      rw [List.cons_append, List.append_assoc, value, skipSpace_of_not_isSpace (by decide), hbody]
      rw [hbody] at hmembers
      have hobject := objectOf_named (member :: others)
      rw [List.map_cons] at hobject
      simp [hskip, hmembers, hobject]

theorem Plain.readsBack {document : Document} (h : Plain document) : ReadsBack document := by
  induction h with
  | text s => exact readsBack_text s
  | table members _ ih => exact readsBack_table ih

/-- A plain document is read back from its text. -/
theorem read?_render {document : Document} (h : Plain document) :
    read? (render document) = some document := by
  have hfuel : (write 0 document).length ≤ 2 * (write 0 document).length + 2 := by omega
  have hvalue := h.readsBack 0 _ [] hfuel
  have hchars : (render document).toList = write 0 document := String.toList_ofList
  have hend : skipSpace [] = [] := rfl
  rw [List.append_nil] at hvalue
  simp only [read?, hchars, hvalue, Option.bind_eq_bind, Option.bind_some, hend, if_true]

end DesignTokens.Json
