import DesignTokens.Stylesheet.Printer

/-!
# Stylesheets as they are written

What a printed sheet holds, as it stands in the text. From the desktop width on the rules are written in a
block and are moved in line by line. A text of the sheet with a line end of its own is moved in there, too, and
shows as another one.
-/

namespace DesignTokens

/-! ## Texts that are moved in -/

namespace Text

/-- The indentation of a line, where one begins. -/
def margin (atStart : Bool) : List Char :=
  if atStart then [' ', ' '] else []

/-- A text within a line of a block, with more text after it: each line that it begins is moved in, unless it
is empty. A line ends with a line feed, or with a carriage return and a line feed, and is written with the
former. -/
def movedIn (atStart : Bool) : List Char → List Char
  | [] => margin atStart
  | '\r' :: '\n' :: rest => '\n' :: movedIn true rest
  | '\n' :: rest => '\n' :: movedIn true rest
  | c :: rest => margin atStart ++ c :: movedIn false rest

section

variable {atStart : Bool} {text rest : List Char} {c : Char}

theorem movedIn_cons (hline : c ≠ '\n') (hreturn : c = '\r' → rest.head? ≠ some '\n') :
    movedIn atStart (c :: rest) = margin atStart ++ c :: movedIn false rest := by
  rw [movedIn]
  · intro tail hc htail
    exact hreturn hc (by rw [htail]; rfl)
  · exact hline

theorem movedIn_append (hline : c ≠ '\n') (hreturn : c ≠ '\r') :
    movedIn atStart (text ++ c :: rest) = movedIn atStart text ++ c :: movedIn false rest := by
  fun_induction movedIn atStart text with
  | case1 => exact movedIn_cons hline (fun heq => absurd heq hreturn)
  | case2 atStart more ih => exact congrArg (List.cons '\n') ih
  | case3 atStart more ih => exact congrArg (List.cons '\n') ih
  | case4 atStart d more hpair hbreak ih =>
      rw [List.cons_append, movedIn_cons hbreak, ih]
      · simp
      · intro hd hhead
        cases more with
        | nil => exact hline (Option.some.inj hhead)
        | cons e others => exact hpair others hd (by rw [Option.some.inj hhead])

theorem movedIn_of_not_mem (h : '\n' ∉ text) : movedIn false text = text := by
  induction text with
  | nil => rfl
  | cons c rest ih =>
      rw [List.mem_cons, not_or] at h
      rw [movedIn_cons (fun heq => h.1 heq.symm), ih h.2]
      · rfl
      · intro _ hhead
        exact h.2 (List.mem_of_mem_head? hhead)

theorem not_mem_margin (atStart : Bool) : '\n' ∉ margin atStart := by
  cases atStart <;> decide

theorem mem_movedIn_iff : '\n' ∈ movedIn atStart text ↔ '\n' ∈ text := by
  fun_induction movedIn atStart text with
  | case1 => simp [not_mem_margin]
  | case2 atStart rest ih => simp
  | case3 atStart rest ih => simp
  | case4 atStart c rest hpair hbreak ih =>
      have hne : '\n' ≠ c := fun heq => hbreak heq.symm
      simp [not_mem_margin, hne, ih]

/-- A text that ends in a dash goes on after its first character, unless that is the dash. -/
theorem getLast?_of_cons (hend : (c :: text).getLast? = some '-') (hne : c ≠ '-') :
    text.getLast? = some '-' := by
  rw [List.getLast?_cons] at hend
  cases hlast : text.getLast? with
  | none => exact absurd (by simpa [hlast] using hend) hne
  | some last => simpa [hlast] using hend

theorem not_prefix_margin (hend : text.getLast? = some '-') :
    ¬ text <+: margin true ++ movedIn false (text ++ rest) := by
  induction text with
  | nil => cases hend
  | cons c more ih =>
      intro hprefix
      obtain ⟨rfl, hspace⟩ := List.cons_prefix_cons.1 hprefix
      apply ih (getLast?_of_cons hend (by decide))
      rw [List.cons_append, movedIn_cons (by decide) (fun heq => absurd heq (by decide))] at hspace
      exact hspace

/-- What begins with the text, and is moved in, no longer begins with it: not on a new line, and not on the
first one if the text has a line end. -/
theorem not_prefix_movedIn (hmoved : atStart = true ∨ '\n' ∈ text) (hend : text.getLast? = some '-') :
    ¬ text <+: movedIn atStart (text ++ rest) := by
  induction text generalizing atStart with
  | nil => cases hend
  | cons c more ih =>
      intro hprefix
      by_cases hline : c = '\n'
      · subst hline
        have hmore := (List.cons_prefix_cons.1 hprefix).2
        exact ih (.inl rfl) (getLast?_of_cons hend (by decide)) hmore
      · by_cases hreturn : c = '\r' ∧ (more ++ rest).head? = some '\n'
        · obtain ⟨rfl, hhead⟩ := hreturn
          obtain ⟨tail, htail⟩ := List.head?_eq_some_iff.1 hhead
          rw [List.cons_append, htail] at hprefix
          exact absurd (List.cons_prefix_cons.1 hprefix).1 (by decide)
        · have hcons : ∀ start, movedIn start (c :: (more ++ rest)) =
              margin start ++ c :: movedIn false (more ++ rest) :=
            fun _ => movedIn_cons hline (fun hc hhead => hreturn ⟨hc, hhead⟩)
          rw [List.cons_append, hcons] at hprefix
          cases atStart with
          | true =>
              have hnot : ¬ (c :: more) <+: margin true ++ movedIn false (c :: more ++ rest) :=
                not_prefix_margin hend
              rw [List.cons_append, hcons] at hnot
              exact hnot hprefix
          | false =>
              have hmem : '\n' ∈ more := by simpa [Ne.symm hline] using hmoved
              have hmore := (List.cons_prefix_cons.1 hprefix).2
              refine ih (.inr hmem) ?_ hmore
              rw [← hend, List.getLast?_cons_of_ne_nil (List.ne_nil_of_mem hmem)]

end

/-- In a block the text is written as the other one, whatever follows on its last line. -/
structure Moves (text shown : String) : Prop where
  ends : ∃ last, text.toList.getLast? = some last ∧ last ≠ '\n'
  eq : ∀ rest, movedIn true (text.toList ++ rest) = shown.toList ++ movedIn false rest

namespace Moves

/-- After a gap the next text begins on a line of its own. -/
def Gap (gap : String) : Prop :=
  ∀ rest, movedIn false (gap.toList ++ rest) = gap.toList ++ movedIn true rest

theorem append {gap first second first' second' : String} (hgap : Gap gap) (h : Moves first first')
    (h' : Moves second second') : Moves (first ++ gap ++ second) (first' ++ gap ++ second') where
  ends := by
    obtain ⟨last, hlast, hne⟩ := h'.ends
    exact ⟨last, by simp [List.getLast?_append, hlast], hne⟩
  eq rest := by
    simp only [String.toList_append, List.append_assoc]
    rw [h.eq, hgap, h'.eq]

theorem intercalate {α : Type} {gap : String} (hgap : Gap gap) {f g : α → String} {items : List α}
    (hne : items ≠ []) (h : ∀ item, Moves (f item) (g item)) :
    Moves (gap.intercalate (items.map f)) (gap.intercalate (items.map g)) := by
  induction items with
  | nil => exact absurd rfl hne
  | cons item rest ih =>
      cases rest with
      | nil => simpa using h item
      | cons next others =>
          have hrest := ih (List.cons_ne_nil next others)
          simpa only [List.map_cons, String.intercalate_cons_cons] using (h item).append hgap hrest

end Moves

end Text

/-! ## Lines -/

namespace Stylesheet

/-- Lines with their ends between them, moved in; the first one only if it begins there. -/
def placed (atStart : Bool) : List (List Char) → List Char
  | [] => []
  | first :: others =>
      (if atStart then indentLine first else first) ++ others.flatMap (fun line => '\n' :: indentLine line)

theorem placed_cons_cons (atStart : Bool) (c : Char) (first : List Char) (others : List (List Char)) :
    placed atStart ((c :: first) :: others) = Text.margin atStart ++ c :: placed false (first :: others) := by
  cases atStart <;> rfl

theorem placed_nil_cons (atStart : Bool) {lines : List (List Char)} (h : lines ≠ []) :
    placed atStart ([] :: lines) = '\n' :: placed true lines := by
  cases lines with
  | nil => exact absurd rfl h
  | cons first others => cases atStart <;> simp [placed, indentLine]

theorem lines_ne_nil {text : List Char} (h : text ≠ []) : lines text ≠ [] := by
  fun_cases lines text with
  | case1 => exact absurd rfl h
  | _ => exact List.cons_ne_nil _ _

/-- A text that does not end a line is moved in as its lines are. -/
theorem movedIn_eq_placed {text : List Char} {atStart : Bool} (hend : text.getLast? ≠ some '\n')
    (hstart : text ≠ [] ∨ atStart = false) : Text.movedIn atStart text = placed atStart (lines text) := by
  fun_induction lines text generalizing atStart with
  | case1 =>
      have hfalse : atStart = false := by simpa using hstart
      subst hfalse
      rfl
  | case2 rest ih =>
      cases rest with
      | nil => exact absurd rfl hend
      | cons c more =>
          rw [placed_nil_cons _ (lines_ne_nil (List.cons_ne_nil c more)), Text.movedIn,
            ih (by simpa using hend) (.inl (List.cons_ne_nil c more))]
  | case3 rest ih =>
      cases rest with
      | nil => exact absurd rfl hend
      | cons c more =>
          rw [placed_nil_cons _ (lines_ne_nil (List.cons_ne_nil c more)), Text.movedIn,
            ih (by simpa using hend) (.inl (List.cons_ne_nil c more))]
  | case4 c rest hpair hbreak hlines ih =>
      obtain rfl : rest = [] := Decidable.byContradiction fun hne => lines_ne_nil hne hlines
      rw [placed_cons_cons, Text.movedIn_cons hbreak (by simp)]
      rfl
  | case5 c rest hpair hbreak first others hlines ih =>
      have hrest : rest.getLast? ≠ some '\n' := by
        intro hlast
        exact hend (by rw [List.getLast?_cons, hlast]; rfl)
      rw [placed_cons_cons, ← hlines, ← ih hrest (.inr rfl), Text.movedIn_cons hbreak]
      intro hc hhead
      obtain ⟨tail, htail⟩ := List.head?_eq_some_iff.1 hhead
      exact hpair tail hc htail

theorem intercalate_line (lines : List (List Char)) :
    ['\n'].intercalate (lines.map indentLine) = placed true lines := by
  induction lines with
  | nil => rfl
  | cons first others ih =>
      cases others with
      | nil => simp [placed]
      | cons second more =>
        rw [List.map_cons, List.map_cons, List.intercalate_cons_cons, ← List.map_cons, ih]
        simp [placed]

theorem indent_eq {text shown : String} (h : Text.Moves text shown) : indent text = shown := by
  obtain ⟨last, hlast, hline⟩ := h.ends
  have hne : text.toList ≠ [] := by
    intro hnil
    rw [hnil] at hlast
    cases hlast
  have hend : text.toList.getLast? ≠ some '\n' := by
    rw [hlast]
    exact fun heq => hline (Option.some.inj heq)
  have hmoved := h.eq []
  rw [List.append_nil, movedIn_eq_placed hend (.inl hne), ← intercalate_line] at hmoved
  apply String.toList_injective
  simpa [indent, Function.comp_def, Text.movedIn, Text.margin] using hmoved

end Stylesheet

/-! ## Rules that are written -/

namespace Layout

/-- How far the rules at a breakpoint are moved in. -/
def margin : Layout → Breakpoint → String
  | .lines, .desktop => "  "
  | _, _ => ""

/-- A text within a line of a rule, as it shows in the printed sheet. -/
def shown : Layout → Breakpoint → String → String
  | .lines, .desktop, text => String.ofList (Text.movedIn false text.toList)
  | _, _, text => text

end Layout

namespace StyleRule

/-- The rule with its declarations as they show. -/
def shown (layout : Layout) (b : Breakpoint) (rule : StyleRule) : StyleRule :=
  { rule with declarations := rule.declarations.map (fun d =>
      ⟨layout.shown b d.property, layout.shown b d.value⟩) }

/-- The selector as it shows, and the declarations as they are. -/
def write (layout : Layout) (b : Breakpoint) (rule : StyleRule) : String :=
  match layout with
  | .minified =>
      layout.shown b rule.selector.text ++ "\x7b" ++
        ";".intercalate (rule.declarations.map (fun d => d.property ++ ":" ++ d.value)) ++ "\x7d"
  | .lines =>
      layout.margin b ++ layout.shown b rule.selector.text ++ " \x7b\n" ++
        "\n".intercalate (rule.declarations.map (fun d =>
          layout.margin b ++ "  " ++ d.property ++ ": " ++ d.value ++ ";")) ++
        "\n" ++ layout.margin b ++ "\x7d"

end StyleRule

namespace Stylesheet

/-- The sheet with its declarations as they show. -/
def shown (layout : Layout) (sheet : Stylesheet) : Stylesheet :=
  { sheet with
    base := sheet.base.map (StyleRule.shown layout .mobile)
    wide := sheet.wide.map (StyleRule.shown layout .desktop) }

/-- The header, the rules at every width, and in a block those from the desktop width on. -/
def write (layout : Layout) (sheet : Stylesheet) : String :=
  match layout with
  | .minified =>
      sheet.header ++ String.join (sheet.base.map (StyleRule.write .minified .mobile)) ++
        ("@media (width >= " ++ sheet.minWidth ++ ")\x7b" ++
          String.join (sheet.wide.map (StyleRule.write .minified .desktop)) ++ "\x7d")
  | .lines =>
      "\n\n".intercalate (sheet.header :: sheet.base.map (StyleRule.write .lines .mobile) ++
        ["@media (width >= " ++ sheet.minWidth ++ ") \x7b\n" ++
          "\n\n".intercalate (sheet.wide.map (StyleRule.write .lines .desktop)) ++ "\n\x7d"]) ++ "\n"

end Stylesheet

/-! ## What is printed is written -/

theorem Selector.exists_cons (selector : Selector) :
    ∃ c rest, selector.text.toList = c :: rest ∧ c ≠ '\n' ∧ c ≠ '\r' := by
  cases selector with
  | root => exact ⟨':', _, rfl, by decide, by decide⟩
  | className name => exact ⟨'.', escape name.toList, by simp [text], by decide, by decide⟩

theorem Selector.moves (selector : Selector) :
    Text.Moves (selector.text ++ " \x7b") ("  " ++ Layout.lines.shown .desktop selector.text ++ " \x7b") where
  ends := ⟨'\x7b', by simp [List.getLast?_append], by decide⟩
  eq rest := by
    obtain ⟨c, more, htext, hline, hreturn⟩ := selector.exists_cons
    have hstart : Text.movedIn true (c :: more) = ' ' :: ' ' :: Text.movedIn false (c :: more) := by
      rw [Text.movedIn_cons hline (fun heq => absurd heq hreturn),
        Text.movedIn_cons hline (fun heq => absurd heq hreturn)]
      rfl
    have hopen : Text.movedIn true (c :: more ++ ' ' :: '\x7b' :: rest) =
        Text.movedIn true (c :: more) ++ ' ' :: '\x7b' :: Text.movedIn false rest :=
      Text.movedIn_append (by decide) (by decide)
    rw [hstart] at hopen
    simpa [htext, Layout.shown] using hopen

theorem Declaration.moves (d : Declaration) :
    Text.Moves ("  " ++ d.property ++ ": " ++ d.value ++ ";")
      ("    " ++ Layout.lines.shown .desktop d.property ++ ": " ++ Layout.lines.shown .desktop d.value ++ ";") where
  ends := ⟨';', by simp [List.getLast?_append, List.getLast?_cons], by decide⟩
  eq rest := by
    have hvalue : Text.movedIn false (d.value.toList ++ ';' :: rest) =
        Text.movedIn false d.value.toList ++ ';' :: Text.movedIn false rest :=
      Text.movedIn_append (by decide) (by decide)
    have hproperty : Text.movedIn false (d.property.toList ++ ':' :: ' ' :: (d.value.toList ++ ';' :: rest)) =
        Text.movedIn false d.property.toList ++ ':' :: ' ' :: Text.movedIn false (d.value.toList ++ ';' :: rest) :=
      Text.movedIn_append (by decide) (by decide)
    simp [Layout.shown, Text.movedIn, Text.margin, hproperty, hvalue]

theorem Text.moves_brace : Text.Moves "\x7d" "  \x7d" where
  ends := ⟨'\x7d', rfl, by decide⟩
  eq rest := rfl

theorem StyleRule.moves (rule : StyleRule) :
    Text.Moves (rule.render .lines) ((rule.shown .lines .desktop).write .lines .desktop) := by
  have hline : Text.Moves.Gap "\n" := fun _ => rfl
  have hblank : Text.Moves.Gap "\n\n" := fun _ => rfl
  cases hnone : rule.declarations with
  | nil =>
      have hrule := rule.selector.moves.append hblank Text.moves_brace
      simpa [StyleRule.render, StyleRule.write, StyleRule.shown, Layout.margin, hnone, String.append_assoc] using hrule
  | cons first others =>
      have hbody := Text.Moves.intercalate hline (List.cons_ne_nil first others) Declaration.moves
      have hrule := (rule.selector.moves.append hline hbody).append hline Text.moves_brace
      simpa [StyleRule.render, StyleRule.write, StyleRule.shown, Layout.margin, hnone, Function.comp_def,
        String.append_assoc] using hrule

namespace StyleRule

theorem shown_minified (b : Breakpoint) : StyleRule.shown .minified b = id := by
  funext rule
  simp [shown, Layout.shown]

theorem shown_mobile (layout : Layout) : StyleRule.shown layout .mobile = id := by
  funext rule
  cases layout <;> simp [shown, Layout.shown]

theorem write_minified (b : Breakpoint) : StyleRule.write .minified b = StyleRule.render .minified := rfl

theorem write_mobile : StyleRule.write .lines .mobile = StyleRule.render .lines := by
  funext rule
  simp [write, render, Layout.margin, Layout.shown, String.append_assoc]

end StyleRule

namespace Stylesheet

theorem query_eq (width tail : String) :
    "@media " ++ ("(width >= " ++ width ++ ")") ++ tail = "@media (width >= " ++ width ++ (")" ++ tail) := by
  have hopen : "@media (width >= " = "@media " ++ "(width >= " := rfl
  rw [hopen]
  simp only [String.append_assoc]

theorem media_lines (width : String) (rules : List StyleRule) :
    media .lines ("(width >= " ++ width ++ ")") (join .lines (rules.map (StyleRule.render .lines))) =
      "@media (width >= " ++ width ++ ") \x7b\n" ++
        "\n\n".intercalate ((rules.map (StyleRule.shown .lines .desktop)).map
          (StyleRule.write .lines .desktop)) ++ "\n\x7d" := by
  have hindent : indent (join .lines (rules.map (StyleRule.render .lines))) =
      "\n\n".intercalate ((rules.map (StyleRule.shown .lines .desktop)).map
        (StyleRule.write .lines .desktop)) := by
    rw [List.map_map]
    cases rules with
    | nil => rfl
    | cons first others =>
        have hblank : Text.Moves.Gap "\n\n" := fun _ => rfl
        exact indent_eq (Text.Moves.intercalate hblank (List.cons_ne_nil first others) StyleRule.moves)
  rw [media, hindent, query_eq]
  rfl

theorem media_minified (width body : String) :
    media .minified ("(width >= " ++ width ++ ")") body = "@media (width >= " ++ width ++ ")\x7b" ++ body ++ "\x7d" := by
  rw [media, query_eq]
  rfl

theorem join_between (first last : String) (blocks : List String) :
    String.join (first :: blocks ++ [last]) = first ++ String.join blocks ++ last := by
  simp [String.append_assoc]

/-- What is printed is the sheet as it shows, written rule by rule. -/
theorem render_eq_write (layout : Layout) (sheet : Stylesheet) :
    sheet.render layout = (sheet.shown layout).write layout := by
  cases layout with
  | minified =>
      simp only [shown, write, StyleRule.shown_minified, List.map_id, StyleRule.write_minified]
      rw [render, media_minified, join, join_between]
      rfl
  | lines =>
      simp only [shown, write, StyleRule.shown_mobile, List.map_id, StyleRule.write_mobile]
      rw [render, media_lines, join]
      rfl

end Stylesheet

end DesignTokens
