import DesignTokens.CommandLine.Arguments

/-!
# Flags taken off the arguments

Reading takes one flag after another off the arguments, each with its value if it takes one. What a flag
does depends neither on the mode nor on the arguments after it; the mode only says which flags are known.
-/

namespace DesignTokens

/-- The flags of a mode. -/
def Mode.Knows (mode : Mode) (flag : Flag) : Prop :=
  mode = .watch ∨ flag.isWatchOnly = false

theorem Mode.knows_iff {mode : Mode} {flag : Flag} :
    mode.Knows flag ↔ ¬ (mode = .build ∧ flag.isWatchOnly = true) := by
  cases mode <;> simp [Knows]

namespace Settings

variable {s t changed : Settings} {flag : Flag} {args rest : List String} {mode : Mode}

/-! ## One flag -/

/-- Taking a flag off the arguments changes the settings and leaves the rest, in either mode. -/
inductive Takes (s : Settings) (flag : Flag) : List String → Settings → List String → Prop
  | switch {word : String} {rest : List String} :
      Flag.ofWord? word = some flag → flag.takesValue = false →
        Takes s flag (word :: rest) (s.switchOn flag) rest
  | value {word text : String} {rest : List String} {changed : Settings} :
      Flag.ofWord? word = some flag → flag.takesValue = true → s.set flag text = .ok changed →
        Takes s flag (word :: text :: rest) changed rest

theorem Takes.read_eq (h : Takes s flag args changed rest) (hknows : mode.Knows flag) :
    read mode s args = read mode changed rest := by
  have hallowed := Mode.knows_iff.1 hknows
  cases h with
  | switch hword hvalue =>
      simp only [read, hword, if_neg hallowed, hvalue, Bool.false_eq_true, if_false]
  | value hword hvalue hset =>
      simp only [read, hword, if_neg hallowed, hvalue, if_true, hset]

/-! ## All flags -/

/-- Flags are taken one after another until no arguments are left. -/
inductive TakesAll : Settings → List Flag → List String → Settings → Prop
  | done (s : Settings) : TakesAll s [] [] s
  | next {s t changed : Settings} {flag : Flag} {flags : List Flag} {args rest : List String} :
      Takes s flag args changed rest → TakesAll changed flags rest t → TakesAll s (flag :: flags) args t

/-- A mode reads the arguments off which flags can be taken that it knows. -/
theorem read_eq_ok_iff :
    read mode s args = .ok t ↔ ∃ flags, TakesAll s flags args t ∧ ∀ flag ∈ flags, mode.Knows flag := by
  constructor
  · intro hread
    fun_induction read mode s args with
    | case1 s =>
        cases hread
        exact ⟨[], .done _, by simp⟩
    | case2 s word rest hword => cases hread
    | case3 s word rest flag hword honly => cases hread
    | case4 s word flag hword hallowed hvalue => cases hread
    | case5 s word flag hword hallowed hvalue text more e hset => cases hread
    | case6 s word flag hword hallowed hvalue text more changed hset ih =>
        obtain ⟨flags, htakes, hknows⟩ := ih hread
        refine ⟨flag :: flags, .next (.value hword hvalue hset) htakes, ?_⟩
        exact List.forall_mem_cons.2 ⟨Mode.knows_iff.2 hallowed, hknows⟩
    | case7 s word rest flag hword hallowed hvalue ih =>
        obtain ⟨flags, htakes, hknows⟩ := ih hread
        refine ⟨flag :: flags, .next (.switch hword (Bool.eq_false_iff.2 hvalue)) htakes, ?_⟩
        exact List.forall_mem_cons.2 ⟨Mode.knows_iff.2 hallowed, hknows⟩
  · intro h
    obtain ⟨flags, htakes, hknows⟩ := h
    induction htakes with
    | done s => rfl
    | next hfirst _ ih =>
        obtain ⟨hknown, hmore⟩ := List.forall_mem_cons.1 hknows
        rw [hfirst.read_eq hknown]
        exact ih hmore

end Settings

end DesignTokens
