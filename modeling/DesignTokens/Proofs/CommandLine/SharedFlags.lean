import DesignTokens.Proofs.CommandLine.RoundTrip

/-!
# The flags of both commands

What a flag does is the same for both commands; they differ in the flags that they know. So `watch` reads
all that `build` reads, and `build` reads what `watch` reads unless one of the flags taken is known to
`watch` alone.
-/

namespace DesignTokens

/-- A word stands where a flag is looked for, and not as the value of a flag before it. -/
inductive StandsAsFlag (word : String) : List String → Prop
  | here (rest : List String) : StandsAsFlag word (word :: rest)
  | afterValue {before value : String} {rest : List String} {flag : Flag} :
      Flag.ofWord? before = some flag → flag.takesValue = true → StandsAsFlag word rest →
        StandsAsFlag word (before :: value :: rest)
  | afterWord {before : String} {rest : List String} :
      (∀ flag, Flag.ofWord? before = some flag → flag.takesValue = false) → StandsAsFlag word rest →
        StandsAsFlag word (before :: rest)

namespace Flag

theorem mem_spellings_of_ofWord? {word : String} {flag : Flag} (h : ofWord? word = some flag) :
    word ∈ flag.spellings := by
  have hfound := List.find?_some h
  simpa using hfound

/-- The words of the flags that only `watch` has. -/
def watchWords : List String := ["--poll", "--poll-interval", "--debounce"]

theorem mem_watchWords_iff {word : String} {flag : Flag} (h : ofWord? word = some flag) :
    word ∈ watchWords ↔ flag.isWatchOnly = true := by
  have hword := mem_spellings_of_ofWord? h
  cases flag <;> simp only [spellings, List.mem_cons, List.not_mem_nil, or_false] at hword <;>
    obtain rfl | rfl | rfl := hword <;> decide

theorem exists_ofWord?_of_mem_watchWords {word : String} (h : word ∈ watchWords) :
    ∃ flag, ofWord? word = some flag := by
  simp only [watchWords, List.mem_cons, List.not_mem_nil, or_false] at h
  obtain rfl | rfl | rfl := h
  · exact ⟨.poll, by decide⟩
  · exact ⟨.pollInterval, by decide⟩
  · exact ⟨.debounce, by decide⟩

end Flag

namespace Settings

variable {s t changed : Settings} {flag : Flag} {flags : List Flag} {args rest : List String} {mode : Mode}

/-! ## One flag -/

/-- A flag of both commands leaves the options of `watch` alone. -/
theorem Takes.watch_eq (h : Takes s flag args changed rest) (hflag : flag.isWatchOnly = false) :
    changed.watch = s.watch := by
  cases h with
  | switch hword hvalue =>
      cases flag with
      | poll => cases hflag
      | _ => rfl
  | value hword hvalue hset =>
      cases flag with
      | poll | pollInterval | debounce => cases hflag
      | onFirstRun =>
          simp only [set] at hset
          split at hset
          · cases hset
            rfl
          · cases hset
      | _ =>
          cases hset
          rfl

/-- The flags that stand in the arguments are the one that is taken and those of the rest. -/
theorem Takes.standsAsFlag_iff (h : Takes s flag args changed rest) :
    ∃ first, Flag.ofWord? first = some flag ∧
      ∀ word, StandsAsFlag word args ↔ word = first ∨ StandsAsFlag word rest := by
  cases h with
  | @switch first rest hfirst hvalue =>
      refine ⟨first, hfirst, fun word => ⟨fun hstands => ?_, fun hstands => ?_⟩⟩
      · cases hstands with
        | here => exact .inl rfl
        | afterValue hbefore htakes _ =>
            obtain rfl := Option.some.inj (hfirst.symm.trans hbefore)
            rw [hvalue] at htakes
            cases htakes
        | afterWord _ hlater => exact .inr hlater
      · rcases hstands with heq | hlater
        · exact heq ▸ .here rest
        · refine .afterWord (fun other hother => ?_) hlater
          obtain rfl := Option.some.inj (hfirst.symm.trans hother)
          exact hvalue
  | @value first text rest changed hfirst hvalue hset =>
      refine ⟨first, hfirst, fun word => ⟨fun hstands => ?_, fun hstands => ?_⟩⟩
      · cases hstands with
        | here => exact .inl rfl
        | afterValue _ _ hlater => exact .inr hlater
        | afterWord hnone _ =>
            rw [hnone flag hfirst] at hvalue
            cases hvalue
      · rcases hstands with heq | hlater
        · exact heq ▸ .here (text :: rest)
        · exact .afterValue hfirst hvalue hlater

/-! ## All flags -/

theorem TakesAll.watch_eq (h : TakesAll s flags args t) (hflags : ∀ flag ∈ flags, flag.isWatchOnly = false) :
    t.watch = s.watch := by
  induction h with
  | done s => rfl
  | next hfirst _ ih =>
      obtain ⟨hflag, hmore⟩ := List.forall_mem_cons.1 hflags
      exact (ih hmore).trans (hfirst.watch_eq hflag)

/-- The flags taken are those that stand in the arguments. -/
theorem TakesAll.mem_iff (h : TakesAll s flags args t) :
    flag ∈ flags ↔ ∃ word, Flag.ofWord? word = some flag ∧ StandsAsFlag word args := by
  induction h with
  | done s =>
      constructor
      · intro hmem
        cases hmem
      · intro ⟨word, _, hstands⟩
        cases hstands
  | next hfirst _ ih =>
      obtain ⟨first, hword, hstands⟩ := hfirst.standsAsFlag_iff
      rw [List.mem_cons, ih]
      simp only [hstands]
      constructor
      · rintro (rfl | ⟨word, hword, hlater⟩)
        · exact ⟨first, hword, .inl rfl⟩
        · exact ⟨word, hword, .inr hlater⟩
      · intro ⟨word, hother, hplace⟩
        rcases hplace with rfl | hlater
        · exact .inl (Option.some.inj (hother.symm.trans hword))
        · exact .inr ⟨word, hother, hlater⟩

theorem TakesAll.forall_known_iff (h : TakesAll s flags args t) :
    (∀ flag ∈ flags, Mode.build.Knows flag) ↔ ∀ word ∈ Flag.watchWords, ¬ StandsAsFlag word args := by
  constructor
  · intro hknows word hword hstands
    obtain ⟨flag, hflag⟩ := Flag.exists_ofWord?_of_mem_watchWords hword
    have honly := (Flag.mem_watchWords_iff hflag).1 hword
    have hknown := hknows flag (h.mem_iff.2 ⟨word, hflag, hstands⟩)
    simp [Mode.Knows, honly] at hknown
  · intro hnone flag hmem
    obtain ⟨word, hflag, hstands⟩ := h.mem_iff.1 hmem
    refine .inr (Bool.eq_false_iff.2 fun honly => ?_)
    exact hnone word ((Flag.mem_watchWords_iff hflag).2 honly) hstands

/-- What `build` reads is read by `watch` to the same settings, with its own options as they were. -/
theorem read_watch_of_read_build (h : read .build s args = .ok t) :
    read .watch s args = .ok t ∧ t.watch = s.watch := by
  obtain ⟨flags, htakes, hknows⟩ := read_eq_ok_iff.1 h
  have honly : ∀ flag ∈ flags, flag.isWatchOnly = false := fun flag hmem =>
    (hknows flag hmem).resolve_left (by decide)
  exact ⟨read_eq_ok_iff.2 ⟨flags, htakes, fun _ _ => .inl rfl⟩, htakes.watch_eq honly⟩

/-- Of what `watch` reads, `build` reads the arguments in which no flag of `watch` alone stands. -/
theorem exists_read_build_iff (h : read .watch s args = .ok t) :
    (∃ other, read .build s args = .ok other) ↔ ∀ word ∈ Flag.watchWords, ¬ StandsAsFlag word args := by
  constructor
  · intro ⟨other, hother⟩
    obtain ⟨flags, htakes, hknows⟩ := read_eq_ok_iff.1 hother
    exact htakes.forall_known_iff.1 hknows
  · intro hnone
    obtain ⟨flags, htakes, _⟩ := read_eq_ok_iff.1 h
    exact ⟨t, read_eq_ok_iff.2 ⟨flags, htakes, htakes.forall_known_iff.2 hnone⟩⟩

end Settings

namespace Command

variable {args : List String} {command : Command}

theorem parse_eq_ok_iff (mode : Mode) :
    parse (mode.word :: args) = .ok command ↔
      ∃ s, Settings.read mode .default args = .ok s ∧ ofSettings mode s = command := by
  rw [parse_word]
  cases Settings.read mode .default args with
  | error e => simp [Except.map]
  | ok s => simp [Except.map]

/-- `watch` accepts the arguments of `build` with the same build and its own options at their defaults;
`build` accepts those of `watch` exactly if none of the three flags of `watch` alone stands in them, and
then asks for the same build. -/
theorem watch_extends_build (args : List String) :
    (∀ command, parse ("build" :: args) = .ok command →
      ∃ build, command = .build build ∧
        parse ("watch" :: args) = .ok (.watch build ⟨false, 500, 300⟩)) ∧
    ∀ command, parse ("watch" :: args) = .ok command →
      ∃ build options, command = .watch build options ∧
        ((∃ other, parse ("build" :: args) = .ok other) ↔
          ∀ word ∈ ["--poll", "--poll-interval", "--debounce"], ¬ StandsAsFlag word args) ∧
        ∀ other, parse ("build" :: args) = .ok other → other = .build build := by
  have hbuild : ∀ other, parse ("build" :: args) = .ok other ↔
      ∃ s, Settings.read .build .default args = .ok s ∧ Command.build s.build = other :=
    fun other => parse_eq_ok_iff .build
  have hwatch : ∀ other, parse ("watch" :: args) = .ok other ↔
      ∃ s, Settings.read .watch .default args = .ok s ∧ Command.watch s.build s.watch = other :=
    fun other => parse_eq_ok_iff .watch
  constructor
  · intro command hparse
    obtain ⟨s, hread, rfl⟩ := (hbuild command).1 hparse
    obtain ⟨hsame, hoptions⟩ := Settings.read_watch_of_read_build hread
    exact ⟨s.build, rfl, (hwatch _).2 ⟨s, hsame, congrArg (Command.watch s.build) hoptions⟩⟩
  · intro command hparse
    obtain ⟨s, hread, rfl⟩ := (hwatch command).1 hparse
    refine ⟨s.build, s.watch, rfl, ?_, fun other hother => ?_⟩
    · refine Iff.trans ⟨?_, ?_⟩ (Settings.exists_read_build_iff hread)
      · intro ⟨other, hother⟩
        obtain ⟨t, ht, -⟩ := (hbuild other).1 hother
        exact ⟨t, ht⟩
      · intro ⟨t, ht⟩
        exact ⟨_, (hbuild _).2 ⟨t, ht, rfl⟩⟩
    · obtain ⟨t, ht, rfl⟩ := (hbuild other).1 hother
      have hsame := (Settings.read_watch_of_read_build ht).1
      obtain rfl := Except.ok.inj (hread.symm.trans hsame)
      rfl

/-- Values that look like flags of `watch`, and a flag of `watch` after such a value. -/
theorem watch_extends_build_flagLike :
    parse ["watch", "-o", "--poll", "--minify"] =
        .ok (.watch ⟨"tokens.toml", "--poll", none, none, true⟩ ⟨false, 500, 300⟩) ∧
      ¬ ∃ command, parse ["build", "--snapshot", "--debounce", "--poll"] = .ok command := by
  have hbuild : parse ["build", "-o", "--poll", "--minify"] =
      .ok (.build ⟨"tokens.toml", "--poll", none, none, true⟩) := by rfl
  have hwatch : parse ["watch", "--snapshot", "--debounce", "--poll"] =
      .ok (.watch ⟨"tokens.toml", "dist", some "--debounce", none, false⟩ ⟨true, 500, 300⟩) := by rfl
  obtain ⟨build, heq, hparse⟩ := (watch_extends_build _).1 _ hbuild
  obtain ⟨_, _, -, hiff, -⟩ := (watch_extends_build _).2 _ hwatch
  constructor
  · obtain rfl := Command.build.inj heq
    exact hparse
  · rw [hiff]
    intro hnone
    have hsnapshot : Flag.ofWord? "--snapshot" = some .snapshot := by decide
    exact hnone "--poll" (by decide) (.afterValue hsnapshot (by decide) (.here []))

end Command

end DesignTokens
