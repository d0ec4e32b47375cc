import Mathlib.Data.List.Basic
import DesignTokens.Proofs.CommandLine.Taking

/-!
# Arguments written back

A command with flags can be asked for by writing its fields: a spelling of the flag, and after it the
value, if the flag takes one. Reading a written field sets this field and leaves the other ones as they
are, so the fields may be written in any order, and those at their defaults need not be written. The
commands that can be asked for are those whose times are positive counts of 64 bits, with an interval
other than the default one only where there is polling.
-/

namespace DesignTokens

/-! ## Words and values -/

namespace FirstRunPolicy

/-- The words that name a policy on the command line. -/
def words : FirstRunPolicy → List String
  | .markAll => ["markAll", "mark-all", "all"]
  | .markNone => ["markNone", "mark-none", "none"]

theorem ofWord?_of_mem_words {policy : FirstRunPolicy} {word : String} (h : word ∈ policy.words) :
    ofWord? word = some policy := by
  cases policy with
  | markAll =>
      simp only [words, List.mem_cons, List.not_mem_nil, or_false] at h
      simp [ofWord?, h]
  | markNone =>
      simp only [words, List.mem_cons, List.not_mem_nil, or_false] at h
      obtain rfl | rfl | rfl := h <;> decide

end FirstRunPolicy

namespace Flag

/-- No word spells two flags. -/
theorem ofWord?_of_mem_spellings {flag : Flag} {word : String} (h : word ∈ flag.spellings) :
    ofWord? word = some flag := by
  cases flag <;> simp only [spellings, List.mem_cons, List.not_mem_nil, or_false] at h <;>
    obtain rfl | rfl | rfl := h <;> decide

theorem name_mem_spellings (flag : Flag) : flag.name ∈ flag.spellings := by
  cases flag <;> decide

end Flag

namespace Settings

theorem natOfDigits_eq_ofDigitChars {digits : List Char} (h : ∀ c ∈ digits, c.isDigit = true) :
    Text.natOfDigits 10 digits = Nat.ofDigitChars 10 digits 0 := by
  rw [Text.natOfDigits, Nat.ofDigitChars_eq_foldl]
  apply List.foldl_ext
  intro n c hc
  simp [Text.digit?, h c hc]

/-- A count is read back from its decimal digits. -/
theorem count?_toString {n : Nat} (hpos : 0 < n) (hle : n ≤ countLimit) : count? (toString n) = some n := by
  have hdigit : ∀ c ∈ Nat.toDigits 10 n, c.isDigit = true := fun c hc =>
    Nat.isDigit_of_mem_toDigits (by decide) (by decide) hc
  have hnumber : Text.natOfDigits 10 (Nat.toDigits 10 n) = n := by
    rw [natOfDigits_eq_ofDigitChars hdigit, Nat.ofDigitChars_ten_toDigits]
  have hall : (Nat.toDigits 10 n).all Char.isDigit = true := List.all_eq_true.2 hdigit
  -- No sign stands before the digits, so the reader takes all of them.
  have hsign : ∀ rest, Nat.toDigits 10 n = '+' :: rest → False := by
    intro rest heq
    exact absurd (hdigit '+' (by simp [heq])) (by decide)
  simp only [count?, Nat.toString_eq_repr, Nat.toList_repr]
  rw [hnumber, if_pos ⟨Nat.toDigits_ne_nil, hall, hpos, hle⟩]

theorem bounds_of_count? {text : String} {n : Nat} (h : count? text = some n) : 0 < n ∧ n ≤ countLimit := by
  simp only [count?, Option.ite_none_right_eq_some, Option.some.injEq] at h
  obtain ⟨⟨-, -, hpos, hle⟩, rfl⟩ := h
  exact ⟨hpos, hle⟩

/-! ## Fields written back -/

/-- The settings agree in the field that a flag sets. -/
def SameIn (s t : Settings) : Flag → Prop
  | .config => s.build.config = t.build.config
  | .outDir => s.build.outDir = t.build.outDir
  | .snapshot => s.build.snapshot = t.build.snapshot
  | .onFirstRun => s.build.onFirstRun = t.build.onFirstRun
  | .minify => s.build.minify = t.build.minify
  | .poll => s.watch.poll = t.watch.poll
  | .pollInterval => s.watch.pollInterval = t.watch.pollInterval
  | .debounce => s.watch.debounce = t.watch.debounce

theorem eq_of_sameIn {s t : Settings} (h : ∀ flag, s.SameIn t flag) : s = t := by
  obtain ⟨⟨config, outDir, snapshot, onFirstRun, minify⟩, ⟨poll, pollInterval, debounce⟩⟩ := s
  obtain rfl : config = _ := h .config
  obtain rfl : outDir = _ := h .outDir
  obtain rfl : snapshot = _ := h .snapshot
  obtain rfl : onFirstRun = _ := h .onFirstRun
  obtain rfl : minify = _ := h .minify
  obtain rfl : poll = _ := h .poll
  obtain rfl : pollInterval = _ := h .pollInterval
  obtain rfl : debounce = _ := h .debounce
  rfl

/-- True of a flag without value whose field is set. -/
def isOn (s : Settings) : Flag → Bool
  | .minify => s.build.minify
  | .poll => s.watch.poll
  | _ => false

/-- The values that set a flag's field to what it is. An interval is written only with polling. -/
def valuesOf (s : Settings) : Flag → List String
  | .config => [s.build.config]
  | .outDir => [s.build.outDir]
  | .snapshot => s.build.snapshot.toList
  | .onFirstRun => (s.build.onFirstRun.map FirstRunPolicy.words).getD []
  | .pollInterval => if s.watch.poll then [toString s.watch.pollInterval] else []
  | .debounce => [toString s.watch.debounce]
  | .minify => []
  | .poll => []

/-- The words write the field of a flag. -/
inductive Writes (s : Settings) (flag : Flag) : List String → Prop
  | switch {word : String} : word ∈ flag.spellings → s.isOn flag = true → Writes s flag [word]
  | value {word text : String} : word ∈ flag.spellings → text ∈ s.valuesOf flag → Writes s flag [word, text]

/-- Groups of words, each with its flag, that write settings for a mode. Every field that is not at its
default is written; one may be written more than once. -/
structure Writing (mode : Mode) (s : Settings) (groups : List (Flag × List String)) : Prop where
  known : ∀ group ∈ groups, mode = .watch ∨ group.1.isWatchOnly = false
  writes : ∀ group ∈ groups, s.Writes group.1 group.2
  complete : ∀ flag, s.SameIn .default flag ∨ flag ∈ groups.map (·.1)

end Settings

/-- Times are positive counts of 64 bits, and the interval is the default one unless there is polling. -/
structure WatchOptions.IsProper (options : WatchOptions) : Prop where
  pollInterval : 0 < options.pollInterval ∧ options.pollInterval ≤ Settings.countLimit
  debounce : 0 < options.debounce ∧ options.debounce ≤ Settings.countLimit
  poll : options.poll = true ∨ options.pollInterval = 500

namespace Settings

variable {s t : Settings} {flag : Flag}

theorem setCount_of_count? {value : String} {n : Nat} (h : count? value = some n) (set : Nat → WatchOptions) :
    s.setCount flag value set = .ok { s with watch := set n } := by
  simp only [setCount, h]

/-! ## Reading what was written -/

/-- From `s` to `changed`, the field of a flag becomes that of `t`, and no field gets away from `t`. -/
structure Approaches (t s changed : Settings) (flag : Flag) : Prop where
  reached : changed.SameIn t flag
  kept : ∀ other, s.SameIn t other → changed.SameIn t other

theorem approaches_switchOn (hon : t.isOn flag = true) : Approaches t s (s.switchOn flag) flag := by
  cases flag with
  | minify =>
      have hminify : t.build.minify = true := hon
      refine ⟨hminify.symm, fun other hsame => ?_⟩
      cases other with
      | minify => exact hminify.symm
      | _ => exact hsame
  | poll =>
      have hpoll : t.watch.poll = true := hon
      refine ⟨hpoll.symm, fun other hsame => ?_⟩
      cases other with
      | poll => exact hpoll.symm
      | _ => exact hsame
  | _ => cases hon

theorem exists_set (ht : t.watch.IsProper) {text : String} (h : text ∈ t.valuesOf flag) :
    ∃ changed, s.set flag text = .ok changed ∧ Approaches t s changed flag := by
  cases flag with
  | config =>
      obtain rfl : text = t.build.config := List.mem_singleton.1 h
      refine ⟨_, rfl, rfl, fun other hsame => ?_⟩
      cases other with
      | config => rfl
      | _ => exact hsame
  | outDir =>
      obtain rfl : text = t.build.outDir := List.mem_singleton.1 h
      refine ⟨_, rfl, rfl, fun other hsame => ?_⟩
      cases other with
      | outDir => rfl
      | _ => exact hsame
  | snapshot =>
      have hpath : t.build.snapshot = some text := by simpa [valuesOf] using h
      refine ⟨_, rfl, hpath.symm, fun other hsame => ?_⟩
      cases other with
      | snapshot => exact hpath.symm
      | _ => exact hsame
  | onFirstRun =>
      cases hpolicy : t.build.onFirstRun with
      | none => simp [valuesOf, hpolicy] at h
      | some policy =>
          have hword : FirstRunPolicy.ofWord? text = some policy :=
            FirstRunPolicy.ofWord?_of_mem_words (by simpa [valuesOf, hpolicy] using h)
          have hset : s.set .onFirstRun text =
              .ok { s with build := { s.build with onFirstRun := some policy } } := by
            simp only [set, hword]
          refine ⟨_, hset, hpolicy.symm, fun other hsame => ?_⟩
          cases other with
          | onFirstRun => exact hpolicy.symm
          | _ => exact hsame
  | pollInterval =>
      -- An interval turns polling on, which is so in `t` too, or no interval would be written.
      have hpoll : t.watch.poll = true ∧ text = toString t.watch.pollInterval := by
        simpa [valuesOf] using h
      obtain ⟨hpoll, rfl⟩ := hpoll
      have hcount := count?_toString ht.pollInterval.1 ht.pollInterval.2
      refine ⟨_, setCount_of_count? hcount _, rfl, fun other hsame => ?_⟩
      cases other with
      | pollInterval => rfl
      | poll => exact hpoll.symm
      | _ => exact hsame
  | debounce =>
      obtain rfl : text = toString t.watch.debounce := List.mem_singleton.1 h
      have hcount := count?_toString ht.debounce.1 ht.debounce.2
      refine ⟨_, setCount_of_count? hcount _, rfl, fun other hsame => ?_⟩
      cases other with
      | debounce => rfl
      | _ => exact hsame
  | _ => cases h

theorem takesValue_of_isOn (h : t.isOn flag = true) : flag.takesValue = false := by
  cases flag with
  | minify | poll => rfl
  | _ => cases h

theorem takesValue_of_mem {text : String} (h : text ∈ t.valuesOf flag) : flag.takesValue = true := by
  cases flag with
  | minify | poll => cases h
  | _ => rfl

/-- Reading a written field goes on with the words after it. -/
theorem exists_read_append {mode : Mode} {words : List String} (ht : t.watch.IsProper)
    (hknown : mode.Knows flag) (h : t.Writes flag words) (s : Settings) :
    ∃ changed, Approaches t s changed flag ∧
      ∀ rest, read mode s (words ++ rest) = read mode changed rest := by
  cases h with
  | switch hword hon =>
      refine ⟨s.switchOn flag, approaches_switchOn hon, fun rest => ?_⟩
      have htakes : Takes s flag (_ :: rest) _ rest :=
        .switch (Flag.ofWord?_of_mem_spellings hword) (takesValue_of_isOn hon)
      exact htakes.read_eq hknown
  | value hword htext =>
      obtain ⟨changed, hset, happroaches⟩ := exists_set (s := s) ht htext
      refine ⟨changed, happroaches, fun rest => ?_⟩
      have htakes : Takes s flag (_ :: _ :: rest) changed rest :=
        .value (Flag.ofWord?_of_mem_spellings hword) (takesValue_of_mem htext) hset
      exact htakes.read_eq hknown

/-- Fields that are not among the written ones must be right from the start. -/
theorem read_flatMap {mode : Mode} (ht : t.watch.IsProper) {groups : List (Flag × List String)}
    (hknown : ∀ group ∈ groups, mode = .watch ∨ group.1.isWatchOnly = false)
    (hwrites : ∀ group ∈ groups, t.Writes group.1 group.2)
    (hstart : ∀ flag, s.SameIn t flag ∨ flag ∈ groups.map (·.1)) :
    read mode s (groups.flatMap (·.2)) = .ok t := by
  induction groups generalizing s with
  | nil =>
      have hsame : s = t := eq_of_sameIn (fun flag => by simpa using hstart flag)
      rw [hsame, List.flatMap_nil, read]
  | cons group rest ih =>
      obtain ⟨hfirst, hmore⟩ := List.forall_mem_cons.1 hknown
      obtain ⟨hwritten, hothers⟩ := List.forall_mem_cons.1 hwrites
      obtain ⟨changed, happroaches, hread⟩ := exists_read_append ht hfirst hwritten s
      rw [List.flatMap_cons, hread]
      apply ih hmore hothers
      intro flag
      rcases hstart flag with hsame | hmem
      · exact .inl (happroaches.kept flag hsame)
      · rcases List.mem_cons.1 hmem with rfl | hlater
        · exact .inl happroaches.reached
        · exact .inr hlater

theorem SameIn.symm (h : s.SameIn t flag) : t.SameIn s flag := by
  cases flag <;> exact Eq.symm h

theorem Writing.read_eq {mode : Mode} {groups : List (Flag × List String)} (h : Writing mode t groups)
    (ht : t.watch.IsProper) : read mode .default (groups.flatMap (·.2)) = .ok t :=
  read_flatMap ht h.known h.writes (fun flag => (h.complete flag).imp_left SameIn.symm)

/-! ## What reading leaves -/

theorem isProper_default : default.watch.IsProper where
  pollInterval := by decide
  debounce := by decide
  poll := .inr rfl

theorem isProper_switchOn (h : s.watch.IsProper) : (s.switchOn flag).watch.IsProper := by
  cases flag with
  | poll => exact ⟨h.pollInterval, h.debounce, .inl rfl⟩
  | _ => exact h

theorem isProper_set {value : String} {changed : Settings} (h : s.watch.IsProper)
    (hset : s.set flag value = .ok changed) : changed.watch.IsProper := by
  cases flag with
  | onFirstRun =>
      simp only [set] at hset
      split at hset
      · cases hset
        exact h
      · cases hset
  | pollInterval =>
      simp only [set, setCount] at hset
      split at hset
      · rename_i n hcount
        cases hset
        exact ⟨bounds_of_count? hcount, h.debounce, .inl rfl⟩
      · cases hset
  | debounce =>
      simp only [set, setCount] at hset
      split at hset
      · rename_i n hcount
        cases hset
        exact ⟨h.pollInterval, bounds_of_count? hcount, h.poll⟩
      · cases hset
  | _ =>
      cases hset
      exact h

theorem Takes.isProper {changed : Settings} {args rest : List String} (htakes : Takes s flag args changed rest)
    (h : s.watch.IsProper) : changed.watch.IsProper := by
  cases htakes with
  | switch => exact isProper_switchOn h
  | value _ _ hset => exact isProper_set h hset

theorem isProper_read {mode : Mode} {words : List String} {found : Settings} (h : s.watch.IsProper)
    (hread : read mode s words = .ok found) : found.watch.IsProper := by
  obtain ⟨flags, htakes, -⟩ := read_eq_ok_iff.1 hread
  clear hread
  induction htakes with
  | done s => exact h
  | next hfirst _ ih => exact ih (hfirst.isProper h)

/-! ## A way to write settings -/

/-- A field that is not at its default can be written. -/
theorem exists_writes (hs : s.watch.IsProper) (h : ¬ s.SameIn .default flag) :
    ∃ words, s.Writes flag words := by
  cases flag with
  | config => exact ⟨_, .value (Flag.name_mem_spellings _) (List.mem_singleton.2 rfl)⟩
  | outDir => exact ⟨_, .value (Flag.name_mem_spellings _) (List.mem_singleton.2 rfl)⟩
  | snapshot =>
      obtain ⟨path, hpath⟩ := Option.ne_none_iff_exists'.1 h
      exact ⟨_, .value (Flag.name_mem_spellings _) (by simpa [valuesOf] using hpath)⟩
  | onFirstRun =>
      obtain ⟨policy, hpolicy⟩ := Option.ne_none_iff_exists'.1 h
      obtain ⟨word, hword⟩ : ∃ word, word ∈ policy.words := by
        cases policy <;> exact ⟨_, List.mem_cons_self⟩
      exact ⟨_, .value (Flag.name_mem_spellings _) (by simpa [valuesOf, hpolicy] using hword)⟩
  | minify => exact ⟨_, .switch (Flag.name_mem_spellings _) (by simpa [SameIn, isOn, default] using h)⟩
  | poll => exact ⟨_, .switch (Flag.name_mem_spellings _) (by simpa [SameIn, isOn, default] using h)⟩
  | pollInterval =>
      have hpoll : s.watch.poll = true := hs.poll.resolve_right h
      have hvalues : s.valuesOf .pollInterval = [toString s.watch.pollInterval] := if_pos hpoll
      exact ⟨_, .value (Flag.name_mem_spellings _) (hvalues ▸ List.mem_singleton.2 rfl)⟩
  | debounce => exact ⟨_, .value (Flag.name_mem_spellings _) (List.mem_singleton.2 rfl)⟩

/-- Groups for those of some flags whose fields are not at their defaults. -/
theorem exists_groups {mode : Mode} (hs : s.watch.IsProper) (hmode : mode = .watch ∨ s.watch = default.watch)
    (flags : List Flag) : ∃ groups : List (Flag × List String),
      (∀ group ∈ groups, mode = .watch ∨ group.1.isWatchOnly = false) ∧
        (∀ group ∈ groups, s.Writes group.1 group.2) ∧
        ∀ flag ∈ flags, s.SameIn .default flag ∨ flag ∈ groups.map (·.1) := by
  induction flags with
  | nil => exact ⟨[], by simp⟩
  | cons flag rest ih =>
      obtain ⟨groups, hknown, hwrites, hcomplete⟩ := ih
      by_cases hsame : s.SameIn .default flag
      · exact ⟨groups, hknown, hwrites, List.forall_mem_cons.2 ⟨.inl hsame, hcomplete⟩⟩
      · obtain ⟨words, hwords⟩ := exists_writes hs hsame
        have hflag : mode = .watch ∨ flag.isWatchOnly = false := by
          refine hmode.imp_right fun hwatch => ?_
          cases flag with
          | poll | pollInterval | debounce => exact absurd (by simp [SameIn, hwatch]) hsame
          | _ => rfl
        refine ⟨(flag, words) :: groups, List.forall_mem_cons.2 ⟨hflag, hknown⟩,
          List.forall_mem_cons.2 ⟨hwords, hwrites⟩,
          List.forall_mem_cons.2 ⟨.inr List.mem_cons_self, fun other hother => ?_⟩⟩
        exact (hcomplete other hother).imp_right (List.mem_cons_of_mem _)

theorem exists_writing {mode : Mode} (hs : s.watch.IsProper) (hmode : mode = .watch ∨ s.watch = default.watch) :
    ∃ groups, Writing mode s groups := by
  obtain ⟨groups, hknown, hwrites, hcomplete⟩ := exists_groups hs hmode Flag.all
  exact ⟨groups, hknown, hwrites, fun flag => hcomplete flag (by cases flag <;> decide)⟩

end Settings

/-! ## Commands -/

namespace Command

def IsProper : Command → Prop
  | .watch _ options => options.IsProper
  | _ => True

/-- The mode of a command with flags, and all that they set. -/
def request? : Command → Option (Mode × Settings)
  | .help => none
  | .build args => some (.build, ⟨args, Settings.default.watch⟩)
  | .watch args options => some (.watch, ⟨args, options⟩)

/-- The command of settings that were read in a mode. -/
def ofSettings : Mode → Settings → Command
  | .build, s => .build s.build
  | .watch, s => .watch s.build s.watch

theorem parse_word (mode : Mode) (flags : List String) :
    parse (mode.word :: flags) = (Settings.read mode .default flags).map (ofSettings mode) := by
  cases mode <;> rfl

/-- A command other than `help` comes from flags after its word. -/
theorem exists_read_of_parse {words : List String} {command : Command} (h : parse words = .ok command) :
    command = .help ∨ ∃ mode flags s, words = mode.word :: flags ∧
      Settings.read mode .default flags = .ok s ∧ ofSettings mode s = command := by
  have hread : ∀ mode flags, parse (mode.word :: flags) = .ok command →
      ∃ s, Settings.read mode .default flags = .ok s ∧ ofSettings mode s = command := by
    intro mode flags hparse
    rw [parse_word] at hparse
    cases hread : Settings.read mode .default flags with
    | error e =>
        rw [hread] at hparse
        cases hparse
    | ok s =>
        rw [hread] at hparse
        exact ⟨s, rfl, Except.ok.inj hparse⟩
  cases words with
  | nil => exact .inl (Except.ok.inj h).symm
  | cons word flags =>
      by_cases hbuild : word = "build"
      · subst hbuild
        exact .inr ⟨.build, flags, (hread .build flags h).imp fun _ hs => ⟨rfl, hs⟩⟩
      by_cases hwatch : word = "watch"
      · subst hwatch
        exact .inr ⟨.watch, flags, (hread .watch flags h).imp fun _ hs => ⟨rfl, hs⟩⟩
      rw [parse, if_neg hbuild, if_neg hwatch] at h
      split at h
      · exact .inl (Except.ok.inj h).symm
      · cases h

theorem isProper_of_parse {words : List String} {command : Command} (h : parse words = .ok command) :
    command.IsProper := by
  rcases exists_read_of_parse h with rfl | ⟨mode, flags, s, -, hread, rfl⟩
  · trivial
  · cases mode with
    | build => trivial
    | watch => exact Settings.isProper_read Settings.isProper_default hread

theorem ofSettings_of_request? {command : Command} {mode : Mode} {s : Settings}
    (h : command.request? = some (mode, s)) : ofSettings mode s = command := by
  cases command <;> cases h <;> rfl

theorem IsProper.of_request? {command : Command} {mode : Mode} {s : Settings} (h : command.IsProper)
    (hrequest : command.request? = some (mode, s)) :
    s.watch.IsProper ∧ (mode = .watch ∨ s.watch = Settings.default.watch) := by
  cases command with
  | help => cases hrequest
  | build args =>
      cases hrequest
      exact ⟨Settings.isProper_default, .inr rfl⟩
  | watch args options =>
      cases hrequest
      exact ⟨h, .inl rfl⟩

/-- Exactly the proper commands can be asked for, and each of them by writing its fields in any order. -/
theorem parsed_back (command : Command) :
    ((∃ words, parse words = .ok command) ↔ command.IsProper) ∧
      ∀ mode s groups, command.IsProper → command.request? = some (mode, s) →
        Settings.Writing mode s groups → parse (mode.word :: groups.flatMap (·.2)) = .ok command := by
  have hback : ∀ mode s groups, command.IsProper → command.request? = some (mode, s) →
      Settings.Writing mode s groups → parse (mode.word :: groups.flatMap (·.2)) = .ok command := by
    intro mode s groups hproper hrequest hwriting
    rw [parse_word, hwriting.read_eq (hproper.of_request? hrequest).1, ← ofSettings_of_request? hrequest]
    rfl
  refine ⟨⟨fun ⟨words, hwords⟩ => isProper_of_parse hwords, fun hproper => ?_⟩, hback⟩
  cases hrequest : command.request? with
  | none =>
      cases command with
      | help => exact ⟨[], rfl⟩
      | _ => cases hrequest
  | some request =>
      obtain ⟨hwatch, hmode⟩ := hproper.of_request? hrequest
      obtain ⟨groups, hwriting⟩ := Settings.exists_writing hwatch hmode
      exact ⟨_, hback _ _ groups hproper hrequest hwriting⟩

/-- Values that look like flags. -/
def flagLikeWatch : Command :=
  .watch ⟨"--poll", "-o", some "--debounce", some .markNone, true⟩ ⟨true, 250, 300⟩

theorem parsed_back_flagLike :
    flagLikeWatch.IsProper ∧
      parse ["watch", "--poll-interval", "250", "-o", "-o", "--minify", "--snapshot", "--debounce",
        "--on-first-run", "none", "--debounce", "300", "--poll", "-c", "--poll"] = .ok flagLikeWatch := by
  have hproper : flagLikeWatch.IsProper := ⟨by decide, by decide, .inl rfl⟩
  refine ⟨hproper, (parsed_back flagLikeWatch).2 .watch _ [(.pollInterval, ["--poll-interval", "250"]),
    (.outDir, ["-o", "-o"]), (.minify, ["--minify"]), (.snapshot, ["--snapshot", "--debounce"]),
    (.onFirstRun, ["--on-first-run", "none"]), (.debounce, ["--debounce", "300"]), (.poll, ["--poll"]),
    (.config, ["-c", "--poll"])] hproper rfl ⟨?_, ?_, ?_⟩⟩
  · intro group _
    exact .inl rfl
  · simp only [List.forall_mem_cons]
    exact ⟨.value (by decide) (by decide), .value (by decide) (by decide), .switch (by decide) rfl,
      .value (by decide) (by decide), .value (by decide) (by decide), .value (by decide) (by decide),
      .switch (by decide) rfl, .value (by decide) (by decide), by simp⟩
  · intro flag
    exact .inr (by cases flag <;> decide)

end Command

end DesignTokens
