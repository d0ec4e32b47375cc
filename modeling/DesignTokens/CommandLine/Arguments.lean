import DesignTokens.Policy
import DesignTokens.Text.Digits

/-!
# Command line arguments

A command word and flags. A flag with a value takes the next argument, whatever it looks like.
-/

namespace DesignTokens

structure BuildArgs where
  config : String
  outDir : String
  snapshot : Option String
  onFirstRun : Option FirstRunPolicy
  minify : Bool
deriving DecidableEq

/-- How changes of the config are noticed; times are in milliseconds. -/
structure WatchOptions where
  poll : Bool
  pollInterval : Nat
  debounce : Nat
deriving DecidableEq

inductive Command where
  | help
  | build (args : BuildArgs)
  | watch (args : BuildArgs) (options : WatchOptions)
deriving DecidableEq

/-- The two commands that take flags. -/
inductive Mode where
  | build
  | watch
deriving DecidableEq

namespace Mode

def word : Mode → String
  | .build => "build"
  | .watch => "watch"

end Mode

inductive Flag where
  | config
  | outDir
  | snapshot
  | onFirstRun
  | minify
  | poll
  | pollInterval
  | debounce
deriving DecidableEq

namespace Flag

def all : List Flag :=
  [.config, .outDir, .snapshot, .onFirstRun, .minify, .poll, .pollInterval, .debounce]

/-- The spellings of a flag; the first one names it in errors. -/
def spellings : Flag → List String
  | .config => ["--config", "-c"]
  | .outDir => ["--out-dir", "--output", "-o"]
  | .snapshot => ["--snapshot"]
  | .onFirstRun => ["--on-first-run"]
  | .minify => ["--minify"]
  | .poll => ["--poll"]
  | .pollInterval => ["--poll-interval"]
  | .debounce => ["--debounce"]

def name (flag : Flag) : String :=
  flag.spellings.headD ""

def ofWord? (word : String) : Option Flag :=
  all.find? (fun flag => flag.spellings.contains word)

def takesValue : Flag → Bool
  | .minify => false
  | .poll => false
  | _ => true

/-- True of the flags that only `watch` has. -/
def isWatchOnly : Flag → Bool
  | .poll => true
  | .pollInterval => true
  | .debounce => true
  | _ => false

end Flag

inductive ArgumentError where
  | unknownCommand (word : String)
  | unexpected (word : String)
  | onlyWithWatch (flag : Flag)
  | missingValue (mode : Mode) (flag : Flag)
  | noPolicy (value : String)
  | notPositive (flag : Flag) (value : String)
deriving DecidableEq

namespace ArgumentError

def message : ArgumentError → String
  | .unknownCommand word => "unknown command: " ++ word
  | .unexpected word => "unexpected argument: " ++ word
  | .onlyWithWatch flag => flag.name ++ " is only supported with watch"
  | .missingValue mode flag => mode.word ++ " requires a value for " ++ flag.name
  | .noPolicy value => "--on-first-run expects markAll or markNone, got '" ++ value ++ "'"
  | .notPositive flag value => flag.name ++ " requires a positive integer, got '" ++ value ++ "'"

end ArgumentError

/-- All that flags can set. -/
structure Settings where
  build : BuildArgs
  watch : WatchOptions
deriving DecidableEq

namespace Settings

def default : Settings where
  build := ⟨"tokens.toml", "dist", none, none, false⟩
  watch := ⟨false, 500, 300⟩

/-- The largest count of milliseconds. -/
def countLimit : Nat := Nat.pow 2 64 - 1

/-- A positive whole number of at most 64 bits; a plus sign may stand before it. -/
def count? (text : String) : Option Nat :=
  let digits := match text.toList with
    | '+' :: rest => rest
    | other => other
  let n := Text.natOfDigits 10 digits
  if digits ≠ [] ∧ digits.all Char.isDigit ∧ 0 < n ∧ n ≤ countLimit then some n else none

/-- Sets a flag that takes no value. -/
def switchOn (flag : Flag) (s : Settings) : Settings :=
  match flag with
  | .minify => { s with build := { s.build with minify := true } }
  | .poll => { s with watch := { s.watch with poll := true } }
  | _ => s

def setCount (flag : Flag) (value : String) (set : Nat → WatchOptions) (s : Settings) :
    Except ArgumentError Settings :=
  match count? value with
  | some n => .ok { s with watch := set n }
  | none => .error (.notPositive flag value)

/-- Sets a flag to a value. A poll interval turns polling on. -/
def set (flag : Flag) (value : String) (s : Settings) : Except ArgumentError Settings :=
  match flag with
  | .config => .ok { s with build := { s.build with config := value } }
  | .outDir => .ok { s with build := { s.build with outDir := value } }
  | .snapshot => .ok { s with build := { s.build with snapshot := some value } }
  | .onFirstRun =>
      match FirstRunPolicy.ofWord? value with
      | some policy => .ok { s with build := { s.build with onFirstRun := some policy } }
      | none => .error (.noPolicy value)
  | .pollInterval =>
      s.setCount flag value (fun n => { s.watch with poll := true, pollInterval := n })
  | .debounce => s.setCount flag value (fun n => { s.watch with debounce := n })
  | .minify => .ok s
  | .poll => .ok s

/-- Reads flags from left to right; of several settings of one flag the last one counts. -/
def read (mode : Mode) : Settings → List String → Except ArgumentError Settings
  | s, [] => .ok s
  | s, word :: rest =>
      match Flag.ofWord? word with
      | none => .error (.unexpected word)
      | some flag =>
          if mode = .build ∧ flag.isWatchOnly then .error (.onlyWithWatch flag)
          else if flag.takesValue then
            match rest with
            | [] => .error (.missingValue mode flag)
            | value :: more =>
                match s.set flag value with
                | .error e => .error e
                | .ok changed => read mode changed more
          else read mode (s.switchOn flag) rest

end Settings

namespace Command

/-- Reads the arguments after the program's name; without any, help is asked for. -/
def parse : List String → Except ArgumentError Command
  | [] => .ok .help
  | word :: flags =>
      if word = "build" then
        (Settings.read .build .default flags).map (fun s => .build s.build)
      else if word = "watch" then
        (Settings.read .watch .default flags).map (fun s => .watch s.build s.watch)
      else if word = "-h" ∨ word = "--help" ∨ word = "help" then .ok .help
      else .error (.unknownCommand word)

end Command

end DesignTokens
