import DesignTokens.Build
import DesignTokens.Error

/-!
# Running commands

A build from files to files. The baseline moves once the config has been compiled; the output files
are written after it.
-/

namespace DesignTokens

/-- Where snapshots are kept unless the config or the command line says otherwise. -/
def defaultSnapshotPath : String := ".tokenframe/snapshot.json"

namespace Format

/-- Files with the ending `json`, in letters of any case, hold JSON; all others hold TOML. -/
def ofPath (path : String) : Format :=
  match Path.extension? path with
  | some ending => if ending.toList.map Char.toLower = "json".toList then .json else .toml
  | none => .toml

end Format

namespace BuildArgs

/-- The directory of the config. -/
def projectDir (args : BuildArgs) : String :=
  match Path.parent? args.config with
  | some directory => if directory = "" then "." else directory
  | none => "."

/-- The path on the command line as it is; else the path of the config or the default one, seen from
the project directory. -/
def snapshotPath (args : BuildArgs) (options : BuildOptions) : String :=
  match args.snapshot with
  | some path => path
  | none => Path.join args.projectDir (options.snapshotPath.getD defaultSnapshotPath)

def policy (args : BuildArgs) (options : BuildOptions) : ChangePolicy :=
  ⟨args.onFirstRun.getD options.onFirstRun, options.onRemovedClass⟩

def layout (args : BuildArgs) (options : BuildOptions) : Layout :=
  if args.minify || options.minify then .minified else .lines

def cssPath (args : BuildArgs) : String := Path.join args.outDir Build.cssFileName

def docsPath (args : BuildArgs) : String := Path.join args.outDir Build.docsFileName

end BuildArgs

namespace Config

variable {m : Type → Type} [Monad m]

/-- Reads and validates the config in a file. -/
def load (files : FileAccess m) (path : String) : m (Except Error Config) := do
  match ← files.readText path with
  | .error _ => pure (.error (.inaccessible path))
  | .ok text =>
      match Config.parse (Format.ofPath path) text with
      | .error e => pure (.error (.config path e))
      | .ok config => pure (.ok config)

end Config

namespace Command

variable {m : Type → Type} [Monad m]

/-- Writes one output file. -/
def writeOutput (files : FileAccess m) (path text : String) : m (Except Error Unit) := do
  if ← files.write path text then pure (.ok ()) else pure (.error (.inaccessible path))

/-- Writes stylesheet and page, in this order, up to the first failure. -/
def writeOutputs (files : FileAccess m) (args : BuildArgs) (output : BuildOutput) :
    m (Except Error Unit) := do
  if ← files.makeDirectories args.outDir then
    match ← writeOutput files args.cssPath output.css with
    | .error e => pure (.error e)
    | .ok () => writeOutput files args.docsPath output.docs
  else pure (.error (.inaccessible args.outDir))

/-- What is logged about a finished build. -/
def finished (args : BuildArgs) (output : BuildOutput) : Event :=
  ⟨.info, "wrote " ++ args.cssPath ++ " and " ++ args.docsPath,
    [("variables", toString output.variableCount), ("changed", toString output.changes.size)]⟩

def runBuild (files : FileAccess m) (args : BuildArgs) : m (Logged (Except Error Unit)) := do
  match ← Config.load files args.config with
  | .error e => pure ⟨.error e, []⟩
  | .ok config =>
      let store := SnapshotStore.file files (args.snapshotPath config.build)
      let built ← Build.compile store config (args.policy config.build) (args.layout config.build)
      match built.value with
      | .error unknown => pure ⟨.error (.unknownKey unknown), built.events⟩
      | .ok output =>
          match ← writeOutputs files args output with
          | .error e => pure ⟨.error e, built.events⟩
          | .ok () => pure ⟨.ok (), built.events ++ [finished args output]⟩

def helpText : String :=
  "tokenframe\n\nUSAGE:\n" ++
  "  tokenframe build [--config <path>] [--out-dir <dir>] [--snapshot <path>] [--on-first-run markAll|markNone] [--minify]\n" ++
  "  tokenframe watch [build options] [--poll] [--poll-interval <ms>] [--debounce <ms>]\n" ++
  "\nEXAMPLES:\n" ++
  "  tokenframe build -c tokens.toml -o dist\n" ++
  "  tokenframe build -c tokens.json --on-first-run markAll\n" ++
  "  tokenframe watch -c tokens.toml --debounce 250\n" ++
  "  tokenframe watch --poll --poll-interval 250\n"

/-- How a command ends, and what it prints. -/
structure Outcome where
  result : Except Error Unit
  printed : String
  events : List Event

/-- Runs a command. `watch` builds once here; the rebuilds that follow a success are left to the
caller. -/
def run (files : FileAccess m) : Command → m Outcome
  | .help => pure ⟨.ok (), helpText, []⟩
  | .build args => do
      let built ← runBuild files args
      pure ⟨built.value, "", built.events⟩
  | .watch args _ => do
      let built ← runBuild files args
      pure ⟨built.value, "", built.events⟩

end Command

end DesignTokens
