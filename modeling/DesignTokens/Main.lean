import DesignTokens.CommandLine.Run
import DesignTokens.Watch.ContentGate
import DesignTokens.Watch.Scheduler

/-!
# The program

Access to the files of the operating system, the printing of log events, and the loop that rebuilds
when the config changes.
-/

namespace DesignTokens.Program

def diskRead (path : String) : IO (Except ReadFailure ByteArray) := do
  try
    pure (.ok (← IO.FS.readBinFile path))
  catch e =>
    match e with
    | .noFileOrDirectory .. => pure (.error .missing)
    | _ => pure (.error .blocked)

def diskMakeDirectories (path : String) : IO Bool := do
  if path = "" then pure true
  else
    try
      IO.FS.createDirAll path
      pure true
    catch _ => pure false

def diskWrite (path text : String) : IO Bool := do
  try
    IO.FS.writeFile path text
    pure true
  catch _ => pure false

def disk : FileAccess IO where
  read := diskRead
  makeDirectories := diskMakeDirectories
  write := diskWrite

def logEvent (event : Event) : IO Unit := do
  let fields := event.fields.map (fun field => " " ++ field.1 ++ "=" ++ field.2)
  IO.eprintln (event.level.label ++ " tokenframe: " ++ event.message ++ String.join fields)

def report (outcome : Command.Outcome) : IO UInt32 := do
  outcome.events.forM logEvent
  IO.print outcome.printed
  match outcome.result with
  | .ok () => pure 0
  | .error e =>
      IO.eprintln ("error: " ++ e.message)
      pure 1

/-- Milliseconds between two looks at the config, unless polling sets them. -/
def tick : Nat := 200

def rebuild (args : BuildArgs) : IO Unit := do
  logEvent ⟨.info, "change detected, rebuilding...", []⟩
  let built ← Command.runBuild disk args
  built.events.forM logEvent
  match built.value with
  | .ok () => pure ()
  | .error e => logEvent ⟨.error, "build failed: " ++ e.message, []⟩

partial def watchLoop (args : BuildArgs) (interval : Nat) (gate : ContentGate) (scheduler : Scheduler) :
    IO Unit := do
  IO.sleep interval.toUInt32
  let (gate, changed) ← ContentGate.changed disk gate args.config
  let now ← IO.monoMsNow
  let (scheduler, ready) := (if changed then scheduler.request now else scheduler).pollReady now
  if ready then
    rebuild args
    watchLoop args interval gate (scheduler.finish (← IO.monoMsNow))
  else watchLoop args interval gate scheduler

def watch (args : BuildArgs) (options : WatchOptions) : IO Unit := do
  logEvent ⟨.info, "watching " ++ args.config ++ " (press Ctrl+C to stop)", []⟩
  let (gate, _) ← ContentGate.changed disk .empty args.config
  watchLoop args (if options.poll then options.pollInterval else tick) gate
    (Scheduler.start options.debounce)

end DesignTokens.Program

/-- Exits with 1 after an error. -/
def main (arguments : List String) : IO UInt32 := do
  match DesignTokens.Command.parse arguments with
  | .error e =>
      IO.eprintln ("error: " ++ e.message)
      pure 1
  | .ok command =>
      let code ← DesignTokens.Program.report (← DesignTokens.Command.run DesignTokens.Program.disk command)
      if code = 0 then
        match command with
        | .watch args options => DesignTokens.Program.watch args options
        | _ => pure ()
      pure code
