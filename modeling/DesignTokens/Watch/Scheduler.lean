/-!
# Scheduling rebuilds

Requests are gathered until none has come for a while; then one rebuild starts. Requests during a
rebuild lead to one more rebuild after it.
-/

namespace DesignTokens

/-- Milliseconds after some fixed start. -/
abbrev Time := Nat

inductive ScheduleState where
  | idle
  /-- A rebuild is due when the deadline has come. -/
  | debouncing (deadline : Time)
  /-- A rebuild is under way; `rerun` tells of requests made meanwhile. -/
  | running (rerun : Bool)
deriving DecidableEq

structure Scheduler where
  /-- How long requests are gathered. -/
  debounce : Time
  state : ScheduleState
deriving DecidableEq

namespace Scheduler

def start (debounce : Time) : Scheduler := ⟨debounce, .idle⟩

/-- Takes note of a change. -/
def request (s : Scheduler) (now : Time) : Scheduler :=
  match s.state with
  | .running _ => { s with state := .running true }
  | _ => { s with state := .debouncing (now + s.debounce) }

/-- Tells whether a rebuild starts now. -/
def pollReady (s : Scheduler) (now : Time) : Scheduler × Bool :=
  match s.state with
  | .debouncing deadline =>
      if deadline ≤ now then ({ s with state := .running false }, true) else (s, false)
  | _ => (s, false)

/-- Takes note of the end of a rebuild. -/
def finish (s : Scheduler) (now : Time) : Scheduler :=
  match s.state with
  | .running true => { s with state := .debouncing (now + s.debounce) }
  | .running false => { s with state := .idle }
  | _ => s

def nextDeadline? (s : Scheduler) : Option Time :=
  match s.state with
  | .debouncing deadline => some deadline
  | _ => none

end Scheduler

end DesignTokens
