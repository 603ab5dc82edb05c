/-!
# Debouncing

Changes of files come in bursts, and one build has to answer all of a burst. Every change starts a
timer anew; only when a timer expires is a build called for, and builds never overlap: while one is
running, the next has to wait. That a configuration has changed is remembered until a build starts,
and that build is told. Each operation comes in steps, between which others may come: a change is
remembered before its timer starts, and a build is called for before it starts.
-/

namespace TemplHighlight

/-- What has become of a timer. -/
inductive Timer where
  | pending
  | cancelled
  | expired
  deriving DecidableEq

/-- A debouncer. -/
structure Debouncer where
  /-- The timers, in the order in which they were started. -/
  timers : List Timer := []
  /-- Whether a configuration has changed since the last build started. -/
  configChanged : Bool := false
  /-- Whether a build is running. -/
  running : Bool := false
  /-- How many builds are called for and have not started. -/
  waiting : Nat := 0
  deriving DecidableEq

namespace Debouncer

/-- A timer that is pending no longer counts. -/
def cancel : Timer → Timer
  | .pending => .cancelled
  | timer => timer

/-- Cancels the timer that was started last, and starts another. -/
def restart : List Timer → List Timer
  | [] => [.pending]
  | [last] => [cancel last, .pending]
  | timer :: timers => timer :: restart timers

/-- Remembers that a configuration has changed, if it has. -/
def mark (debouncer : Debouncer) (ofConfig : Bool) : Debouncer :=
  { debouncer with configChanged := debouncer.configChanged || ofConfig }

/-- Starts a timer anew. -/
def rearm (debouncer : Debouncer) : Debouncer :=
  { debouncer with timers := restart debouncer.timers }

/-- Takes note of a change. -/
def change (debouncer : Debouncer) (ofConfig : Bool) : Debouncer := (debouncer.mark ofConfig).rearm

/-- Lets a timer expire, if it is pending; one more build is called for then. -/
def ring (debouncer : Debouncer) (number : Nat) : Debouncer :=
  if debouncer.timers[number]? = some .pending then
    { debouncer with
      timers := debouncer.timers.set number .expired
      waiting := debouncer.waiting + 1 }
  else debouncer

/-- Starts a build that is called for, if none is running, and says what it is told. -/
def start (debouncer : Debouncer) : Option Bool × Debouncer :=
  match debouncer.running, debouncer.waiting with
  | false, waiting + 1 =>
    (some debouncer.configChanged,
      { debouncer with running := true, configChanged := false, waiting })
  | _, _ => (none, debouncer)

/-- Ends the build that is running, however it went. -/
def rest (debouncer : Debouncer) : Debouncer := { debouncer with running := false }

/-- Lets a timer expire, if it is pending. Says what the build is told that starts then; if one is
running already, the build has to wait. -/
def expire (debouncer : Debouncer) (number : Nat) : Option Bool × Debouncer :=
  (debouncer.ring number).start

/-- Ends the build that is running, however it went, and starts one that was waiting. -/
def finish (debouncer : Debouncer) : Option Bool × Debouncer := debouncer.rest.start

/-- The timer that is pending, if there is one. -/
def pending? (debouncer : Debouncer) : Option Nat := debouncer.timers.findIdx? (· == .pending)

/-- The number of timers that are pending. -/
def pendingCount (debouncer : Debouncer) : Nat := debouncer.timers.count .pending

end Debouncer

end TemplHighlight
