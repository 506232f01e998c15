import Planar.Expr.Scope
import Planar.Trace.Summary

/-!
# Stages of a run

A run goes through a few stages, each of which writes lines of the log and yields a result or fails.
A stage foresees some sorts of fault: these are reported as one error. Any other fault leaves the
run as it is.
-/

namespace Planar.CommandLine

/-- A line of the log. -/
structure LogLine where
  level : Level
  channel : Channel
  message : String

/-- A line of the log as text. -/
def LogLine.text (line : LogLine) : String :=
  line.level.name ++ ":" ++ line.channel.name ++ ":" ++ line.message ++ "\n"

/-- A note about the progress of a run. -/
def note (message : String) : LogLine := ⟨.info, .command, message⟩

/-- The error that ends a run. -/
def complaint (message : String) : LogLine := ⟨.error, .command, message⟩

/-- An event as a line of the log. -/
def LogLine.ofEvent (event : Event Float) : LogLine := ⟨event.level, event.channel, event.message⟩

/-- Why a stage fails: with a message to be reported, or with a fault that was not foreseen. -/
inductive Failure where
  | reported (message : String)
  | uncaught (fault : Fault)
deriving DecidableEq

/-- A fault as the failure of a stage that foresees faults of some sorts. -/
def Failure.of (foreseen : List FaultSort) (fault : Fault) : Failure :=
  if fault.sort ∈ foreseen then .reported fault.message else .uncaught fault

/-- A broken rule as a failure; that the placeholder has no coordinates is no rule. -/
def Failure.ofViolation : Violation → Failure
  | .noCoordinates => .uncaught .noCoordinates
  | violation => .reported violation.message

/-- A stage of a run: it may fail, and it writes lines of the log. -/
def Logged (β : Type) : Type := Except Failure β × List LogLine

namespace Logged

variable {β γ : Type}

/-- Goes on after a stage. -/
def andThen (stage : Logged β) (next : β → Logged γ) : Logged γ :=
  match stage with
  | (.ok b, lines) => let (result, more) := next b; (result, lines ++ more)
  | (.error failure, lines) => (.error failure, lines)

instance : Monad Logged where
  pure b := (.ok b, [])
  bind := andThen

/-- Writes a line of the log. -/
def write (line : LogLine) : Logged Unit := (.ok (), [line])

/-- A traced run as a stage that foresees faults of some sorts. -/
def ofTraced (foreseen : List FaultSort) (level : Level) (run : Traced Float β) : Logged β :=
  let (result, events) := run level
  (result.mapError (Failure.of foreseen), events.map LogLine.ofEvent)

/-- Something that is known or has failed as a stage. -/
def ofExcept {ε : Type} (failure : ε → Failure) (result : Except ε β) : Logged β :=
  (result.mapError failure, [])

end Logged

end Planar.CommandLine
