import Planar.CommandLine.LogLevel
import Planar.CommandLine.Logged
import Planar.CommandLine.Store

/-!
# Plans

What a run does with the world around it: it writes lines of the log and prints, reads a file, makes
directories and writes a file, and the rest may depend on what a file holds. A plan says so step by
step. It is carried out on a store of files, or on the files of the system by the outer layer of the
program.
-/

namespace Planar.CommandLine

/-- What a run is going to do. -/
inductive Plan where
  /-- The run ends by itself. -/
  | exit (code : Nat)
  /-- A fault that was not foreseen ends the run. -/
  | fail (fault : Fault)
  | log (lines : List LogLine) (rest : Plan)
  | print (text : String) (rest : Plan)
  | read (path : String) (rest : String → Plan)
  /-- The directories above a path are made. -/
  | makeParents (path : String) (rest : Plan)
  | write (path content : String) (rest : Plan)

/-- Goes on after a stage: its lines are logged, and a failure ends the run. -/
def Plan.after {β : Type} (stage : Logged β) (next : β → Plan) : Plan :=
  .log stage.2 <|
    match stage.1 with
    | .ok b => next b
    | .error (.reported message) => .log [complaint message] (.exit 1)
    | .error (.uncaught fault) => .fail fault

/-! ## Outcomes -/

/-- How a run ends: by itself with an exit code, or with a fault of the files or one that was not
foreseen. -/
inductive Ending where
  | exit (code : Nat)
  | blocked (fault : FileFault)
  | uncaught (fault : Fault)
deriving DecidableEq

/-- What a run leaves behind: its output and its log, and the files it writes with their places. -/
structure Outcome where
  ending : Ending
  output : String
  log : List LogLine
  written : List (Place × String)

namespace Outcome

/-- A run that ends without further ado. -/
def ended (ending : Ending) : Outcome := ⟨ending, "", [], []⟩

/-- The log as text: the lines from the given level on. -/
def logText (outcome : Outcome) (level : Level) : String :=
  String.join ((outcome.log.filter fun line => level.admits line.level).map LogLine.text)

/-- The new files in the working directory of a store, with their paths, after a run from there. -/
def created (outcome : Outcome) (store : Store) : List (String × String) :=
  outcome.written.filterMap fun (place, content) => (store.newPath? place).map (·, content)

end Outcome

/-- Carries out a plan on a store. -/
def Plan.on : Plan → Store → Outcome
  | exit code, _ => .ended (.exit code)
  | fail fault, _ => .ended (.uncaught fault)
  | log lines rest, store =>
    let outcome := rest.on store
    { outcome with log := lines ++ outcome.log }
  | print text rest, store =>
    let outcome := rest.on store
    { outcome with output := text ++ outcome.output }
  | read path rest, store =>
    match store.read path with
    | .error fault => .ended (.blocked fault)
    | .ok content => (rest content).on store
  | makeParents path rest, store =>
    match store.makeParents path with
    | .error fault => .ended (.blocked fault)
    | .ok made => rest.on made
  | write path content rest, store =>
    match store.target path with
    | .error fault => .ended (.blocked fault)
    | .ok place =>
      let outcome := rest.on (store.put place (.file content))
      { outcome with written := (place, content) :: outcome.written }

end Planar.CommandLine
