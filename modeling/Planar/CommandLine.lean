import Planar.CommandLine.Arguments
import Planar.CommandLine.Plan
import Planar.Drawing.Picture
import Planar.Expr.Evaluation
import Planar.Expr.Parser
import Planar.Expr.Printer

/-!
# The command line

A run reads a program, checks, normalizes and evaluates it, and prints the normalized program and
its result. If asked to, it then draws the literals and the result and writes the picture to a
file. A failure that is foreseen is logged as one error and ends the run.
-/

namespace Planar.CommandLine

open Logged

/-- A program that has been evaluated, and what is printed about it. -/
structure Evaluated where
  normalized : Expr Float
  value : Value Float
  printed : String

/-! ## Stages -/

-- A run computes with doubles. Their operations are a parameter, so that the same run can be looked
-- at with another division.
variable [Scalar Float]

/-- The sorts of fault that are foreseen while a program is evaluated. -/
def evaluationFaults : List FaultSort := [.name, .value]

/-- The sorts of fault that are foreseen while a document is drawn. -/
def drawingFaults : List FaultSort := [.value]

/-- Reads, checks, normalizes and evaluates a program. -/
def evaluateText (level : Level) (args : Arguments) (text : String) : Logged Evaluated := do
  write (note ("Parsing program from " ++ args.path))
  let e ← ofExcept .reported (Expr.parse text)
  if args.validate then
    ofExcept .ofViolation e.validate
    write (note "Validation succeeded")
  let normalized ← ofTraced evaluationFaults level e.normalize
  let value ← ofTraced evaluationFaults level (normalized.evaluateIn none)
  let listing ← ofExcept (.of evaluationFaults) (normalized.program Expr.defaultIndent)
  let result ← ofExcept (.of evaluationFaults) value.format
  return ⟨normalized, value, "Normalized:\n" ++ listing ++ "Result: " ++ result ++ "\n"⟩

/-- The values in the order of their labels `L1`, `L2` and so on. -/
def numbered (first : Nat) : List (Value Float) → List (String × Value Float)
  | [] => []
  | v :: more => ("L" ++ toString first, v) :: numbered (first + 1) more

/-- What the picture of a program shows: its literals and its result. -/
def drawnEntries (level : Level) (evaluated : Evaluated) :
    Logged (List (String × Value Float)) := do
  let literals ← ofTraced [] level evaluated.normalized.literals
  return numbered 1 literals ++ [("result", evaluated.value)]

/-- Draws labelled values, among them a result, as a document. -/
def drawDocument (level : Level) (args : Arguments) (entries : List (String × Value Float)) :
    Logged String := do
  let settings : Settings Float := .default
  let settings := { settings with padding := args.padding.getD settings.padding }
  let title := Path.name args.path
  ofTraced drawingFaults level (document .default entries ["result"] (some title) (some settings))

/-! ## Runs -/

/-- The note before a document is written. -/
def writingNote (path : String) : LogLine := note ("Writing TikZ document to " ++ path)

/-- What is printed after a document is written. -/
def writtenText (path : String) : String := "TikZ document written to " ++ path ++ "\n"

/-- The path of the picture, if one is asked for. -/
def Arguments.picturePath? (args : Arguments) : Option String := args.tikzPath.filter (· ≠ "")

/-- The plan to draw an evaluated program and to write the picture to `path`. -/
def planPicture (level : Level) (args : Arguments) (evaluated : Evaluated) (path : String) : Plan :=
  let shown := Path.normal path
  .after (drawnEntries level evaluated) fun entries =>
  -- The directories are made before anything is drawn.
  .makeParents path <|
  .after (drawDocument level args entries) fun content =>
  .log [writingNote shown] <|
  .write shown content <|
  .print (writtenText shown) <|
  .exit 0

/-- The plan for the text of a program. -/
def planText (level : Level) (args : Arguments) (text : String) : Plan :=
  .after (evaluateText level args text) fun evaluated =>
  .print evaluated.printed <|
  match args.picturePath? with
  | none => .exit 0
  | some path => planPicture level args evaluated path

/-- The plan for given arguments: a program is read from a file. -/
def plan (level : Level) (args : Arguments) : Plan :=
  .read args.path fun content =>
  planText level args (String.ofList (Text.unifyBreaks content.toList))

/-- A run on the text of a program. -/
def runText (store : Store) (level : Level) (args : Arguments) (text : String) : Outcome :=
  (planText level args text).on store

/-- A run with given arguments. -/
def runWith (store : Store) (level : Level) (args : Arguments) : Outcome :=
  (plan level args).on store

/-! ## Whole runs -/

/-- What keeps a whole run from ending by itself: a level or a file that is not as it should be. -/
inductive Escape where
  | level (fault : LevelFault)
  | file (fault : FileFault)
deriving DecidableEq

/-- What an escape says. -/
def Escape.message : Escape → String
  | level fault => fault.message
  | file fault => fault.message

/-- What a whole run shows: how it ends, what it prints and logs, and the files it creates. -/
structure Report where
  exitCode : Nat
  escaped : Option Escape
  uncaught : Option Fault
  output : String
  errors : String
  created : List (String × String)

/-- What is shown of a run on a store that logs from the given level on. -/
def Outcome.report (outcome : Outcome) (store : Store) (level : Level) : Report :=
  let report : Report :=
    ⟨0, none, none, outcome.output, outcome.logText level, outcome.created store⟩
  match outcome.ending with
  | .exit code => { report with exitCode := code }
  | .blocked fault => { report with escaped := some (.file fault) }
  | .uncaught fault => { report with uncaught := some fault }

/-- What a usage fault shows. -/
def UsageFault.report (fault : UsageFault) : Report :=
  ⟨2, none, none, "", "geoexpr: error: " ++ fault.message ++ "\n", []⟩

/-- What a fault of the level shows. -/
def LevelFault.report (fault : LevelFault) : Report := ⟨0, some (.level fault), none, "", "", []⟩

/-- What the arguments of a whole run come to. -/
inductive Opening where
  /-- Help is wanted. -/
  | help
  /-- The arguments are not accepted. -/
  | refused (report : Report)
  /-- A program is to be run. -/
  | program (level : Level) (args : Arguments)

/-- Reads the arguments of a whole run. -/
def opening (args : List String) : Opening :=
  match Arguments.read args with
  | .error .help => .help
  | .error (.usage fault) => .refused fault.report
  | .ok args =>
    match levelOf args.logLevel with
    | .error fault => .refused fault.report
    | .ok level => .program level args

/-- A whole run on a store. The text of the help is left to the outer layer. -/
def run (store : Store) (args : List String) : Report :=
  match opening args with
  | .help => ⟨0, none, none, "", "", []⟩
  | .refused report => report
  | .program level args => (runWith store level args).report store level

end Planar.CommandLine
