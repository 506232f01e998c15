import Planar.CommandLine

/-!
# The program

The outer layer of the command line: it carries out the plan of a run on files and streams, and
leaves every decision to `Planar.CommandLine`.
-/

namespace Planar.CommandLine

/-- Writes those lines of the log that are wanted. -/
def putLog (level : Level) (lines : List LogLine) : IO Unit := do
  let stderr ← IO.getStderr
  for line in lines do
    if level.admits line.level then stderr.putStr line.text

/-- Carries out a plan on the files of the system. -/
def Plan.perform (level : Level) : Plan → IO UInt32
  | exit code => return code.toUInt32
  | fail fault => throw (IO.userError fault.message)
  | log lines rest => do
    putLog level lines
    rest.perform level
  | print text rest => do
    IO.print text
    rest.perform level
  | read path rest => do
    let content ← IO.FS.readFile path
    (rest content).perform level
  | makeParents path rest => do
    IO.FS.createDirAll (Path.text (Path.root path) (Path.parts path).dropLast)
    rest.perform level
  | write path content rest => do
    IO.FS.writeFile path content
    rest.perform level

/-- Shows the report of a run that does not get as far as a plan. -/
def Report.put (report : Report) : IO UInt32 := do
  IO.print report.output
  (← IO.getStderr).putStr report.errors
  if let some escape := report.escaped then throw (IO.userError escape.message)
  if let some fault := report.uncaught then throw (IO.userError fault.message)
  return report.exitCode.toUInt32

end Planar.CommandLine

open Planar.CommandLine in
/-- Evaluates the program file that is named on the command line. -/
def main (args : List String) : IO UInt32 := do
  match opening args with
  | .help =>
    IO.println "usage: geoexpr [-h] [--log-level LOG_LEVEL] [--no-validate]"
    IO.println "               [--tikz-output-path TIKZ_OUTPUT_PATH] [--padding PADDING] path"
    return 0
  | .refused report => report.put
  | .program level args => (plan level args).perform level
