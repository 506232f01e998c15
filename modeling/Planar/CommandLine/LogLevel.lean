import Planar.Text.Quoted
import Planar.Trace

/-!
# Log levels by name

The level from which a run is logged is given as a word in any letter case. Most words that name no
level stand for the usual one; the two that name other settings of a log are faults.
-/

namespace Planar.CommandLine

/-- A letter as capitals: the ASCII letters, and the others whose capitals are ASCII letters. -/
def capitals : Char → List Char
  | 'ß' => ['S', 'S']
  | 'ı' => ['I']
  | 'ſ' => ['S']
  | 'ﬀ' => ['F', 'F']
  | 'ﬁ' => ['F', 'I']
  | 'ﬂ' => ['F', 'L']
  | 'ﬃ' => ['F', 'F', 'I']
  | 'ﬄ' => ['F', 'F', 'L']
  | 'ﬅ' | 'ﬆ' => ['S', 'T']
  | c => [c.toUpper]

/-- Why a word gives no level. -/
inductive LevelFault where
  /-- It names the form of a line. -/
  | lineForm
  /-- It names the table of styles in which such a form can be written. -/
  | styleTable
deriving DecidableEq

/-- The form of a line: a level, a channel and a message. -/
def lineForm : String := "%(levelname)s:%(name)s:%(message)s"

/-- The form of a line in three styles. -/
def lineForms : List (String × String × String) :=
  [("%", "PercentStyle", lineForm),
    ("\x7b", "StrFormatStyle", "\x7blevelname\x7d:\x7bname\x7d:\x7bmessage\x7d"),
    ("$", "StringTemplateStyle", "$\x7blevelname\x7d:$\x7bname\x7d:$\x7bmessage\x7d")]

/-- One row of the table of styles. -/
def styleRow : String × String × String → String
  | (mark, style, form) =>
    Text.quoted mark ++ ": (<class 'logging." ++ style ++ "'>, " ++ Text.quoted form ++ ")"

/-- What a fault of a level says. -/
def LevelFault.message : LevelFault → String
  | .lineForm => "Unknown level: " ++ Text.quoted CommandLine.lineForm
  | .styleTable =>
    "Level not an integer or a valid string: \x7b" ++
      ", ".intercalate (lineForms.map styleRow) ++ "\x7d"

/-- The level that a word names. -/
def levelOf (word : String) : Except LevelFault Level :=
  match String.ofList (word.toList.flatMap capitals) with
  | "DEBUG" | "NOTSET" => .ok .debug
  | "WARNING" | "WARN" => .ok .warning
  | "ERROR" => .ok .error
  | "CRITICAL" | "FATAL" => .ok .critical
  | "BASIC_FORMAT" => .error .lineForm
  | "_STYLES" => .error .styleTable
  | _ => .ok .info

end Planar.CommandLine
