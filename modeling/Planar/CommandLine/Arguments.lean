import Planar.Decimal.Numeral
import Planar.Text.Quoted

/-!
# Command-line arguments

A program file and some options. An option may be abbreviated as long as it is the only one that
starts so, and its value may follow it or be joined to it by an equals sign. After a pair of dashes
nothing is an option.
-/

namespace Planar.CommandLine

/-- The options. -/
inductive Flag where
  | help | logLevel | noValidate | tikzPath | padding
deriving DecidableEq

/-- Every spelling of an option. -/
def spellings : List (String × Flag) :=
  [("-h", .help), ("--help", .help), ("--log-level", .logLevel), ("--no-validate", .noValidate),
    ("--tikz-output-path", .tikzPath), ("--padding", .padding)]

/-- The name of an option in messages. -/
def Flag.title (flag : Flag) : String :=
  "/".intercalate ((spellings.filter (·.2 = flag)).map (·.1))

/-- Why arguments are not accepted. -/
inductive UsageFault where
  /-- An abbreviation fits several options. -/
  | ambiguous (argument : String) (options : List String)
  /-- An option lacks its value. -/
  | expectsValue (flag : Flag)
  /-- An option without a value is given one. -/
  | takesNoValue (flag : Flag) (value : String)
  /-- The margin is no number. -/
  | notNumber (flag : Flag) (value : String)
  /-- There is no program file. -/
  | noPath
  /-- Some arguments mean nothing. -/
  | unrecognized (arguments : List String)
deriving DecidableEq

/-- What a usage fault says. -/
def UsageFault.message : UsageFault → String
  | ambiguous argument options =>
    "ambiguous option: " ++ argument ++ " could match " ++ ", ".intercalate options
  | expectsValue flag => "argument " ++ flag.title ++ ": expected one argument"
  | takesNoValue flag value =>
    "argument " ++ flag.title ++ ": ignored explicit argument " ++ Text.quoted value
  | notNumber flag value =>
    "argument " ++ flag.title ++ ": invalid float value: " ++ Text.quoted value
  | noPath => "the following arguments are required: path"
  | unrecognized arguments => "unrecognized arguments: " ++ " ".intercalate arguments

/-- A value that is part of the same argument as its option: after an equals sign, or with nothing
in between. -/
inductive Attached where
  | afterEquals (value : String)
  | joined (value : List Char)

/-- An argument, told apart by its form. An option that is not known has no flag. -/
inductive Word where
  | plain (text : String)
  | separator
  | option (flag? : Option Flag) (attached : Option Attached) (text : String)

/-- The parts of a text before and after the first equals sign. -/
def splitEquals (s : String) : String × Option String :=
  let cs := s.toList
  (String.ofList (cs.takeWhile (· ≠ '=')),
    match cs.dropWhile (· ≠ '=') with
    | _ :: value => some (String.ofList value)
    | [] => none)

/-- Whether a text looks like a negative number without an exponent; a line feed may follow. -/
def looksNegative (cs : List Char) : Bool :=
  match cs with
  | '-' :: rest =>
    let more := rest.dropWhile Text.isDigit
    let ended (tail : List Char) : Bool := tail.isEmpty || tail == ['\n']
    if ended more then rest.head?.any Text.isDigit
    else
      match more with
      | '.' :: fraction =>
        fraction.head?.any Text.isDigit && ended (fraction.dropWhile Text.isDigit)
      | _ => false
  | _ => false

/-- The options that an argument may abbreviate, as they are spelled. -/
def completions (s : String) : List (String × Flag × Option Attached) :=
  match s.toList with
  | '-' :: '-' :: _ =>
    let (name, value?) := splitEquals s
    (spellings.filter (·.1.startsWith name)).map fun (spelling, flag) =>
      (spelling, flag, value?.map .afterEquals)
  | '-' :: c :: rest =>
    (spellings.filter (·.1 == String.ofList ['-', c])).map fun (spelling, flag) =>
      (spelling, flag, some (.joined rest))
  | _ => []

/-- Tells the form of an argument. -/
def classify (s : String) : Except UsageFault Word :=
  if s = "--" then .ok .separator
  else if !s.startsWith "-" || s = "-" then .ok (.plain s)
  else
    match spellings.lookup s, splitEquals s with
    | some flag, _ => .ok (.option (some flag) none s)
    | none, (name, value?) =>
      match value?, spellings.lookup name with
      | some value, some flag => .ok (.option (some flag) (some (.afterEquals value)) s)
      | _, _ =>
        match completions s with
        -- What looks like a negative number or holds a space is a value, not an option.
        | [] =>
          .ok (if looksNegative s.toList || s.toList.contains ' ' then .plain s
            else .option none none s)
        | [(_, flag, attached)] => .ok (.option (some flag) attached s)
        | several => .error (.ambiguous s (several.map (·.1)))

/-- Tells the forms of all arguments; after the first pair of dashes all are plain. -/
def classifyAll : List String → Except UsageFault (List Word)
  | [] => .ok []
  | s :: more => do
    match ← classify s with
    | .separator => return .separator :: more.map .plain
    | word => return word :: (← classifyAll more)

/-- The arguments of a run. -/
structure Arguments where
  path : String
  logLevel : String
  validate : Bool
  tikzPath : Option String
  padding : Option Float

/-- Arguments as far as they have been read, and those that mean nothing. -/
structure Draft where
  path : Option String
  logLevel : String
  validate : Bool
  tikzPath : Option String
  padding : Option Float
  unknown : List String

/-- What holds before any argument is read. -/
def Draft.start : Draft := ⟨none, "INFO", true, none, none, []⟩

/-- Why reading arguments stops before their end: a fault, or a wish for help. -/
inductive Stop where
  | usage (fault : UsageFault)
  | help

/-- Gives an option its value. -/
def Draft.set (draft : Draft) (flag : Flag) (value : String) : Except Stop Draft :=
  match flag with
  | .logLevel => .ok { draft with logLevel := value }
  | .tikzPath => .ok { draft with tikzPath := some value }
  | .padding =>
    match readFloat? value with
    | some x => .ok { draft with padding := some x }
    | none => .error (.usage (.notNumber flag value))
  | .help | .noValidate => .error (.usage (.takesNoValue flag value))

/-- Reads what is joined to the short wish for help: it may only be repeated. -/
def joinedHelp : List Char → Stop
  | ['h'] => .help
  | 'h' :: rest => joinedHelp rest
  | rest => .usage (.takesNoValue .help (String.ofList rest))

/-- Reads the rest of the arguments. -/
def Draft.read (draft : Draft) : List Word → Except Stop Draft
  | [] => .ok draft
  | .plain s :: rest =>
    match draft.path, rest with
    | some _, rest => Draft.read { draft with unknown := draft.unknown ++ [s] } rest
    -- A pair of dashes right after the path goes with it.
    | none, .separator :: rest => Draft.read { draft with path := some s } rest
    | none, rest => Draft.read { draft with path := some s } rest
  | .separator :: rest =>
    match draft.path, rest with
    | none, .plain s :: rest => Draft.read { draft with path := some s } rest
    | _, rest => Draft.read { draft with unknown := draft.unknown ++ ["--"] } rest
  | .option none _ s :: rest =>
    Draft.read { draft with unknown := draft.unknown ++ [s] } rest
  | .option (some .help) (some attached) s :: _ =>
    .error <|
      match attached with
      | .joined cs => joinedHelp cs
      | .afterEquals value =>
        if s.startsWith "--" then .usage (.takesNoValue .help value) else joinedHelp value.toList
  | .option (some flag) (some (.joined cs)) _ :: rest => do
    Draft.read (← draft.set flag (String.ofList cs)) rest
  | .option (some flag) (some (.afterEquals value)) _ :: rest => do
    Draft.read (← draft.set flag value) rest
  | .option (some .help) none _ :: _ => .error .help
  | .option (some .noValidate) none _ :: rest => Draft.read { draft with validate := false } rest
  | .option (some flag) none _ :: .plain value :: rest => do
    Draft.read (← draft.set flag value) rest
  | .option (some flag) none _ :: _ => .error (.usage (.expectsValue flag))

/-- Reads all arguments. -/
def Arguments.read (args : List String) : Except Stop Arguments :=
  match classifyAll args with
  | .error fault => .error (.usage fault)
  | .ok words => do
    let draft ← Draft.start.read words
    match draft.path, draft.unknown with
    | none, _ => .error (.usage .noPath)
    | some path, [] =>
      .ok ⟨path, draft.logLevel, draft.validate, draft.tikzPath, draft.padding⟩
    | some _, unknown => .error (.usage (.unrecognized unknown))

end Planar.CommandLine
