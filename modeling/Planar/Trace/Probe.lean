import Planar.Trace.Order
import Planar.Trace

/-!
# Probes

A probe is a routine that gives back what it is called with, so that a trace of it shows how calls
are reported. A directory of probes says which of them are traced: its own routines, and the
routines of its own groups, unless they are skipped by name.
-/

namespace Planar

variable {α : Type} [Scalar α]

/-- Whether the argument with the key `fail` asks for a failure. -/
def asksToFail (arguments : List (Argument α)) : Except Fault Bool :=
  match arguments.find? (·.key == some "fail") with
  | some a => a.datum.truth
  | none => .ok false

/-- Gives back the arguments, those passed by a key last, unless it is asked to fail. -/
def echo (arguments : List (Argument α)) : Except Fault (List (Datum α)) := do
  if ← asksToFail arguments then throw .asked
  return arguments.map (·.datum)

/-- A routine that gives back its arguments; `traced` tells whether its calls are reported, and
`showResult` whether a report has the result. -/
structure Probe where
  name : String
  showResult : Bool
  traced : Bool
deriving DecidableEq

namespace Probe

/-- The name under which a probe is reported: the one given, unless it is missing or empty. -/
def reportedName (given : Option String) (own : String) : String :=
  match given with
  | none | some "" => own
  | some name => name

/-- Makes a probe report its calls, unless it does already. -/
def trace (given : Option String) (showResult : Bool) (p : Probe) : Probe :=
  if p.traced then p else ⟨reportedName given p.name, showResult, true⟩

/-- Tracing a probe again changes nothing. -/
theorem trace_trace (given given' : Option String) (showResult showResult' : Bool) (p : Probe) :
    (p.trace given showResult).trace given' showResult' = p.trace given showResult := by
  unfold trace
  split <;> simp_all

/-- The run of a probe. -/
def run (p : Probe) (arguments : List (Argument α)) : Traced α (List (Datum α)) :=
  if p.traced then
    .call (.named p.name) arguments (if p.showResult then .list else fun _ => .omitted)
      (.ofExcept (echo arguments))
  else .ofExcept (echo arguments)

end Probe

/-- The sorts of member that a group may have. -/
inductive MemberSort where
  | ofInstance | free | ofGroup | data
deriving DecidableEq

/-- A member of a group; `own` tells whether it was made where the group was. -/
structure Member where
  name : String
  sort : MemberSort
  own : Bool

/-- An entry of a directory; `own` tells whether it was made there. -/
inductive Entry where
  | routine (name : String) (own : Bool)
  | data (name : String)
  | group (name : String) (own : Bool) (members : List Member)

/-- The entries of a directory and the rules for tracing them. -/
structure Directory where
  entries : List Entry
  skipped : List String
  groupsToo : Bool

/-- Whether a name is reserved by two underscores on either side. -/
def isReservedName (name : String) : Bool :=
  name.startsWith "__" && name.endsWith "__"

/-- The full name of a member. -/
def Member.fullName (group : String) (m : Member) : String := group ++ "." ++ m.name

namespace Directory

variable (d : Directory)

/-- Whether a member of an own group is traced. A free member or one of the whole group is, whoever
made it. -/
def tracesMember (group : String) (m : Member) : Bool :=
  !isReservedName m.name && !d.skipped.contains m.name &&
    !d.skipped.contains (m.fullName group) &&
    match m.sort with
    | .free | .ofGroup => true
    | .ofInstance => m.own
    | .data => false

/-- The routines of an entry with whether they are traced. -/
def routinesOf : Entry → List (String × Bool)
  | .routine name own => [(name, own && !d.skipped.contains name)]
  | .data _ => []
  | .group name own members =>
    let entered := own && d.groupsToo && !d.skipped.contains name
    members.map fun m => (m.fullName name, entered && d.tracesMember name m)

/-- Every routine of a directory in order, with whether it is traced. -/
def routines : List (String × Bool) := d.entries.flatMap d.routinesOf

/-- An instance of a group as a trace shows it. One whose group has the name of a collection is
taken for such a collection, which it is not. -/
def instanceText (group : String) : String :=
  match group with
  | "list" | "tuple" | "dict" | "deque" =>
    "<repr-error TypeError(\"object of type '" ++ group ++ "' has no len()\")>"
  | "set" | "frozenset" => "<repr-error TypeError(\"'" ++ group ++ "' object is not iterable\")>"
  | "str" => "<repr-error TypeError(\"'str' object is not subscriptable\")>"
  | "array" => "<repr-error AttributeError(\"'array' object has no attribute 'typecode'\")>"
  | _ => "<instance>"

/-- What a routine of a group receives before its arguments: an instance, the group, or nothing. -/
def receiver (called : String) : List (Argument α) :=
  (d.entries.flatMap fun
    | .group name _ members => members.filterMap fun m =>
      if m.fullName name = called then
        match m.sort with
        | .ofInstance => some (.of (.label (instanceText name)))
        | .ofGroup => some (.of (.label ("<class 'own." ++ name ++ "'>")))
        | _ => none
      else none
    | _ => []).take 1

/-- Calls a routine of a directory by its full name. -/
def call (called : String) (arguments : List (Argument α)) : Traced α (List (Datum α)) :=
  Probe.run ⟨called, true, d.routines.contains (called, true)⟩ (d.receiver called ++ arguments)

end Directory

end Planar
