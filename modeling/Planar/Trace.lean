import Planar.Trace.Datum
import Planar.Trace.Routine

/-!
# Traced runs

A traced run yields a result or a fault, and the events on the way. It is told the level from
which events are wanted. At the lowest level `call` reports the beginning and the end of a routine;
above it a call is its body and nothing else (`call_quiet`).
-/

namespace Planar

/-- How important an event is. -/
inductive Level where
  | debug | info | warning | error | critical
deriving DecidableEq

namespace Level

/-- The place of a level in the order of importance. -/
def rank : Level → Nat
  | debug => 0
  | info => 1
  | warning => 2
  | error => 3
  | critical => 4

/-- Whether events of level `event` are wanted from level `threshold` on. -/
def admits (threshold event : Level) : Bool := threshold.rank ≤ event.rank

/-- The name of a level. -/
def name : Level → String
  | debug => "DEBUG"
  | info => "INFO"
  | warning => "WARNING"
  | error => "ERROR"
  | critical => "CRITICAL"

end Level

/-- An argument of a call, with its key if it is passed by one. -/
structure Argument (α : Type) where
  key : Option String
  datum : Datum α

namespace Argument

variable {α : Type}

/-- A datum passed by its place. -/
def of (d : Datum α) : Argument α := ⟨none, d⟩

/-- A value passed by its place. -/
def value (v : Value α) : Argument α := of (.value v)

/-- A number passed by its place. -/
def number (x : α) : Argument α := of (.number x)

/-- A tree passed by its place. -/
def expr (e : Expr α) : Argument α := of (.expr e)

/-- A datum passed by a key. -/
def keyed (key : String) (d : Datum α) : Argument α := ⟨some key, d⟩

end Argument

/-- What a run reports. -/
inductive Event (α : Type) where
  /-- A routine begins with these arguments. -/
  | enter (routine : Routine) (arguments : List (Argument α))
  /-- A routine ends with this result. -/
  | leave (routine : Routine) (result : Datum α)
  /-- A fault leaves a routine. -/
  | failed (routine : Routine)
  /-- The value under this label does not cross the window and is not drawn. -/
  | skipped (label : String)

namespace Event

variable {α : Type}

/-- The level of an event. -/
def level : Event α → Level
  | skipped _ => .warning
  | _ => .debug

/-- The channel of an event. -/
def channel : Event α → Channel
  | enter routine _ | leave routine _ | failed routine => routine.channel
  | skipped _ => .drawing

end Event

/-- A run that yields a `β` or a fault, and reports events over scalars `α`. -/
def Traced (α β : Type) : Type := Level → Except Fault β × List (Event α)

namespace Traced

variable {α β γ : Type}

/-- The run that yields `b` and reports nothing. -/
def ok (b : β) : Traced α β := fun _ => (.ok b, [])

/-- The run that fails and reports nothing. -/
def fail (fault : Fault) : Traced α β := fun _ => (.error fault, [])

/-- Runs `first`, then what `next` makes of its result. -/
def andThen (first : Traced α β) (next : β → Traced α γ) : Traced α γ := fun level =>
  match first level with
  | (.ok b, events) => let (result, more) := next b level; (result, events ++ more)
  | (.error fault, events) => (.error fault, events)

instance : Monad (Traced α) where
  pure := ok
  bind := andThen

theorem andThen_ok (run : Traced α β) : andThen run ok = run := by
  funext level
  unfold andThen
  split <;> simp_all [ok]

theorem andThen_assoc {δ : Type} (run : Traced α β) (first : β → Traced α γ)
    (second : γ → Traced α δ) :
    andThen (andThen run first) second = andThen run fun b => andThen (first b) second := by
  funext level
  unfold andThen
  cases h : run level with
  | mk result events =>
    cases result with
    | error fault => rfl
    | ok b =>
      cases h' : first b level with
      | mk result' events' => cases result' <;> simp [h']

instance : LawfulMonad (Traced α) :=
  .mk' (Traced α) andThen_ok (fun _ _ => rfl) andThen_assoc

/-- The run of a result or fault that is already known. -/
def ofExcept : Except Fault β → Traced α β
  | .ok b => ok b
  | .error fault => fail fault

/-- Reports an event if its level is wanted. -/
def report (event : Event α) : Traced α Unit := fun level =>
  (.ok (), if level.admits event.level then [event] else [])

/-- Runs `body` as a routine, reporting its beginning and its end when debug events are wanted.
Arguments or a result that cannot be shown then make the call fail. -/
def call (routine : Routine) (arguments : List (Argument α)) (view : β → Datum α)
    (body : Traced α β) : Traced α β := fun level =>
  if level.admits .debug then
    if arguments.all (·.datum.isShowable) then
      match body level with
      | (.ok b, events) =>
        -- A result that cannot be shown fails after the body, so this routine reports no failure.
        if (view b).isShowable then
          (.ok b, .enter routine arguments :: events ++ [.leave routine (view b)])
        else (.error .noCoordinates, .enter routine arguments :: events)
      | (.error fault, events) =>
        (.error fault, .enter routine arguments :: events ++ [.failed routine])
    else (.error .noCoordinates, [])
  else body level

/-- The result of a run of which nothing but warnings is wanted. -/
def result (run : Traced α β) : Except Fault β := (run .warning).1

/-- Above the debug level a call is its body. -/
theorem call_quiet (routine : Routine) (arguments : List (Argument α)) (view : β → Datum α)
    (body : Traced α β) {level : Level} (h : level ≠ .debug) :
    call routine arguments view body level = body level := by
  cases level <;> simp_all [call, Level.admits, Level.rank]

@[simp]
theorem result_call (routine : Routine) (arguments : List (Argument α)) (view : β → Datum α)
    (body : Traced α β) : (call routine arguments view body).result = body.result := by
  simp [result, call_quiet]

@[simp]
theorem result_pure (b : β) : (pure b : Traced α β).result = .ok b := rfl

@[simp]
theorem result_fail (fault : Fault) : (fail fault : Traced α β).result = .error fault := rfl

@[simp]
theorem result_bind (first : Traced α β) (next : β → Traced α γ) :
    (first >>= next).result = (first.result >>= fun b => (next b).result) := by
  show (andThen first next .warning).1 = _
  unfold andThen result
  split <;> simp_all [bind, Except.bind]

@[simp]
theorem result_ofExcept (e : Except Fault β) : (ofExcept e : Traced α β).result = e := by
  cases e <;> rfl

end Traced

end Planar
