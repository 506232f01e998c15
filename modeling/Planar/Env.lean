import Planar.Fault

/-!
# Environments

The values of names in scope, newest first. A newer binding of a name hides the older ones.
-/

namespace Planar

/-- The bindings in scope, newest first. -/
structure Env (α : Type) where
  bindings : List (String × Value α)
deriving DecidableEq

namespace Env

variable {α : Type}

/-- The environment without bindings. -/
def empty : Env α := ⟨[]⟩

/-- `env` with a further binding. -/
def bind (env : Env α) (name : String) (value : Value α) : Env α :=
  ⟨(name, value) :: env.bindings⟩

/-- The value of the newest binding of `name`. -/
def get? (env : Env α) (name : String) : Option (Value α) := env.bindings.lookup name

@[simp]
theorem get?_empty (name : String) : (empty : Env α).get? name = none := rfl

theorem get?_bind (env : Env α) (name other : String) (value : Value α) :
    (env.bind name value).get? other = if other = name then some value else env.get? other := by
  by_cases h : other = name <;> simp [get?, bind, List.lookup_cons, h, beq_false_of_ne]

/-- The value of the newest binding of `name`, asked for at `span`. -/
def lookup (env : Env α) (name : String) (span : Option Span) : Except Fault (Value α) :=
  match env.get? name with
  | some value => .ok value
  | none => .error (.unbound name span)

end Env

end Planar
