import Planar.Association
import Planar.Sorting
import Planar.Trace.Datum

/-!
# Equality and order of data

Flags and integers count as numbers, and numbers are compared by their exact values. Texts, bytes
and tuples are compared from the front, and a set comes before those that contain it and more. Data
of different sorts are neither equal nor in order. Sets and dictionaries hold equal data once.
-/

namespace Planar.Datum

variable {α : Type} [Scalar α]

/-- A number as a fraction with a positive denominator, or an infinity; `none` is no number. -/
inductive Magnitude where
  | below
  | fraction (num : Int) (den : Nat)
  | above

/-- The order of two magnitudes. -/
def Magnitude.lt : Magnitude → Magnitude → Bool
  | below, below => false
  | below, _ => true
  | fraction a b, fraction c d => a * d < c * b
  | fraction _ _, above => true
  | _, _ => false

/-- A scalar as a magnitude. -/
def magnitudeOf (x : α) : Option Magnitude :=
  match Scalar.ratio? x with
  | some r => some (.fraction (if r.negative then -r.num else r.num) r.den)
  | none =>
    if !Scalar.isNumber x then none
    else if Scalar.lt x Scalar.zero then some .below
    else some .above

/-- A datum that counts as a number: `none` if it does not, `some none` if it is no number. -/
def numeric? : Datum α → Option (Option Magnitude)
  | flag b => some (some (.fraction (if b then 1 else 0) 1))
  | integer n => some (some (.fraction n 1))
  | number x => some (magnitudeOf x)
  | _ => none

mutual

/-- Whether two data are equal. -/
def equal : Datum α → Datum α → Bool
  | tuple as, tuple bs => equalAll as bs
  | frozenSet as, frozenSet bs => as.length == bs.length && containsAll bs as
  | text s, text t => s == t
  | bytes s, bytes t => s == t
  | nothing, nothing => true
  | value v, value w => v.equal w
  | expr e, expr f => e.equal f
  | a, b =>
    match numeric? a, numeric? b with
    | some (some m), some (some n) => !m.lt n && !n.lt m
    | _, _ => false

/-- Whether two rows of data are equal, one by one. -/
def equalAll : List (Datum α) → List (Datum α) → Bool
  | [], [] => true
  | a :: as, b :: bs => equal a b && equalAll as bs
  | _, _ => false

/-- Whether a set contains all of some data. -/
def containsAll (set : List (Datum α)) : List (Datum α) → Bool
  | [] => true
  | a :: as => set.any (fun b => equal a b) && containsAll set as

end

/-- Whether the row `s` comes before `t`, from the front. -/
def rowLt {β : Type} (lt : β → β → Bool) (eq : β → β → Bool) : List β → List β → Bool
  | _, [] => false
  | [], _ :: _ => true
  | a :: s, b :: t => if eq a b then rowLt lt eq s t else lt a b

mutual

/-- Whether one datum comes before another; `none` if they are not in order at all. -/
def before? : Datum α → Datum α → Option Bool
  | tuple as, tuple bs => allBefore? as bs
  | frozenSet as, frozenSet bs => some (decide (as.length < bs.length) && containsAll bs as)
  | text s, text t => some (decide (s < t))
  | bytes s, bytes t => some (rowLt (fun a b => decide (a < b)) (· == ·) s t)
  | a, b =>
    match numeric? a, numeric? b with
    | some (some m), some (some n) => some (m.lt n)
    | some _, some _ => some false
    | _, _ => none

/-- Whether one row of data comes before another: the first unequal pair decides. -/
def allBefore? : List (Datum α) → List (Datum α) → Option Bool
  | _, [] => some false
  | [], _ :: _ => some true
  | a :: as, b :: bs => if equal a b then allBefore? as bs else before? a b

end

/-- Data in increasing order, or as they are if some that are compared are not in order. -/
def sorted {β : Type} (key : β → Datum α) (items : List β) : List β :=
  (Sorting.sort? (fun a b => before? (key a) (key b)) items).getD items

/-- Sorting only moves data. -/
theorem perm_sorted {β : Type} (key : β → Datum α) (items : List β) :
    (sorted key items).Perm items := by
  unfold sorted
  cases h : Sorting.sort? (fun a b => before? (key a) (key b)) items with
  | none => exact List.Perm.refl _
  | some ordered => exact Sorting.perm_of_sort? _ h

/-- The set of some data: of equal ones the first is kept. -/
def distinct (items : List (Datum α)) : List (Datum α) :=
  items.foldl (fun kept d => if kept.any (·.equal d) then kept else kept ++ [d]) []

/-- The dictionary of some entries: a key that comes again keeps its place and takes the new
value. -/
def entriesOf (entries : List (Datum α × Datum α)) : List (Datum α × Datum α) :=
  Association.ofEntries equal entries

/-- Whether a datum counts as true: not zero, not empty, and something at all. An array counts as
its only cell, and one with several cells cannot be asked. -/
def truth : Datum α → Except Fault Bool
  | nothing => .ok false
  | flag b => .ok b
  | integer n => .ok (n != 0)
  | number x => .ok !(Scalar.eq x Scalar.zero)
  | text s => .ok !s.isEmpty
  | bytes bs => .ok !bs.isEmpty
  | list items | tuple items | set items | frozenSet items => .ok !items.isEmpty
  | dict entries => .ok !entries.isEmpty
  | grid g =>
    match g.cells with
    | .numbers [] | .integers [] | .flags [] => .ok false
    | .numbers [x] => .ok !(Scalar.eq x Scalar.zero)
    | .integers [n] => .ok (n != 0)
    | .flags [b] => .ok b
    | _ => .error .ambiguousTruth
  | _ => .ok true

end Planar.Datum
