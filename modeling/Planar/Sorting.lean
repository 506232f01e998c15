/-!
# Sorting by comparisons that may fail

Items are sorted by a comparison that says whether one comes before another, or says nothing if the
two are not in order. The run at the front of the items that is in order already is kept, or turned
around if it goes down strictly, and each further item is put in its place by bisection. So the
result is settled for every comparison, even one that is no order.

Sorting only moves items (`perm_of_sort?`). If the comparison is an order, the result goes up
(`pairwise_of_sort?`), and it does not fail if no comparison does (`isSome_sort?`).
-/

namespace Planar.Sorting

variable {β : Type} (before? : β → β → Option Bool)

/-- `items` with `x` after every item that it does not come before, found by bisection. -/
def insert? (x : β) (items : List β) : Option (List β) :=
  match _h : items.drop (items.length / 2) with
  | [] => some [x]
  | middle :: back => do
    if ← before? x middle then
      return (← insert? x (items.take (items.length / 2))) ++ middle :: back
    else return items.take (items.length / 2) ++ middle :: (← insert? x back)
termination_by items.length
decreasing_by
  all_goals
    have hlength := congrArg List.length _h
    simp only [List.length_drop, List.length_cons, List.length_take] at *
    omega

/-- Splits `items` after the longest run in which every item comes before the one to its left, the
first of them before `last`; or after the longest in which none does. -/
def splitRun? (down : Bool) (last : β) : List β → Option (List β × List β)
  | [] => some ([], [])
  | x :: more => do
    if (← before? x last) = down then
      let (run, rest) ← splitRun? down x more
      return (x :: run, rest)
    else return ([], x :: more)

/-- Inserts some items into a row, one after another. -/
def insertAll? : (items sorted : List β) → Option (List β)
  | [], sorted => some sorted
  | x :: more, sorted => do insertAll? more (← insert? before? x sorted)

/-- The items in increasing order; `none` if two that are compared are not in order. -/
def sort? : List β → Option (List β)
  | first :: second :: more => do
    let down ← before? second first
    let (run, rest) ← splitRun? before? down second more
    let front := first :: second :: run
    insertAll? before? rest (if down then front.reverse else front)
  | items => some items

/-! ## Items are only moved -/

theorem take_append_of_drop {items back : List β} {n : Nat} {middle : β}
    (h : items.drop n = middle :: back) : items.take n ++ middle :: back = items := by
  rw [← h, List.take_append_drop]

theorem eq_nil_of_drop_half {items : List β} (h : items.drop (items.length / 2) = []) :
    items = [] := by
  have := congrArg List.length h
  simp only [List.length_drop, List.length_nil] at this
  exact List.eq_nil_of_length_eq_zero (by omega)

theorem perm_of_insert? {x : β} {items sorted : List β}
    (h : insert? before? x items = some sorted) : sorted.Perm (x :: items) := by
  fun_induction insert? before? x items generalizing sorted with
  | case1 items hdrop =>
    obtain rfl := Option.some.inj h
    rw [eq_nil_of_drop_half hdrop]
  | case2 items middle back hdrop ihFront ihBack =>
    obtain ⟨lower, _, h⟩ := Option.bind_eq_some_iff.1 h
    cases lower with
    | true =>
      obtain ⟨placed, hplaced, h⟩ := Option.bind_eq_some_iff.1 h
      obtain rfl := Option.some.inj h
      have hperm := (ihFront hplaced).append_right (middle :: back)
      rwa [List.cons_append, take_append_of_drop hdrop] at hperm
    | false =>
      obtain ⟨placed, hplaced, h⟩ := Option.bind_eq_some_iff.1 h
      obtain rfl := Option.some.inj h
      have hperm := ((ihBack hplaced).cons middle).trans (List.Perm.swap x middle back)
      refine (hperm.append_left _).trans (List.perm_middle.trans ?_)
      rw [take_append_of_drop hdrop]

theorem append_of_splitRun? {down : Bool} {last : β} {items run rest : List β}
    (h : splitRun? before? down last items = some (run, rest)) : run ++ rest = items := by
  induction items generalizing last run rest with
  | nil =>
    obtain ⟨rfl, rfl⟩ := Prod.mk.inj (Option.some.inj h)
    rfl
  | cons x more ih =>
    obtain ⟨lower, _, h⟩ := Option.bind_eq_some_iff.1 h
    split at h
    · obtain ⟨⟨run', rest'⟩, hrun, h⟩ := Option.bind_eq_some_iff.1 h
      obtain ⟨rfl, rfl⟩ := Prod.mk.inj (Option.some.inj h)
      rw [List.cons_append, ih hrun]
    · obtain ⟨rfl, rfl⟩ := Prod.mk.inj (Option.some.inj h)
      rfl

theorem perm_of_insertAll? {items sorted result : List β}
    (h : insertAll? before? items sorted = some result) : result.Perm (items ++ sorted) := by
  induction items generalizing sorted with
  | nil =>
    obtain rfl := Option.some.inj h
    exact List.Perm.refl _
  | cons x more ih =>
    obtain ⟨placed, hplaced, h⟩ := Option.bind_eq_some_iff.1 h
    exact (ih h).trans
      (((perm_of_insert? before? hplaced).append_left more).trans List.perm_middle)

/-- Sorting only moves items. -/
theorem perm_of_sort? {items sorted : List β} (h : sort? before? items = some sorted) :
    sorted.Perm items := by
  unfold sort? at h
  split at h
  · next first second more =>
    obtain ⟨down, _, h⟩ := Option.bind_eq_some_iff.1 h
    obtain ⟨⟨run, rest⟩, hrun, h⟩ := Option.bind_eq_some_iff.1 h
    have hperm := perm_of_insertAll? before? h
    have hfront : (if down then (first :: second :: run).reverse
        else first :: second :: run).Perm (first :: second :: run) := by
      split
      · exact List.reverse_perm _
      · exact List.Perm.refl _
    refine hperm.trans ((hfront.append_left rest).trans (List.perm_append_comm.trans ?_))
    rw [List.cons_append, List.cons_append, append_of_splitRun? before? hrun]
  · obtain rfl := Option.some.inj h
    exact List.Perm.refl _

/-! ## Orders -/

/-- A comparison that never fails and is a strict order in which unordered items count as equal. -/
structure IsOrder (before : β → β → Bool) : Prop where
  asymm : ∀ {a b}, before a b = true → before b a = false
  trans : ∀ {a b c}, before b a = false → before c b = false → before c a = false

variable {before : β → β → Bool}

/-- Items in increasing order: none comes before one to its left. -/
abbrev Increasing (before : β → β → Bool) (items : List β) : Prop :=
  items.Pairwise fun a b => before b a = false

theorem pairwise_of_insert? (order : IsOrder before) {x : β} {items sorted : List β}
    (hitems : Increasing before items)
    (h : insert? (fun a b => some (before a b)) x items = some sorted) :
    Increasing before sorted := by
  fun_induction insert? (fun a b => some (before a b)) x items generalizing sorted with
  | case1 items _ =>
    obtain rfl := Option.some.inj h
    exact List.pairwise_singleton ..
  | case2 items middle back hdrop ihFront ihBack =>
    rw [← take_append_of_drop hdrop] at hitems
    obtain ⟨hfront, hbehind, hcross⟩ := List.pairwise_append.1 hitems
    obtain ⟨hmiddle, hback⟩ := List.pairwise_cons.1 hbehind
    simp only [Option.bind_eq_bind, Option.bind_some] at h
    split at h
    · next hlower =>
      obtain ⟨placed, hplaced, h⟩ := Option.bind_eq_some_iff.1 h
      obtain rfl := Option.some.inj h
      refine List.pairwise_append.2
        ⟨ihFront hfront hplaced, List.pairwise_cons.2 ⟨hmiddle, hback⟩, fun a ha b hb => ?_⟩
      rcases List.mem_cons.1 ((perm_of_insert? _ hplaced).mem_iff.1 ha) with rfl | ha
      · rcases List.mem_cons.1 hb with rfl | hb
        · exact order.asymm hlower
        · exact order.trans (order.asymm hlower) (hmiddle b hb)
      · exact hcross a ha b hb
    · next hlower =>
      obtain ⟨placed, hplaced, h⟩ := Option.bind_eq_some_iff.1 h
      obtain rfl := Option.some.inj h
      have hlower : before x middle = false := by simpa using hlower
      have hplacedAll : ∀ b ∈ placed, before b middle = false := by
        intro b hb
        rcases List.mem_cons.1 ((perm_of_insert? _ hplaced).mem_iff.1 hb) with rfl | hb
        · exact hlower
        · exact hmiddle b hb
      refine List.pairwise_append.2
        ⟨hfront, List.pairwise_cons.2 ⟨hplacedAll, ihBack hback hplaced⟩, fun a ha b hb => ?_⟩
      rcases List.mem_cons.1 hb with rfl | hb
      · exact hcross a ha b List.mem_cons_self
      · exact order.trans (hcross a ha middle List.mem_cons_self) (hplacedAll b hb)

theorem pairwise_of_insertAll? (order : IsOrder before) {items sorted result : List β}
    (hsorted : Increasing before sorted)
    (h : insertAll? (fun a b => some (before a b)) items sorted = some result) :
    Increasing before result := by
  induction items generalizing sorted with
  | nil =>
    obtain rfl := Option.some.inj h
    exact hsorted
  | cons x more ih =>
    obtain ⟨placed, hplaced, h⟩ := Option.bind_eq_some_iff.1 h
    exact ih (pairwise_of_insert? order hsorted hplaced) h

/-- The items of a run that goes up come after `last`, and in increasing order. -/
theorem pairwise_of_splitRun?_up (order : IsOrder before) {last : β} {items run rest : List β}
    (h : splitRun? (fun a b => some (before a b)) false last items = some (run, rest)) :
    Increasing before (last :: run) := by
  induction items generalizing last run rest with
  | nil =>
    obtain ⟨rfl, rfl⟩ := Prod.mk.inj (Option.some.inj h)
    exact List.pairwise_singleton ..
  | cons x more ih =>
    simp only [splitRun?, Option.bind_eq_bind, Option.bind_some] at h
    split at h
    · next hlast =>
      obtain ⟨⟨run', rest'⟩, hrun, h⟩ := Option.bind_eq_some_iff.1 h
      obtain ⟨rfl, rfl⟩ := Prod.mk.inj (Option.some.inj h)
      have hrun := ih hrun
      refine List.pairwise_cons.2 ⟨fun b hb => ?_, hrun⟩
      rcases List.mem_cons.1 hb with rfl | hb
      · exact hlast
      · exact order.trans hlast ((List.pairwise_cons.1 hrun).1 b hb)
    · obtain ⟨rfl, rfl⟩ := Prod.mk.inj (Option.some.inj h)
      exact List.pairwise_singleton ..

/-- The items of a run that goes down come before `last`, and in decreasing order. -/
theorem pairwise_of_splitRun?_down (order : IsOrder before) {last : β} {items run rest : List β}
    (h : splitRun? (fun a b => some (before a b)) true last items = some (run, rest)) :
    (last :: run).Pairwise fun a b => before a b = false := by
  induction items generalizing last run rest with
  | nil =>
    obtain ⟨rfl, rfl⟩ := Prod.mk.inj (Option.some.inj h)
    exact List.pairwise_singleton ..
  | cons x more ih =>
    simp only [splitRun?, Option.bind_eq_bind, Option.bind_some] at h
    split at h
    · next hlast =>
      obtain ⟨⟨run', rest'⟩, hrun, h⟩ := Option.bind_eq_some_iff.1 h
      obtain ⟨rfl, rfl⟩ := Prod.mk.inj (Option.some.inj h)
      have hrun := ih hrun
      refine List.pairwise_cons.2 ⟨fun b hb => ?_, hrun⟩
      rcases List.mem_cons.1 hb with rfl | hb
      · exact order.asymm hlast
      · exact order.trans ((List.pairwise_cons.1 hrun).1 b hb) (order.asymm hlast)
    · obtain ⟨rfl, rfl⟩ := Prod.mk.inj (Option.some.inj h)
      exact List.pairwise_singleton ..

/-- Sorting by an order puts the items in increasing order. -/
theorem pairwise_of_sort? (order : IsOrder before) {items sorted : List β}
    (h : sort? (fun a b => some (before a b)) items = some sorted) : Increasing before sorted := by
  unfold sort? at h
  split at h
  · next first second more =>
    simp only [Option.bind_eq_bind, Option.bind_some] at h
    obtain ⟨⟨run, rest⟩, hrun, h⟩ := Option.bind_eq_some_iff.1 h
    refine pairwise_of_insertAll? order ?_ h
    -- The first comparison says which way the run at the front goes.
    have hfirst : splitRun? (fun a b => some (before a b)) (before second first) first
        (second :: more) = some (second :: run, rest) := by
      simp [splitRun?, hrun]
    cases hdown : before second first with
    | true =>
      rw [hdown] at hfirst
      exact List.pairwise_reverse.2 (pairwise_of_splitRun?_down order hfirst)
    | false =>
      rw [hdown] at hfirst
      exact pairwise_of_splitRun?_up order hfirst
  · next hshort =>
    obtain rfl := Option.some.inj h
    match items with
    | [] => exact List.Pairwise.nil
    | [x] => exact List.pairwise_singleton ..
    | first :: second :: more => exact absurd rfl (hshort first second more)

/-! ## Comparisons that do not fail -/

variable (before)

theorem isSome_insert? (x : β) (items : List β) :
    (insert? (fun a b => some (before a b)) x items).isSome := by
  fun_induction insert? (fun a b => some (before a b)) x items with
  | case1 => rfl
  | case2 items middle back _ ihFront ihBack =>
    obtain ⟨front, hfront⟩ := Option.isSome_iff_exists.1 ihFront
    obtain ⟨behind, hbehind⟩ := Option.isSome_iff_exists.1 ihBack
    cases before x middle <;> simp [hfront, hbehind]

theorem isSome_insertAll? (items sorted : List β) :
    (insertAll? (fun a b => some (before a b)) items sorted).isSome := by
  induction items generalizing sorted with
  | nil => rfl
  | cons x more ih =>
    obtain ⟨placed, hplaced⟩ := Option.isSome_iff_exists.1 (isSome_insert? before x sorted)
    simp [insertAll?, hplaced, ih]

theorem isSome_splitRun? (down : Bool) (last : β) (items : List β) :
    (splitRun? (fun a b => some (before a b)) down last items).isSome := by
  induction items generalizing last with
  | nil => rfl
  | cons x more ih =>
    obtain ⟨⟨run, rest⟩, hrun⟩ := Option.isSome_iff_exists.1 (ih x)
    by_cases h : before x last = down <;> simp [splitRun?, h, hrun]

/-- Sorting does not fail if no comparison does. -/
theorem isSome_sort? (items : List β) : (sort? (fun a b => some (before a b)) items).isSome := by
  unfold sort?
  split
  · next first second more =>
    obtain ⟨⟨run, rest⟩, hrun⟩ := Option.isSome_iff_exists.1
      (isSome_splitRun? before (before second first) second more)
    simp [hrun, isSome_insertAll?]
  · rfl

end Planar.Sorting
