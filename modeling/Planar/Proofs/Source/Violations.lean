import Planar.Proofs.Normal.Frame

/-!
# The first violation of a tree

A node of a tree keeps or breaks the rules of the language on its own, given the names in scope where
it stands. The check of a tree finds the first node that breaks a rule, in the order of the source.

* `Expr.nodes` — the nodes of a tree in source order, each with the names in scope;
* `Node.IsSound`, `Node.Breaks` — the rules, and what is reported of a node that breaks one;
* `Expr.check_eq_verdict` — the check is a search through the nodes;
* `validate_first_violation` — a tree is valid exactly if all its nodes are sound, and else what is
  reported is what the first broken node breaks.
-/

namespace Planar

variable {α : Type}

/-! ## The nodes of a tree -/

/-- A node of a tree with the names in scope where it stands, innermost first. -/
structure Node (α : Type) where
  scope : List String
  expr : Expr α

namespace Expr

/-- The nodes of a tree in source order: each one before its parts, and these from left to right. A
binding puts its name in scope in its body only. -/
def nodes (scope : List String) : Expr α → List (Node α)
  | e@(literal _ _) | e@(var _ _) | e@placeholder => [⟨scope, e⟩]
  | e@(intersect a b _) => ⟨scope, e⟩ :: (nodes scope a ++ nodes scope b)
  | e@(bind name a b _) => ⟨scope, e⟩ :: (nodes scope a ++ nodes (name :: scope) b)
  | e@(shift _ _ a _) => ⟨scope, e⟩ :: nodes scope a

/-- The nodes of a tree whose literals are sets are such trees. -/
theorem HoldsSets.of_mem_nodes {e : Expr α} (h : e.HoldsSets) (scope : List String) :
    ∀ node ∈ e.nodes scope, node.expr.HoldsSets := by
  induction e generalizing scope with
  | literal v span => exact List.forall_mem_singleton.2 h
  | var name span => exact List.forall_mem_singleton.2 h
  | intersect a b span iha ihb =>
    exact List.forall_mem_cons.2 ⟨h, List.forall_mem_append.2 ⟨iha h.1 scope, ihb h.2 scope⟩⟩
  | bind name a b span iha ihb =>
    exact List.forall_mem_cons.2 ⟨h, List.forall_mem_append.2 ⟨iha h.1 scope, ihb h.2 _⟩⟩
  | shift dx dy a span ih => exact List.forall_mem_cons.2 ⟨h, ih h scope⟩
  | placeholder => exact List.forall_mem_singleton.2 h

end Expr

/-! ## The rules -/

namespace Node

/-- Whether a node keeps the rules: a literal is a set with finite coordinates, the offsets of a shift
are finite, a name that is used is in scope, a binding has a name that is not a keyword, and no node
is missing. -/
def IsSound : Node Float → Prop
  | ⟨_, .literal v _⟩ => v.IsFinite
  | ⟨scope, .var name _⟩ => name ∈ scope
  | ⟨_, .intersect _ _ _⟩ => True
  | ⟨_, .bind name _ _ _⟩ => name ≠ "" ∧ ∀ k : Keyword, ¬k.Spells name
  | ⟨_, .shift dx dy _ _⟩ => dx.isFinite = true ∧ dy.isFinite = true
  | ⟨_, .placeholder⟩ => False

end Node

/-- Whether a number is in the first of some doubles that is infinite or no number. -/
def IsFirstNonFinite (number : Double) (xs : List Float) : Prop :=
  ∃ before x after, xs = before ++ x :: after ∧ (∀ y ∈ before, y.isFinite = true) ∧
    x.isFinite = false ∧ number = Double.ofFloat x

namespace Node

/-- The ways in which a node breaks a rule, and what is reported of it. -/
inductive Breaks : Node Float → Violation → Prop where
  | coordinate {scope : List String} {v : Value Float} {span : Option Span} {xs : List Float}
      {number : Double} (hv : v.coordinates? = some xs) (hnumber : IsFirstNonFinite number xs) :
      Breaks ⟨scope, .literal v span⟩ (.coordinate v.kind number span)
  | offset {scope : List String} {dx dy : Float} {a : Expr Float} {span : Option Span}
      {number : Double} (hnumber : IsFirstNonFinite number [dx, dy]) :
      Breaks ⟨scope, .shift dx dy a span⟩ (.offset number span)
  | unbound {scope : List String} {name : String} {span : Option Span} (hname : name ∉ scope) :
      Breaks ⟨scope, .var name span⟩ (.unbound name span)
  | improperName {scope : List String} {name : String} {a b : Expr Float} {span : Option Span}
      (hname : name = "" ∨ ∃ k : Keyword, k.Spells name) :
      Breaks ⟨scope, .bind name a b span⟩ (.improperName name span)
  | unknownNode {scope : List String} : Breaks ⟨scope, .placeholder⟩ .unknownNode

/-- What is reported of a node starts with its place. -/
theorem Breaks.message_eq {node : Node Float} {violation : Violation} (h : node.Breaks violation) :
    ∃ detail, violation.message = Span.markOf node.expr.span? ++ detail := by
  cases h with
  | coordinate hv hnumber => exact ⟨_, rfl⟩
  | offset hnumber => exact ⟨_, rfl⟩
  | unbound hname =>
    rw [Violation.message, String.append_assoc, String.append_assoc]
    exact ⟨_, rfl⟩
  | improperName hname =>
    rw [Violation.message, String.append_assoc]
    exact ⟨_, rfl⟩
  | unknownNode => exact ⟨_, String.empty_append.symm⟩

/-- What the check reports of a node itself. -/
def violation? : Node Float → Option Violation
  | ⟨_, .literal v span⟩ =>
    match v.coordinates? with
    | some xs => (Expr.firstNonFinite? xs).map (.coordinate v.kind · span)
    | none => some .noCoordinates
  | ⟨scope, .var name span⟩ => if name ∈ scope then none else some (.unbound name span)
  | ⟨_, .shift dx dy _ span⟩ => (Expr.firstNonFinite? [dx, dy]).map (.offset · span)
  | ⟨_, .intersect _ _ _⟩ => none
  | ⟨_, .bind name _ _ span⟩ =>
    if name.isEmpty || (Keyword.ofWord? name).isSome then some (.improperName name span) else none
  | ⟨_, .placeholder⟩ => some .unknownNode

end Node

theorem Expr.firstNonFinite?_eq_some_iff {xs : List Float} {number : Double} :
    firstNonFinite? xs = some number ↔ IsFirstNonFinite number xs := by
  rw [firstNonFinite?, Option.map_eq_some_iff, IsFirstNonFinite]
  simp only [List.find?_eq_some_iff_append, Bool.not_eq_true', Bool.not_not]
  constructor
  · rintro ⟨x, ⟨hx, before, after, rfl, hbefore⟩, rfl⟩
    exact ⟨before, x, after, rfl, hbefore, hx, rfl⟩
  · rintro ⟨before, x, after, rfl, hbefore, hx, rfl⟩
    exact ⟨x, ⟨hx, before, after, rfl, hbefore⟩, rfl⟩

/-- A name is improper exactly if it is empty or reserved. -/
theorem Keyword.improper_iff {name : String} :
    (name.isEmpty || (ofWord? name).isSome) = true ↔ name = "" ∨ ∃ k : Keyword, k.Spells name := by
  simp only [Bool.or_eq_true, String.isEmpty_iff, Option.isSome_iff_exists, ofWord?_eq_some_iff]

namespace Node

variable {node : Node Float}

theorem violation?_eq_none_iff : node.violation? = none ↔ node.IsSound := by
  obtain ⟨scope, e⟩ := node
  cases e with
  | literal v span =>
    rw [violation?, IsSound, Value.IsFinite]
    cases v.coordinates? with
    | none => simp
    | some xs =>
      rw [Option.map_eq_none_iff, Expr.firstNonFinite?_eq_none_iff]
      simp
  | var name span => simp [violation?, IsSound]
  | intersect a b span => exact iff_of_true rfl trivial
  | bind name a b span =>
    simp only [violation?, IsSound, Keyword.improper_iff, ite_eq_right_iff, reduceCtorEq, imp_false,
      not_or, not_exists, ne_eq]
  | shift dx dy a span =>
    rw [violation?, IsSound, Option.map_eq_none_iff, Expr.firstNonFinite?_eq_none_iff]
    simp
  | placeholder => exact iff_of_false (Option.some_ne_none _) id

theorem violation?_eq_some_iff (h : node.expr.HoldsSets) {violation : Violation} :
    node.violation? = some violation ↔ node.Breaks violation := by
  obtain ⟨scope, e⟩ := node
  cases e with
  | literal v span =>
    obtain ⟨xs, hxs⟩ := Option.isSome_iff_exists.1 (v.isConcrete_iff.1 h)
    simp only [violation?, hxs, Option.map_eq_some_iff, Expr.firstNonFinite?_eq_some_iff]
    constructor
    · rintro ⟨number, hnumber, rfl⟩
      exact .coordinate hxs hnumber
    · rintro ⟨hv, hnumber⟩
      obtain rfl := Option.some.inj (hxs.symm.trans hv)
      exact ⟨_, hnumber, rfl⟩
  | var name span =>
    simp only [violation?, Option.ite_none_left_eq_some, Option.some.injEq]
    constructor
    · rintro ⟨hname, rfl⟩
      exact .unbound hname
    · rintro (_ | _ | hname)
      exact ⟨hname, rfl⟩
  | intersect a b span => exact iff_of_false nofun nofun
  | bind name a b span =>
    simp only [violation?, Option.ite_none_right_eq_some, Option.some.injEq, Keyword.improper_iff]
    constructor
    · rintro ⟨hname, rfl⟩
      exact .improperName hname
    · rintro (_ | _ | _ | hname)
      exact ⟨hname, rfl⟩
  | shift dx dy a span =>
    simp only [violation?, Option.map_eq_some_iff, Expr.firstNonFinite?_eq_some_iff]
    constructor
    · rintro ⟨number, hnumber, rfl⟩
      exact .offset hnumber
    · rintro (_ | hnumber)
      exact ⟨_, hnumber, rfl⟩
  | placeholder =>
    constructor
    · rintro ⟨⟩
      exact .unknownNode
    · rintro ⟨⟩
      rfl

end Node

/-! ## The check -/

/-- What a search for a violation comes to. -/
def verdict : Option Violation → Except Violation Unit
  | some violation => .error violation
  | none => .ok ()

theorem verdict_eq_ok_iff {found : Option Violation} : verdict found = .ok () ↔ found = none := by
  cases found <;> simp [verdict]

theorem verdict_eq_error_iff {found : Option Violation} {violation : Violation} :
    verdict found = .error violation ↔ found = some violation := by
  cases found <;> simp [verdict]

/-- One search after another is one search. -/
theorem verdict_or (first second : Option Violation) :
    verdict (first.or second) = (verdict first >>= fun _ => verdict second) := by
  cases first <;> rfl

namespace Expr

theorem requireFinite_eq_verdict (xs : List Float) (violation : Double → Violation) :
    requireFinite xs violation = verdict ((firstNonFinite? xs).map violation) := by
  rw [requireFinite]
  cases firstNonFinite? xs <;> rfl

/-- Checking a tree is a search for the first node of which there is something to report. -/
theorem check_eq_verdict (scope : List String) (e : Expr Float) :
    e.check scope = verdict ((e.nodes scope).findSome? Node.violation?) := by
  induction e generalizing scope with
  | literal v span =>
    rw [check, nodes, List.findSome?_singleton, Node.violation?]
    cases v.coordinates? with
    | none => rfl
    | some xs => exact requireFinite_eq_verdict _ _
  | var name span =>
    rw [check, nodes, List.findSome?_singleton, Node.violation?]
    split <;> rfl
  | intersect a b span iha ihb =>
    rw [check, nodes, List.findSome?_cons, Node.violation?, List.findSome?_append, verdict_or, iha,
      ihb]
  | bind name a b span iha ihb =>
    rw [check, nodes, List.findSome?_cons, Node.violation?, List.findSome?_append]
    split
    · rfl
    · rw [verdict_or, iha, ihb]
  | shift dx dy a span ih =>
    rw [check, nodes, List.findSome?_cons, Node.violation?, requireFinite_eq_verdict, ih]
    cases firstNonFinite? [dx, dy] <;> rfl
  | placeholder => rfl

end Expr

/-- A tree over the five kinds of set is valid exactly if each of its nodes is sound where it stands.
Else what is reported is what the first node in source order that is not sound breaks. The message
about a node starts with its place. -/
theorem validate_first_violation (e : Expr Float) (he : e.HoldsSets) :
    (e.validate = .ok () ↔ ∀ node ∈ e.nodes [], node.IsSound) ∧
    (∀ violation, e.validate = .error violation ↔
      ∃ before node after, e.nodes [] = before ++ node :: after ∧
        (∀ earlier ∈ before, earlier.IsSound) ∧ ¬node.IsSound ∧ node.Breaks violation) ∧
    ∀ node ∈ e.nodes [], ∀ violation, node.Breaks violation →
      ∃ detail, violation.message = Span.markOf node.expr.span? ++ detail := by
  have hreport {before after : List (Node Float)} {node : Node Float}
      (hsplit : e.nodes [] = before ++ node :: after) (violation : Violation) :
      node.violation? = some violation ↔ node.Breaks violation := by
    refine Node.violation?_eq_some_iff (he.of_mem_nodes [] node ?_)
    rw [hsplit]
    exact List.mem_append_right _ List.mem_cons_self
  refine ⟨?_, fun violation => ?_, fun node _ violation hbreaks => hbreaks.message_eq⟩
  · rw [Expr.validate, Expr.check_eq_verdict, verdict_eq_ok_iff, List.findSome?_eq_none_iff]
    simp only [Node.violation?_eq_none_iff]
  · rw [Expr.validate, Expr.check_eq_verdict, verdict_eq_error_iff, List.findSome?_eq_some_iff]
    constructor
    · rintro ⟨before, node, after, hsplit, hnode, hbefore⟩
      have hbreaks := (hreport hsplit violation).1 hnode
      refine ⟨before, node, after, hsplit, fun earlier hearlier => ?_, fun hsound => ?_, hbreaks⟩
      · exact Node.violation?_eq_none_iff.1 (hbefore earlier hearlier)
      · rw [Node.violation?_eq_none_iff.2 hsound] at hnode
        cases hnode
    · rintro ⟨before, node, after, hsplit, hbefore, -, hbreaks⟩
      have hnode := (hreport hsplit violation).2 hbreaks
      exact ⟨before, node, after, hsplit, hnode, fun earlier hearlier =>
        Node.violation?_eq_none_iff.2 (hbefore earlier hearlier)⟩

/-- A tree in which the name of an inner binding is a keyword in other letters. Before it the outer
name is used in the body of its binding; after it come a missing node, that name outside the body,
and offsets that are no numbers. -/
def Expr.muddled : Expr Float :=
  .intersect
    (.bind "k" (.literal .empty (some ⟨1, 9⟩))
      (.intersect (.var "k" (some ⟨2, 3⟩))
        (.bind "Shift" .placeholder (.var "k" none) (some ⟨2, 6⟩)) none) (some ⟨1, 1⟩))
    (.shift (0 / 0) (1 / 0) (.var "k" (some ⟨4, 1⟩)) (some ⟨3, 1⟩)) none

theorem validate_first_violation_muddled :
    Expr.muddled.HoldsSets ∧
      Expr.muddled.validate = .error (.improperName "Shift" (some ⟨2, 6⟩)) ∧
      ∃ before node after, Expr.muddled.nodes [] = before ++ node :: after ∧
        (∀ earlier ∈ before, earlier.IsSound) ∧ ¬node.IsSound ∧
        node.Breaks (.improperName "Shift" (some ⟨2, 6⟩)) := by
  have hholds : Expr.muddled.HoldsSets := ⟨⟨nofun, trivial, trivial, trivial⟩, trivial⟩
  have hvalidate : Expr.muddled.validate = .error (.improperName "Shift" (some ⟨2, 6⟩)) := by
    decide +kernel
  exact ⟨hholds, hvalidate,
    ((validate_first_violation Expr.muddled hholds).2.1 _).1 hvalidate⟩

end Planar
