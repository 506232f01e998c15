import Planar.Proofs.Run.Conventions

/-!
# Tracing is transparent

Reports of calls show the arguments and the results of routines, and showing can fail. It does not
where every value is one of the five kinds of set: then a run does the same whether or not its calls
are reported.

* `Expr.steady_evaluate`, `Expr.steady_literals` — evaluating and searching a tree are steady, even
  if nodes are missing from it;
* `DrawingDiscipline.steady`, `steady_picture` — drawing is steady;
* `tracing_transparent` — results and warnings are the same at every level, and only the lowest one
  reports calls.
-/

namespace Planar

variable {α β : Type}

/-! ## Steady runs -/

namespace Traced.Steady

theorem ofExcept (result : Except Fault β) : (Traced.ofExcept result : Traced α β).Steady := by
  cases result with
  | ok b => exact .pure b
  | error fault => exact .fail fault

theorem report (event : Event α) : (Traced.report event).Steady := by
  intro level
  have hdebug : Level.debug.admits event.level = true := decide_eq_true (Nat.zero_le _)
  cases hlevel : level.admits event.level <;> simp [Traced.report, hdebug, hlevel]

end Traced.Steady

/-! ## Transparent runs -/

/-- Whether an event reports the beginning or the end of a call. -/
def Event.IsCall : Event α → Prop
  | enter _ _ | leave _ _ | failed _ => True
  | skipped _ => False

/-- Whether tracing changes nothing about a run but the calls that it reports: results and faults
are the same at every level, and so are the warnings and their order as long as warnings are wanted;
above the lowest level no call is reported. -/
structure Traced.Transparent (run : Traced α β) : Prop where
  result_eq : ∀ level, (run level).1 = (run .debug).1
  warnings_eq : ∀ level, level.admits .warning = true →
    (run level).2.filter (fun event => Level.warning.admits event.level) =
      (run .debug).2.filter fun event => Level.warning.admits event.level
  quiet : ∀ level, level ≠ .debug → ∀ event ∈ (run level).2, ¬event.IsCall

theorem Traced.Steady.transparent {run : Traced α β} (h : run.Steady) : run.Transparent where
  result_eq level := by rw [h level]
  warnings_eq level hlevel := by
    rw [h level, List.filter_filter]
    congr 1
    funext event
    cases hwarning : Level.warning.admits event.level with
    | false => rfl
    | true =>
      have hrank : level.rank ≤ Level.warning.rank := of_decide_eq_true hlevel
      exact decide_eq_true (Nat.le_trans hrank (of_decide_eq_true hwarning))
  quiet level hlevel event hevent hcall := by
    rw [h level] at hevent
    have hwanted := (List.mem_filter.1 hevent).2
    have hdebug : event.level = .debug := by
      cases event with
      | skipped label => exact hcall.elim
      | _ => rfl
    rw [hdebug] at hwanted
    cases level with
    | debug => exact hlevel rfl
    | _ => cases hwanted

open Traced

/-! ## Evaluation -/

/-- Steadiness is a convention of tracing. -/
def Convention.steady (α : Type) : Convention α where
  Run := Traced.SteadyTo
  pure := .pure
  fail := .fail
  skipped _ := ⟨.report _, fun _ _ => trivial⟩
  bind := .bind
  call := .call

/-- Searching a tree for its literals is steady, and what is found are sets. -/
theorem Expr.steady_literals {e : Expr α} (h : e.HoldsSets) :
    e.literals.SteadyTo fun vs => ∀ v ∈ vs, v.IsConcrete :=
  ((Convention.steady α).calls_literals h).run

variable [Scalar α]

theorem Value.steady_intersect {a b : Value α} (ha : a.IsConcrete) (hb : b.IsConcrete) :
    (a.intersect b).SteadyTo Value.IsConcrete :=
  ((Convention.steady α).calls_intersect ha hb).run

theorem Expr.steady_evaluateIn {e : Expr α} (h : e.IsConcrete) (env? : Option (Env α))
    (henv : env?.getD .empty = .empty) : (e.evaluateIn env?).SteadyTo Value.IsConcrete :=
  (Convention.steady α).run_evaluateIn h henv

/-- Evaluation is steady. A tree with missing nodes is not evaluated, since normalizing fails. -/
theorem Expr.steady_evaluate {e : Expr α} (h : e.HoldsSets) :
    e.evaluate.SteadyTo Value.IsConcrete :=
  ((Convention.steady α).calls_evaluate h).run

/-! ## Pictures -/

/-- Drawings are steady. -/
def DrawingDiscipline.steady (α : Type) [Scalar α] (decimals : Int) :
    DrawingDiscipline α decimals where
  toDiscipline := .steady α
  lax _ := trivial
  Good _ := True
  draw _ harguments hview hbody :=
    .call (List.all_eq_true.2 fun a ha => (harguments a ha).isShowable)
      (fun b hb => (hview b hb).isShowable) hbody
  coordinate _ hbody :=
    .call (Datum.isShowable_coordinate _ _) (fun s _ => (Datum.ShowsSets.text s).isShowable) hbody
  number _ := ⟨.ofExcept _, fun _ _ => trivial⟩

/-- Drawing a picture of sets is steady. -/
theorem steady_picture (current : Settings α) {entries : List (String × Value α)}
    (h : ∀ entry ∈ entries, entry.2.IsConcrete) (highlight : List String)
    (settings? : Option (Settings α)) :
    (picture current entries highlight settings?).Steady :=
  ((Convention.steady α).calls_picture current h highlight settings?).run.steady

/-- Tracing is transparent for evaluating a tree over the five kinds of set, for intersecting two
sets, for listing the literals of a tree, and for drawing labelled sets. -/
theorem tracing_transparent (e : Expr α) (he : e.HoldsSets) (a b : Value α) (ha : a.IsConcrete)
    (hb : b.IsConcrete) (current : Settings α) (entries : List (String × Value α))
    (hentries : ∀ entry ∈ entries, entry.2.IsConcrete) (highlight : List String)
    (settings? : Option (Settings α)) :
    e.evaluate.Transparent ∧ (a.intersect b).Transparent ∧ e.literals.Transparent ∧
      (picture current entries highlight settings?).Transparent :=
  ⟨(Expr.steady_evaluate he).steady.transparent, (Value.steady_intersect ha hb).steady.transparent,
    (Expr.steady_literals he).steady.transparent,
    (steady_picture current hentries highlight settings?).transparent⟩

/-- A tree with coordinates that are infinite or no number, and with a missing node. -/
def Expr.adrift : Expr Float :=
  .shift (0 / 0) (1 / 0)
    (.intersect (.literal (.segment ⟨0 / 0, 0, 1 / 0, 0 / 0⟩) none) .placeholder none) none

/-- A line and a point that no window shows. -/
def adriftEntries : List (String × Value Float) :=
  [("m", .line ⟨0 / 0, 1 / 0⟩), ("p", .point ⟨0 / 0, 1 / 0⟩)]

theorem tracing_transparent_adrift :
    Expr.adrift.HoldsSets ∧ (Value.point (α := Float) ⟨0 / 0, 1⟩).IsConcrete ∧
      (∀ entry ∈ adriftEntries, entry.2.IsConcrete) ∧ Expr.adrift.evaluate.Transparent ∧
      ((Value.point (α := Float) ⟨0 / 0, 1⟩).intersect (.point ⟨0 / 0, 1⟩)).Transparent ∧
      Expr.adrift.literals.Transparent ∧
      (picture .default adriftEntries ["p"] none).Transparent := by
  have htree : Expr.adrift.HoldsSets := ⟨nofun, trivial⟩
  have hpoint : (Value.point (α := Float) ⟨0 / 0, 1⟩).IsConcrete := nofun
  have hentries : ∀ entry ∈ adriftEntries, entry.2.IsConcrete := by
    intro entry hentry
    simp only [adriftEntries, List.mem_cons, List.not_mem_nil, or_false] at hentry
    rcases hentry with rfl | rfl <;> nofun
  refine ⟨htree, hpoint, hentries, ?_⟩
  exact tracing_transparent _ htree _ _ hpoint hpoint _ _ hentries _ _

end Planar
