import Planar.CommandLine
import Planar.Proofs.Normal.FixedPoint
import Planar.Proofs.Source.Listing

/-!
# Running a listing again

The listing that a run prints is a program. A run on it prints the same listing and the same result:
a normalized tree stays as it is when it is normalized again, and neither its value nor its texts
depend on the signs of zeros, which a listing leaves out.

* `Expr.normalized_normalized` — normalizing twice is normalizing once;
* `CommandLine.evaluateText_eq_ok_iff` — what a run that prints has done;
* `Shown.again` — a listing shows itself;
* `listing_fixed_point` — for every program on which a run prints something.
-/

namespace Planar

open Scalar

/-! ## Normalizing again -/

namespace Expr

/-- A normalized tree can be written if the tree can. -/
theorem IsPrintable.normalized {e : Expr Float} (h : e.IsPrintable) : e.normalized.IsPrintable := by
  induction e with
  | literal v span => exact (Value.isFinite_amended_iff v).2 h
  | var name span => exact h
  | intersect a b span iha ihb => exact ⟨iha h.1, ihb h.2⟩
  | bind name a b span iha ihb => exact ⟨h.1, iha h.2.1, ihb h.2.2⟩
  | shift dx dy a span ih => exact ⟨h.1, h.2.1, ih h.2.2⟩
  | placeholder => exact h

theorem IsPrintable.isFinite_of_mem_leaves {e : Expr Float} (h : e.IsPrintable) :
    ∀ v ∈ e.leaves, v.IsFinite := by
  induction e with
  | literal v span => exact List.forall_mem_singleton.2 h
  | var name span => nofun
  | intersect a b span iha ihb => exact List.forall_mem_append.2 ⟨iha h.1, ihb h.2⟩
  | bind name a b span iha ihb => exact List.forall_mem_append.2 ⟨iha h.2.1, ihb h.2.2⟩
  | shift dx dy a span ih => exact ih h.2.2
  | placeholder => exact h.elim

/-- Normalizing a tree that can be written again changes nothing. -/
theorem normalized_normalized {e : Expr Float} (h : e.IsPrintable) :
    e.normalized.normalized = e.normalized := by
  have hfinite : e.HasFiniteSegments := fun _ hs => h.isFinite_of_mem_leaves _ hs
  exact hfinite.normalized.normalized_eq

/-- Alike trees have the same free names. -/
theorem Alike.free_eq {e e' : Expr Float} (h : e.Alike e') : e.free = e'.free := by
  induction h with
  | literal => rfl
  | var => rfl
  | intersect _ _ iha ihb => rw [free, free, iha, ihb]
  | bind _ _ iha ihb => rw [free, free, iha, ihb]
  | shift _ _ _ ih => exact ih

end Expr

/-! ## Programs that have a value -/

theorem Answers.eq_nil {ε β : Type} {fault : String → Option Span → ε} {Q : β → Prop}
    {occurrences : List (String × Option Span)} {b : β} (h : Answers fault Q occurrences (.ok b)) :
    occurrences = [] := by
  cases occurrences with
  | nil => rfl
  | cons occurrence more => cases h

namespace Expr

theorem loose_eq_nil_iff {α : Type} (e : Expr α) : e.loose [] = [] ↔ e.free = [] := by
  rw [← List.map_eq_nil_iff (f := Prod.fst), map_fst_loose, List.filter_eq_self.2]
  simp

/-- A tree that can be written and is alike a normalized one with a value passes the check and has
an alike value when it is normalized. -/
theorem Alike.exists_value {e n : Expr Float} (h : e.Alike n) (he : e.IsPrintable)
    (hn : n.IsConcrete) (hnormal : n.normalized = n) {v : Value Float}
    (hv : (n.eval .empty).result = .ok v) :
    e.validate = .ok () ∧ ∃ w, (e.normalized.eval .empty).result = .ok w ∧ w.Alike v := by
  have hbound : e.loose [] = [] := by
    have hanswers := answers_eval_normalized hn
    rw [hnormal, hv] at hanswers
    rw [loose_eq_nil_iff, h.free_eq, ← loose_eq_nil_iff]
    exact hanswers.eq_nil
  have hcheck : Answers Violation.unbound (fun _ => True) (e.loose []) e.validate :=
    answers_check he []
  have heval := answers_eval_normalized he.isConcrete
  rw [hbound] at hcheck heval
  obtain ⟨_, hvalid, _⟩ := hcheck
  obtain ⟨w, hw, _⟩ := heval
  refine ⟨hvalid, w, hw, ?_⟩
  obtain ⟨v', hv', halike⟩ := h.normalized.eval .empty w hw
  rw [hnormal, hv] at hv'
  cases hv'
  exact halike

end Expr

/-! ## What is shown about a program -/

/-- What is shown about the program in a text: the listing of its normalized tree, and the text of
its value. -/
structure Shown (text : String) (e n : Expr Float) (v : Value Float) (listing result : String) :
    Prop where
  parse : Expr.parse text = .ok e
  normalize : e.normalize.result = .ok n
  evaluate : (n.evaluateIn none).result = .ok v
  program : n.program Expr.defaultIndent = .ok listing
  format : v.format = .ok result

/-- The listing of a program shows itself: it is a program that reads as the normalized tree, passes
the check, and has the same listing and the same result. -/
theorem Shown.again {text listing result : String} {e n : Expr Float} {v : Value Float}
    (h : Shown text e n v listing result) :
    ∃ e' n' v', Shown listing e' n' v' listing result ∧ e'.equal n = true ∧
      e'.validate = .ok () := by
  have hprintable := Expr.isPrintable_of_parse h.parse
  have hn : n = e.normalized :=
    Except.ok.inj (h.normalize.symm.trans (Expr.normalize_fst hprintable.isConcrete .warning))
  obtain ⟨text', e', htext', hparse, hequal⟩ := exists_listing (hn ▸ hprintable.normalized)
  obtain rfl : listing = text' := Except.ok.inj (h.program.symm.trans htext')
  have hprintable' := Expr.isPrintable_of_parse hparse
  have hconcrete : n.IsConcrete := hn ▸ hprintable.isConcrete.normalized
  have hnormal : n.normalized = n := hn ▸ Expr.normalized_normalized hprintable
  have halike := Expr.alike_of_equal hequal hprintable'.isConcrete
  obtain ⟨hvalid, v', hv', hvalue⟩ := halike.exists_value hprintable' hconcrete hnormal
    ((Expr.evaluateIn_fst hconcrete .warning).symm.trans h.evaluate)
  refine ⟨e', e'.normalized, v', ⟨hparse, ?_, ?_, ?_, ?_⟩, hequal, hvalid⟩
  · exact Expr.normalize_fst hprintable'.isConcrete .warning
  · exact (Expr.evaluateIn_fst hprintable'.isConcrete.normalized .warning).trans hv'
  · rw [halike.normalized.program_eq, hnormal]
    exact h.program
  · rw [hvalue.format_eq]
    exact h.format

/-! ## Runs that print something -/

namespace CommandLine

namespace Logged

variable {β γ : Type}

theorem fst_bind (run : Logged β) (next : β → Logged γ) :
    (run >>= next).1 = (run.1 >>= fun b => (next b).1) := by
  obtain ⟨result, lines⟩ := run
  cases result <;> rfl

theorem fst_bind_eq_ok_iff {run : Logged β} {next : β → Logged γ} {c : γ} :
    (run >>= next).1 = .ok c ↔ ∃ b, run.1 = .ok b ∧ (next b).1 = .ok c := by
  rw [fst_bind]
  constructor
  · exact exists_of_bind_eq_ok
  · rintro ⟨b, hb, hc⟩
    rw [hb]
    exact hc

theorem fst_ofExcept_eq_ok_iff {ε : Type} {failure : ε → Failure} {result : Except ε β} {b : β} :
    (ofExcept failure result).1 = .ok b ↔ result = .ok b := by
  cases result with
  | error fault => exact iff_of_false nofun nofun
  | ok b' => exact ⟨fun h => congrArg _ (Except.ok.inj h), fun h => congrArg _ (Except.ok.inj h)⟩

theorem fst_ofTraced_eq_ok_iff {foreseen : List FaultSort} {level : Level} {run : Traced Float β}
    {b : β} : (ofTraced foreseen level run).1 = .ok b ↔ (run level).1 = .ok b :=
  @fst_ofExcept_eq_ok_iff β Fault (.of foreseen) (run level).1 b

/-- Something is checked if that is asked for, and the run goes on if it passes. -/
theorem fst_check_eq_ok_iff {asked : Bool} {check : Except Violation Unit} {line : LogLine}
    {next : Unit → Logged β} {b : β} :
    (if asked then do ofExcept .ofViolation check; next (← write line)
      else next ()).1 = .ok b ↔
      (asked = true → check = .ok ()) ∧ (next ()).1 = .ok b := by
  cases asked with
  | false => simp
  | true =>
    rw [if_pos rfl, fst_bind_eq_ok_iff]
    constructor
    · rintro ⟨_, hcheck, hnext⟩
      obtain ⟨_, _, hnext⟩ := fst_bind_eq_ok_iff.1 hnext
      exact ⟨fun _ => fst_ofExcept_eq_ok_iff.1 hcheck, hnext⟩
    · rintro ⟨hcheck, hnext⟩
      exact ⟨(), fst_ofExcept_eq_ok_iff.2 (hcheck rfl), fst_bind_eq_ok_iff.2 ⟨(), rfl, hnext⟩⟩

end Logged

open Logged

/-- A run has something to print exactly if the program passes the check, should one be asked for,
and a listing and a result can be shown. -/
theorem evaluateText_eq_ok_iff {level : Level} {args : Arguments} {text : String}
    {evaluated : Evaluated} :
    (evaluateText level args text).1 = .ok evaluated ↔ ∃ e listing result,
      Shown text e evaluated.normalized evaluated.value listing result ∧
      (args.validate = true → e.validate = .ok ()) ∧
      evaluated.printed = "Normalized:\n" ++ listing ++ "Result: " ++ result ++ "\n" := by
  -- parsed trees are concrete, so that normalizing and evaluating do not depend on the level
  have hlevels {e n : Expr Float} (he : Expr.parse text = .ok e) :
      (e.normalize level).1 = .ok n ↔ e.normalize.result = .ok n := by
    have hconcrete := (Expr.isPrintable_of_parse he).isConcrete
    rw [Traced.result, Expr.normalize_fst hconcrete, Expr.normalize_fst hconcrete]
  have hlevels' {e n : Expr Float} {v : Value Float} (he : Expr.parse text = .ok e)
      (hn : e.normalize.result = .ok n) :
      (n.evaluateIn none level).1 = .ok v ↔ (n.evaluateIn none).result = .ok v := by
    have hconcrete := (Expr.isPrintable_of_parse he).isConcrete
    obtain rfl := Except.ok.inj (hn.symm.trans (Expr.normalize_fst hconcrete .warning))
    rw [Traced.result, Expr.evaluateIn_fst hconcrete.normalized,
      Expr.evaluateIn_fst hconcrete.normalized]
  rw [evaluateText, fst_bind_eq_ok_iff]
  constructor
  · rintro ⟨_, _, h⟩
    obtain ⟨e, hparse, h⟩ := fst_bind_eq_ok_iff.1 h
    have hparse := fst_ofExcept_eq_ok_iff.1 hparse
    obtain ⟨hvalid, h⟩ := fst_check_eq_ok_iff.1 h
    obtain ⟨n, hn, h⟩ := fst_bind_eq_ok_iff.1 h
    have hn := (hlevels hparse).1 (fst_ofTraced_eq_ok_iff.1 hn)
    obtain ⟨v, hv, h⟩ := fst_bind_eq_ok_iff.1 h
    have hv := (hlevels' hparse hn).1 (fst_ofTraced_eq_ok_iff.1 hv)
    obtain ⟨listing, hlisting, h⟩ := fst_bind_eq_ok_iff.1 h
    obtain ⟨result, hresult, ⟨⟩⟩ := fst_bind_eq_ok_iff.1 h
    exact ⟨e, listing, result, ⟨hparse, hn, hv, fst_ofExcept_eq_ok_iff.1 hlisting,
      fst_ofExcept_eq_ok_iff.1 hresult⟩, hvalid, rfl⟩
  · rintro ⟨e, listing, result, hshown, hvalid, hprinted⟩
    refine ⟨(), rfl, fst_bind_eq_ok_iff.2 ⟨e, fst_ofExcept_eq_ok_iff.2 hshown.parse,
      fst_check_eq_ok_iff.2 ⟨hvalid, ?_⟩⟩⟩
    refine fst_bind_eq_ok_iff.2 ⟨_, fst_ofTraced_eq_ok_iff.2
      ((hlevels hshown.parse).2 hshown.normalize), ?_⟩
    refine fst_bind_eq_ok_iff.2 ⟨_, fst_ofTraced_eq_ok_iff.2
      ((hlevels' hshown.parse hshown.normalize).2 hshown.evaluate), ?_⟩
    refine fst_bind_eq_ok_iff.2 ⟨_, fst_ofExcept_eq_ok_iff.2 hshown.program, ?_⟩
    refine fst_bind_eq_ok_iff.2 ⟨_, fst_ofExcept_eq_ok_iff.2 hshown.format, ?_⟩
    rw [← hprinted]
    rfl

/-- A run prints what its program shows, and more if it draws; without a value it prints nothing. -/
theorem output_runText (store : Store) (level : Level) (args : Arguments) (text : String) :
    match (evaluateText level args text).1 with
    | .ok evaluated => ∃ more, (runText store level args text).output = evaluated.printed ++ more
    | .error _ => (runText store level args text).output = "" := by
  rw [runText, planText, Plan.after, Plan.on]
  cases (evaluateText level args text).1 with
  | error failure => cases failure <;> rfl
  | ok evaluated => exact ⟨_, rfl⟩

/-- The listing of every program on which a run prints something is a program equal to the
normalized one, and a run on it prints the same listing and the same result. -/
theorem listing_fixed_point (store : Store) (level : Level) (args : Arguments) (text : String)
    (h : (runText store level args text).output ≠ "") :
    ∃ e n v listing result, Shown text e n v listing result ∧
      (∃ more, (runText store level args text).output =
        "Normalized:\n" ++ listing ++ "Result: " ++ result ++ "\n" ++ more) ∧
      ∃ e' n' v', Shown listing e' n' v' listing result ∧ e'.equal n = true ∧
        e'.validate = .ok () ∧
        ∀ store level args, ∃ more, (runText store level args listing).output =
          "Normalized:\n" ++ listing ++ "Result: " ++ result ++ "\n" ++ more := by
  have houtput := output_runText store level args text
  cases hevaluate : (evaluateText level args text).1 with
  | error message =>
    rw [hevaluate] at houtput
    exact absurd houtput h
  | ok evaluated =>
    rw [hevaluate] at houtput
    obtain ⟨more, hmore⟩ := houtput
    obtain ⟨e, listing, result, hshown, _, hprinted⟩ := evaluateText_eq_ok_iff.1 hevaluate
    obtain ⟨e', n', v', hagain, hequal, hvalid⟩ := hshown.again
    refine ⟨e, _, _, listing, result, hshown, ⟨more, hprinted ▸ hmore⟩, e', n', v', hagain, hequal,
      hvalid, ?_⟩
    intro store level args
    have hevaluate' : (evaluateText level args listing).1 =
        .ok ⟨n', v', "Normalized:\n" ++ listing ++ "Result: " ++ result ++ "\n"⟩ :=
      evaluateText_eq_ok_iff.2 ⟨e', listing, result, hagain, fun _ => hvalid, rfl⟩
    have houtput := output_runText store level args listing
    rw [hevaluate'] at houtput
    exact houtput

/-- A segment that is turned round, and zeros whose signs the listing leaves out. -/
theorem listing_fixed_point_turned_round :
    ∃ text, text = "let s = segment(4, 1, 0, -0) in let t = intersect(s, vline(1)) in\n" ++
        "shift(-0, 0.1, intersect(t, s))" ∧
      (runText ⟨[]⟩ .debug ⟨"p", "DEBUG", true, none, none⟩ text).output ≠ "" ∧
      ∃ e n v listing result, Shown text e n v listing result ∧
        (∃ more, (runText ⟨[]⟩ .debug ⟨"p", "DEBUG", true, none, none⟩ text).output =
          "Normalized:\n" ++ listing ++ "Result: " ++ result ++ "\n" ++ more) ∧
        ∃ e' n' v', Shown listing e' n' v' listing result ∧ e'.equal n = true ∧
          e'.validate = .ok () ∧
          ∀ store level args, ∃ more, (runText store level args listing).output =
            "Normalized:\n" ++ listing ++ "Result: " ++ result ++ "\n" ++ more := by
  have houtput : (runText ⟨[]⟩ .debug ⟨"p", "DEBUG", true, none, none⟩
      ("let s = segment(4, 1, 0, -0) in let t = intersect(s, vline(1)) in\n" ++
        "shift(-0, 0.1, intersect(t, s))")).output ≠ "" := by
    decide +kernel
  exact ⟨_, rfl, houtput, listing_fixed_point _ _ _ _ houtput⟩

end CommandLine

end Planar
