import Planar.Proofs.Run.Quotients
import Planar.Proofs.Run.Rerun
import Planar.Proofs.Run.Transparency

/-!
# How runs of the command line end

A run either shows a listing and a result or stops with one error before it prints anything. It
stops exactly if the program cannot be parsed, has an unbound name, or has a value that cannot be
written; whether the program is checked first only decides who finds the unbound name. A picture is
drawn after that. Drawing fails only for a number that is not finite, and then no document is
written. No other fault ever leaves a run.

* `Unshown`, `unshown_or_shown` — why nothing is shown about a program;
* `undrawable_of_document` — drawing sets fails in one way only;
* `Outcome.Stops`, `Outcome.Completes` — the two ways in which a run ends;
* `Outcome.Ends.after`, `Outcome.Ends.print` — a run ends as the rest of its plan does;
* `Outcome.EndsLike` — runs that cannot be told apart but by their logs;
* `run_endings` — how the run on a readable program ends.
-/

namespace Planar

open Scalar

/-! ## Stages that cannot fail -/

/-- A row of numbers can be written, or one of them is not finite. -/
theorem mapM_formatNumber_cases (xs : List Float) :
    (∃ texts, xs.mapM formatNumber = .ok texts) ∨
      ∃ number, xs.mapM formatNumber = .error (.nonFinite number) := by
  induction xs with
  | nil => exact .inl ⟨[], rfl⟩
  | cons x xs ih =>
    rw [List.mapM_cons, formatNumber]
    cases numberText? x with
    | none => exact .inr ⟨_, rfl⟩
    | some text =>
      rcases ih with ⟨texts, htexts⟩ | ⟨number, hnumber⟩
      · rw [htexts]
        exact .inl ⟨text :: texts, rfl⟩
      · rw [hnumber]
        exact .inr ⟨number, rfl⟩

/-- A set can be written, or one of its coordinates is not finite. -/
theorem Value.format_cases {v : Value Float} (h : v.IsConcrete) :
    (∃ text, v.format = .ok text) ∨ ∃ number, v.format = .error (.nonFinite number) := by
  obtain ⟨cs, hcs⟩ := Option.isSome_iff_exists.1 ((isConcrete_iff v).1 h)
  have hcoordinates : v.coordinates = .ok cs := by rw [coordinates, hcs]
  rw [format, hcoordinates]
  show (∃ text, (if cs.isEmpty then _ else _ : Except Fault String) = .ok text) ∨
    ∃ number, (if cs.isEmpty then _ else _ : Except Fault String) = .error (.nonFinite number)
  by_cases hempty : cs.isEmpty
  · rw [if_pos hempty]
    exact .inl ⟨_, rfl⟩
  · rw [if_neg hempty]
    rcases mapM_formatNumber_cases cs with ⟨texts, htexts⟩ | ⟨number, hnumber⟩
    · rw [htexts]
      exact .inl ⟨_, rfl⟩
    · rw [hnumber]
      exact .inr ⟨number, rfl⟩

/-! ## Why nothing is shown -/

/-- Why nothing is shown about the program in a text, as the message about it: the text is no
program, a name is unbound, which the check finds if there is one and evaluation otherwise, or a
coordinate of the value is not finite. -/
inductive Unshown (checked : Bool) (text : String) : String → Prop where
  | unreadable {message : String} (parse : Expr.parse text = .error message) :
    Unshown checked text message
  | rejected {e : Expr Float} {name : String} {span : Option Span} (check : checked = true)
    (parse : Expr.parse text = .ok e) (validate : e.validate = .error (.unbound name span)) :
    Unshown checked text (Violation.unbound name span).message
  | unbound {e n : Expr Float} {name : String} {span : Option Span} (check : checked = false)
    (parse : Expr.parse text = .ok e) (normalize : e.normalize.result = .ok n)
    (evaluate : (n.evaluateIn none).result = .error (.unbound name span)) :
    Unshown checked text (Fault.unbound name span).message
  | unwritable {e n : Expr Float} {v : Value Float} {number : Double}
    (parse : Expr.parse text = .ok e) (validate : e.validate = .ok ())
    (normalize : e.normalize.result = .ok n) (evaluate : (n.evaluateIn none).result = .ok v)
    (format : v.format = .error (.nonFinite number)) :
    Unshown checked text (Fault.nonFinite number).message

/-- There is a reason why nothing is shown about a text, or its program passes the check and has a
listing and a result. -/
theorem unshown_or_shown (checked : Bool) (text : String) :
    (∃ message, Unshown checked text message) ∨
      ∃ e n v listing result, Shown text e n v listing result ∧ e.validate = .ok () := by
  cases hparse : Expr.parse text with
  | error message => exact .inl ⟨message, .unreadable hparse⟩
  | ok e =>
    have hprintable := Expr.isPrintable_of_parse hparse
    have hconcrete := hprintable.isConcrete
    have hnormalize : e.normalize.result = .ok e.normalized :=
      Expr.normalize_fst hconcrete .warning
    have hevaluate : (e.normalized.evaluateIn none).result = (e.normalized.eval .empty).result :=
      Expr.evaluateIn_fst hconcrete.normalized .warning
    have hcheck : Answers Violation.unbound (fun _ => True) (e.loose []) e.validate :=
      Expr.answers_check hprintable []
    have heval := Expr.answers_eval_normalized hconcrete
    rw [← hevaluate] at heval
    cases hloose : e.loose [] with
    | cons occurrence more =>
      -- both the check and evaluation fail at the first free occurrence
      obtain ⟨name, span⟩ := occurrence
      rw [hloose] at hcheck heval
      cases checked with
      | true => exact .inl ⟨_, .rejected rfl hparse hcheck⟩
      | false => exact .inl ⟨_, .unbound rfl hparse hnormalize heval⟩
    | nil =>
      rw [hloose] at hcheck heval
      obtain ⟨_, hvalidate, _⟩ := hcheck
      obtain ⟨v, hv, hset⟩ := heval
      rcases Value.format_cases hset with ⟨result, hresult⟩ | ⟨number, hnumber⟩
      · obtain ⟨listing, _, hlisting, _⟩ := exists_listing hprintable.normalized
        refine .inr ⟨e, e.normalized, v, listing, result, ?_, hvalidate⟩
        exact ⟨hparse, hnormalize, hv, hlisting, hresult⟩
      · exact .inl ⟨_, .unwritable hparse hvalidate hnormalize hv hnumber⟩

/-! ## Drawing -/

/-- With the default number of places only a number that is not finite cannot be written. -/
theorem undrawable_of_drawnNumber {x : Float} {fault : Fault}
    (h : drawnNumber x 4 = .error fault) : fault = .undrawable := by
  rw [drawnNumber] at h
  split at h
  · exact (Except.error.inj h).symm
  · cases h

section Document

variable {entries : List (String × Value Float)} {settings : Settings Float}

/-- Drawing sets with the default number of places fails only where a number is not finite. -/
theorem undrawable_of_document (current : Settings Float)
    (hentries : ∀ entry ∈ entries, entry.2.IsConcrete) (hdecimals : settings.decimals = 4)
    (highlight : List String) (title : Option String) {fault : Fault}
    (h : (document current entries highlight title (some settings)).result = .error fault) :
    fault = .undrawable := by
  let D : DrawingDiscipline Float 4 :=
    .confined (· = .undrawable) (fun _ => True) fun _ _ => undrawable_of_drawnNumber
  have hpicture : D.Run (picture current entries highlight (some settings)) fun _ => True := by
    refine D.run_picture highlight hentries hdecimals rfl trivial trivial ?_
    intro entry hentry
    have hreport : D.Run (.report (.skipped entry.1)) fun _ => True :=
      ⟨nofun, fun _ _ => trivial, fun _ _ => trivial⟩
    exact D.imp (D.run_shape (hentries entry hentry) _) fun _ _ =>
      ⟨fun _ _ => trivial, fun _ => hreport⟩
  exact (D.run_document title hpicture).fails fault h

/-- Drawing sets has the same result at every level. -/
theorem document_fst (current : Settings Float)
    (hentries : ∀ entry ∈ entries, entry.2.IsConcrete) (highlight : List String)
    (title : Option String) (level : Level) :
    (document current entries highlight title (some settings) level).1 =
      (document current entries highlight title (some settings)).result := by
  let D := DrawingDiscipline.steady Float settings.decimals
  have hpicture : D.Run (picture current entries highlight (some settings)) fun _ => True :=
    ⟨steady_picture current hentries highlight (some settings), fun _ _ => trivial⟩
  exact (D.run_document title hpicture).steady.fst_eq level

end Document

/-! ## Stages of a run -/

namespace CommandLine

namespace Logged

variable {β γ : Type}

theorem fst_bind_of_ok {run : Logged β} {next : β → Logged γ} {b : β} (h : run.1 = .ok b) :
    (run >>= next).1 = (next b).1 := by
  rw [fst_bind, h]
  rfl

theorem fst_bind_of_error {run : Logged β} {next : β → Logged γ} {failure : Failure}
    (h : run.1 = .error failure) : (run >>= next).1 = .error failure := by
  rw [fst_bind, h]
  rfl

/-- The lines of a log that are errors. -/
def errors (log : List LogLine) : List LogLine :=
  log.filter fun line => Level.error.admits line.level

@[simp]
theorem errors_append (log more : List LogLine) :
    errors (log ++ more) = errors log ++ errors more := List.filter_append ..

/-- Going on after a run logs no error if neither part does. -/
theorem errors_bind {run : Logged β} {next : β → Logged γ} (h : errors run.2 = [])
    (hnext : ∀ b, errors (next b).2 = []) : errors (run >>= next).2 = [] := by
  obtain ⟨result, lines⟩ := run
  cases result with
  | error failure => exact h
  | ok b =>
    show errors (lines ++ (next b).2) = []
    rw [errors_append, h, hnext b]
    rfl

theorem errors_ofTraced (foreseen : List FaultSort) (level : Level) (run : Traced Float β) :
    errors (ofTraced foreseen level run).2 = [] := by
  have hevent (event : Event Float) : Level.error.admits event.level = false := by
    cases event <;> rfl
  refine List.filter_eq_nil_iff.2 ?_
  intro line hline
  obtain ⟨event, _, rfl⟩ := List.mem_map.1 hline
  exact ne_true_of_eq_false (hevent event)

end Logged

open Logged

variable {store : Store} {level : Level} {args : Arguments} {text : String}

theorem errors_evaluateText (level : Level) (args : Arguments) (text : String) :
    errors (evaluateText level args text).2 = [] := by
  refine errors_bind rfl fun _ => errors_bind rfl fun e => ?_
  have hrest : errors (do
      let normalized ← ofTraced evaluationFaults level e.normalize
      let value ← ofTraced evaluationFaults level (normalized.evaluateIn none)
      let listing ← Logged.ofExcept (.of evaluationFaults) (normalized.program Expr.defaultIndent)
      let result ← Logged.ofExcept (.of evaluationFaults) value.format
      return ⟨normalized, value, "Normalized:\n" ++ listing ++ "Result: " ++ result ++ "\n"⟩ :
        Logged Evaluated).2 = [] := by
    refine errors_bind (errors_ofTraced _ level _) fun n => ?_
    refine errors_bind (errors_ofTraced _ level _) fun v => ?_
    exact errors_bind rfl fun _ => errors_bind rfl fun _ => rfl
  split
  · exact errors_bind rfl fun _ => errors_bind rfl fun _ => hrest
  · exact hrest

theorem errors_drawnEntries (level : Level) (evaluated : Evaluated) :
    errors (drawnEntries level evaluated).2 = [] :=
  errors_bind (errors_ofTraced _ level _) fun _ => rfl

theorem errors_drawDocument (level : Level) (args : Arguments)
    (entries : List (String × Value Float)) : errors (drawDocument level args entries).2 = [] :=
  errors_ofTraced _ level _

/-- A program that is not rejected is normalized and evaluated, and its value is written. -/
theorem fst_evaluateText {e : Expr Float} (hparse : Expr.parse text = .ok e)
    (hcheck : args.validate = true → e.validate = .ok ()) :
    (evaluateText level args text).1 =
      ((e.normalized.evaluateIn none).result.mapError (.of evaluationFaults) >>= fun v =>
        (e.normalized.program Expr.defaultIndent).mapError (.of evaluationFaults) >>= fun listing =>
          v.format.mapError (.of evaluationFaults) >>= fun result =>
            .ok ⟨e.normalized, v,
              "Normalized:\n" ++ listing ++ "Result: " ++ result ++ "\n"⟩) := by
  have hconcrete := (Expr.isPrintable_of_parse hparse).isConcrete
  have hvalue : (e.normalized.evaluateIn none).result = (e.normalized.evaluateIn none level).1 := by
    rw [Traced.result, Expr.evaluateIn_fst hconcrete.normalized,
      Expr.evaluateIn_fst hconcrete.normalized]
  have hnormalize : (ofTraced evaluationFaults level e.normalize).1 = .ok e.normalized :=
    fst_ofTraced_eq_ok_iff.2 (Expr.normalize_fst hconcrete level)
  rw [evaluateText, fst_bind_of_ok rfl, fst_bind_of_ok (fst_ofExcept_eq_ok_iff.2 hparse), hvalue]
  cases hvalidate : args.validate with
  | false =>
    rw [if_neg Bool.false_ne_true, fst_bind_of_ok hnormalize]
    simp only [fst_bind]
    rfl
  | true =>
    rw [if_pos rfl, fst_bind_of_ok (fst_ofExcept_eq_ok_iff.2 (hcheck hvalidate)),
      fst_bind_of_ok rfl, fst_bind_of_ok hnormalize]
    simp only [fst_bind]
    rfl

/-- A program about which nothing is shown fails with the message about it, which is reported. -/
theorem evaluateText_of_unshown {message : String} (h : Unshown args.validate text message) :
    (evaluateText level args text).1 = .error (.reported message) := by
  cases h with
  | unreadable parse =>
    rw [evaluateText, fst_bind_of_ok rfl]
    exact fst_bind_of_error (by rw [parse]; rfl)
  | rejected check parse validate =>
    rw [evaluateText, fst_bind_of_ok rfl, fst_bind_of_ok (fst_ofExcept_eq_ok_iff.2 parse),
      if_pos check]
    exact fst_bind_of_error (by rw [validate]; rfl)
  | @unbound e n name span check parse normalize evaluate =>
    have hconcrete := (Expr.isPrintable_of_parse parse).isConcrete
    obtain rfl := Except.ok.inj (normalize.symm.trans (Expr.normalize_fst hconcrete .warning))
    have hunchecked (h : args.validate = true) : e.validate = .ok () :=
      Bool.noConfusion (check.symm.trans h)
    rw [fst_evaluateText parse hunchecked, evaluate]
    rfl
  | @unwritable e n v number parse validate normalize evaluate format =>
    have hprintable := Expr.isPrintable_of_parse parse
    obtain rfl := Except.ok.inj
      (normalize.symm.trans (Expr.normalize_fst hprintable.isConcrete .warning))
    obtain ⟨listing, _, hlisting, _⟩ := exists_listing hprintable.normalized
    rw [fst_evaluateText parse (fun _ => validate), evaluate, hlisting]
    show (v.format.mapError (Failure.of evaluationFaults) >>= _) = _
    rw [format]
    rfl

/-- What is printed about a program with a listing and a result. -/
def printedText (listing result : String) : String :=
  "Normalized:\n" ++ listing ++ "Result: " ++ result ++ "\n"

/-- A program about which something is shown is evaluated, with and without the check. -/
theorem evaluateText_of_shown {e n : Expr Float} {v : Value Float} {listing result : String}
    (hshown : Shown text e n v listing result) (hcheck : e.validate = .ok ()) (args : Arguments) :
    (evaluateText level args text).1 = .ok ⟨n, v, printedText listing result⟩ :=
  evaluateText_eq_ok_iff.2 ⟨e, listing, result, hshown, fun _ => hcheck, rfl⟩

/-! ## Outcomes -/

namespace Outcome

/-- Whether a run ends by itself with some exit code, and what errors it logs, prints and writes. -/
structure Ends (outcome : Outcome) (code : Nat) (complaints : List LogLine) (printed : String)
    (written : List (Place × String)) : Prop where
  ending : outcome.ending = .exit code
  errors : errors outcome.log = complaints
  output : outcome.output = printed
  written : outcome.written = written

/-- Whether a run ends with one error and exit code 1, and writes no document. -/
def Stops (outcome : Outcome) (message printed : String) : Prop :=
  outcome.Ends 1 [complaint message] printed []

/-- Whether a run ends well, and what it writes. -/
def Completes (outcome : Outcome) (printed : String) (written : List (Place × String)) : Prop :=
  outcome.Ends 0 [] printed written

/-- Whether two runs end alike: they may differ in their logs only. -/
structure EndsLike (outcome other : Outcome) : Prop where
  ending : outcome.ending = other.ending
  output : outcome.output = other.output
  written : outcome.written = other.written

end Outcome

/-! ## Steps of a plan -/

section Steps

variable {β : Type} {stage : Logged β} {next : β → Plan} {rest : Plan} {code : Nat}
  {complaints : List LogLine} {printed : String} {written : List (Place × String)}

theorem on_after_of_ok {b : β} (h : stage.1 = .ok b) :
    (Plan.after stage next).on store =
      { (next b).on store with log := stage.2 ++ ((next b).on store).log } := by
  rw [Plan.after, Plan.on, h]

/-- A stage that fails with a message to be reported ends the run. -/
theorem stops_after {message : String} (h : stage.1 = .error (.reported message))
    (hlog : errors stage.2 = []) : ((Plan.after stage next).on store).Stops message "" := by
  rw [Plan.after, Plan.on, h]
  refine ⟨rfl, ?_, rfl, rfl⟩
  show errors (stage.2 ++ [complaint message]) = _
  rw [errors_append, hlog]
  rfl

/-- After a stage that logs no error a run ends as the rest of its plan does. -/
theorem Outcome.Ends.after {b : β} (h : stage.1 = .ok b) (hlog : Logged.errors stage.2 = [])
    (hnext : ((next b).on store).Ends code complaints printed written) :
    ((Plan.after stage next).on store).Ends code complaints printed written := by
  rw [on_after_of_ok h]
  refine ⟨hnext.ending, ?_, hnext.output, hnext.written⟩
  rw [errors_append, hlog, hnext.errors, List.nil_append]

theorem Outcome.Ends.print (h : (rest.on store).Ends code complaints printed written)
    (text : String) :
    ((Plan.print text rest).on store).Ends code complaints (text ++ printed) written :=
  ⟨h.ending, h.errors, congrArg (text ++ ·) h.output, h.written⟩

end Steps

/-! ## Runs that show something -/

/-- The run that draws the literals and the value of a program. -/
def drawing (args : Arguments) (literals : List (Value Float)) (v : Value Float) :
    Traced Float String :=
  document .default (numbered 1 literals ++ [("result", v)]) ["result"] (some (Path.name args.path))
    (some { (Settings.default : Settings Float) with
      padding := args.padding.getD (Settings.default : Settings Float).padding })

/-- How a run ends that shows something about a program. If a picture is asked for, either the whole
document is written and that is reported, or it cannot be drawn and nothing is written. -/
def Outcome.Shows (outcome : Outcome) (store : Store) (args : Arguments) (n : Expr Float)
    (v : Value Float) (printed : String) : Prop :=
  match args.picturePath? with
  | none => outcome.Completes printed []
  | some path => ∃ literals made place, n.literals.result = .ok literals ∧
      store.makeParents path = .ok made ∧ made.target (Path.normal path) = .ok place ∧
      match (drawing args literals v).result with
      | .ok content =>
          outcome.Completes (printed ++ writtenText (Path.normal path)) [(place, content)]
      | .error fault => fault = .undrawable ∧ outcome.Stops fault.message printed

theorem mem_numbered {first : Nat} {vs : List (Value Float)} {entry : String × Value Float}
    (h : entry ∈ numbered first vs) : entry.2 ∈ vs := by
  induction vs generalizing first with
  | nil => cases h
  | cons v vs ih =>
    rcases List.mem_cons.1 h with rfl | h
    · exact List.mem_cons_self
    · exact List.mem_cons_of_mem _ (ih h)

/-- What is drawn of a program can be listed, and drawing it fails only for a number that is not
finite. -/
theorem drawing_cases {n : Expr Float} {v : Value Float} (hn : n.IsConcrete) (hv : v.IsConcrete)
    (level : Level) (args : Arguments) (printed : String) :
    ∃ literals, n.literals.result = .ok literals ∧
      (drawnEntries level ⟨n, v, printed⟩).1 = .ok (numbered 1 literals ++ [("result", v)]) ∧
      (drawDocument level args (numbered 1 literals ++ [("result", v)])).1 =
        (drawing args literals v).result.mapError (Failure.of drawingFaults) ∧
      ∀ fault, (drawing args literals v).result = .error fault → fault = .undrawable := by
  have hentries : ∀ entry ∈ numbered 1 n.leaves ++ [("result", v)], entry.2.IsConcrete := by
    intro entry hentry
    rcases List.mem_append.1 hentry with hentry | hentry
    · exact Expr.isConcrete_of_mem_leaves hn (mem_numbered hentry)
    · obtain rfl := List.mem_singleton.1 hentry
      exact hv
  refine ⟨n.leaves, Expr.result_literals hn.isComplete, ?_, ?_,
    fun fault => undrawable_of_document _ hentries rfl _ _⟩
  · have hfound : (n.literals level).1 = .ok n.leaves := Expr.yields_literals hn level
    rw [drawnEntries, fst_bind_of_ok (fst_ofTraced_eq_ok_iff.2 hfound)]
    rfl
  · rw [drawing, ← document_fst _ hentries _ _ level]
    rfl

/-- The document of a picture is written as a whole, or not at all if it cannot be drawn. -/
theorem planPicture_cases {n : Expr Float} {v : Value Float} (hn : n.IsConcrete)
    (hv : v.IsConcrete) (level : Level) (args : Arguments) (printed : String) {path : String}
    {made : Store} {place : Place} (hmade : store.makeParents path = .ok made)
    (hplace : made.target (Path.normal path) = .ok place) :
    ∃ literals, n.literals.result = .ok literals ∧
      match (drawing args literals v).result with
      | .ok content =>
          ((planPicture level args ⟨n, v, printed⟩ path).on store).Completes
            (writtenText (Path.normal path)) [(place, content)]
      | .error fault => fault = .undrawable ∧
          ((planPicture level args ⟨n, v, printed⟩ path).on store).Stops fault.message "" := by
  obtain ⟨literals, hliterals, hentries, hdraw, hfault⟩ := drawing_cases hn hv level args printed
  have hfound := errors_drawnEntries level ⟨n, v, printed⟩
  have hdrawn := errors_drawDocument level args (numbered 1 literals ++ [("result", v)])
  refine ⟨literals, hliterals, ?_⟩
  cases hdrawing : (drawing args literals v).result with
  | ok content =>
    rw [hdrawing] at hdraw
    refine Outcome.Ends.after hentries hfound ?_
    rw [Plan.on, hmade]
    refine Outcome.Ends.after hdraw hdrawn ?_
    rw [Plan.on, Plan.on, hplace]
    exact ⟨rfl, rfl, String.append_empty, rfl⟩
  | error fault =>
    obtain rfl := hfault fault hdrawing
    rw [hdrawing] at hdraw
    refine ⟨rfl, Outcome.Ends.after hentries hfound ?_⟩
    rw [Plan.on, hmade]
    exact stops_after hdraw hdrawn

/-- A run about whose program something is shown prints it, and then draws if that is asked for. -/
theorem runText_of_shown {e n : Expr Float} {v : Value Float} {listing result : String}
    (hshown : Shown text e n v listing result) (hcheck : e.validate = .ok ())
    (hfiles : ∀ path, args.picturePath? = some path → ∃ made place,
      store.makeParents path = .ok made ∧ made.target (Path.normal path) = .ok place) :
    (runText store level args text).Shows store args n v (printedText listing result) := by
  have hconcrete := (Expr.isPrintable_of_parse hshown.parse).isConcrete
  obtain rfl := Except.ok.inj
    (hshown.normalize.symm.trans (Expr.normalize_fst hconcrete .warning))
  have hv : v.IsConcrete :=
    (Expr.steady_evaluateIn hconcrete.normalized none rfl).yields v hshown.evaluate
  have hevaluate : (evaluateText level args text).1 = _ := evaluateText_of_shown hshown hcheck args
  have hlog := errors_evaluateText level args text
  have hprinted := String.append_empty (s := printedText listing result)
  unfold runText planText Outcome.Shows
  cases hpath : args.picturePath? with
  | none => exact Outcome.Ends.after hevaluate hlog ⟨rfl, rfl, hprinted, rfl⟩
  | some path =>
    obtain ⟨made, place, hmade, hplace⟩ := hfiles path hpath
    obtain ⟨literals, hliterals, hpicture⟩ := planPicture_cases hconcrete.normalized hv level args
      (printedText listing result) hmade hplace
    refine ⟨literals, made, place, hliterals, hmade, hplace, ?_⟩
    cases hdrawing : (drawing args literals v).result with
    | ok content =>
      rw [hdrawing] at hpicture
      exact Outcome.Ends.after hevaluate hlog (hpicture.print _)
    | error fault =>
      rw [hdrawing] at hpicture
      obtain ⟨hundrawable, hstops⟩ := hpicture
      have hrest := hstops.print (printedText listing result)
      rw [hprinted] at hrest
      exact ⟨hundrawable, Outcome.Ends.after hevaluate hlog hrest⟩

theorem runText_of_unshown {message : String} (h : Unshown args.validate text message) :
    (runText store level args text).Stops message "" :=
  stops_after (evaluateText_of_unshown h) (errors_evaluateText level args text)

/-- A run that shows something prints something. -/
theorem Outcome.Shows.output_ne {outcome : Outcome} {n : Expr Float} {v : Value Float}
    {listing result : String} (h : outcome.Shows store args n v (printedText listing result)) :
    outcome.output ≠ "" := by
  have hprinted (more : String) : printedText listing result ++ more ≠ "" := by
    intro hempty
    have hlast := (String.append_eq_empty_iff.1 (String.append_eq_empty_iff.1 hempty).1).2
    exact absurd hlast (by decide)
  unfold Outcome.Shows at h
  split at h
  · rw [h.output, ← String.append_empty (s := printedText listing result)]
    exact hprinted ""
  · obtain ⟨literals, made, place, _, _, _, h⟩ := h
    split at h
    · rw [h.output]
      exact hprinted _
    · rw [h.2.output, ← String.append_empty (s := printedText listing result)]
      exact hprinted ""

/-! ## With and without the check -/

/-- Runs end alike with and without the check. -/
theorem runText_endsLike (store : Store) (level : Level) (args : Arguments) (text : String)
    (checked : Bool) :
    (runText store level { args with validate := checked } text).EndsLike
      (runText store level args text) := by
  rcases unshown_or_shown args.validate text with
    ⟨message, hunshown⟩ | ⟨e, n, v, listing, result, hshown, hcheck⟩
  · -- a program that passes the check and is shown would be shown without the check as well
    obtain ⟨message', hunshown'⟩ : ∃ message, Unshown checked text message := by
      refine (unshown_or_shown checked text).resolve_right ?_
      rintro ⟨e, n, v, listing, result, hshown, hcheck⟩
      have hok : (evaluateText level args text).1 = _ := evaluateText_of_shown hshown hcheck args
      rw [evaluateText_of_unshown hunshown] at hok
      cases hok
    have hstops : (runText store level args text).Stops message "" := runText_of_unshown hunshown
    have hstops' : (runText store level { args with validate := checked } text).Stops message' "" :=
      runText_of_unshown hunshown'
    exact ⟨hstops'.ending.trans hstops.ending.symm, hstops'.output.trans hstops.output.symm,
      hstops'.written.trans hstops.written.symm⟩
  · -- after the stages that evaluate the program, the plan is the same
    have hleft : (evaluateText level { args with validate := checked } text).1 = _ :=
      evaluateText_of_shown hshown hcheck _
    have hright : (evaluateText level args text).1 = _ := evaluateText_of_shown hshown hcheck _
    rw [runText, runText, planText, planText, on_after_of_ok hleft, on_after_of_ok hright]
    exact ⟨rfl, rfl, rfl⟩

/-! ## Whole runs -/

/-- The text of the program in a file. -/
def programText (content : String) : String := String.ofList (Text.unifyBreaks content.toList)

theorem runWith_of_read {content : String} (h : store.read args.path = .ok content) :
    runWith store level args = runText store level args (programText content) := by
  rw [runWith, plan, Plan.on, h]
  rfl

/-- A run on a program that can be read, with files that can be written, ends by itself: no fault
leaves it. It prints nothing and stops with one error exactly if there is a reason why nothing is
shown about the program. Otherwise the program passes the check, its listing and result are printed,
and a picture that is asked for is written as a whole or, if a number in it is not finite, not at
all. The check changes nothing but the log, and nothing is divided by zero on the way: the run is
the same whatever another division makes of zero divisors. -/
theorem run_endings (store : Store) (level : Level) (args : Arguments) (content : String)
    (hread : store.read args.path = .ok content)
    (hfiles : ∀ path, args.picturePath? = some path → ∃ made place,
      store.makeParents path = .ok made ∧ made.target (Path.normal path) = .ok place) :
    ((∃ message, (runWith store level args).Stops message "") ↔
        ∃ message, Unshown args.validate (programText content) message) ∧
      (∀ message, Unshown args.validate (programText content) message →
        (runWith store level args).Stops message "") ∧
      ((¬∃ message, Unshown args.validate (programText content) message) →
        ∃ e n v listing result, Shown (programText content) e n v listing result ∧
          e.validate = .ok () ∧
          (runWith store level args).Shows store args n v (printedText listing result)) ∧
      (∀ checked, (runWith store level { args with validate := checked }).EndsLike
        (runWith store level args)) ∧
      ∀ quotient : Float → Float → Float,
        (∀ x y, eq y zero = false → quotient x y = x / y) →
          @runWith (.dividing quotient) store level args = runWith store level args := by
  have hshows (h : ¬∃ message, Unshown args.validate (programText content) message) :
      ∃ e n v listing result, Shown (programText content) e n v listing result ∧
        e.validate = .ok () ∧
        (runWith store level args).Shows store args n v (printedText listing result) := by
    obtain ⟨e, n, v, listing, result, hshown, hcheck⟩ :=
      (unshown_or_shown args.validate (programText content)).resolve_left h
    refine ⟨e, n, v, listing, result, hshown, hcheck, ?_⟩
    rw [runWith_of_read hread]
    exact runText_of_shown hshown hcheck hfiles
  have hstops (message : String) (h : Unshown args.validate (programText content) message) :
      (runWith store level args).Stops message "" := by
    rw [runWith_of_read hread]
    exact runText_of_unshown h
  refine ⟨⟨?_, fun ⟨message, h⟩ => ⟨message, hstops message h⟩⟩, hstops, hshows, ?_,
    fun _ h => runWith_dividing h store level args⟩
  · rintro ⟨message, h⟩
    by_contra hnone
    obtain ⟨_, _, _, _, _, _, _, hshow⟩ := hshows hnone
    exact hshow.output_ne h.output
  · intro checked
    have hread' : store.read ({ args with validate := checked } : Arguments).path = .ok content :=
      hread
    rw [runWith_of_read hread, runWith_of_read hread']
    exact runText_endsLike store level args (programText content) checked

/-- A store with a program whose value is so far away that its window has no finite sides. -/
def farStore : Store := ⟨[(⟨.above 0, ["p"]⟩, .file "point(1e308, 0)")]⟩

/-- A request to draw the program. -/
def farArguments : Arguments := ⟨"p", "INFO", true, some "t", none⟩

theorem exists_place_far {path : String} (h : farArguments.picturePath? = some path) :
    ∃ made place, farStore.makeParents path = .ok made ∧
      made.target (Path.normal path) = .ok place := by
  have hpath : farArguments.picturePath? = some "t" := by decide +kernel
  obtain rfl : "t" = path := Option.some.inj (hpath.symm.trans h)
  have hmade : farStore.makeParents "t" = .ok farStore := by cbv
  have hplace : farStore.target (Path.normal "t") = .ok ⟨.above 0, ["t"]⟩ := by cbv
  exact ⟨_, _, hmade, hplace⟩

theorem run_endings_far :
    farStore.read farArguments.path = .ok "point(1e308, 0)" ∧
      (∀ path, farArguments.picturePath? = some path → ∃ made place,
        farStore.makeParents path = .ok made ∧ made.target (Path.normal path) = .ok place) ∧
      (¬∃ message, Unshown true (programText "point(1e308, 0)") message) ∧
      ∃ e n v listing result, Shown (programText "point(1e308, 0)") e n v listing result ∧
        e.validate = .ok () ∧ (runWith farStore .info farArguments).Shows farStore farArguments n v
          (printedText listing result) := by
  have hread : farStore.read farArguments.path = .ok "point(1e308, 0)" := by cbv
  have hshown : ¬∃ message, Unshown true (programText "point(1e308, 0)") message := by
    rintro ⟨message, hunshown⟩
    have herror : (evaluateText .info farArguments (programText "point(1e308, 0)")).1 = _ :=
      evaluateText_of_unshown hunshown
    have hok : (evaluateText .info farArguments
        (programText "point(1e308, 0)")).1.toOption.isSome = true := by decide +kernel
    rw [herror] at hok
    cases hok
  obtain ⟨_, _, hshows, _, _⟩ :=
    run_endings farStore .info farArguments "point(1e308, 0)" hread fun _ => exists_place_far
  exact ⟨hread, fun _ => exists_place_far, hshown, hshows hshown⟩

end CommandLine

end Planar
