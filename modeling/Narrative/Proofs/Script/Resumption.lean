import Narrative.Proofs.Context.Failure
import Narrative.Proofs.Script.Completion

/-! Scripts run, and operations applied one by one. A run does what its operations do up to the first
that fails, which changes nothing. A script that is run again from the operation after a failure, as
long as operations fail, prints, reports and leaves what its operations do one by one. -/
namespace Narrative
namespace Script
open Context

/-! ### Places in a script -/

def Failure.later (f : Failure) (n : Nat) : Failure := { f with index := f.index + n }

def Outcome.later (o : Outcome) (n : Nat) : Outcome :=
  { o with failure := o.failure.map (·.later n) }

theorem runFrom_later (ops : Script) (c : Context) (index n : Nat) :
    runFrom (index + n) ops c = (runFrom index ops c).later n := by
  induction ops generalizing c index with
  | nil => rfl
  | cons op ops ih =>
    cases hop : op.execute c with
    | error e c₁ => simp [runFrom, hop, Outcome.later, Failure.later]
    | ok line c₁ =>
      have hlater := ih c₁ (index + 1)
      rw [show index + 1 + n = index + n + 1 by omega] at hlater
      simp [runFrom, hop, hlater, Outcome.later]

section Step
variable {op : Op} {c c₁ : Context}

theorem run_ok {line : Option String} (h : op.execute c = .ok line c₁) (ops : Script) :
    run (op :: ops) c =
      { (run ops c₁).later 1 with lines := line.toList ++ (run ops c₁).lines } := by
  have hlater := runFrom_later ops c₁ 0 1
  simp only [run, runFrom, h, hlater]
  rfl

theorem run_error {e : StackError} (h : op.execute c = .error e c₁) (ops : Script) :
    run (op :: ops) c = ⟨[], some ⟨0, op.verb, e⟩, c₁⟩ := by
  simp [run, runFrom, h]

end Step

/-! ### The first failure -/

theorem run_eq_iff_completes {ops : Script} {c d : Context} {lines : List String} :
    run ops c = ⟨lines, none, d⟩ ↔ Completes ops c lines d := by
  refine ⟨fun h => ?_, fun h => h.runFrom_eq 0⟩
  have hcompletes : Completes ops c (run ops c).lines (run ops c).context :=
    completes_of_runFrom (congrArg Outcome.failure h)
  rwa [h] at hcompletes

section Sound
variable {config : Config} {c : Context}

theorem preserves_sound_execute (op : Op) : Preserves (Sound config) op.execute :=
  (preserves_sound_op op.action).bind fun _ => .pure _

/-- A run that fails has got through the operations before the failed one, and left the context as they
did. -/
theorem completes_until_failure (hc : c.Sound config) {ops : Script} {f : Failure}
    (h : (run ops c).failure = some f) :
    Completes (ops.take f.index) c (run ops c).lines (run ops c).context ∧
      ∃ op, ops[f.index]? = some op ∧ f.verb = op.verb ∧
        attempt op.execute (run ops c).context = (.error f.error, (run ops c).context) := by
  induction ops generalizing c f with
  | nil => cases h
  | cons op ops ih =>
    cases hop : op.execute c with
    | error e c₁ =>
      have hattempt := attempt_of_error hop
      -- nothing of the failed operation is left
      obtain rfl : c₁ = c := atomic_execute op hc hattempt
      rw [run_error hop] at h ⊢
      obtain rfl := Option.some.inj h
      exact ⟨.nil c₁, op, rfl, rfl, hattempt⟩
    | ok line c₁ =>
      have hattempt := attempt_of_ok hop
      have hc₁ : c₁.Sound config := by
        have hsound := preserves_sound_execute op hc
        rwa [hattempt] at hsound
      rw [run_ok hop] at h ⊢
      obtain ⟨g, hg, rfl⟩ := Option.map_eq_some_iff.mp h
      obtain ⟨hbefore, hfailed⟩ := ih hc₁ hg
      exact ⟨.cons hattempt hbefore, hfailed⟩

end Sound

/-! ### Going on after failures -/

structure Report where
  lines : List String
  failures : List Failure
  context : Context

namespace Report

def withLine (line : Option String) (r : Report) : Report :=
  { r with lines := line.toList ++ r.lines }

def withFailure (f : Failure) (r : Report) : Report := { r with failures := f :: r.failures }

/-- First a run whose operations are counted from `start`, and then what is reported here. -/
def afterRun (o : Outcome) (start : Nat) (r : Report) : Report :=
  ⟨o.lines ++ r.lines, (o.failure.map (·.later start)).toList ++ r.failures, r.context⟩

end Report

/-- Run a script, and after a failure run what follows the failed operation, until nothing is left. -/
def rerun (start : Nat) (ops : Script) (c : Context) : Report :=
  match ops with
  | [] => ⟨[], [], c⟩
  | op :: ops =>
    let o := run (op :: ops) c
    match o.failure with
    | none => .afterRun o start ⟨[], [], o.context⟩
    | some f => .afterRun o start
        (rerun (start + f.index + 1) ((op :: ops).drop (f.index + 1)) o.context)
termination_by ops.length
decreasing_by simp only [List.length_drop, List.length_cons]; omega

def printed (answers : List (Except StackError (Option String))) : List String :=
  answers.flatMap fun
    | .ok line => line.toList
    | .error _ => []

/-- The failures among the answers of operations, the first of which is counted as `start`. -/
def failuresFrom (start : Nat) : Script → List (Except StackError (Option String)) → List Failure
  | op :: ops, .error e :: answers => ⟨start, op.verb, e⟩ :: failuresFrom (start + 1) ops answers
  | _ :: ops, .ok _ :: answers => failuresFrom (start + 1) ops answers
  | _, _ => []

def applyAll (start : Nat) (ops : Script) (c : Context) : Report :=
  let (answers, d) := attempts Op.execute ops c
  ⟨printed answers, failuresFrom start ops answers, d⟩

theorem rerun_of_completed {ops : Script} {c : Context} (h : (run ops c).failure = none)
    (start : Nat) : rerun start ops c = ⟨(run ops c).lines, [], (run ops c).context⟩ := by
  cases ops with
  | nil => simp [rerun, run, runFrom]
  | cons op ops =>
    rw [rerun]
    simp [h, Report.afterRun]

theorem rerun_of_failed {ops : Script} {c : Context} {f : Failure}
    (h : (run ops c).failure = some f) (start : Nat) :
    rerun start ops c = .afterRun (run ops c) start
      (rerun (start + f.index + 1) (ops.drop (f.index + 1)) (run ops c).context) := by
  cases ops with
  | nil => cases h
  | cons op ops =>
    rw [rerun]
    simp only [h]

section Step
variable {op : Op} {c c₁ : Context} (ops : Script) (start : Nat)

/-- Whether the run goes through or not, an operation that succeeds only adds its line. -/
theorem rerun_ok {line : Option String} (h : op.execute c = .ok line c₁) :
    rerun start (op :: ops) c = (rerun (start + 1) ops c₁).withLine line := by
  have hrun := run_ok h ops
  cases hf : (run ops c₁).failure with
  | none =>
    have hf' : (run (op :: ops) c).failure = none := by rw [hrun]; simp [Outcome.later, hf]
    rw [rerun_of_completed hf', rerun_of_completed hf, hrun]
    rfl
  | some f =>
    have hf' : (run (op :: ops) c).failure = some (f.later 1) := by
      rw [hrun]
      simp [Outcome.later, hf]
    -- both ways of counting name the same place: from the longer script, and from one further on
    have hnext : start + (f.later 1).index + 1 = start + 1 + f.index + 1 := by
      simp only [Failure.later]
      omega
    have hplace : (f.later 1).later start = f.later (start + 1) := by
      simp [Failure.later, Nat.add_assoc, Nat.add_comm 1]
    rw [rerun_of_failed hf', rerun_of_failed hf, hnext]
    simp only [Report.afterRun, Report.withLine, hf', hf, Option.map_some, hplace]
    rw [hrun]
    simp [Outcome.later, Failure.later]

theorem rerun_error {e : StackError} (h : op.execute c = .error e c₁) :
    rerun start (op :: ops) c = (rerun (start + 1) ops c₁).withFailure ⟨start, op.verb, e⟩ := by
  have hrun := run_error h ops
  have hf : (run (op :: ops) c).failure = some ⟨0, op.verb, e⟩ := by rw [hrun]
  rw [rerun_of_failed hf, hrun]
  simp [Report.afterRun, Report.withFailure, Failure.later]

theorem applyAll_ok {line : Option String} (h : op.execute c = .ok line c₁) :
    applyAll start (op :: ops) c = (applyAll (start + 1) ops c₁).withLine line := by
  simp [applyAll, attempts, attempt_of_ok h, printed, failuresFrom, Report.withLine]

theorem applyAll_error {e : StackError} (h : op.execute c = .error e c₁) :
    applyAll start (op :: ops) c =
      (applyAll (start + 1) ops c₁).withFailure ⟨start, op.verb, e⟩ := by
  simp [applyAll, attempts, attempt_of_error h, printed, failuresFrom, Report.withFailure]

end Step

theorem rerun_eq_applyAll (start : Nat) (ops : Script) (c : Context) :
    rerun start ops c = applyAll start ops c := by
  induction ops generalizing start c with
  | nil => simp [rerun, applyAll, attempts, printed, failuresFrom]
  | cons op ops ih =>
    cases h : op.execute c with
    | ok line c₁ => rw [rerun_ok ops start h, applyAll_ok ops start h, ih]
    | error e c₁ => rw [rerun_error ops start h, applyAll_error ops start h, ih]

/-- Whatever has been done to a context since it was made, a run on it prints the lines that its
operations print one after the other. It fails exactly if one of them does, and then tells which and
why and leaves the context as before that one. Run again from the operation after each failure, it
does all that its operations do if each is applied, whatever becomes of the others. -/
theorem runs_apply_operations {config : Config} {start : Context}
    (hstart : Context.ofConfig config = .ok start) (history : List Context.Op) (ops : Script) :
    let c := (attempts Context.Op.perform history start).2
    let o := run ops c
    (∀ lines d, o = ⟨lines, none, d⟩ ↔ Completes ops c lines d) ∧
    (∀ f, o.failure = some f → Completes (ops.take f.index) c o.lines o.context ∧
      ∃ op, ops[f.index]? = some op ∧ f.verb = op.verb ∧
        attempt op.execute o.context = (.error f.error, o.context)) ∧
    rerun 0 ops c = applyAll 0 ops c := by
  intro c o
  have hc : c.Sound config := sound_attempts hstart history
  exact ⟨fun _ _ => run_eq_iff_completes, fun _ hf => completes_until_failure hc hf,
    rerun_eq_applyAll 0 ops c⟩

/-- On the exhausted context: no frame to leave, no room for a variable, and a save in the way. -/
def stumbling : Script :=
  [.push (.int 5), .popFrame, .set "x" (.int 1), .top, .save none]

theorem stumbling_applies_operations :
    ∃ start, Context.ofConfig tight = .ok start ∧
      let c := (attempts Context.Op.perform exhaust start).2
      let o := run stumbling c
      o.failure = some ⟨1, .popFrame, .noFrame⟩ ∧
      Completes (stumbling.take 1) c o.lines o.context ∧
      attempt (Op.execute .popFrame) o.context = (.error .noFrame, o.context) ∧
      rerun 0 stumbling c = applyAll 0 stumbling c ∧ (rerun 0 stumbling c).lines = [(Value.int 5).text] ∧
      (rerun 0 stumbling c).failures =
        [⟨1, .popFrame, .noFrame⟩, ⟨2, .set, .overflow 1⟩, ⟨4, .save, .contextSavedTwice⟩] := by
  have hstart : Context.ofConfig tight = .ok _ := rfl
  refine ⟨_, hstart, ?_⟩
  intro c o
  obtain ⟨-, hstops, hrerun⟩ := runs_apply_operations hstart exhaust stumbling
  have hfailure : o.failure = some ⟨1, .popFrame, .noFrame⟩ := by rfl
  obtain ⟨hbefore, op, hop, -, hfailed⟩ := hstops _ hfailure
  obtain rfl : Op.popFrame = op := Option.some.inj hop
  have hlines : (applyAll 0 stumbling c).lines = [(Value.int 5).text] := by rfl
  have hfailures : (applyAll 0 stumbling c).failures =
      [⟨1, .popFrame, .noFrame⟩, ⟨2, .set, .overflow 1⟩, ⟨4, .save, .contextSavedTwice⟩] := by rfl
  refine ⟨hfailure, hbefore, hfailed, hrerun, ?_, ?_⟩
  · rw [hrerun, hlines]
  · rw [hrerun, hfailures]

end Script
end Narrative
