import LineForth.Proofs.Lockstep
import LineForth.Proofs.Turns
import Mathlib.Data.List.Forall2

/-!
# Two interpreters under the same orders

Two interpreters are given the same lines, one by one or from the same sources. If their
machines are related, and if what a run does to a machine keeps them related and ends
alike on both, then the two go through the same turns, and through the same orders, to
the same outcomes.
-/

set_option autoImplicit false

namespace LineForth

variable {σ τ : Type}

namespace Machine

/-- The second result repeats the first: the same outcome, and related machines. -/
def Repeats (related : Machine σ → Machine τ → Prop) (first : Outcome × Machine σ)
    (second : Outcome × Machine τ) : Prop :=
  second.1 = first.1 ∧ related first.2 second.2

theorem InStep.repeats {related : Machine σ → Machine τ → Prop} {first : Outcome × Machine σ}
    {second : Outcome × Machine τ} (inStep : InStep (fun _ _ => False) related first second) :
    Repeats related first second :=
  inStep.resolve_left id

/-- A relation between machines that all that a run does to them keeps. -/
structure Parallel [Output σ] [Output τ] (related : Machine σ → Machine τ → Prop) : Prop where
  trace : ∀ {m m'} mark message, related m m' →
    related (m.trace mark message) (m'.trace mark message)
  record : ∀ {m m'} events, related m m' → related (m.record events) (m'.record events)
  noteLine : ∀ {m m'} location failure, related m m' →
    related (m.noteLine location failure) (m'.noteLine location failure)
  write : ∀ {m m'} passage octets, related m m' →
    Repeats related (m.write passage octets) (m'.write passage octets)
  flush : ∀ {m m'}, related m m' → Repeats related m.flush m'.flush
  stack : ∀ {m m'}, related m m' → m'.stack = m.stack
  echo : ∀ {m m'}, related m m' → m'.echo = m.echo
  evalLine : ∀ {m m'} line, related m m' → Repeats related (m.evalLine line) (m'.evalLine line)

namespace Parallel

variable [Output σ] [Output τ] {related : Machine σ → Machine τ → Prop} {m : Machine σ}
  {m' : Machine τ} {first : Outcome × Machine σ} {second : Outcome × Machine τ}

theorem finish (parallel : Parallel related) (repeats : Repeats related first second) :
    Repeats related (Machine.finish first) (Machine.finish second) := by
  rcases first with ⟨_, m⟩
  rcases second with ⟨outcome, m'⟩
  obtain ⟨rfl, relation⟩ := repeats
  obtain ⟨flushed, after⟩ := parallel.flush relation
  cases outcome with
  | done => exact ⟨congrArg (Outcome.orElse .done) flushed, after⟩
  | failed failure => exact ⟨congrArg (Outcome.orElse (.failed failure)) flushed, after⟩
  | panicked panic => exact ⟨rfl, relation⟩

theorem echoStack (parallel : Parallel related) (relation : related m m') :
    Repeats related m.echoStack m'.echoStack := by
  unfold Machine.echoStack printStack
  rw [parallel.echo relation, parallel.stack relation]
  split
  · exact parallel.write _ _ relation
  · exact ⟨rfl, relation⟩

theorem conclude (parallel : Parallel related) (repeats : Repeats related first second) :
    Repeats related (Machine.conclude first) (Machine.conclude second) := by
  rcases first with ⟨_, m⟩
  rcases second with ⟨outcome, m'⟩
  obtain ⟨rfl, relation⟩ := repeats
  cases outcome with
  | done => exact parallel.finish (parallel.echoStack relation)
  | failed failure => exact parallel.finish ⟨rfl, relation⟩
  | panicked panic => exact parallel.finish ⟨rfl, relation⟩

theorem eval (parallel : Parallel related) (line : Bytes) (relation : related m m') :
    Repeats related (m.eval line) (m'.eval line) := by
  rw [eval_eq_conclude, eval_eq_conclude]
  exact parallel.conclude (parallel.evalLine line relation)

theorem farewell (parallel : Parallel related) (relation : related m m') :
    Repeats related m.farewell m'.farewell := by
  apply parallel.finish
  apply parallel.write
  exact parallel.trace _ _ relation

theorem reportFailure (parallel : Parallel related) (location : Option Location)
    (failure : Failure) (relation : related m m') :
    Repeats related (m.reportFailure location failure) (m'.reportFailure location failure) := by
  have noted := parallel.noteLine location failure
    (parallel.trace (text "!") failure.detail relation)
  have written := parallel.write .direct (text "Error: " ++ failure.message ++ [Bytes.newline])
    noted
  unfold Machine.reportFailure
  dsimp only
  generalize ((m.trace _ _).noteLine location failure).write _ _ = first at written ⊢
  generalize ((m'.trace _ _).noteLine location failure).write _ _ = second at written ⊢
  rcases first with ⟨_, after⟩
  rcases second with ⟨outcome, after'⟩
  obtain ⟨rfl, relatedAfter⟩ := written
  cases outcome with
  | done => exact parallel.flush relatedAfter
  | failed failure => exact ⟨rfl, relatedAfter⟩
  | panicked panic => exact ⟨rfl, relatedAfter⟩

theorem evalReporting (parallel : Parallel related) (location : Option Location) (line : Bytes)
    (relation : related m m') :
    Repeats related (m.evalReporting location line) (m'.evalReporting location line) := by
  have evaluated := parallel.eval line relation
  unfold Machine.evalReporting
  generalize m.eval line = first at evaluated ⊢
  generalize m'.eval line = second at evaluated ⊢
  rcases first with ⟨_, after⟩
  rcases second with ⟨outcome, after'⟩
  obtain ⟨rfl, relatedAfter⟩ := evaluated
  cases outcome with
  | done => exact ⟨rfl, relatedAfter⟩
  | failed failure => exact parallel.reportFailure location failure relatedAfter
  | panicked panic => exact ⟨rfl, relatedAfter⟩

end Parallel

end Machine

open Machine (Parallel)

/-- Interpreters with the same sources and related machines. -/
structure Interpreter.SideBySide (related : Machine σ → Machine τ → Prop) (first : Interpreter σ)
    (second : Interpreter τ) : Prop where
  sources : second.sources = first.sources
  machine : related first.machine second.machine

namespace Turn

/-- Turns at the same sources, with related machines. -/
structure SideBySide (related : Machine σ → Machine τ → Prop) (turn : Turn σ) (turn' : Turn τ) :
    Prop where
  interrupt : turn'.interrupt = turn.interrupt
  passed : turn'.passed = turn.passed
  sources : turn'.sources = turn.sources
  machine : related turn.machine turn'.machine

variable {related : Machine σ → Machine τ → Prop} {turn later : Turn σ} {turn' : Turn τ}

theorem SideBySide.under (together : SideBySide related turn turn') (signal : Option Failure) :
    SideBySide related (turn.under signal) (turn'.under signal) :=
  ⟨congrArg signal.or together.interrupt, together.passed, together.sources, together.machine⟩

variable [Output σ] [Output τ]

theorem Next.sideBySide (parallel : Parallel related) (next : Next turn later)
    (together : SideBySide related turn turn') :
    ∃ later', Next turn' later' ∧ SideBySide related later later' := by
  rcases turn' with ⟨_, _, _, m'⟩
  obtain ⟨rfl, rfl, rfl, relation⟩ := together
  cases next with
  | @line source after line events passed rest m evaluated received stays done =>
    have reported := parallel.evalReporting after.location? line (parallel.record events relation)
    rcases second : (m'.record events).evalReporting after.location? line with
      ⟨outcome, evaluated'⟩
    rw [done, second] at reported
    obtain ⟨rfl, relatedAfter⟩ := reported
    exact ⟨_, .line received stays second, rfl, rfl, rfl, relatedAfter⟩
  | @source source after failure events passed rest m received ended =>
    exact ⟨_, .source received ended, rfl, rfl, rfl, parallel.record events relation⟩

theorem Ends.sideBySide (parallel : Parallel related) {result : Outcome × Interpreter σ}
    (ends : Ends turn result) (together : SideBySide related turn turn') :
    ∃ result', Ends turn' result' ∧ result'.1 = result.1 ∧
      Interpreter.SideBySide related result.2 result'.2 := by
  rcases turn' with ⟨_, _, _, m'⟩
  obtain ⟨rfl, rfl, rfl, relation⟩ := together
  cases ends with
  | all interrupt passed m =>
    obtain ⟨outcome, after⟩ := parallel.flush relation
    exact ⟨_, .all interrupt passed m', outcome, rfl, after⟩
  | interrupted failure passed source rest m =>
    exact ⟨_, .interrupted failure passed source rest m', rfl, rfl, relation⟩
  | @failure source after failure events passed rest m received other =>
    exact ⟨_, .failure received other, rfl, rfl, parallel.record events relation⟩
  | @exit source after line events passed rest m received exits =>
    obtain ⟨outcome, said⟩ := parallel.farewell (parallel.record events relation)
    exact ⟨_, .exit received exits, outcome, rfl, said⟩
  | @line source after line events outcome passed rest m evaluated received stays stopped other =>
    have reported := parallel.evalReporting after.location? line (parallel.record events relation)
    rcases second : (m'.record events).evalReporting after.location? line with ⟨_, evaluated'⟩
    rw [stopped, second] at reported
    obtain ⟨rfl, relatedAfter⟩ := reported
    exact ⟨_, .line received stays second other, rfl, rfl, relatedAfter⟩

/-- Two runs under one context go through the same turns. -/
theorem RunsThrough.sideBySide (parallel : Parallel related) {context : Context} {number : Nat}
    {turns : List (Turn σ)} {result : Outcome × Interpreter σ}
    (runs : RunsThrough context number turn turns result)
    (together : SideBySide related turn turn') :
    ∃ turns' result', RunsThrough context number turn' turns' result' ∧
      List.Forall₂ (SideBySide related) turns turns' ∧ result'.1 = result.1 ∧
      Interpreter.SideBySide related result.2 result'.2 := by
  induction runs generalizing turn' with
  | @last number turn result ends =>
    have alongside := together.under (context number)
    obtain ⟨result', ends', outcome, relation⟩ := ends.sideBySide parallel alongside
    exact ⟨_, result', .last ends', .cons alongside .nil, outcome, relation⟩
  | @next number turn later turns result next further inductionHypothesis =>
    have alongside := together.under (context number)
    obtain ⟨later', next', relation⟩ := next.sideBySide parallel alongside
    obtain ⟨turns', result', runs', others, ended⟩ := inductionHypothesis relation
    exact ⟨_, result', .next next' runs', .cons alongside others, ended⟩

end Turn

/-- What an interpreter may be told to do with lines. -/
inductive Order where
  /-- Evaluate this line. -/
  | eval (line : Bytes)
  /-- Evaluate the lines of the sources. -/
  | run (context : Context)
  /-- Read this stream, too. -/
  | addStream (stream : Stream)
  | addList (list : LineList)

namespace Interpreter

def obey [Output σ] (interpreter : Interpreter σ) : Order → Outcome × Interpreter σ
  | .eval line => interpreter.eval line
  | .run context => interpreter.run context
  | .addStream stream => (.done, interpreter.addStream stream)
  | .addList list => (.done, interpreter.addList list)

def obeyAll [Output σ] (interpreter : Interpreter σ) (orders : List Order) : Interpreter σ :=
  orders.foldl (fun current order => (current.obey order).2) interpreter

namespace SideBySide

variable {related : Machine σ → Machine τ → Prop} {first : Interpreter σ} {second : Interpreter τ}

theorem start (together : SideBySide related first second) :
    Turn.SideBySide related (.start first) (.start second) :=
  ⟨rfl, rfl, together.sources, together.machine⟩

theorem addStream (together : SideBySide related first second) (stream : Stream) :
    SideBySide related (first.addStream stream) (second.addStream stream) := by
  unfold Interpreter.addStream
  rw [together.sources]
  split
  · exact ⟨rfl, together.machine⟩
  · exact ⟨rfl, together.machine⟩

theorem addList (together : SideBySide related first second) (list : LineList) :
    SideBySide related (first.addList list) (second.addList list) := by
  unfold Interpreter.addList
  rw [together.sources]
  exact ⟨rfl, together.machine⟩

variable [Output σ] [Output τ]

theorem run (parallel : Parallel related) (together : SideBySide related first second)
    (context : Context) :
    (second.run context).1 = (first.run context).1 ∧
      SideBySide related (first.run context).2 (second.run context).2 := by
  obtain ⟨turns, runs⟩ := first.exists_runsThrough context
  obtain ⟨turns', result', runs', -, outcome, relation⟩ :=
    Turn.RunsThrough.sideBySide parallel runs together.start
  have same : result' = second.run context := (RunsThrough.runsUnder runs').eq_run
  rw [same] at outcome relation
  exact ⟨outcome, relation⟩

theorem obey (parallel : Parallel related) (together : SideBySide related first second)
    (order : Order) :
    (second.obey order).1 = (first.obey order).1 ∧
      SideBySide related (first.obey order).2 (second.obey order).2 := by
  cases order with
  | eval line =>
    obtain ⟨outcome, relation⟩ := parallel.eval line together.machine
    exact ⟨outcome, together.sources, relation⟩
  | run context => exact together.run parallel context
  | addStream stream => exact ⟨rfl, together.addStream stream⟩
  | addList list => exact ⟨rfl, together.addList list⟩

theorem obeyAll (parallel : Parallel related) (together : SideBySide related first second)
    (orders : List Order) : SideBySide related (first.obeyAll orders) (second.obeyAll orders) := by
  induction orders generalizing first second with
  | nil => exact together
  | cons order rest inductionHypothesis =>
    exact inductionHypothesis (together.obey parallel order).2

end SideBySide

end Interpreter

end LineForth
