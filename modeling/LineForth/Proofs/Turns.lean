import LineForth.Proofs.Kept
import Mathlib.Logic.Relation

/-!
# Runs turn by turn

A run goes on in turns. In each turn it asks its context whether to go on and the first of
its sources for a line, and it evaluates that line, or it leaves the source behind if there is
no line any more. It ends in the turn in which it is interrupted, in which it is told to exit,
in which something fails that cannot be reported, or in which no source is left. Nothing is
asked of the sources here.
-/

set_option autoImplicit false

namespace LineForth

namespace Context

/-- What is still answered after so many answers. -/
def drop (number : Nat) (context : Context) : Context := fun further => context (number + further)

theorem drop_zero (context : Context) : context.drop 0 = context :=
  funext fun number => congrArg context (Nat.zero_add number)

theorem next_drop (number : Nat) (context : Context) :
    (context.drop number).next = context.drop (number + 1) :=
  funext fun further => congrArg context (by omega)

end Context

namespace Interpreter

section Drain

variable {σ : Type} [Output σ] {context : Context}

/-- How a run over a source goes on after a line. -/
def afterLine (context : Context) (after : Source) (result : Outcome × Machine σ) : Drained σ :=
  match result with
  | (.done, evaluated) =>
    drain (context.interrupted (if after.interrupts then some .canceled else none)) after evaluated
  | (outcome, evaluated) => ⟨some outcome, context, after, evaluated⟩

theorem drain_of_signal {failure : Failure} (signal : context 0 = some failure) (source : Source)
    (m : Machine σ) :
    drain context source m = ⟨some (.failed failure), context.next, source, m⟩ := by
  rw [drain, signal]

variable {source after : Source} {events : List Event} (silent : context 0 = none)

include silent

theorem drain_of_error {failure : Failure}
    (received : source.readLine = (.error failure, events, after)) (m : Machine σ) :
    drain context source m =
      ⟨if failure.isEndOfInput then none else some (.failed failure), context.next, after,
        m.record events⟩ := by
  rw [drain, silent]
  dsimp only
  split
  next other others last same =>
    rw [received] at same
    cases same
    split
    all_goals rfl
  next line others last same =>
    rw [received] at same
    cases same

theorem drain_of_ok {line : Bytes} (received : source.readLine = (.ok line, events, after))
    (m : Machine σ) :
    drain context source m =
      if line.trim = Machine.exitCommand then
        ⟨some (m.record events).farewell.1, context.next, after, (m.record events).farewell.2⟩
      else
        afterLine context.next after ((m.record events).evalReporting after.location? line) := by
  rw [drain, silent]
  dsimp only
  split
  next failure others last same =>
    rw [received] at same
    cases same
  next other others last same =>
    rw [received] at same
    cases same
    rfl

end Drain

section RunSources

variable {σ : Type} [Output σ] (rest : List Source)

/-- How a run over several sources goes on after the first one. -/
def afterSource (drained : Drained σ) : Outcome × List Source × Machine σ :=
  match drained with
  | ⟨some outcome, _, after, left⟩ => (outcome, after :: rest, left)
  | ⟨none, further, after, left⟩ =>
    let ran := runSources further rest left
    (ran.1, after :: ran.2.1, ran.2.2)

theorem runSources_cons (context : Context) (source : Source) (m : Machine σ) :
    runSources context (source :: rest) m = afterSource rest (drain context source m) := rfl

end RunSources

end Interpreter

/-- A moment of a run between two lines. -/
structure Turn (σ : Type) where
  interrupt : Option Failure
  /-- The sources that have no lines any more. -/
  passed : List Source
  /-- The sources behind them; the first one is asked for a line. -/
  sources : List Source
  machine : Machine σ

namespace Turn

open Interpreter (afterLine afterSource drain drain_of_error drain_of_ok drain_of_signal
  runSources_cons)

variable {σ : Type}

/-- The first turn of a run. -/
def start (interpreter : Interpreter σ) : Turn σ :=
  ⟨none, [], interpreter.sources, interpreter.machine⟩

/-- The turn, once the context has been asked. -/
def under (signal : Option Failure) (turn : Turn σ) : Turn σ :=
  { turn with interrupt := signal.or turn.interrupt }

variable [Output σ]

/-- What a run comes to from here. -/
def result (context : Context) (turn : Turn σ) : Outcome × Interpreter σ :=
  let ran := Interpreter.runSources (context.interrupted turn.interrupt) turn.sources turn.machine
  (ran.1, ⟨ran.2.2, turn.passed ++ ran.2.1⟩)

/-- The run goes on. -/
inductive Next : Turn σ → Turn σ → Prop
  | line {source after : Source} {line : Bytes} {events : List Event} {passed rest : List Source}
      {m evaluated : Machine σ} (received : source.readLine = (.ok line, events, after))
      (stays : line.trim ≠ Machine.exitCommand)
      (done : (m.record events).evalReporting after.location? line = (.done, evaluated)) :
      Next ⟨none, passed, source :: rest, m⟩
        ⟨if after.interrupts then some .canceled else none, passed, after :: rest, evaluated⟩
  | source {source after : Source} {failure : Failure} {events : List Event}
      {passed rest : List Source} {m : Machine σ}
      (received : source.readLine = (.error failure, events, after))
      (ended : failure.isEndOfInput = true) :
      Next ⟨none, passed, source :: rest, m⟩ ⟨none, passed ++ [after], rest, m.record events⟩

/-- The run ends with this turn. -/
inductive Ends : Turn σ → Outcome × Interpreter σ → Prop
  | all (interrupt : Option Failure) (passed : List Source) (m : Machine σ) :
      Ends ⟨interrupt, passed, [], m⟩ (m.flush.1, ⟨m.flush.2, passed⟩)
  | interrupted (failure : Failure) (passed : List Source) (source : Source)
      (rest : List Source) (m : Machine σ) :
      Ends ⟨some failure, passed, source :: rest, m⟩
        (.failed failure, ⟨m, passed ++ source :: rest⟩)
  | failure {source after : Source} {failure : Failure} {events : List Event}
      {passed rest : List Source} {m : Machine σ}
      (received : source.readLine = (.error failure, events, after))
      (other : failure.isEndOfInput = false) :
      Ends ⟨none, passed, source :: rest, m⟩
        (.failed failure, ⟨m.record events, passed ++ after :: rest⟩)
  | exit {source after : Source} {line : Bytes} {events : List Event}
      {passed rest : List Source} {m : Machine σ}
      (received : source.readLine = (.ok line, events, after))
      (exits : line.trim = Machine.exitCommand) :
      Ends ⟨none, passed, source :: rest, m⟩
        ((m.record events).farewell.1, ⟨(m.record events).farewell.2, passed ++ after :: rest⟩)
  | line {source after : Source} {line : Bytes} {events : List Event} {outcome : Outcome}
      {passed rest : List Source} {m evaluated : Machine σ}
      (received : source.readLine = (.ok line, events, after))
      (stays : line.trim ≠ Machine.exitCommand)
      (stopped : (m.record events).evalReporting after.location? line = (outcome, evaluated))
      (other : outcome ≠ .done) :
      Ends ⟨none, passed, source :: rest, m⟩ (outcome, ⟨evaluated, passed ++ after :: rest⟩)

theorem next_or_ends (turn : Turn σ) :
    (∃ later, Next turn later) ∨ ∃ result, Ends turn result := by
  rcases turn with ⟨interrupt, passed, _ | ⟨source, rest⟩, m⟩
  · exact .inr ⟨_, .all interrupt passed m⟩
  · cases interrupt with
    | some failure => exact .inr ⟨_, .interrupted failure passed source rest m⟩
    | none =>
      rcases received : source.readLine with ⟨failure | line, events, after⟩
      · cases ended : failure.isEndOfInput with
        | true => exact .inl ⟨_, .source received ended⟩
        | false => exact .inr ⟨_, .failure received ended⟩
      · by_cases exits : line.trim = Machine.exitCommand
        · exact .inr ⟨_, .exit received exits⟩
        · rcases evaluated : (m.record events).evalReporting after.location? line with
            ⟨outcome, left⟩
          by_cases done : outcome = .done
          · cases done
            exact .inl ⟨_, .line received exits evaluated⟩
          · exact .inr ⟨_, .line received exits evaluated done⟩

theorem next_under_iff {turn later : Turn σ} {signal : Option Failure} :
    Next (turn.under signal) later ↔ signal = none ∧ Next turn later := by
  obtain ⟨interrupt, passed, sources, m⟩ := turn
  cases signal with
  | none => simp [under]
  | some failure =>
    simp only [under, Option.some_or, reduceCtorEq, false_and, iff_false]
    intro next
    cases next

theorem result_cons (context : Context) (interrupt : Option Failure) (passed : List Source)
    (source : Source) (rest : List Source) (m : Machine σ) :
    result context ⟨interrupt, passed, source :: rest, m⟩ =
      let ran := afterSource rest (drain (context.interrupted interrupt) source m)
      (ran.1, ⟨ran.2.2, passed ++ ran.2.1⟩) := rfl

/-- What a run comes to does not change on the way. -/
theorem Next.result_eq {context : Context} {turn later : Turn σ}
    (next : Next (turn.under (context 0)) later) :
    later.result context.next = turn.result context := by
  obtain ⟨silent, next⟩ := next_under_iff.mp next
  cases next with
  | line received stays done =>
    rw [result_cons, result_cons, context.interrupted_none, drain_of_ok silent received,
      if_neg stays, done, afterLine]
  | source received ended =>
    rw [result_cons, context.interrupted_none, drain_of_error silent received, if_pos ended]
    simp [result, afterSource, Context.interrupted_none]

theorem Ends.result_eq {context : Context} {turn : Turn σ} {result : Outcome × Interpreter σ}
    (ends : Ends (turn.under (context 0)) result) : turn.result context = result := by
  obtain ⟨interrupt, passed, sources, m⟩ := turn
  rw [under] at ends
  dsimp only at ends
  rw [← context.interrupted_zero] at ends
  generalize signal : context.interrupted interrupt 0 = answer at ends
  cases ends with
  | all interrupt passed m => simp [Turn.result, Interpreter.runSources]
  | interrupted failure passed source rest m =>
    rw [result_cons, drain_of_signal signal]
    rfl
  | failure received other =>
    rw [result_cons, drain_of_error signal received, other]
    rfl
  | exit received exits =>
    rw [result_cons, drain_of_ok signal received, if_pos exits]
    rfl
  | @line source after line events outcome passed rest m evaluated received stays stopped other =>
    rw [result_cons, drain_of_ok signal received, if_neg stays, stopped]
    cases outcome with
    | done => exact absurd rfl other
    | failed failure => rfl
    | panicked panic => rfl

/-- The run goes on, with a context that gives each answer by the number of those before it. -/
inductive NextUnder (context : Context) : Nat × Turn σ → Nat × Turn σ → Prop
  | intro {number : Nat} {turn later : Turn σ} (next : Next (turn.under (context number)) later) :
      NextUnder context (number, turn) (number + 1, later)

/-- The run reaches a turn. -/
abbrev Reaches (context : Context) : Nat × Turn σ → Nat × Turn σ → Prop :=
  Relation.ReflTransGen (NextUnder context)

/-- The run comes to a result. -/
def ComesTo (context : Context) (first : Nat × Turn σ) (result : Outcome × Interpreter σ) :
    Prop :=
  ∃ number last, Reaches context first (number, last) ∧ Ends (last.under (context number)) result

section Reaches

variable {context : Context} {first last : Nat × Turn σ}

theorem Reaches.path (reaches : Reaches context first last) :
    Relation.ReflTransGen Next first.2 last.2 := by
  refine reaches.lift Prod.snd ?_
  rintro _ _ ⟨next⟩
  exact (next_under_iff.mp next).2

/-- What a run comes to does not change on the way. -/
theorem Reaches.result_eq (reaches : Reaches context first last) :
    last.2.result (context.drop last.1) = first.2.result (context.drop first.1) := by
  induction reaches with
  | refl => rfl
  | tail _ step inductionHypothesis =>
    rw [← inductionHypothesis]
    cases step with
    | @intro number turn later next =>
      have same : later.result (context.drop number).next = turn.result (context.drop number) :=
        Next.result_eq next
      rw [Context.next_drop] at same
      exact same

theorem ComesTo.result_eq {result : Outcome × Interpreter σ}
    (comes : ComesTo context first result) : result = first.2.result (context.drop first.1) := by
  obtain ⟨number, last, reaches, ends⟩ := comes
  have same : last.result (context.drop number) = result := Ends.result_eq ends
  exact same.symm.trans reaches.result_eq

end Reaches

/-- A bound on the turns to come. -/
def weight (turn : Turn σ) : Nat :=
  turn.sources.foldr (fun source rest => source.size + 1 + rest) 0

theorem Next.weight_lt {turn later : Turn σ} (next : Next turn later) :
    later.weight < turn.weight := by
  cases next with
  | line received stays done =>
    have smaller := Source.size_readLine received
    simp only [weight, List.foldr_cons]
    omega
  | source received ended =>
    simp only [weight, List.foldr_cons]
    omega

/-- The run goes through these turns, each as it is once the context has been asked. -/
inductive RunsThrough (context : Context) :
    Nat → Turn σ → List (Turn σ) → Outcome × Interpreter σ → Prop
  | last {number : Nat} {turn : Turn σ} {result : Outcome × Interpreter σ}
      (ends : Ends (turn.under (context number)) result) :
      RunsThrough context number turn [turn.under (context number)] result
  | next {number : Nat} {turn later : Turn σ} {turns : List (Turn σ)}
      {result : Outcome × Interpreter σ} (next : Next (turn.under (context number)) later)
      (further : RunsThrough context (number + 1) later turns result) :
      RunsThrough context number turn (turn.under (context number) :: turns) result

theorem RunsThrough.comesTo {context : Context} {number : Nat} {turn : Turn σ}
    {turns : List (Turn σ)} {result : Outcome × Interpreter σ}
    (runs : RunsThrough context number turn turns result) :
    ComesTo context (number, turn) result := by
  induction runs with
  | last ends => exact ⟨_, _, .refl, ends⟩
  | next next further inductionHypothesis =>
    obtain ⟨reached, last, reaches, ends⟩ := inductionHypothesis
    exact ⟨reached, last, .head ⟨next⟩ reaches, ends⟩

theorem exists_runsThrough (context : Context) (number : Nat) (turn : Turn σ) :
    ∃ turns result, RunsThrough context number turn turns result := by
  rcases (turn.under (context number)).next_or_ends with ⟨later, next⟩ | ⟨result, ends⟩
  · obtain ⟨turns, result, further⟩ := exists_runsThrough context (number + 1) later
    exact ⟨_, result, .next next further⟩
  · exact ⟨_, result, .last ends⟩
termination_by turn.weight
decreasing_by exact next.weight_lt

end Turn

namespace Interpreter

variable {σ : Type} [Output σ] {context : Context} {interpreter : Interpreter σ}
  {result : Outcome × Interpreter σ}

theorem result_start (context : Context) (interpreter : Interpreter σ) :
    (Turn.start interpreter).result context = interpreter.run context := by
  rw [Turn.result, Turn.start, Context.interrupted_none]
  rfl

/-- A run under a context comes to a result. -/
def RunsUnder (context : Context) (interpreter : Interpreter σ)
    (result : Outcome × Interpreter σ) : Prop :=
  Turn.ComesTo context (0, Turn.start interpreter) result

/-- This is what the run comes to. -/
theorem RunsUnder.eq_run (runs : RunsUnder context interpreter result) :
    result = interpreter.run context := by
  rw [← result_start, Turn.ComesTo.result_eq runs, Context.drop_zero]

/-- A run goes through these turns and comes to a result. -/
def RunsThrough (context : Context) (interpreter : Interpreter σ)
    (turns : List (Turn σ)) (result : Outcome × Interpreter σ) : Prop :=
  Turn.RunsThrough context 0 (Turn.start interpreter) turns result

theorem RunsThrough.runsUnder {turns : List (Turn σ)}
    (runs : RunsThrough context interpreter turns result) :
    RunsUnder context interpreter result :=
  Turn.RunsThrough.comesTo runs

/-- Every run can be followed turn by turn. -/
theorem exists_runsThrough (context : Context) (interpreter : Interpreter σ) :
    ∃ turns, RunsThrough context interpreter turns (interpreter.run context) := by
  obtain ⟨turns, result, runs⟩ := Turn.exists_runsThrough context 0 (Turn.start interpreter)
  have same : result = interpreter.run context := (RunsThrough.runsUnder runs).eq_run
  exact ⟨turns, same ▸ runs⟩

end Interpreter

end LineForth
