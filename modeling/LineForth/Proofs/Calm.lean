import LineForth.Proofs.Input.Closables
import LineForth.Proofs.Turns

/-!
# Outputs that never panic

Evaluation does not panic by itself, and a panic of the output while the tokens of a line
are evaluated is recovered. If the output never panics at all, no line, no run and no
closing ends in a panic.
-/

set_option autoImplicit false

namespace LineForth

namespace Outcome

theorem recover_ne_panicked (outcome : Outcome) (name : Bytes) (panic : Panic) :
    outcome.recover name ≠ .panicked panic := by
  cases outcome <;> simp [recover]

end Outcome

variable {σ : Type} [Output σ]

/-- Whatever happens to the output, it does not panic. -/
structure Output.Calm (start : σ) : Prop where
  write : ∀ {output}, Relation.ReflTransGen Next start output → ∀ passage octets panic,
    (Output.write passage octets output).1.outcome ≠ .panicked panic
  flush : ∀ {output}, Relation.ReflTransGen Next start output → ∀ panic,
    (Output.flush output).1.outcome ≠ .panicked panic

theorem Output.Calm.onward {start later : σ} (calm : Calm start)
    (path : Relation.ReflTransGen Next start later) : Calm later :=
  ⟨fun further => calm.write (path.trans further), fun further => calm.flush (path.trans further)⟩

namespace Machine

theorem Kept.calm : Kept fun m : Machine σ => Output.Calm m.output where
  trace mark message calm := by rwa [trace_output]
  journal _ calm := calm
  write passage octets calm := calm.onward (.single (.write passage octets _))
  flush calm := calm.onward (.single (.flush _))
  eval line calm := calm.onward (eval_output line _)

variable {m : Machine σ}

theorem write_calm (calm : Output.Calm m.output) (passage : Passage) (octets : Bytes)
    (panic : Panic) : (m.write passage octets).1 ≠ .panicked panic :=
  calm.write .refl passage octets panic

theorem flush_calm (calm : Output.Calm m.output) (panic : Panic) : m.flush.1 ≠ .panicked panic :=
  calm.flush .refl panic

theorem finish_calm {outcome : Outcome} (calm : Output.Calm m.output)
    (returns : ∀ panic, outcome ≠ .panicked panic) (panic : Panic) :
    (finish (outcome, m)).1 ≠ .panicked panic := by
  have flushed := Outcome.orElse_ne_panicked returns (flush_calm calm) panic
  cases outcome with
  | panicked cause => exact absurd rfl (returns cause)
  | done => exact flushed
  | failed failure => exact flushed

theorem eval_calm (calm : Output.Calm m.output) (line : Bytes) (panic : Panic) :
    (m.eval line).1 ≠ .panicked panic := by
  have reached := calm.onward (evalLine_output line m)
  rw [eval_eq_conclude]
  have returns := Outcome.recover_ne_panicked (m.evalLine line).1 (text "eval")
  unfold conclude
  split
  next recovered =>
    rw [recovered] at returns
    unfold echoStack
    split
    · exact finish_calm (Kept.calm.write _ _ reached) (write_calm reached _ _) panic
    · exact finish_calm reached returns panic
  next => exact finish_calm reached returns panic

theorem farewell_calm (calm : Output.Calm m.output) (panic : Panic) :
    m.farewell.1 ≠ .panicked panic := by
  have traced := Kept.calm.trace (text ">") exitCommand calm
  exact finish_calm (Kept.calm.write _ _ traced) (write_calm traced _ _) panic

theorem reportFailure_calm (calm : Output.Calm m.output) (location : Option Location)
    (failure : Failure) (panic : Panic) :
    (m.reportFailure location failure).1 ≠ .panicked panic := by
  have noted : Output.Calm
      ((m.trace (text "!") failure.detail).noteLine location failure).output := by
    unfold noteLine
    split
    · exact Kept.calm.journal _ (Kept.calm.trace _ _ calm)
    · exact Kept.calm.trace _ _ calm
  have written := Kept.calm.write .direct (text "Error: " ++ failure.message ++ [Bytes.newline])
    noted
  have returns := write_calm noted .direct (text "Error: " ++ failure.message ++ [Bytes.newline])
  unfold reportFailure
  dsimp only
  generalize ((m.trace _ _).noteLine location failure).write _ _ = result at written returns ⊢
  rcases result with ⟨outcome, after⟩
  cases outcome with
  | done => exact flush_calm written panic
  | failed failure => simp
  | panicked cause => exact absurd rfl (returns cause)

theorem evalReporting_calm (calm : Output.Calm m.output) (location : Option Location)
    (line : Bytes) (panic : Panic) : (m.evalReporting location line).1 ≠ .panicked panic := by
  have evaluated := Kept.calm.eval line calm
  have returns := eval_calm calm line
  unfold evalReporting
  generalize m.eval line = result at evaluated returns ⊢
  rcases result with ⟨outcome, after⟩
  cases outcome with
  | done => simp
  | failed failure => exact reportFailure_calm evaluated location failure panic
  | panicked cause => exact absurd rfl (returns cause)

end Machine

namespace Turn

variable {turn later : Turn σ}

/-- What each step of a run keeps, each of its turns keeps. -/
theorem Next.kept {P : Machine σ → Prop} (kept : Machine.Kept P) (next : Next turn later)
    (holds : P turn.machine) : P later.machine := by
  cases next with
  | @line source after line events passed rest m evaluated received stays done =>
    have reported := kept.evalReporting after.location? line (kept.record events holds)
    rw [done] at reported
    exact reported
  | source received ended => exact kept.record _ holds

theorem kept_of_path {P : Machine σ → Prop} (kept : Machine.Kept P)
    (path : Relation.ReflTransGen Next turn later) (holds : P turn.machine) :
    P later.machine := by
  induction path with
  | refl => exact holds
  | tail _ next inductionHypothesis => exact next.kept kept inductionHypothesis

theorem Ends.calm {result : Outcome × Interpreter σ} (ends : Ends turn result)
    (calm : Output.Calm turn.machine.output) (panic : Panic) : result.1 ≠ .panicked panic := by
  cases ends with
  | all interrupt passed m => exact Machine.flush_calm calm panic
  | interrupted failure passed source rest m => simp
  | failure received other => simp
  | exit received exits => exact Machine.farewell_calm (Machine.Kept.calm.record _ calm) panic
  | @line source after line events outcome passed rest m evaluated received stays stopped other =>
    have returns := Machine.evalReporting_calm (Machine.Kept.calm.record events calm)
      after.location? line panic
    rw [stopped] at returns
    exact returns

end Turn

namespace Interpreter

variable {interpreter : Interpreter σ}

theorem run_calm (calm : Output.Calm interpreter.machine.output) (context : Context)
    (panic : Panic) : (interpreter.run context).1 ≠ .panicked panic := by
  obtain ⟨turns, runs⟩ := interpreter.exists_runsThrough context
  obtain ⟨number, last, reaches, ends⟩ := runs.runsUnder
  have still : Output.Calm last.machine.output :=
    Turn.kept_of_path Machine.Kept.calm reaches.path calm
  exact ends.calm still panic

theorem close_calm (calm : Output.Calm interpreter.machine.output) (panic : Panic) :
    interpreter.close.1 ≠ .panicked panic := by
  have returns := Machine.flush_calm calm
  unfold close
  split
  next cause machine flushed =>
    rw [flushed] at returns
    exact absurd rfl (returns cause)
  next outcome machine calmly flushed =>
    dsimp only
    rw [(close_closeSources interpreter.sources.reverse).2]
    exact Outcome.orElse_ofFailure?_ne_panicked calmly _ panic

end Interpreter

end LineForth
