import LineForth.Interpreter
import LineForth.Proofs.Output.Traffic

/-!
# What runs keep

Between its lines a run traces, keeps its journal, writes and flushes. A property of
machines that these steps and the evaluation of a line keep is kept by every run and by
closing. The path of the output, from write to write and from flush to flush, is such a
property.
-/

set_option autoImplicit false

namespace LineForth

/-- A property that each step of a run keeps. -/
structure Machine.Kept {σ : Type} [Output σ] (P : Machine σ → Prop) : Prop where
  trace : ∀ {m} mark message, P m → P (m.trace mark message)
  journal : ∀ {m} journal, P m → P { m with journal := journal }
  write : ∀ {m} passage octets, P m → P (m.write passage octets).2
  flush : ∀ {m}, P m → P m.flush.2
  eval : ∀ {m} line, P m → P (m.eval line).2

namespace Machine.Kept

variable {σ : Type} [Output σ] {P : Machine σ → Prop} {m : Machine σ}

theorem record (kept : Kept P) (events : List Event) (holds : P m) : P (m.record events) :=
  kept.journal _ holds

theorem finish (kept : Kept P) {result : Outcome × Machine σ} (holds : P result.2) :
    P (Machine.finish result).2 := by
  rcases result with ⟨outcome, m⟩
  cases outcome with
  | done => exact kept.flush holds
  | failed failure => exact kept.flush holds
  | panicked panic => exact holds

theorem farewell (kept : Kept P) (holds : P m) : P m.farewell.2 :=
  kept.finish (kept.write _ _ (kept.trace _ _ holds))

theorem reportFailure (kept : Kept P) (location : Option Location) (failure : Failure)
    (holds : P m) : P (m.reportFailure location failure).2 := by
  have noted : P ((m.trace (text "!") failure.detail).noteLine location failure) := by
    unfold noteLine
    split
    · exact kept.journal _ (kept.trace _ _ holds)
    · exact kept.trace _ _ holds
  have written := kept.write .direct (text "Error: " ++ failure.message ++ [Bytes.newline]) noted
  unfold Machine.reportFailure
  dsimp only
  split
  next after same =>
    rw [same] at written
    exact kept.flush written
  next => exact written

theorem evalReporting (kept : Kept P) (location : Option Location) (line : Bytes)
    (holds : P m) : P (m.evalReporting location line).2 := by
  have evaluated := kept.eval line holds
  unfold Machine.evalReporting
  split
  next failure after same =>
    rw [same] at evaluated
    exact kept.reportFailure location failure evaluated
  next => exact evaluated

theorem drain (kept : Kept P) (context : Context) (source : Source) (holds : P m) :
    P (Interpreter.drain context source m).machine := by
  fun_induction Interpreter.drain context source m with
  | case1 context source m failure signal => exact holds
  | case2 context source m silent failure events after received ended =>
    exact kept.record events holds
  | case3 context source m silent failure events after received notEnded =>
    exact kept.record events holds
  | case4 context source m silent line events after received exits outcome left said =>
    have left := kept.farewell (kept.record events holds)
    rw [said] at left
    exact left
  | case5 context source m silent line events after received stays evaluated done interrupt
      inductionHypothesis =>
    have reported := kept.evalReporting after.location? line (kept.record events holds)
    rw [done] at reported
    exact inductionHypothesis reported
  | case6 context source m silent line events after received stays outcome evaluated stopped
      result =>
    have reported := kept.evalReporting after.location? line (kept.record events holds)
    rw [result] at reported
    exact reported

theorem runSources (kept : Kept P) (context : Context) (sources : List Source) (holds : P m) :
    P (Interpreter.runSources context sources m).2.2 := by
  induction sources generalizing context m with
  | nil => exact kept.flush holds
  | cons source rest inductionHypothesis =>
    have drained := kept.drain context source holds
    simp only [Interpreter.runSources]
    split
    next outcome further after left same =>
      rw [same] at drained
      exact drained
    next further after left same =>
      rw [same] at drained
      exact inductionHypothesis further drained

theorem close (kept : Kept P) {interpreter : Interpreter σ} (holds : P interpreter.machine) :
    P interpreter.close.2.machine := by
  have flushed := kept.flush holds
  unfold Interpreter.close
  split
  next panic machine same =>
    rw [same] at flushed
    exact flushed
  next outcome machine _ same =>
    rw [same] at flushed
    exact kept.record _ flushed

/-- However far a run goes, the output only ever moves on. -/
theorem output (start : σ) :
    Kept fun m : Machine σ => Relation.ReflTransGen Output.Next start m.output where
  trace mark message path := by rwa [trace_output]
  journal _ path := path
  write _ _ path := path.tail (.write _ _ _)
  flush path := path.tail (.flush _)
  eval line path := path.trans (eval_output line _)

end Machine.Kept

end LineForth
