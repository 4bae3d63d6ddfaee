import LineForth.Proofs.LineByLine
import LineForth.Proofs.Output.Persistence

/-!
# Failures of the output

A line that fails is reported, and the run goes on behind it. If it was the output that
failed, the report fails as well, and the run ends. So a failure of the output, wherever
it shows, ends the run with a failure that the output has returned, and no line is begun
after it. This needs outputs that do not recover from a failure, and that never panic.
-/

set_option autoImplicit false

namespace LineForth

variable {σ : Type}

namespace Machine

open Watched (Sound)

/-- What a stage of a run comes to on a watched output that has not failed before: it
succeeds and the output has not failed, or it ends with a failure of the output. -/
structure Answers (result : Outcome × Machine (Watched σ)) : Prop where
  clear : result.1 = .done → result.2.output.failures = []
  failed : result.1 ≠ .done →
    ∃ failure ∈ result.2.output.failures, result.1 = .failed failure

theorem noteLine_output (m : Machine σ) (location : Option Location) (failure : Failure) :
    (m.noteLine location failure).output = m.output := by
  unfold noteLine
  split <;> rfl

namespace Answers

variable {result : Outcome × Machine (Watched σ)}

theorem of_done (done : result.1 = .done) (clear : result.2.output.failures = []) :
    Answers result :=
  ⟨fun _ => clear, fun stopped => absurd done stopped⟩

theorem of_failed {failure : Failure} (failed : result.1 = .failed failure)
    (noted : failure ∈ result.2.output.failures) : Answers result := by
  refine ⟨?_, fun _ => ⟨failure, noted, failed⟩⟩
  intro done
  rw [failed] at done
  cases done

end Answers

section Persistent

variable [Output σ] {start : σ} {m : Machine (Watched σ)} (persistent : Output.Persistent start)
  (sound : Sound start m.output)

include persistent sound

theorem write_cases (passage : Passage) (octets : Bytes) :
    ((m.write passage octets).1 = .done ∧
        (m.write passage octets).2.output.failures = m.output.failures) ∨
      ∃ failure, (m.write passage octets).1 = .failed failure ∧
        failure ∈ (m.write passage octets).2.output.failures :=
  Watched.note_cases (persistent.write_calm sound.path passage octets) m.output.failures

theorem flush_cases :
    (m.flush.1 = .done ∧ m.flush.2.output.failures = m.output.failures) ∨
      ∃ failure, m.flush.1 = .failed failure ∧ failure ∈ m.flush.2.output.failures :=
  Watched.note_cases (persistent.flush_calm sound.path) m.output.failures

theorem write_sound (passage : Passage) (octets : Bytes) :
    Sound start (m.write passage octets).2.output :=
  sound.next persistent (.write passage octets _)

theorem answers_flush (clear : m.output.failures = []) : Answers m.flush := by
  rcases flush_cases persistent sound with ⟨done, same⟩ | ⟨failure, failed, noted⟩
  · exact .of_done done (same.trans clear)
  · exact .of_failed failed noted

/-- The flush after a failure that is noted already. -/
theorem answers_finish_failed {failure : Failure} (noted : failure ∈ m.output.failures) :
    Answers (finish (.failed failure, m)) := by
  have failed : (finish (.failed failure, m)).1 = .failed failure := by
    rcases flush_cases persistent sound with ⟨done, -⟩ | ⟨later, failed, -⟩
    · simp only [finish, done, Outcome.orElse]
    · simp only [finish, failed, Outcome.orElse]
  exact .of_failed failed (List.mem_append_left _ noted)

/-- The flush after a success. -/
theorem answers_finish_done (clear : m.output.failures = []) : Answers (finish (.done, m)) := by
  have same : finish (.done, m) = m.flush := Prod.ext (Outcome.done_orElse _) rfl
  rw [same]
  exact answers_flush persistent sound clear

theorem answers_farewell (clear : m.output.failures = []) : Answers m.farewell := by
  have output := m.trace_output (text ">") exitCommand
  unfold farewell
  dsimp only
  generalize m.trace (text ">") exitCommand = traced at output ⊢
  rw [← output] at sound clear
  have written := write_sound persistent sound .staged (text "Bye!" ++ [Bytes.newline])
  have answers := write_cases persistent sound .staged (text "Bye!" ++ [Bytes.newline])
  generalize traced.write .staged (text "Bye!" ++ [Bytes.newline]) = result at written answers ⊢
  rcases result with ⟨outcome, after⟩
  rcases answers with ⟨rfl, same⟩ | ⟨failure, rfl, noted⟩
  · exact answers_finish_done persistent written (same.trans clear)
  · exact answers_finish_failed persistent written noted

theorem answers_reportFailure (location : Option Location) (failure : Failure) :
    Answers (m.reportFailure location failure) := by
  have output : ((m.trace (text "!") failure.detail).noteLine location failure).output =
      m.output := by
    rw [noteLine_output, trace_output]
  unfold reportFailure
  dsimp only
  generalize (m.trace (text "!") failure.detail).noteLine location failure = noted at output ⊢
  generalize shown : text "Error: " ++ failure.message ++ [Bytes.newline] = octets
  have nonempty : octets ≠ [] := by simp [← shown]
  rw [← output] at sound
  have refuses : noted.output.failures ≠ [] → (noted.write .direct octets).1 = .done →
      (noted.write .direct octets).2.flush.1 ≠ .done :=
    fun failed => sound.refuses failed _ .refl .direct octets nonempty
  have written := write_sound persistent sound .direct octets
  have answers := write_cases persistent sound .direct octets
  generalize noted.write .direct octets = result at refuses written answers ⊢
  rcases result with ⟨outcome, after⟩
  rcases answers with ⟨rfl, same⟩ | ⟨refused, rfl, listed⟩
  · rcases flush_cases persistent written with ⟨done, kept⟩ | ⟨refused, failed, listed⟩
    · -- Write and flush went through, so the output cannot have failed before.
      have clear : noted.output.failures = [] := by
        by_contra failed
        exact refuses failed rfl done
      exact .of_done done (kept.trans (same.trans clear))
    · exact .of_failed failed listed
  · exact .of_failed rfl listed

/-- A line of a run, with the report about its failure. -/
theorem answers_evalReporting (clear : m.output.failures = []) (location : Option Location)
    (line : Bytes) : Answers (m.evalReporting location line) := by
  have calm := eval_calm (sound.calm persistent) line
  have succeeds (done : (m.eval line).1 = .done) := eval_succeeds done
  have reached := sound.onward persistent (eval_output line m)
  unfold evalReporting
  generalize m.eval line = evaluated at calm succeeds reached ⊢
  rcases evaluated with ⟨outcome, after⟩
  cases outcome with
  | done => exact .of_done rfl ((Watched.failures_of_succeeds (succeeds rfl)).trans clear)
  | failed failure => exact answers_reportFailure persistent reached location failure
  | panicked panic => exact absurd rfl (calm panic)

end Persistent

end Machine

namespace Turn

open Watched (Sound)

variable [Output σ] {start : σ} {turn later : Turn (Watched σ)}

/-- The output has not failed so far. -/
structure Clear (start : σ) (turn : Turn (Watched σ)) : Prop where
  sound : Sound start turn.machine.output
  clear : turn.machine.output.failures = []

theorem Clear.next (persistent : Output.Persistent start) (clear : Clear start turn)
    (next : Next turn later) : Clear start later := by
  obtain ⟨sound, clear⟩ := clear
  cases next with
  | @line source after line events passed rest m evaluated received stays done =>
    have recorded : Sound start (m.record events).output := sound
    have path := (Machine.Kept.output (m.record events).output).evalReporting after.location?
      line .refl
    have answers := Machine.answers_evalReporting persistent recorded clear after.location? line
    rw [done] at path answers
    exact ⟨recorded.onward persistent path, answers.clear rfl⟩
  | source received ended => exact ⟨sound, clear⟩

/-- If the output fails in the last turn, the run ends with a failure of the output. -/
theorem Clear.ends (persistent : Output.Persistent start) (clear : Clear start turn)
    {result : Outcome × Interpreter (Watched σ)} (ends : Ends turn result)
    (failed : result.2.machine.output.failures ≠ []) :
    ∃ failure ∈ result.2.machine.output.failures, result.1 = .failed failure := by
  obtain ⟨sound, clear⟩ := clear
  have stopped {outcome : Outcome} {m : Machine (Watched σ)}
      (answers : Machine.Answers (outcome, m)) (failed : m.output.failures ≠ []) :
      ∃ failure ∈ m.output.failures, outcome = .failed failure :=
    answers.failed fun done => failed (answers.clear done)
  cases ends with
  | all interrupt passed m => exact stopped (Machine.answers_flush persistent sound clear) failed
  | interrupted failure passed source rest m => exact absurd clear failed
  | failure received other => exact absurd clear failed
  | @exit source after line events passed rest m received exits =>
    have recorded : Sound start (m.record events).output := sound
    exact stopped (Machine.answers_farewell persistent recorded clear) failed
  | @line source after line events outcome passed rest m evaluated received stays result other =>
    have recorded : Sound start (m.record events).output := sound
    have answers := Machine.answers_evalReporting persistent recorded clear after.location? line
    rw [result] at answers
    exact stopped answers failed

/-- Every turn of a run begins before the output has failed. -/
theorem Clear.runsThrough (persistent : Output.Persistent start) (clear : Clear start turn)
    {context : Context} {number : Nat} {turns : List (Turn (Watched σ))}
    {result : Outcome × Interpreter (Watched σ)}
    (runs : RunsThrough context number turn turns result) :
    (∀ begun ∈ turns, begun.machine.output.failures = []) ∧
      (result.2.machine.output.failures ≠ [] →
        ∃ failure ∈ result.2.machine.output.failures, result.1 = .failed failure) := by
  induction runs with
  | @last number turn result ends =>
    have asked : Clear start (turn.under (context number)) := ⟨clear.sound, clear.clear⟩
    exact ⟨List.forall_mem_singleton.mpr clear.clear, asked.ends persistent ends⟩
  | @next number turn later turns result next further inductionHypothesis =>
    have asked : Clear start (turn.under (context number)) := ⟨clear.sound, clear.clear⟩
    obtain ⟨begun, ended⟩ := inductionHypothesis (asked.next persistent next)
    exact ⟨List.forall_mem_cons.mpr ⟨clear.clear, begun⟩, ended⟩

end Turn

namespace Interpreter

variable [Output σ]

/-- The same interpreter, with its output watched. -/
def watched (interpreter : Interpreter σ) : Interpreter (Watched σ) :=
  interpreter.mapOutput Watched.watch

/-- On an output that never panics and does not recover from a failure, a run in which the
output fails ends with a failure that the output has returned. The run is followed turn by
turn on the watched output, which changes nothing about it. Each of its turns begins before
the output has failed, so no line is begun after that. -/
theorem run_stops_at_failure (interpreter : Interpreter σ)
    (persistent : Output.Persistent interpreter.machine.output) (context : Context) :
    let ran := interpreter.watched.run context
    interpreter.run context = (ran.1, ran.2.mapOutput Watched.output) ∧
      (∃ turns, interpreter.watched.RunsThrough context turns ran) ∧
      (∀ {turns result}, interpreter.watched.RunsThrough context turns result →
        ∀ turn ∈ turns, turn.machine.output.failures = []) ∧
      (ran.2.machine.output.failures ≠ [] →
        ∃ failure ∈ ran.2.machine.output.failures, ran.1 = .failed failure) := by
  intro ran
  have clear : Turn.Clear interpreter.machine.output (.start interpreter.watched) :=
    ⟨.watch _, rfl⟩
  obtain ⟨turns, runs⟩ := interpreter.watched.exists_runsThrough context
  refine ⟨?_, ⟨turns, runs⟩, ?_, (clear.runsThrough persistent runs).2⟩
  · exact run_mapOutput Watched.projects context interpreter.watched
  · intro turns result runs
    exact (clear.runsThrough persistent runs).1

/-- Two devices, the second of which takes eight octets and no more. -/
def shortOfRoom : Interpreter Console :=
  ⟨Machine.initial
      ⟨⟨[Device.fresh .memory, Device.fresh (.plain (some ⟨8, .fail⟩))], [Buffer.onDevice 1]⟩,
        .tee [.device 0, .buffered 0]⟩,
    [.list ⟨text "input", [text "1 .", text "2 . oops", text "3 ."], 0, .endOfInput, false, 0,
      none, 0⟩]⟩

theorem shortOfRoom_persistent : Output.Persistent shortOfRoom.machine.output := by
  apply Console.persistent
  intro device membership cap limited
  rcases List.mem_pair.mp membership with rfl | rfl
  · cases limited
  · cases limited
    rfl

/-- The second line fails for a reason of its own, and its evaluation says nothing of the
flush that fails as well. The run ends all the same, before the third line. -/
theorem run_stops_at_failure_shortOfRoom :
    let run := shortOfRoom.run .silent
    (((shortOfRoom.eval (text "1 .")).2.eval (text "2 . oops")).1 =
        .failed (.unknownToken (text "oops"))) ∧
      run.1 = .failed (.other (text "write failed")) ∧ run.2.machine.stack = [2, 1] := by
  obtain ⟨same, -, -, stops⟩ := run_stops_at_failure shortOfRoom shortOfRoom_persistent .silent
  have failures : (shortOfRoom.watched.run .silent).2.machine.output.failures =
      [.other (text "write failed"), .other (text "write failed")] := by decide +kernel
  obtain ⟨failure, noted, failed⟩ := stops (by simp [failures])
  rw [failures] at noted
  have known : failure = .other (text "write failed") := by simpa using noted
  refine ⟨by decide +kernel, ?_, by decide +kernel⟩
  rw [same, failed, known]

end Interpreter

end LineForth
