import LineForth.Proofs.LineByLine
import LineForth.Proofs.Lockstep
import LineForth.Proofs.Output.Capped
import LineForth.Proofs.Turns

/-!
# Delivery of output

A machine runs twice, once into memory and once into a device with a limit. Until the
device is full the two go through the same lines, and at the end of every line, of every
run and of closing nothing is held back any more. Once the device is full, the second one
may fail where the first one goes on, and the two have nothing in common but this: what
arrived at the device is the beginning of what arrived in memory. Each operation is a
chain of stages, and for each stage it is shown that the output only moves on, so that a
full device is left behind by no later stage.
-/

set_option autoImplicit false

namespace LineForth

variable {limit : Option Limit} {capped : Capped limit}

namespace Machine

section Stages

variable {σ : Type} [Output σ]

/-- Flushes after a write that succeeded. -/
def flushAfter (result : Outcome × Machine σ) : Outcome × Machine σ :=
  match result with
  | (.done, written) => written.flush
  | stopped => stopped

/-- Reports the failure of a line that has been evaluated. -/
def reporting (location : Option Location) (result : Outcome × Machine σ) :
    Outcome × Machine σ :=
  match result with
  | (.failed failure, after) => after.reportFailure location failure
  | result => result

theorem reportFailure_eq (m : Machine σ) (location : Option Location) (failure : Failure) :
    m.reportFailure location failure =
      flushAfter (((m.trace (text "!") failure.detail).noteLine location failure).write .direct
        (text "Error: " ++ failure.message ++ [Bytes.newline])) := rfl

theorem evalReporting_eq (m : Machine σ) (location : Option Location) (line : Bytes) :
    m.evalReporting location line = reporting location (m.eval line) := rfl

variable {result : Outcome × Machine σ}

theorem flushAfter_of_done (done : result.1 = .done) : flushAfter result = result.2.flush := by
  rcases result with ⟨outcome, m⟩
  cases done
  rfl

theorem flushAfter_output (result : Outcome × Machine σ) :
    Relation.ReflTransGen Output.Next result.2.output (flushAfter result).2.output := by
  unfold flushAfter
  split
  · exact .single (.flush _)
  · exact .refl

theorem reporting_output (location : Option Location) (result : Outcome × Machine σ) :
    Relation.ReflTransGen Output.Next result.2.output (reporting location result).2.output := by
  unfold reporting
  split
  next failure after => exact (Kept.output after.output).reportFailure location failure .refl
  next => exact .refl

end Stages

/-- Machines that do the same, one of them writing into memory. The other one holds
octets back that are in the memory already. -/
structure Abreast (capped : Capped limit) (held : Bytes) (m m' : Machine Console) : Prop
    extends Same m m' where
  depth : m'.depth = m.depth
  maxDepth : m'.maxDepth = m.maxDepth
  echo : m'.echo = m.echo
  linked : capped.Linked held m.output m'.output

/-- After these two results the device is full, or they are the same and leave nothing
held back. -/
def Delivers {α : Type} (capped : Capped limit) (first second : α × Machine Console) : Prop :=
  capped.Broken first.2.output second.2.output ∨
    (second.1 = first.1 ∧ Abreast capped [] first.2 second.2)

theorem Delivers.map {α β : Type} {first second : α × Machine Console} (read : α → β)
    (delivers : Delivers capped first second) :
    Delivers capped (read first.1, first.2) (read second.1, second.2) :=
  delivers.imp_right fun ⟨same, abreast⟩ => ⟨congrArg read same, abreast⟩

namespace Abreast

variable {held : Bytes} {m m' : Machine Console}

theorem of_output {after after' : Machine Console} (abreast : Abreast capped held m m')
    (same : Same after after') (settings : SameSettings m after)
    (settings' : SameSettings m' after') (kept : after.output = m.output)
    (kept' : after'.output = m'.output) : Abreast capped held after after' := by
  refine ⟨same, ?_, ?_, ?_, ?_⟩
  · rw [settings.depth, settings'.depth, abreast.depth]
  · rw [settings.maxDepth, settings'.maxDepth, abreast.maxDepth]
  · rw [settings.echo, settings'.echo, abreast.echo]
  · rw [kept, kept']
    exact abreast.linked

theorem trace (abreast : Abreast capped held m m') (mark message mark' message' : Bytes) :
    Abreast capped held (m.trace mark message) (m'.trace mark' message') :=
  abreast.of_output (abreast.toSame.trace _ _ _ _) (.trace _ _ _) (.trace _ _ _)
    (trace_output _ _ _) (trace_output _ _ _)

theorem journal (abreast : Abreast capped held m m') (journal journal' : Journal) :
    Abreast capped held { m with journal := journal } { m' with journal := journal' } :=
  ⟨⟨abreast.stack, abreast.words, abreast.constants⟩, abreast.depth, abreast.maxDepth,
    abreast.echo, abreast.linked⟩

theorem write (abreast : Abreast capped held m m') (passage : Passage) (octets : Bytes) :
    capped.Broken (m.write passage octets).2.output (m'.write passage octets).2.output ∨
      ((m.write passage octets).1 = .done ∧ (m'.write passage octets).1 = .done ∧
        ∃ more, Abreast capped more (m.write passage octets).2 (m'.write passage octets).2) := by
  rcases abreast.linked.write passage octets with broken | ⟨done, done', more, linked⟩
  · exact .inl broken
  · exact .inr ⟨done, done', more, ⟨abreast.stack, abreast.words, abreast.constants⟩,
      abreast.depth, abreast.maxDepth, abreast.echo, linked⟩

theorem flush (abreast : Abreast capped held m m') :
    capped.Broken m.flush.2.output m'.flush.2.output ∨
      (m.flush.1 = .done ∧ m'.flush.1 = .done ∧ Abreast capped [] m.flush.2 m'.flush.2) := by
  rcases abreast.linked.flush with broken | ⟨done, done', linked⟩
  · exact .inl broken
  · exact .inr ⟨done, done', ⟨abreast.stack, abreast.words, abreast.constants⟩,
      abreast.depth, abreast.maxDepth, abreast.echo, linked⟩

/-- The two runs stay in step until the device is full. -/
theorem lockstep (capped : Capped limit) :
    Lockstep (fun _ _ => True) Eq
      (fun first second => capped.Broken first.2.output second.2.output)
      (fun m m' => ∃ held, Abreast capped held m m') where
  onward_first broken onward := by
    cases onward with
    | further outcome path => exact broken.onward path .refl
    | returned word outcome m => exact broken
  onward_second broken onward := by
    cases onward with
    | further outcome path => exact broken.onward .refl path
    | returned word outcome m => exact broken
  lookup := by
    rintro m m' word ⟨held, abreast⟩ _
    rw [abreast.words]
  step := by
    rintro m m' levels levels' instruction ⟨held, abreast⟩ _ callsNothing
    rcases abreast.toSame.perform (call levels) (call levels') callsNothing with
      ⟨passage, octets, first, second⟩ | ⟨outcome, same, kept, kept'⟩
    · rw [first, second]
      rcases abreast.write passage octets with broken | ⟨done, done', more, written⟩
      · exact .inl broken
      · exact .inr ⟨done'.trans done.symm, more, written⟩
    · have settings := SameSettings.framing.perform (SameSettings.framing.call levels)
        instruction m
      have settings' := SameSettings.framing.perform (SameSettings.framing.call levels')
        instruction m'
      exact .inr ⟨outcome, held, abreast.of_output same settings settings' kept kept'⟩
  traced := by
    rintro m m' after after' instruction _ ⟨held, abreast⟩
    exact ⟨held, abreast.trace _ _ _ _⟩
  enter := by
    rintro m m' ⟨held, abreast⟩
    exact ⟨held, ⟨abreast.stack, abreast.words, abreast.constants⟩,
      congrArg (· + 1) abreast.depth, abreast.maxDepth, abreast.echo, abreast.linked⟩
  leave := by
    rintro m m' ⟨held, abreast⟩
    exact ⟨held, ⟨abreast.stack, abreast.words, abreast.constants⟩,
      congrArg (· - 1) abreast.depth, abreast.maxDepth, abreast.echo, abreast.linked⟩
  nested same := Nat.succ.inj same
  refused := by
    rintro m m' levels _ word body ⟨held, abreast⟩ rfl exhausted
    obtain rfl : levels = 0 := by omega
    exact .inr ⟨by simp only [call, abreast.depth], held, abreast⟩

theorem evalLine (abreast : Abreast capped held m m') (line : Bytes) :
    capped.Broken (m.evalLine line).2.output (m'.evalLine line).2.output ∨
      ((m'.evalLine line).1 = (m.evalLine line).1 ∧
        ∃ more, Abreast capped more (m.evalLine line).2 (m'.evalLine line).2) := by
  apply (lockstep capped).evalTokens
  · rw [trace_maxDepth, trace_maxDepth, trace_depth, trace_depth, abreast.maxDepth, abreast.depth]
  · exact ⟨held, abreast.trace _ _ _ _⟩
  · intro _ _ _ _ _
    trivial

theorem finish (abreast : Abreast capped held m m') {outcome : Outcome}
    (calm : ∀ panic, outcome ≠ .panicked panic) :
    Delivers capped (Machine.finish (outcome, m)) (Machine.finish (outcome, m')) := by
  have ended (m : Machine Console) :
      Machine.finish (outcome, m) = (outcome.orElse m.flush.1, m.flush.2) := by
    cases outcome with
    | panicked panic => exact absurd rfl (calm panic)
    | done | failed failure => rfl
  rw [ended, ended]
  rcases abreast.flush with broken | ⟨done, done', flushed⟩
  · exact .inl broken
  · exact .inr ⟨by rw [done, done'], flushed⟩

theorem write_finish (abreast : Abreast capped held m m') (passage : Passage) (octets : Bytes) :
    Delivers capped (Machine.finish (m.write passage octets))
      (Machine.finish (m'.write passage octets)) := by
  rcases abreast.write passage octets with broken | ⟨done, done', more, written⟩
  · exact .inl (broken.onward (finish_output _) (finish_output _))
  · have first : m.write passage octets = (.done, (m.write passage octets).2) := Prod.ext done rfl
    have second : m'.write passage octets = (.done, (m'.write passage octets).2) :=
      Prod.ext done' rfl
    rw [first, second]
    exact written.finish (by simp)

theorem conclude (abreast : Abreast capped held m m') (outcome : Outcome) :
    Delivers capped (Machine.conclude (outcome, m)) (Machine.conclude (outcome, m')) := by
  cases outcome with
  | failed failure => exact abreast.finish (Outcome.recover_ne_panicked _ _)
  | panicked panic => exact abreast.finish (Outcome.recover_ne_panicked (.panicked panic) _)
  | done =>
    simp only [Machine.conclude, Outcome.recover, echoStack, printStack, abreast.echo,
      abreast.stack]
    by_cases echo : m.echo = true
    · rw [if_pos echo, if_pos echo]
      exact abreast.write_finish _ _
    · rw [if_neg echo, if_neg echo]
      exact abreast.finish (by simp)

/-- A line, with all that belongs to it. -/
theorem eval (abreast : Abreast capped held m m') (line : Bytes) :
    Delivers capped (m.eval line) (m'.eval line) := by
  rw [eval_eq_conclude, eval_eq_conclude]
  rcases abreast.evalLine line with broken | ⟨outcome, more, evaluated⟩
  · exact .inl (broken.onward (conclude_output _) (conclude_output _))
  · have second : m'.evalLine line = ((m.evalLine line).1, (m'.evalLine line).2) :=
      Prod.ext outcome rfl
    rw [second]
    exact evaluated.conclude _

theorem farewell (abreast : Abreast capped held m m') :
    Delivers capped m.farewell m'.farewell :=
  (abreast.trace _ _ _ _).write_finish _ _

theorem noteLine (abreast : Abreast capped held m m') (location : Option Location)
    (failure : Failure) :
    Abreast capped held (m.noteLine location failure) (m'.noteLine location failure) := by
  unfold Machine.noteLine
  split
  all_goals
    split
    all_goals exact abreast.journal _ _

theorem reportFailure (abreast : Abreast capped held m m') (location : Option Location)
    (failure : Failure) :
    Delivers capped (m.reportFailure location failure) (m'.reportFailure location failure) := by
  have noted := (abreast.trace (text "!") failure.detail (text "!") failure.detail).noteLine
    location failure
  rw [reportFailure_eq, reportFailure_eq]
  rcases noted.write .direct (text "Error: " ++ failure.message ++ [Bytes.newline]) with
    broken | ⟨done, done', more, written⟩
  · exact .inl (broken.onward (flushAfter_output _) (flushAfter_output _))
  · rw [flushAfter_of_done done, flushAfter_of_done done']
    rcases written.flush with broken | ⟨flushed, flushed', settled⟩
    · exact .inl broken
    · exact .inr ⟨flushed'.trans flushed.symm, settled⟩

end Abreast

/-- A failure of a line, if there is one, is reported alike. -/
theorem Delivers.reporting {first second : Outcome × Machine Console}
    (delivers : Delivers capped first second) (location : Option Location) :
    Delivers capped (reporting location first) (reporting location second) := by
  rcases delivers with broken | ⟨same, abreast⟩
  · exact .inl (broken.onward (reporting_output _ _) (reporting_output _ _))
  · rcases first with ⟨outcome, m⟩
    rcases second with ⟨outcome', m'⟩
    cases same
    cases outcome with
    | failed failure => exact abreast.reportFailure location failure
    | done | panicked panic => exact .inr ⟨rfl, abreast⟩

theorem Abreast.evalReporting {held : Bytes} {m m' : Machine Console}
    (abreast : Abreast capped held m m') (location : Option Location) (line : Bytes) :
    Delivers capped (m.evalReporting location line) (m'.evalReporting location line) := by
  rw [evalReporting_eq, evalReporting_eq]
  exact (abreast.eval line).reporting location

end Machine

namespace Interpreter

open Machine (Abreast Delivers)

section Drain

variable {σ : Type} [Output σ]

theorem afterLine_output (context : Context) (after : Source) (result : Outcome × Machine σ) :
    Relation.ReflTransGen Output.Next result.2.output
      (afterLine context after result).machine.output := by
  unfold afterLine
  split
  next evaluated => exact (Machine.Kept.output evaluated.output).drain _ _ .refl
  next => exact .refl

end Drain

/-- How far a run came, and the machine it left. -/
def Drained.result {σ : Type} (drained : Drained σ) :
    (Option Outcome × Context × Source) × Machine σ :=
  ((drained.stopped, drained.context, drained.source), drained.machine)

theorem delivers_afterLine {first second : Outcome × Machine Console} {context : Context}
    {after : Source} (delivers : Delivers capped first second)
    (further : ∀ {m m' : Machine Console} context, Abreast capped [] m m' →
      Delivers capped (drain context after m).result (drain context after m').result) :
    Delivers capped (afterLine context after first).result
      (afterLine context after second).result := by
  rcases delivers with broken | ⟨same, abreast⟩
  · exact .inl (broken.onward (afterLine_output _ _ _) (afterLine_output _ _ _))
  · rcases first with ⟨outcome, m⟩
    rcases second with ⟨outcome', m'⟩
    cases same
    cases outcome with
    | done => exact further _ abreast
    | failed failure => exact .inr ⟨rfl, abreast⟩
    | panicked panic => exact .inr ⟨rfl, abreast⟩

theorem delivers_drain {m m' : Machine Console} (abreast : Abreast capped [] m m')
    (context : Context) (source : Source) :
    Delivers capped (drain context source m).result (drain context source m').result := by
  cases signal : context 0 with
  | some failure =>
    rw [drain_of_signal signal, drain_of_signal signal]
    exact .inr ⟨rfl, abreast⟩
  | none =>
    rcases received : source.readLine with ⟨result, events, after⟩
    have recorded : Abreast capped [] (m.record events) (m'.record events) := abreast.journal _ _
    cases result with
    | error failure =>
      rw [drain_of_error signal received, drain_of_error signal received]
      exact .inr ⟨rfl, recorded⟩
    | ok line =>
      rw [drain_of_ok signal received, drain_of_ok signal received]
      by_cases exits : line.trim = Machine.exitCommand
      · rw [if_pos exits, if_pos exits]
        rcases recorded.farewell with broken | ⟨same, settled⟩
        · exact .inl broken
        · exact .inr ⟨by simp only [Drained.result, same], settled⟩
      · rw [if_neg exits, if_neg exits]
        apply delivers_afterLine (recorded.evalReporting after.location? line)
        intro m m' context abreast
        exact delivers_drain abreast context after
termination_by source.size
decreasing_by exact Source.size_readLine received

section RunSources

variable {σ : Type} [Output σ] (rest : List Source)

theorem afterSource_output (drained : Drained σ) :
    Relation.ReflTransGen Output.Next drained.machine.output
      (afterSource rest drained).2.2.output := by
  unfold afterSource
  split
  next => exact .refl
  next further after left => exact (Machine.Kept.output left.output).runSources further rest .refl

end RunSources

/-- How a run ended, with the sources and the machine it left. -/
def ending {σ : Type} (result : Outcome × Interpreter σ) :
    (Outcome × List Source) × Machine σ :=
  ((result.1, result.2.sources), result.2.machine)

theorem delivers_run {m m' : Machine Console} (abreast : Abreast capped [] m m')
    (context : Context) (sources : List Source) :
    Delivers capped (ending (run context ⟨m, sources⟩))
      (ending (run context ⟨m', sources⟩)) := by
  simp only [ending, run]
  induction sources generalizing context m m' with
  | nil =>
    rcases abreast.flush with broken | ⟨done, done', flushed⟩
    · exact .inl broken
    · exact .inr ⟨by simp only [runSources, done, done'], flushed⟩
  | cons source rest inductionHypothesis =>
    rw [runSources_cons, runSources_cons]
    rcases delivers_drain abreast context source with broken | ⟨same, drained⟩
    · exact .inl (broken.onward (afterSource_output _ _) (afterSource_output _ _))
    · generalize drain context source m = first at *
      generalize drain context source m' = second at *
      rcases first with ⟨stopped, further, after, left⟩
      rcases second with ⟨stopped', further', after', left'⟩
      cases same
      cases stopped with
      | some outcome => exact .inr ⟨rfl, drained⟩
      | none =>
        rcases inductionHypothesis drained further with broken | ⟨same, ran⟩
        · exact .inl broken
        · obtain ⟨outcome, sources⟩ := Prod.mk.inj same
          exact .inr ⟨Prod.ext outcome (congrArg (after :: ·) sources), ran⟩

section Close

variable {σ : Type} [Output σ] {m : Machine σ}

theorem close_output (m : Machine σ) (sources : List Source) :
    (close ⟨m, sources⟩).2.machine.output = m.flush.2.output := by
  unfold close
  split
  next same => rw [same]
  next same =>
    dsimp only at same
    rw [same]
    rfl

theorem close_of_done (done : m.flush.1 = .done) (sources : List Source) :
    close ⟨m, sources⟩ =
      (Outcome.done.orElse (closeSources sources.reverse).1,
        ⟨m.flush.2.record (closeSources sources.reverse).2, []⟩) := by
  have flushed : m.flush = (.done, m.flush.2) := Prod.ext done rfl
  unfold close
  dsimp only
  rw [flushed]

end Close

theorem delivers_close {m m' : Machine Console} (abreast : Abreast capped [] m m')
    (sources : List Source) :
    Delivers capped (ending (close ⟨m, sources⟩)) (ending (close ⟨m', sources⟩)) := by
  rcases abreast.flush with broken | ⟨done, done', flushed⟩
  · left
    simp only [ending, close_output]
    exact broken
  · rw [close_of_done done, close_of_done done']
    exact .inr ⟨rfl, flushed.journal _ _⟩

end Interpreter

end LineForth
