import LineForth.Proofs.ExitStatus
import LineForth.Proofs.Input.Endings
import LineForth.Proofs.OutputFailure

/-!
# Canceled runs

A run asks its context before each turn. If the context reports a failure while a source is
left, the run ends with that failure, and it asks no source any more. So a line during which
the context is canceled is still read, evaluated and reported as usual. The lines behind it
stay where they are: a run with a fresh context passes over the sources that have ended, and
it goes on in the turn in which the first run stopped. Both runs together come to what one
run without a cancellation comes to.
-/

set_option autoImplicit false

namespace LineForth

section Refusals

variable {σ : Type} [Output σ]

/-- A write or a flush fails in this way, now or later. -/
def Output.Returns (start : σ) (failure : Failure) : Prop :=
  ∃ output, Relation.ReflTransGen Next start output ∧
    ((∃ passage octets, (Output.write passage octets output).1.outcome = .failed failure) ∨
      (Output.flush output).1.outcome = .failed failure)

namespace Machine

variable {m after : Machine σ} {location : Option Location} {refused : Failure}

theorem reportFailure_returns {failure : Failure}
    (reported : m.reportFailure location failure = (.failed refused, after)) :
    Output.Returns m.output refused := by
  have output : ((m.trace (text "!") failure.detail).noteLine location failure).output =
      m.output := by
    rw [noteLine_output, trace_output]
  unfold reportFailure at reported
  dsimp only at reported
  rw [← output]
  generalize (m.trace (text "!") failure.detail).noteLine location failure = noted at reported
  split at reported
  next written result =>
    have path : Relation.ReflTransGen Output.Next noted.output written.output := by
      have step := Output.Next.write .direct
        (text "Error: " ++ failure.message ++ [Bytes.newline]) noted.output
      rw [← (Prod.mk.inj result).2]
      exact .single step
    exact ⟨written.output, path, .inr (congrArg Prod.fst reported)⟩
  next =>
    exact ⟨noted.output, .refl, .inl ⟨_, _, congrArg Prod.fst reported⟩⟩

/-- A line of a run ends the run only if the report about it cannot be written. -/
theorem evalReporting_returns (calm : Output.Calm m.output) {line : Bytes}
    (stopped : (m.evalReporting location line).1 ≠ .done) :
    ∃ refused, (m.evalReporting location line).1 = .failed refused ∧
      Output.Returns (m.eval line).2.output refused := by
  have returns := evalReporting_calm calm location line
  have evaluates := eval_calm calm line
  unfold evalReporting at stopped returns ⊢
  generalize m.eval line = evaluated at stopped returns evaluates ⊢
  rcases evaluated with ⟨outcome, left⟩
  cases outcome with
  | done => exact absurd rfl stopped
  | panicked panic => exact absurd rfl (evaluates panic)
  | failed failure =>
    dsimp only at stopped returns ⊢
    rcases reported : left.reportFailure location failure with ⟨outcome, after⟩
    rw [reported] at stopped returns
    cases outcome with
    | done => exact absurd rfl stopped
    | panicked panic => exact absurd rfl (returns panic)
    | failed refused => exact ⟨refused, rfl, reportFailure_returns reported⟩

end Machine

end Refusals

namespace Turn

variable {σ : Type} [Output σ]

variable {context : Context} {turn later : Turn σ}

theorem NextUnder.unique :
    Relator.RightUnique (NextUnder context : Nat × Turn σ → Nat × Turn σ → Prop) := by
  rintro first second third ⟨next⟩ ⟨next'⟩
  rw [next.unique next']

theorem ComesTo.unique {first : Nat × Turn σ} {result other : Outcome × Interpreter σ}
    (comes : ComesTo context first result) (comes' : ComesTo context first other) :
    other = result :=
  comes'.result_eq.trans comes.result_eq.symm

/-- A signal ends the run as soon as the context is asked, if a source is left. -/
theorem ComesTo.of_signal {first : Nat × Turn σ} {number : Nat} {failure : Failure}
    (reaches : Reaches context first (number, turn))
    (signal : (context number).or turn.interrupt = some failure) (left : turn.sources ≠ []) :
    ComesTo context first (.failed failure, ⟨turn.machine, turn.passed ++ turn.sources⟩) := by
  refine ⟨number, turn, reaches, ?_⟩
  obtain ⟨interrupt, passed, _ | ⟨source, rest⟩, m⟩ := turn
  · exact absurd rfl left
  · rw [under, signal]
    exact .interrupted failure passed source rest m

section Spent

theorem Next.spent (next : Next turn later) (spent : ∀ source ∈ turn.passed, source.Spent) :
    ∀ source ∈ later.passed, source.Spent := by
  cases next with
  | line received stays done => exact spent
  | @source source after failure events passed rest m received ended =>
    intro other membership
    rcases List.mem_append.mp membership with earlier | here
    · exact spent other earlier
    · rw [List.mem_singleton.mp here]
      exact ⟨failure, ended, Source.readLine_of_error received⟩

theorem spent_of_path (path : Relation.ReflTransGen Next turn later)
    (spent : ∀ source ∈ turn.passed, source.Spent) : ∀ source ∈ later.passed, source.Spent := by
  induction path with
  | refl => exact spent
  | tail _ next inductionHypothesis => exact next.spent inductionHypothesis

/-- Sources that are spent are passed over, and nothing changes. -/
theorem reaches_of_spent {passed : List Source} (spent : ∀ source ∈ passed, source.Spent)
    (front : List Source) (silent : ∀ number < (front ++ passed).length, context number = none)
    (sources : List Source) (m : Machine σ) :
    Reaches context (front.length, ⟨none, front, passed ++ sources, m⟩)
      ((front ++ passed).length, ⟨none, front ++ passed, sources, m⟩) := by
  induction passed generalizing front with
  | nil => simpa using Relation.ReflTransGen.refl
  | cons source others inductionHypothesis =>
    obtain ⟨⟨failure, ended, received⟩, later⟩ := List.forall_mem_cons.mp spent
    have first : context front.length = none := silent _ (by simp)
    have next : Next ⟨none, front, source :: (others ++ sources), m⟩
        ⟨none, front ++ [source], others ++ sources, m.record []⟩ := .source received ended
    have further := inductionHypothesis later (front ++ [source]) (by simpa using silent)
    rw [List.append_assoc, List.singleton_append, List.length_append] at further
    exact .head ⟨next_under_iff.mpr ⟨first, next⟩⟩ further

end Spent

theorem Reaches.number_le {first last : Nat × Turn σ} (reaches : Reaches context first last) :
    first.1 ≤ last.1 := by
  induction reaches with
  | refl => exact Nat.le_refl _
  | tail _ step inductionHypothesis =>
    obtain ⟨next⟩ := step
    exact Nat.le_succ_of_le inductionHypothesis

/-- There is one turn for each number of answers. -/
theorem Reaches.unique {first : Nat × Turn σ} {number : Nat}
    (reaches : Reaches context first (number, turn))
    (reaches' : Reaches context first (number, later)) : later = turn := by
  have still {here there : Turn σ} (path : Reaches context (number, here) (number, there)) :
      here = there := by
    rcases Relation.ReflTransGen.cases_head path with same | ⟨_, ⟨next⟩, onward⟩
    · exact (Prod.mk.inj same).2
    · exact absurd (Reaches.number_le onward) (Nat.not_succ_le_self number)
  rcases Relation.ReflTransGen.total_of_right_unique NextUnder.unique reaches reaches' with
    path | path
  · exact (still path).symm
  · exact still path

/-- Without a context, what a run comes to does not change on the way. -/
theorem result_of_path (path : Relation.ReflTransGen Next turn later) :
    later.result .silent = turn.result .silent := by
  induction path with
  | refl => rfl
  | @tail middle later _ next inductionHypothesis =>
    have same : later.result Context.silent.next = middle.result .silent := Next.result_eq next
    exact same.trans inductionHypothesis

end Turn

namespace Interpreter

open Turn (Reaches)

variable {σ : Type} [Output σ]

/-- A source is asked for a line when the context has been asked this often before. -/
def Asks (context : Context) (interpreter : Interpreter σ) (number : Nat) : Prop :=
  ∃ turn, Reaches context (0, Turn.start interpreter) (number, turn) ∧
    (context number).or turn.interrupt = none ∧ turn.sources ≠ []

/-- What a run comes to if its context is canceled while a line is read or evaluated. The line
is read by a machine `m`, and `after` is its source behind it. -/
structure Cancels (interpreter : Interpreter σ) (failure : Failure) (passed rest : List Source)
    (m : Machine σ) (line : Bytes) (after : Source) (result : Outcome × Interpreter σ) :
    Prop where
  /-- No source is asked any more. -/
  sources : result.2.sources = passed ++ after :: rest
  exits : line.trim = Machine.exitCommand → (result.1, result.2.machine) = m.farewell
  /-- The line is evaluated, and its failure is reported. -/
  machine : line.trim ≠ Machine.exitCommand →
    result.2.machine = (m.evalReporting after.location? line).2
  /-- The run ends with the failure of the context. Together with the next run it comes to
  what a run without a cancellation comes to. -/
  canceled : line.trim ≠ Machine.exitCommand →
    (m.evalReporting after.location? line).1 = .done →
    result.1 = .failed failure ∧
      (after.interrupts = false → result.2.run .silent = interpreter.run .silent)
  refused : line.trim ≠ Machine.exitCommand →
    (m.evalReporting after.location? line).1 ≠ .done →
    ∃ refused, result.1 = .failed refused ∧ Output.Returns (m.eval line).2.output refused
  /-- A fresh context lets the next run come to the next line. -/
  resumes : ∀ fresh : Context, (∀ number < passed.length, fresh number = none) →
    Reaches fresh (0, Turn.start result.2)
      (passed.length, ⟨none, passed, after :: rest, result.2.machine⟩)

section Asks

variable {interpreter : Interpreter σ} {context : Context} {number further : Nat}
  {turn : Turn σ} (reaches : Reaches context (0, Turn.start interpreter) (number, turn))

include reaches

/-- What is asked for comes before a turn from which the run does not go on. -/
theorem Asks.le_of_last (last : ∀ later, ¬ Turn.Next (turn.under (context number)) later)
    (asks : Asks context interpreter further) : further ≤ number := by
  obtain ⟨other, reached, -⟩ := asks
  rcases Relation.ReflTransGen.total_of_right_unique Turn.NextUnder.unique reaches reached with
    path | path
  · rcases Relation.ReflTransGen.cases_head path with same | ⟨_, ⟨next⟩, -⟩
    · rw [(Prod.mk.inj same).1]
    · exact absurd next (last _)
  · exact Turn.Reaches.number_le path

theorem Asks.lt_of_signal {failure : Failure}
    (signal : (context number).or turn.interrupt = some failure)
    (asks : Asks context interpreter further) : further < number := by
  have interrupted : ∀ later, ¬ Turn.Next (turn.under (context number)) later := by
    intro later next
    rw [Turn.under, signal] at next
    cases next
  refine lt_of_le_of_ne (asks.le_of_last reaches interrupted) ?_
  rintro rfl
  obtain ⟨other, reached, silent, -⟩ := asks
  rw [Turn.Reaches.unique reaches reached, signal] at silent
  cases silent

end Asks

/-- A run that is canceled from the start reads nothing, and without a source it only
flushes. -/
theorem RunsUnder.of_canceled {interpreter : Interpreter σ} {context : Context}
    {failure : Failure} {result : Outcome × Interpreter σ}
    (runs : RunsUnder context interpreter result) (signal : context 0 = some failure) :
    (∀ number, ¬ Asks context interpreter number) ∧
      (interpreter.sources ≠ [] → result = (.failed failure, interpreter)) ∧
      (interpreter.sources = [] →
        result = (interpreter.machine.flush.1, ⟨interpreter.machine.flush.2, []⟩)) := by
  have signaled : (context 0).or (Turn.start interpreter).interrupt = some failure := by
    rw [signal, Option.some_or]
  refine ⟨?_, ?_, ?_⟩
  · intro number asks
    exact absurd (asks.lt_of_signal .refl signaled) (Nat.not_lt_zero number)
  · intro left
    exact (Turn.ComesTo.of_signal .refl signaled left).unique runs
  · intro empty
    have ended : RunsUnder context interpreter
        (interpreter.machine.flush.1, ⟨interpreter.machine.flush.2, []⟩) := by
      refine ⟨0, _, .refl, ?_⟩
      rw [Turn.under, Turn.start, empty]
      exact .all _ [] interpreter.machine
    exact ended.unique runs

section Line

variable {interpreter : Interpreter σ} {context : Context} {number : Nat}
  {passed rest : List Source} {source after : Source} {m : Machine σ} {line : Bytes}
  {events : List Event} {failure : Failure} {result : Outcome × Interpreter σ}

/-- The next run passes over the sources that have ended, and it finds the others where the
first run has left them. -/
theorem reaches_of_sources (spent : ∀ source ∈ passed, source.Spent)
    {fresh : Context} (silent : ∀ number < passed.length, fresh number = none)
    (left : interpreter.sources = passed ++ rest) :
    Reaches fresh (0, Turn.start interpreter)
      (passed.length, ⟨none, passed, rest, interpreter.machine⟩) := by
  rw [Turn.start, left]
  exact Turn.reaches_of_spent spent [] silent rest interpreter.machine

theorem run_eq_result_of_sources (spent : ∀ source ∈ passed, source.Spent)
    (left : interpreter.sources = passed ++ rest) :
    interpreter.run .silent = Turn.result .silent ⟨none, passed, rest, interpreter.machine⟩ := by
  have silent : ∀ number < passed.length, Context.silent number = none := fun _ _ => rfl
  have reaches := reaches_of_sources spent silent left
  rw [← result_start]
  exact (Turn.result_of_path (Turn.Reaches.path reaches)).symm

variable
  (reaches : Reaches context (0, Turn.start interpreter)
    (number, ⟨none, passed, source :: rest, m⟩))

include reaches

theorem spent_of_reaches : ∀ source ∈ passed, source.Spent := by
  have spent := Turn.spent_of_path (Turn.Reaches.path reaches)
  exact spent fun source membership => absurd membership List.not_mem_nil

theorem runsUnder_of_ends (silent : context number = none)
    (ends : Turn.Ends ⟨none, passed, source :: rest, m⟩ result) :
    RunsUnder context interpreter result := by
  refine ⟨number, _, reaches, ?_⟩
  rw [silent]
  exact ends

variable (received : source.readLine = (.ok line, events, after))

include received

theorem runsUnder_of_done (silent : context number = none)
    (stays : line.trim ≠ Machine.exitCommand)
    (done : ((m.record events).evalReporting after.location? line).1 = .done)
    (signal : (context (number + 1)).or (if after.interrupts then some .canceled else none) =
      some failure) :
    RunsUnder context interpreter
      (.failed failure, ⟨((m.record events).evalReporting after.location? line).2,
        passed ++ after :: rest⟩) := by
  have next : Turn.Next ⟨none, passed, source :: rest, m⟩ _ :=
    .line received stays (Prod.ext done rfl)
  have step : Turn.NextUnder context _ _ := ⟨Turn.next_under_iff.mpr ⟨silent, next⟩⟩
  exact Turn.ComesTo.of_signal (reaches.tail step) signal (by simp)

/-- No line is asked for behind the one during which the run is canceled. -/
theorem Asks.le_of_canceled {further : Nat} (silent : context number = none)
    (signal : (context (number + 1)).or (if after.interrupts then some .canceled else none) =
      some failure) (asks : Asks context interpreter further) : further ≤ number := by
  by_cases goes : ∃ later, Turn.Next ⟨none, passed, source :: rest, m⟩ later
  · obtain ⟨later, next⟩ := goes
    have interrupt : later.interrupt = if after.interrupts then some .canceled else none := by
      cases next with
      | line received' stays done =>
        rw [received] at received'
        cases received'
        rfl
      | source received' ended =>
        rw [received] at received'
        cases received'
    have step : Turn.NextUnder context _ _ := ⟨Turn.next_under_iff.mpr ⟨silent, next⟩⟩
    rw [← interrupt] at signal
    exact Nat.le_of_lt_succ (asks.lt_of_signal (reaches.tail step) signal)
  · refine asks.le_of_last reaches ?_
    intro later next
    exact goes ⟨later, (Turn.next_under_iff.mp next).2⟩

/-- The run goes on to the next turn if nothing interrupts it. -/
theorem run_eq_result_of_line (stays : line.trim ≠ Machine.exitCommand)
    (done : ((m.record events).evalReporting after.location? line).1 = .done)
    (steady : after.interrupts = false) :
    interpreter.run .silent = Turn.result .silent ⟨none, passed, after :: rest,
      ((m.record events).evalReporting after.location? line).2⟩ := by
  have next : Turn.Next ⟨none, passed, source :: rest, m⟩ _ :=
    .line received stays (Prod.ext done rfl)
  rw [if_neg (by simp [steady])] at next
  rw [← result_start]
  exact (Turn.result_of_path ((Turn.Reaches.path reaches).tail next)).symm

theorem cancels_of_runsUnder (calm : Output.Calm interpreter.machine.output)
    (silent : context number = none)
    (signal : (context (number + 1)).or (if after.interrupts then some .canceled else none) =
      some failure) (runs : RunsUnder context interpreter result) :
    Cancels interpreter failure passed rest (m.record events) line after result := by
  have spent := spent_of_reaches reaches
  by_cases exits : line.trim = Machine.exitCommand
  · cases runs.unique (runsUnder_of_ends reaches silent (.exit received exits))
    exact
      { sources := rfl
        exits := fun _ => rfl
        machine := fun stays => absurd exits stays
        canceled := fun stays => absurd exits stays
        refused := fun stays => absurd exits stays
        resumes := fun _ unasked => reaches_of_sources spent unasked rfl }
  by_cases done : ((m.record events).evalReporting after.location? line).1 = .done
  · cases runs.unique (runsUnder_of_done reaches received silent exits done signal)
    refine
      { sources := rfl
        exits := fun ends => absurd ends exits
        machine := fun _ => rfl
        canceled := fun _ _ => ⟨rfl, ?_⟩
        refused := fun _ stopped => absurd done stopped
        resumes := fun _ unasked => reaches_of_sources spent unasked rfl }
    intro steady
    rw [run_eq_result_of_line reaches received exits done steady]
    exact run_eq_result_of_sources spent rfl
  · cases runs.unique (runsUnder_of_ends reaches silent (.line received exits rfl done))
    have reached := Turn.kept_of_path Machine.Kept.calm (Turn.Reaches.path reaches) calm
    have recorded := Machine.Kept.calm.record events reached
    exact
      { sources := rfl
        exits := fun ends => absurd ends exits
        machine := fun _ => rfl
        canceled := fun _ ended => absurd ended done
        refused := fun _ stopped => Machine.evalReporting_returns recorded stopped
        resumes := fun _ unasked => reaches_of_sources spent unasked rfl }

end Line

/-- A run is canceled between two lines. Whatever its context answers, it comes to exactly one
result. If the context is canceled from the start, no source is asked and nothing is evaluated;
if it is canceled while a line is read or evaluated, that line is the last one. -/
theorem run_cancels_between_lines (interpreter : Interpreter σ)
    (calm : Output.Calm interpreter.machine.output) (context : Context) :
    ∃ result, RunsUnder context interpreter result ∧
      (∀ other, RunsUnder context interpreter other → other = result) ∧
      (∀ panic, result.1 ≠ .panicked panic) ∧
      result = interpreter.run context ∧
      (∀ failure, context 0 = some failure →
        (∀ number, ¬ Asks context interpreter number) ∧
        (interpreter.sources ≠ [] → result = (.failed failure, interpreter)) ∧
        (interpreter.sources = [] →
          result = (interpreter.machine.flush.1, ⟨interpreter.machine.flush.2, []⟩))) ∧
      ∀ {number passed source rest m line events after failure},
        Reaches context (0, Turn.start interpreter)
          (number, ⟨none, passed, source :: rest, m⟩) →
        context number = none →
        source.readLine = (.ok line, events, after) →
        (context (number + 1)).or (if after.interrupts then some .canceled else none) =
          some failure →
        (∀ further, Asks context interpreter further → further ≤ number) ∧
        Cancels interpreter failure passed rest (m.record events) line after result := by
  obtain ⟨turns, through⟩ := interpreter.exists_runsThrough context
  obtain ⟨result, runs⟩ : ∃ result, RunsUnder context interpreter result :=
    ⟨_, through.runsUnder⟩
  refine ⟨result, runs, fun other comes => runs.unique comes, ?_, runs.eq_run, ?_, ?_⟩
  · intro panic
    obtain ⟨number, last, reaches, ends⟩ := runs
    have reached := Turn.kept_of_path Machine.Kept.calm (Turn.Reaches.path reaches) calm
    exact ends.calm reached panic
  · intro failure signal
    exact runs.of_canceled signal
  · intro number passed source rest m line events after failure reaches silent received signal
    refine ⟨?_, cancels_of_runsUnder reaches received calm silent signal runs⟩
    intro further asks
    exact asks.le_of_canceled reaches received silent signal

/-- Two lines, the first of which fails. -/
def twoLines : Source :=
  .feed (Feed.ofQueue [⟨text "b", text "1 drop drop\n2 .\n", 3, .failure .endOfInput, .never⟩])

/-- A list without lines, and two lines behind it. -/
def endedAndTwoLines : Interpreter Console :=
  ⟨Machine.initial Machine.twoDevices,
    [.list ⟨text "a", [], 0, .endOfInput, false, 0, none, 0⟩, twoLines]⟩

theorem endedAndTwoLines_calm : Output.Calm endedAndTwoLines.machine.output := by
  apply Output.Persistent.calm
  apply Console.persistent
  intro device membership cap limited
  rcases List.mem_pair.mp membership with rfl | rfl
  · cases limited
  · cases limited

/-- The context is canceled while the first line is evaluated. Its failure is still written,
and the next run prints the second number. -/
theorem run_cancels_between_lines_endedAndTwoLines :
    ∃ result, RunsUnder (fun number => if number < 2 then none else some .canceled)
        endedAndTwoLines result ∧
      (∀ number, Asks (fun number => if number < 2 then none else some .canceled)
        endedAndTwoLines number → number ≤ 1) ∧
      result.1 = .failed .canceled ∧
      Console.reliable.view result.2.machine.output =
        [text "Error: empty stack: argument for drop\n",
          text "Error: empty stack: argument for drop\n"] ∧
      result.2.lines = [⟨some ⟨text "b", 2⟩, text "2 ."⟩] ∧
      result.2.run .silent = endedAndTwoLines.run .silent := by
  obtain ⟨result, runs, -, -, -, -, cancels⟩ := run_cancels_between_lines endedAndTwoLines
    endedAndTwoLines_calm (fun number => if number < 2 then none else some .canceled)
  have ended : Turn.Next (Turn.start endedAndTwoLines) ⟨none, _, [twoLines], _⟩ :=
    .source rfl (by decide)
  have received : twoLines.readLine =
      (.ok (text "1 drop drop"), [], twoLines.readLine.2.2) :=
    Prod.ext (by decide +kernel) (Prod.ext (by decide +kernel) rfl)
  obtain ⟨unasked, line⟩ :=
    cancels (.single ⟨Turn.next_under_iff.mpr ⟨rfl, ended⟩⟩) rfl received rfl
  have stays : (text "1 drop drop").trim ≠ Machine.exitCommand := by decide +kernel
  obtain ⟨canceled, together⟩ := line.canceled stays (by decide +kernel)
  refine ⟨result, runs, unasked, canceled, ?_, ?_, together (by decide +kernel)⟩
  · rw [line.machine stays]
    decide +kernel
  · rw [lines, line.sources]
    decide +kernel

end Interpreter

end LineForth
