import LineForth.Command.Basic
import LineForth.Proofs.ExitCode
import LineForth.Proofs.LineByLine
import LineForth.Proofs.Output.Persistence

/-!
# The exit status of the command

The status is the exit code of the log. The log is told of all that can go wrong: a file
that cannot be opened, the failure that ends the run, the failure of closing and, if asked
for, each line that fails. So the status is 0 if and only if none of this happens and every
line of the log is written. A file that cannot be opened keeps the run from starting.
-/

set_option autoImplicit false

namespace LineForth

theorem Outcome.eq_done_iff {outcome : Outcome} (calm : ∀ panic, outcome ≠ .panicked panic) :
    outcome = .done ↔ ¬ ∃ failure, outcome = .failed failure := by
  cases outcome with
  | done => simp
  | failed failure => simp
  | panicked panic => exact absurd rfl (calm panic)

section Runs

variable {σ : Type} [Output σ]

namespace Machine

theorem Reports.reportFailure (m : Machine σ) (location : Option Location) (failure : Failure) :
    Reports [lineReport location failure] m (m.reportFailure location failure).2 := by
  have traced := framing.trace m (text "!") failure.detail
  have noted := traced.trans (.noteLine (m.trace (text "!") failure.detail) location failure)
  unfold Machine.reportFailure
  dsimp only
  generalize (m.trace (text "!") failure.detail).noteLine location failure = after at noted ⊢
  have written := noted.trans (framing.write after .direct
    (text "Error: " ++ failure.message ++ [Bytes.newline]))
  generalize after.write .direct _ = result at written ⊢
  rcases result with ⟨outcome, last⟩
  cases outcome with
  | done => exact written.trans (framing.flush last)
  | failed refused => exact written
  | panicked panic => exact written

/-- A line of a run is reported if it fails, and only then. -/
theorem Reports.evalReporting (m : Machine σ) (location : Option Location) (line : Bytes) :
    ∃ reports, Reports reports m (m.evalReporting location line).2 ∧
      (reports = [] ↔ ¬ ∃ failure, (m.eval line).1 = .failed failure) := by
  have evaluated := framing.eval line m
  unfold Machine.evalReporting
  generalize m.eval line = result at evaluated ⊢
  rcases result with ⟨outcome, after⟩
  cases outcome with
  | done => exact ⟨[], evaluated, by simp⟩
  | panicked panic => exact ⟨[], evaluated, by simp⟩
  | failed failure =>
    have reported := evaluated.trans (.reportFailure after location failure)
    exact ⟨_, reported, by simp⟩

theorem Reports.farewell (m : Machine σ) : Reports [] m m.farewell.2 := by
  have traced := framing.trace m (text ">") exitCommand
  have written := traced.trans (framing.write _ .staged (text "Bye!" ++ [Bytes.newline]))
  exact written.trans (framing.finish _)

end Machine

namespace Turn

variable {turn later other : Turn σ}

/-- The line that is evaluated in this turn fails. -/
inductive LineFails : Turn σ → Prop
  | intro {source after : Source} {line : Bytes} {events : List Event} {passed rest : List Source}
      {m : Machine σ} {failure : Failure} (received : source.readLine = (.ok line, events, after))
      (stays : line.trim ≠ Machine.exitCommand)
      (failed : ((m.record events).eval line).1 = .failed failure) :
      LineFails ⟨none, passed, source :: rest, m⟩

section Line

variable {source after : Source} {events : List Event} {passed rest : List Source} {m : Machine σ}

theorem lineFails_iff {line : Bytes} (received : source.readLine = (.ok line, events, after))
    (stays : line.trim ≠ Machine.exitCommand) :
    LineFails ⟨none, passed, source :: rest, m⟩ ↔
      ∃ failure, ((m.record events).eval line).1 = .failed failure := by
  constructor
  · intro fails
    cases fails with
    | intro received' stays' failed =>
      rw [received] at received'
      cases received'
      exact ⟨_, failed⟩
  · rintro ⟨failure, failed⟩
    exact .intro received stays failed

theorem not_lineFails_of_exit {line : Bytes}
    (received : source.readLine = (.ok line, events, after))
    (exits : line.trim = Machine.exitCommand) :
    ¬ LineFails ⟨none, passed, source :: rest, m⟩ := by
  intro fails
  cases fails with
  | intro received' stays failed =>
    rw [received] at received'
    cases received'
    exact stays exits

theorem not_lineFails_of_error {failure : Failure}
    (received : source.readLine = (.error failure, events, after)) :
    ¬ LineFails ⟨none, passed, source :: rest, m⟩ := by
  intro fails
  cases fails with
  | intro received' stays failed =>
    rw [received] at received'
    cases received'

/-- The turn of a line reports the line if it fails. -/
theorem exists_reports_line {line : Bytes}
    (received : source.readLine = (.ok line, events, after))
    (stays : line.trim ≠ Machine.exitCommand) (passed rest : List Source) (m : Machine σ) :
    ∃ reports, Machine.Reports reports m
        ((m.record events).evalReporting after.location? line).2 ∧
      (reports = [] ↔ ¬ LineFails ⟨none, passed, source :: rest, m⟩) := by
  obtain ⟨reports, reported, failed⟩ :=
    Machine.Reports.evalReporting (m.record events) after.location? line
  refine ⟨reports, (Machine.Reports.record m events).trans reported, ?_⟩
  rw [failed, lineFails_iff received stays]

end Line

theorem Next.exists_reports (next : Next turn later) :
    ∃ reports, Machine.Reports reports turn.machine later.machine ∧
      (reports = [] ↔ ¬ turn.LineFails) := by
  cases next with
  | @line source after line events passed rest m evaluated received stays done =>
    have reports := exists_reports_line received stays passed rest m
    rw [done] at reports
    exact reports
  | source received ended =>
    exact ⟨[], .record _ _, iff_of_true rfl (not_lineFails_of_error received)⟩

theorem Ends.exists_reports {result : Outcome × Interpreter σ} (ends : Ends turn result) :
    ∃ reports, Machine.Reports reports turn.machine result.2.machine ∧
      (reports = [] ↔ ¬ turn.LineFails) := by
  cases ends with
  | all interrupt passed m =>
    refine ⟨[], Machine.Reports.framing.flush m, iff_of_true rfl ?_⟩
    intro fails
    cases fails
  | interrupted failure passed source rest m =>
    refine ⟨[], Machine.Reports.framing.refl m, iff_of_true rfl ?_⟩
    intro fails
    cases fails
  | failure received other =>
    exact ⟨[], .record _ _, iff_of_true rfl (not_lineFails_of_error received)⟩
  | @exit source after line events passed rest m received exits =>
    have reported := (Machine.Reports.record m events).trans (.farewell (m.record events))
    exact ⟨[], reported, iff_of_true rfl (not_lineFails_of_exit received exits)⟩
  | @line source after line events outcome passed rest m evaluated received stays stopped other =>
    have reports := exists_reports_line received stays passed rest m
    rw [stopped] at reports
    exact reports

theorem Next.unique (first : Next turn later) (second : Next turn other) : other = later := by
  cases first with
  | line received stays done =>
    cases second with
    | line received' stays' done' =>
      rw [received] at received'
      cases received'
      rw [done] at done'
      cases done'
      rfl
    | source received' ended =>
      rw [received] at received'
      cases received'
  | source received ended =>
    cases second with
    | line received' stays' done' =>
      rw [received] at received'
      cases received'
    | source received' ended' =>
      rw [received] at received'
      cases received'
      rfl

theorem Ends.not_next {result : Outcome × Interpreter σ} (ends : Ends turn result) :
    ¬ Next turn later := by
  intro next
  cases next with
  | line received stays done =>
    cases ends with
    | failure received' other =>
      rw [received] at received'
      cases received'
    | exit received' exits =>
      rw [received] at received'
      cases received'
      exact stays exits
    | line received' stays' stopped other =>
      rw [received] at received'
      cases received'
      rw [done] at stopped
      cases stopped
      exact other rfl
  | source received ended =>
    cases ends with
    | failure received' other =>
      rw [received] at received'
      cases received'
      rw [ended] at other
      cases other
    | exit received' exits =>
      rw [received] at received'
      cases received'
    | line received' stays' stopped other =>
      rw [received] at received'
      cases received'

namespace RunsThrough

variable {context : Context} {number : Nat} {turns others : List (Turn σ)}
  {result result' : Outcome × Interpreter σ}

theorem unique (runs : RunsThrough context number turn turns result)
    (runs' : RunsThrough context number turn others result') : others = turns := by
  induction runs generalizing others with
  | last ends =>
    cases runs' with
    | last ends' => rfl
    | next next further => exact absurd next ends.not_next
  | next next further inductionHypothesis =>
    cases runs' with
    | last ends => exact absurd next ends.not_next
    | next next' further' =>
      cases next.unique next'
      rw [inductionHypothesis further']

/-- A run reports the lines that fail in its turns. -/
theorem exists_reports (runs : RunsThrough context number turn turns result) :
    ∃ reports, Machine.Reports reports turn.machine result.2.machine ∧
      (reports = [] ↔ ∀ begun ∈ turns, ¬ begun.LineFails) := by
  induction runs with
  | last ends =>
    obtain ⟨reports, reported, silent⟩ := ends.exists_reports
    refine ⟨reports, reported, ?_⟩
    rw [List.forall_mem_singleton, silent]
  | next next further inductionHypothesis =>
    obtain ⟨first, reported, silent⟩ := next.exists_reports
    obtain ⟨more, reportedLater, silentLater⟩ := inductionHypothesis
    refine ⟨first ++ more, Machine.Reports.trans reported reportedLater, ?_⟩
    rw [List.append_eq_nil_iff, List.forall_mem_cons, silent, silentLater]

end RunsThrough

end Turn

namespace Interpreter

/-- No line fails, in any turn of the run. -/
def NoLineFails (context : Context) (interpreter : Interpreter σ) : Prop :=
  ∀ turns result, interpreter.RunsThrough context turns result → ∀ turn ∈ turns, ¬ turn.LineFails

theorem exists_reports_run (interpreter : Interpreter σ) (context : Context) :
    ∃ reports, Machine.Reports reports interpreter.machine (interpreter.run context).2.machine ∧
      (reports = [] ↔ interpreter.NoLineFails context) := by
  obtain ⟨turns, runs⟩ := interpreter.exists_runsThrough context
  obtain ⟨reports, reported, silent⟩ := Turn.RunsThrough.exists_reports runs
  refine ⟨reports, reported, silent.trans ?_⟩
  constructor
  · intro none others result runs'
    rw [Turn.RunsThrough.unique runs runs']
    exact none
  · intro none
    exact none turns _ runs

end Interpreter

end Runs

namespace Interpreter

variable {σ : Type}

theorem machine_addStream (interpreter : Interpreter σ) (stream : Stream) :
    (interpreter.addStream stream).machine = interpreter.machine := by
  unfold addStream
  split <;> rfl

theorem machine_foldl_addStream (streams : List Stream) (interpreter : Interpreter σ) :
    (streams.foldl addStream interpreter).machine = interpreter.machine := by
  induction streams generalizing interpreter with
  | nil => rfl
  | cons stream rest inductionHypothesis =>
    rw [List.foldl_cons, inductionHypothesis, machine_addStream]

end Interpreter

theorem Bank.Honest.calm {bank : Bank} (honest : bank.Honest) : Devices.Calm bank := by
  intro devices path number octets panic
  have kept : devices.Honest := by
    induction path with
    | refl => exact honest
    | tail _ next inductionHypothesis =>
      cases next with
      | write number octets =>
        have passes := (Bank.write_passes inductionHypothesis (.device number) .direct octets).1
        exact passes.honest inductionHypothesis
  exact (Bank.write_passes kept (.device number) .direct octets).1.calm panic

namespace Command

section Files

variable {openFile : Bytes → Except Failure Stream} {names : List Bytes}

theorem forall₂_of_openAll {files : List Stream} (opened : openAll openFile names = .ok files) :
    List.Forall₂ (fun name file => openFile name = .ok file) names files := by
  induction names generalizing files with
  | nil =>
    cases opened
    exact .nil
  | cons name rest inductionHypothesis =>
    simp only [openAll] at opened
    split at opened
    · cases opened
    next file first =>
      split at opened
      · cases opened
      next others later =>
        cases opened
        exact .cons first (inductionHypothesis later)

theorem openAll_of_forall₂ {files : List Stream}
    (opened : List.Forall₂ (fun name file => openFile name = .ok file) names files) :
    openAll openFile names = .ok files := by
  induction opened with
  | nil => rfl
  | cons first later inductionHypothesis => simp only [openAll, first, inductionHypothesis]

theorem exists_openAll_eq_error
    (refused : ∃ name ∈ names, ∃ failure, openFile name = .error failure) :
    ∃ failure, openAll openFile names = .error failure := by
  obtain ⟨name, membership, failure, failed⟩ := refused
  induction names with
  | nil => cases membership
  | cons first rest inductionHypothesis =>
    cases opened : openFile first with
    | error other => exact ⟨other, by simp only [openAll, opened]⟩
    | ok file =>
      have later : name ∈ rest := by
        rcases List.mem_cons.mp membership with rfl | later
        · rw [failed] at opened
          cases opened
        · exact later
      obtain ⟨other, refused⟩ := inductionHypothesis later
      exact ⟨other, by simp only [openAll, opened, refused]⟩

end Files

section Acts

variable {σ : Type} {options : Options} {render : List Token → Bytes} {left : Machine σ}
  {ran closed : Outcome}

theorem logsError_of_journal (journal : Journal) :
    (∀ act ∈ journal.reverse.filterMap actOf, act.logsError = false) ↔ journal.lineErrors = [] := by
  unfold Journal.lineErrors
  rw [List.filterMap_eq_nil_iff]
  constructor
  · intro silent entry membership
    cases entry with
    | lineError line =>
      have act := silent (.error line) (List.mem_filterMap.mpr ⟨_, membership, rfl⟩)
      cases act
    | trace line => rfl
    | event event => rfl
  · intro none act membership
    obtain ⟨entry, membership, shown⟩ := List.mem_filterMap.mp membership
    cases entry with
    | trace line =>
      cases shown
      rfl
    | lineError line => cases none _ membership
    | event event => cases shown

/-- What the command logs as an error: the lines that failed, and the failures that ended
the run and the closing. -/
theorem logsError_of_acts :
    (∀ act ∈ acts options render ran left closed, act.logsError = false) ↔
      left.journal.lineErrors = [] ∧ (¬ ∃ failure, ran = .failed failure) ∧
        ¬ ∃ failure, closed = .failed failure := by
  have outcome (outcome : Outcome) : (Log.Act.errorIf outcome).logsError = false ↔
      ¬ ∃ failure, outcome = .failed failure := by
    cases outcome <;> simp [Log.Act.logsError]
  have dumped : ∀ act ∈ if options.dump then (left.dumpLines render).map Log.Act.bypass else [],
      act.logsError = false := by
    intro act membership
    split at membership
    · obtain ⟨line, -, rfl⟩ := List.mem_map.mp membership
      rfl
    · cases membership
  unfold acts
  simp only [List.forall_mem_append, List.forall_mem_singleton, logsError_of_journal, outcome]
  constructor
  · rintro ⟨⟨⟨lines, run⟩, -⟩, close⟩
    exact ⟨lines, run, close⟩
  · rintro ⟨lines, run, close⟩
    exact ⟨⟨⟨lines, run⟩, dumped⟩, close⟩

end Acts

theorem interpreter_machine {σ : Type} (options : Options) (streams : List Stream) (output : σ) :
    (interpreter options streams output).machine.output = output ∧
      (interpreter options streams output).machine.reportsLines = options.strict ∧
      (interpreter options streams output).machine.journal = [] := by
  unfold interpreter
  rw [Interpreter.machine_foldl_addStream]
  unfold Machine.limited
  refine ⟨?_, rfl, ?_⟩
  all_goals
    dsimp only
    split
    all_goals
      split
      all_goals rfl

section Status

variable {σ δ : Type} [Output σ] [Devices δ]

/-- The run of the command over its sources. -/
def running (conditions : Conditions) (options : Options) (streams : List Stream) (output : σ) :
    Outcome × Interpreter σ :=
  (interpreter options streams output).run (timeLimit options conditions.elapsed)

/-- Once the files are open, all goes well. -/
structure Succeeds (conditions : Conditions) (options : Options) (streams : List Stream)
    (output : σ) (devices : δ) : Prop where
  ran : (running conditions options streams output).1 = .done
  closed : (running conditions options streams output).2.close.1 = .done
  /-- Every line of the log is written. -/
  logged : (log devices).NoneFails
    (acts options conditions.render (running conditions options streams output).1
      (running conditions options streams output).2.machine
      (running conditions options streams output).2.close.1)
  strict : options.strict = true →
    (interpreter options streams output).NoLineFails (timeLimit options conditions.elapsed)

variable {conditions : Conditions} {options : Options} {streams : List Stream} {output : σ}
  {devices : δ}

theorem lineErrors_running :
    (running conditions options streams output).2.machine.journal.lineErrors = [] ↔
      (options.strict = true →
        (interpreter options streams output).NoLineFails
          (timeLimit options conditions.elapsed)) := by
  obtain ⟨-, strict, journal⟩ := interpreter_machine options streams output
  obtain ⟨reports, reported, silent⟩ :=
    (interpreter options streams output).exists_reports_run (timeLimit options conditions.elapsed)
  have errors := reported.lineErrors
  rw [strict, journal] at errors
  rw [running, errors, ← silent]
  cases options.strict <;> simp [Journal.lineErrors]

theorem status_evaluate (calm : Output.Calm output) (steady : Devices.Calm devices) :
    (evaluate conditions options streams output devices).1 = 0 ↔
      Succeeds conditions options streams output devices := by
  obtain ⟨same, -, -⟩ := interpreter_machine options streams output
  have started : Output.Calm (interpreter options streams output).machine.output := by
    rw [same]
    exact calm
  have left : Output.Calm (running conditions options streams output).2.machine.output :=
    Machine.Kept.calm.runSources (timeLimit options conditions.elapsed) _ started
  have ran := Outcome.eq_done_iff
    (Interpreter.run_calm started (timeLimit options conditions.elapsed))
  have closed := Outcome.eq_done_iff (Interpreter.close_calm left)
  have status : (evaluate conditions options streams output devices).1 =
      ((log devices).actAll (acts options conditions.render
        (running conditions options streams output).1
        (running conditions options streams output).2.machine
        (running conditions options streams output).2.close.1)).exitCode := rfl
  rw [status, Log.exitCode_actAll_eq_zero_iff steady, logsError_of_acts, lineErrors_running]
  constructor
  · rintro ⟨-, ⟨strict, run, close⟩, logged⟩
    exact ⟨ran.mpr run, closed.mpr close, logged, strict⟩
  · intro succeeds
    exact ⟨rfl, ⟨succeeds.strict, ran.mp succeeds.ran, closed.mp succeeds.closed⟩,
      succeeds.logged⟩

/-- A file that cannot be opened is logged, and that is all. -/
theorem runOn_of_refused (output : σ) (steady : Devices.Calm devices) {invocation : Invocation}
    (parsed : Options.parse invocation.arguments = .ok options) {failure : Failure}
    (failed : openAll invocation.openFile options.files = .error failure) :
    (runOn conditions output devices invocation).1 ≠ 0 ∧
      (runOn conditions output devices invocation).2 =
        (output, ((log devices).act (.errorIf (.failed failure))).devices) := by
  have refused : runOn conditions output devices invocation =
      (((log devices).act (.errorIf (.failed failure))).exitCode, output,
        ((log devices).act (.errorIf (.failed failure))).devices) := by
    simp only [runOn, parsed, failed]
    rfl
  rw [refused]
  refine ⟨?_, rfl⟩
  intro zero
  obtain ⟨-, silent, -⟩ := (Log.exitCode_act_eq_zero_iff steady).mp zero
  cases silent

/-- The exit status of a command line that can be followed, on an output and a log that do
not panic. It is 0 if and only if all the files can be opened and all goes well from there.
If a file cannot be opened, the status is not 0, and nothing happens but that this is
logged: the output is not even touched. Standard input may fail to be read or closed, and
time may pass in any way: a time limit that is over before a line keeps the run from
succeeding. -/
theorem status_eq_zero_iff (conditions : Conditions) (calm : Output.Calm output)
    (steady : Devices.Calm devices) {invocation : Invocation}
    (parsed : Options.parse invocation.arguments = .ok options) :
    ((runOn conditions output devices invocation).1 = 0 ↔
        ∃ files, List.Forall₂ (fun name file => invocation.openFile name = .ok file)
            options.files files ∧
          Succeeds conditions options (inputs invocation files) output devices) ∧
      ((∃ name ∈ options.files, ∃ failure, invocation.openFile name = .error failure) →
        (runOn conditions output devices invocation).1 ≠ 0 ∧
          ∃ failure, (runOn conditions output devices invocation).2 =
            (output, ((log devices).act (.errorIf (.failed failure))).devices)) := by
  constructor
  · cases opened : openAll invocation.openFile options.files with
    | ok files =>
      have evaluated : runOn conditions output devices invocation =
          evaluate conditions options (inputs invocation files) output devices := by
        simp only [runOn, parsed, opened]
      rw [evaluated, status_evaluate calm steady]
      constructor
      · intro succeeds
        exact ⟨files, forall₂_of_openAll opened, succeeds⟩
      · rintro ⟨others, each, succeeds⟩
        have same := (openAll_of_forall₂ each).symm.trans opened
        cases same
        exact succeeds
    | error failure =>
      constructor
      · intro zero
        exact absurd zero (runOn_of_refused output steady parsed opened).1
      · rintro ⟨files, each, -⟩
        rw [openAll_of_forall₂ each] at opened
        cases opened
  · intro refused
    obtain ⟨failure, failed⟩ := exists_openAll_eq_error refused
    obtain ⟨nonzero, only⟩ := runOn_of_refused output steady parsed failed
    exact ⟨nonzero, failure, only⟩

end Status

theorem status_run (invocation : Invocation) (conditions : Conditions) :
    (run invocation conditions).status =
      (runOn conditions (Console.only (Device.fresh (.plain none)))
        (⟨[Device.fresh (.plain none)], []⟩ : Bank) invocation).1 := rfl

/-- Adds two numbers, with every failed line to be reported. -/
def adding : Invocation where
  arguments := [text "-strict"]
  standardInput := text "1 2 + .\n"
  openFile name := .error (Directory.openFailure name Directory.noEntry)

/-- Asks for a file that is not there. -/
def missing : Invocation := { adding with arguments := [text "sums"] }

/-- Has to be done in three nanoseconds. -/
def hurried : Invocation := { adding with arguments := [text "-timeout=3ns"] }

/-- Four nanoseconds pass with every line. -/
def slow : Conditions := { elapsed := fun number => 4 * number }

/-- Standard input fails behind its line. -/
def torn : Invocation :=
  { adding with
    standardInput :=
      { octets := text "1 2 + .\n", ending := .failure (.other (text "input/output error")) } }

theorem status_eq_zero_iff_adding :
    (run adding).status = 0 ∧
      (interpreter { Options.initial with strict := true } (inputs adding [])
        (Console.only (Device.fresh (.plain none)))).NoLineFails .silent ∧
      (run missing).status ≠ 0 ∧ (run torn).status ≠ 0 ∧
      (run hurried).status = 0 ∧ (run hurried slow).status ≠ 0 := by
  have honest : ∀ device ∈ [Device.fresh (.plain none)], device.Honest := by
    simp [Device.Honest, Device.limit?, Device.fresh]
  have output : (Console.only (Device.fresh (.plain none))).Honest := honest
  have log : (⟨[Device.fresh (.plain none)], []⟩ : Bank).Honest := honest
  have calm := (Console.persistent output).calm
  have strict : Options.parse adding.arguments =
      .ok { Options.initial with strict := true } := by decide +kernel
  have named : Options.parse missing.arguments =
      .ok { Options.initial with files := [text "sums"] } := by decide +kernel
  have limited : Options.parse hurried.arguments =
      .ok { Options.initial with timeout := 3 } := by decide +kernel
  have again : Options.parse torn.arguments =
      .ok { Options.initial with strict := true } := strict
  have zero : (run adding).status = 0 := by decide +kernel
  obtain ⟨files, each, succeeds⟩ := (status_eq_zero_iff {} calm log.calm strict).1.mp zero
  cases each
  refine ⟨zero, succeeds.strict rfl, ?_, ?_, by decide +kernel, ?_⟩
  · exact ((status_eq_zero_iff {} calm log.calm named).2
      ⟨text "sums", List.mem_singleton_self _, _, rfl⟩).1
  · intro zero
    rw [status_run] at zero
    obtain ⟨files, each, succeeds⟩ := (status_eq_zero_iff {} calm log.calm again).1.mp zero
    cases each
    exact absurd succeeds.ran (by decide +kernel)
  · intro zero
    rw [status_run] at zero
    obtain ⟨files, each, succeeds⟩ := (status_eq_zero_iff slow calm log.calm limited).1.mp zero
    cases each
    exact absurd succeeds.ran (by decide +kernel)

end Command

end LineForth
