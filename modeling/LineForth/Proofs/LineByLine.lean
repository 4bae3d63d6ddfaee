import LineForth.Proofs.Calm
import LineForth.Proofs.LineComposition
import LineForth.Proofs.Runs
import Mathlib.Data.List.TakeWhile

/-!
# Runs line by line

On an output that never fails, a run over sources that only report the end of the
input comes to evaluating their lines one by one, up to the first line that ends the
run. A line that fails is followed by a text about its failure and, if failed lines are
reported, by one report with its place. The lines behind the one that ends the run stay
where they are, for the next run.
-/

set_option autoImplicit false

namespace LineForth

namespace SourceLine

/-- The lines in front of the first one that ends the run. -/
def beforeExit (entries : List SourceLine) : List SourceLine :=
  entries.takeWhile fun entry => !entry.exits

/-- The lines behind the first one that ends the run. -/
def afterExit (entries : List SourceLine) : List SourceLine :=
  (entries.dropWhile fun entry => !entry.exits).tail

end SourceLine

namespace Machine

theorem Reports.noteLine {σ : Type} (m : Machine σ) (location : Option Location)
    (failure : Failure) :
    Reports [lineReport location failure] m (m.noteLine location failure) := by
  unfold Machine.noteLine
  split
  next listening => exact ⟨rfl, by simp [Journal.lineErrors, listening]⟩
  next silent => exact ⟨rfl, by simp [silent]⟩

variable {σ ν : Type} [Output σ]

/-- Evaluates a line, and writes about its failure. -/
def evalShown (m : Machine σ) (line : Bytes) : Machine σ :=
  match m.eval line with
  | (.failed failure, after) =>
    (after.write .direct (text "Error: " ++ failure.message ++ [Bytes.newline])).2
  | (_, after) => after

/-- Evaluates lines one by one. -/
def evalAll (m : Machine σ) (entries : List SourceLine) : Machine σ :=
  entries.foldl (fun current entry => current.evalShown entry.line) m

/-- The report about a line, if it fails. -/
def failureReport (m : Machine σ) (entry : SourceLine) : List Bytes :=
  match (m.eval entry.line).1 with
  | .failed failure => [lineReport entry.location failure]
  | _ => []

/-- The reports about those lines that fail when the lines are evaluated one by
one. -/
def failureReports : Machine σ → List SourceLine → List Bytes
  | _, [] => []
  | m, entry :: rest => m.failureReport entry ++ failureReports (m.evalShown entry.line) rest

/-- The lines up to the first one that ends the run, and a farewell if there is such
a line. -/
def replay (m : Machine σ) (entries : List SourceLine) : Machine σ :=
  let evaluated := m.evalAll (SourceLine.beforeExit entries)
  if entries.any SourceLine.exits then
    (evaluated.write .staged (text "Bye!" ++ [Bytes.newline])).2
  else evaluated

section Replay

variable {front : List SourceLine} (stay : ∀ entry ∈ front, entry.exits = false)

include stay

theorem replay_of_stay (m : Machine σ) :
    m.replay front = m.evalAll front ∧ SourceLine.beforeExit front = front ∧
      SourceLine.afterExit front = [] := by
  have taken : SourceLine.beforeExit front = front := by
    rw [SourceLine.beforeExit, List.takeWhile_eq_self_iff]
    simpa using stay
  have dropped : SourceLine.afterExit front = [] := by
    have none : front.dropWhile (fun entry => !entry.exits) = [] := by
      rw [List.dropWhile_eq_nil_iff]
      simpa using stay
    rw [SourceLine.afterExit, none, List.tail_nil]
  have staying : front.any SourceLine.exits = false := by simpa using stay
  exact ⟨by simp [replay, taken, staying], taken, dropped⟩

theorem replay_of_exit (m : Machine σ) {entry : SourceLine} (ends : entry.exits = true)
    (rest : List SourceLine) :
    m.replay (front ++ entry :: rest) =
        ((m.evalAll front).write .staged (text "Bye!" ++ [Bytes.newline])).2 ∧
      SourceLine.beforeExit (front ++ entry :: rest) = front ∧
      SourceLine.afterExit (front ++ entry :: rest) = rest := by
  have staying : ∀ entry ∈ front, (!entry.exits) = true := by simpa using stay
  have taken : SourceLine.beforeExit (front ++ entry :: rest) = front := by
    rw [SourceLine.beforeExit, List.takeWhile_append_of_pos staying]
    simp [ends]
  have dropped : SourceLine.afterExit (front ++ entry :: rest) = rest := by
    rw [SourceLine.afterExit, List.dropWhile_append_of_pos staying]
    simp [ends]
  exact ⟨by simp [replay, taken, ends], taken, dropped⟩

end Replay

/-- Machines that are alike and have the settings on which an evaluation depends in
common. -/
structure Agrees (reliable : Reliable σ ν) (m m' : Machine σ) : Prop extends
    Alike reliable m m' where
  maxDepth : m'.maxDepth = m.maxDepth
  echo : m'.echo = m.echo

section Reliable

variable {reliable : Reliable σ ν} {m m' : Machine σ}

theorem Alike.writes (alike : Alike reliable m m') (passage : Passage) (octets : Bytes) :
    (m.write passage octets).1 = .done ∧ (m'.write passage octets).1 = .done ∧
      Alike reliable (m.write passage octets).2 (m'.write passage octets).2 := by
  rcases alike.write passage octets with impossible | ⟨-, written⟩
  · exact impossible.elim
  · exact ⟨reliable.write_done _ _ alike.intact, reliable.write_done _ _ alike.intact', written⟩

theorem finish_of_intact {outcome : Outcome} (calm : ∀ panic, outcome ≠ .panicked panic)
    (intact : reliable.intact m.output) : finish (outcome, m) = (outcome, m.flush.2) := by
  have flushed : m.flush.1 = .done := reliable.flush_done intact
  cases outcome with
  | done => simp [finish, flushed, Outcome.orElse]
  | failed failure => simp [finish, flushed, Outcome.orElse]
  | panicked panic => exact absurd rfl (calm panic)

theorem Alike.finish (alike : Alike reliable m m') {outcome : Outcome}
    (calm : ∀ panic, outcome ≠ .panicked panic) :
    (Machine.finish (outcome, m)).1 = outcome ∧ (Machine.finish (outcome, m')).1 = outcome ∧
      Alike reliable (Machine.finish (outcome, m)).2 (Machine.finish (outcome, m')).2 := by
  rw [finish_of_intact calm alike.intact, finish_of_intact calm alike.intact']
  exact ⟨rfl, rfl, (Alike.flush alike.intact).symm.trans (alike.trans (.flush alike.intact'))⟩

theorem Alike.echoStack (alike : Alike reliable m m') (echo : m'.echo = m.echo) :
    m.echoStack.1 = .done ∧ m'.echoStack.1 = .done ∧
      Alike reliable m.echoStack.2 m'.echoStack.2 := by
  unfold Machine.echoStack printStack
  rw [echo, alike.stack]
  split
  · exact alike.writes _ _
  · exact ⟨rfl, rfl, alike⟩

/-- What follows the tokens of a line goes alike, and without a panic. -/
theorem Alike.conclude (alike : Alike reliable m m') (echo : m'.echo = m.echo)
    (outcome : Outcome) :
    (Machine.conclude (outcome, m)).1 = outcome.recover (text "eval") ∧
      (Machine.conclude (outcome, m')).1 = outcome.recover (text "eval") ∧
      Alike reliable (Machine.conclude (outcome, m)).2 (Machine.conclude (outcome, m')).2 := by
  cases outcome with
  | done =>
    obtain ⟨done, done', echoed⟩ := alike.echoStack echo
    have finished := echoed.finish (Outcome.recover_ne_panicked .done (text "eval"))
    rcases first : m.echoStack with ⟨outcome, after⟩
    rcases second : m'.echoStack with ⟨outcome', after'⟩
    rw [first] at done finished
    rw [second] at done' finished
    cases done
    cases done'
    simpa [Machine.conclude, Outcome.recover, first, second] using finished
  | failed failure => exact alike.finish (Outcome.recover_ne_panicked _ _)
  | panicked panic => exact alike.finish (Outcome.recover_ne_panicked (.panicked panic) _)

/-- On an output that never fails, what follows the tokens of a line leaves their outcome
as it is, but for the recovery of a panic. -/
theorem conclude_of_intact (unfailing : Unfailing σ) {result : Outcome × Machine σ}
    (intact : unfailing.intact result.2.output) :
    (conclude result).1 = result.1.recover (text "eval") := by
  have alike : Alike unfailing.blind result.2 result.2 := .refl intact
  exact (alike.conclude rfl result.1).1

/-- Machines that agree give the same outcome, which is no panic, and agree again. -/
theorem Agrees.eval (agrees : Agrees reliable m m') (line : Bytes) :
    (m'.eval line).1 = (m.eval line).1 ∧ (∀ panic, (m.eval line).1 ≠ .panicked panic) ∧
      Agrees reliable (m.eval line).2 (m'.eval line).2 := by
  obtain ⟨outcome, first⟩ := evalLine_alike (.refl agrees.intact) rfl line
  obtain ⟨outcome', second⟩ := evalLine_alike agrees.toAlike agrees.maxDepth line
  have kept := SameSettings.eval line m
  have kept' := SameSettings.eval line m'
  have echo : (m'.evalLine line).2.echo = (m.evalLine line).2.echo := by
    rw [(SameSettings.framing.evalLine line m).echo, (SameSettings.framing.evalLine line m').echo,
      agrees.echo]
  obtain ⟨result, result', concluded⟩ :=
    (first.symm.trans second).conclude echo (m.evalTokens (tokenize line)).1
  have same : m.eval line = conclude ((m.evalTokens (tokenize line)).1, (m.evalLine line).2) := by
    rw [eval_eq_conclude, ← outcome]
  have same' : m'.eval line =
      conclude ((m.evalTokens (tokenize line)).1, (m'.evalLine line).2) := by
    rw [eval_eq_conclude, ← outcome']
  rw [← same] at result concluded
  rw [← same'] at result' concluded
  refine ⟨result'.trans result.symm, ?_, concluded, ?_, ?_⟩
  · rw [result]
    exact Outcome.recover_ne_panicked _ _
  · rw [kept.maxDepth, kept'.maxDepth, agrees.maxDepth]
  · rw [kept.echo, kept'.echo, agrees.echo]

theorem Agrees.trace_right (agrees : Agrees reliable m m') (mark message : Bytes) :
    Agrees reliable m (m'.trace mark message) :=
  ⟨agrees.toAlike.trace_right mark message, by simpa using agrees.maxDepth,
    by simpa using agrees.echo⟩

theorem Agrees.noteLine_right (agrees : Agrees reliable m m') (location : Option Location)
    (failure : Failure) : Agrees reliable m (m'.noteLine location failure) := by
  unfold noteLine
  split
  · exact ⟨⟨agrees.stack, agrees.words, agrees.constants, agrees.depth, agrees.intact,
      agrees.intact', agrees.view⟩, agrees.maxDepth, agrees.echo⟩
  · exact agrees

theorem Agrees.record_right (agrees : Agrees reliable m m') (events : List Event) :
    Agrees reliable m (m'.record events) :=
  ⟨⟨agrees.stack, agrees.words, agrees.constants, agrees.depth, agrees.intact, agrees.intact',
    agrees.view⟩, agrees.maxDepth, agrees.echo⟩

theorem Agrees.writes (agrees : Agrees reliable m m') (passage : Passage) (octets : Bytes) :
    (m'.write passage octets).1 = .done ∧
      Agrees reliable (m.write passage octets).2 (m'.write passage octets).2 :=
  have ⟨_, done, alike⟩ := agrees.toAlike.writes passage octets
  ⟨done, alike, agrees.maxDepth, agrees.echo⟩

theorem Agrees.flush_right (agrees : Agrees reliable m m') :
    m'.flush.1 = .done ∧ Agrees reliable m m'.flush.2 :=
  ⟨reliable.flush_done agrees.intact', agrees.toAlike.trans (.flush agrees.intact'),
    agrees.maxDepth, agrees.echo⟩

theorem Agrees.reportFailure (agrees : Agrees reliable m m') (location : Option Location)
    (failure : Failure) :
    ∃ next, m'.reportFailure location failure = (.done, next) ∧
      Agrees reliable
        (m.write .direct (text "Error: " ++ failure.message ++ [Bytes.newline])).2 next ∧
      Reports [lineReport location failure] m' next := by
  have noted := (agrees.trace_right (text "!") failure.detail).noteLine_right location failure
  have reports := (Reports.framing.trace m' (text "!") failure.detail).trans
    (.noteLine (m'.trace (text "!") failure.detail) location failure)
  obtain ⟨done, written⟩ :=
    noted.writes .direct (text "Error: " ++ failure.message ++ [Bytes.newline])
  obtain ⟨flushed, agreed⟩ := written.flush_right
  refine ⟨_, ?_, agreed, ?_⟩
  · unfold Machine.reportFailure
    dsimp only
    split
    next listed same =>
      rw [same] at flushed ⊢
      exact Prod.ext flushed rfl
    next other => exact (other _ (Prod.ext done rfl)).elim
  · exact (reports.trans (Reports.framing.write _ _ _)).trans (Reports.framing.flush _)

/-- A line of a run: it is evaluated, and its failure is shown and reported. -/
theorem Agrees.evalReporting (agrees : Agrees reliable m m') (entry : SourceLine) :
    ∃ next, m'.evalReporting entry.location entry.line = (.done, next) ∧
      Agrees reliable (m.evalShown entry.line) next ∧ Reports (m.failureReport entry) m' next := by
  obtain ⟨same, calm, evaluated⟩ := agrees.eval entry.line
  have reports := Reports.framing.eval entry.line m'
  unfold Machine.evalReporting evalShown failureReport
  generalize m.eval entry.line = reference at same calm evaluated ⊢
  generalize m'.eval entry.line = actual at same evaluated reports ⊢
  obtain ⟨outcome, after⟩ := reference
  obtain ⟨outcome', after'⟩ := actual
  dsimp only at same calm evaluated reports ⊢
  subst same
  cases outcome' with
  | panicked panic => exact absurd rfl (calm panic)
  | done => exact ⟨after', rfl, evaluated, reports⟩
  | failed failure =>
    obtain ⟨next, result, shown, noted⟩ := evaluated.reportFailure entry.location failure
    exact ⟨next, result, shown, reports.trans noted⟩

/-- A run over lines goes along with their evaluation one by one. -/
theorem Agrees.evaluates {entries : List SourceLine} {after : Machine σ}
    (agrees : Agrees reliable m m') (evaluates : m'.Evaluates entries after) :
    Agrees reliable (m.evalAll entries) after ∧ Reports (m.failureReports entries) m' after := by
  -- The machine of the run changes with every event, the other one with lines only.
  induction evaluates generalizing m with
  | nil m' => exact ⟨agrees, Reports.framing.refl m'⟩
  | note events _ inductionHypothesis =>
    obtain ⟨evaluated, reports⟩ := inductionHypothesis (agrees.record_right events)
    exact ⟨evaluated, (Reports.record _ events).trans reports⟩
  | @line entry rest m' next after stays result _ inductionHypothesis =>
    obtain ⟨found, same, shown, reports⟩ := agrees.evalReporting entry
    rw [result] at same
    cases same
    obtain ⟨evaluated, later⟩ := inductionHypothesis shown
    exact ⟨evaluated, reports.trans later⟩

theorem Agrees.farewell (agrees : Agrees reliable m m') :
    m'.farewell.1 = .done ∧
      Alike reliable (m.write .staged (text "Bye!" ++ [Bytes.newline])).2 m'.farewell.2 ∧
      Reports [] m' m'.farewell.2 := by
  obtain ⟨done, written⟩ := (agrees.trace_right (text ">") exitCommand).writes .staged
    (text "Bye!" ++ [Bytes.newline])
  have reports := (Reports.framing.trace m' (text ">") exitCommand).trans
    (Reports.framing.write _ .staged (text "Bye!" ++ [Bytes.newline]))
  have same : m'.farewell = (.done, ((m'.trace (text ">") exitCommand).write .staged
      (text "Bye!" ++ [Bytes.newline])).2.flush.2) := by
    rw [← finish_of_intact (by simp) written.intact', ← done]
    rfl
  rw [same]
  exact ⟨rfl, written.flush_right.2.toAlike, reports.trans (Reports.framing.flush _)⟩

end Reliable

end Machine

namespace Interpreter

open Machine (Alike Reports Agrees)

variable {σ ν : Type} [Output σ]

/-- What a run over `entries` comes to. It succeeds, and it leaves a machine like the
one that evaluates the lines one by one. It reports the lines that fail, and it leaves
the lines behind the one that ends it. -/
structure Replays (reliable : Reliable σ ν) (m : Machine σ) (entries : List SourceLine)
    (result : Outcome × Interpreter σ) : Prop where
  done : result.1 = .done
  alike : Alike reliable (m.replay entries) result.2.machine
  reports : Reports (m.failureReports (SourceLine.beforeExit entries)) m result.2.machine
  unread : result.2.lines = SourceLine.afterExit entries

section Plain

variable {reliable : Reliable σ ν} {interpreter after : Interpreter σ} {outcome : Outcome}
  {read : List SourceLine} {m left : Machine σ}

theorem replays_of_reads (plain : ∀ source ∈ after.sources, source.EndsPlainly)
    (intact : reliable.intact m.output) {stopped : Option Outcome}
    (reads : m.Reads read after.deliveries stopped left)
    (result : (outcome, after.machine) = left.endRun stopped) :
    Replays reliable m (read ++ after.lines) (outcome, after) := by
  have agrees : Agrees reliable m m := ⟨.refl intact, rfl, rfl⟩
  have delivered := deliveries_of_endsPlainly plain
  generalize after.deliveries = rest at reads delivered
  cases reads with
  | all evaluates =>
    have gone : after.lines = [] := by simpa using delivered
    obtain ⟨replayed, before, behind⟩ := Machine.replay_of_stay evaluates.exits_eq_false m
    obtain ⟨evaluated, reports⟩ := agrees.evaluates evaluates
    obtain ⟨flushed, agreed⟩ := evaluated.flush_right
    have flushes : (outcome, after.machine) = left.flush := result
    rw [gone, List.append_nil]
    rw [← flushes] at flushed agreed
    refine ⟨flushed, by rw [replayed]; exact agreed.toAlike, ?_, by rw [behind, gone]⟩
    have more := Reports.framing.flush left
    rw [← flushes] at more
    rw [before]
    simpa using reports.trans more
  | failure failure rest evaluates =>
    have member : .error failure ∈ after.lines.map (Except.ok : SourceLine → Delivery) := by
      simp [← delivered]
    simp at member
  | @exit front last entry rest evaluates exits =>
    obtain ⟨replayed, before, behind⟩ :=
      Machine.replay_of_exit evaluates.exits_eq_false m exits after.lines
    obtain ⟨evaluated, reports⟩ := agrees.evaluates evaluates
    obtain ⟨done, alike, silent⟩ := evaluated.farewell
    obtain ⟨ended, machine⟩ := Prod.mk.inj result
    rw [← ended] at done
    rw [← machine] at alike silent
    rw [List.append_assoc, List.singleton_append]
    refine ⟨done, by rw [replayed]; exact alike, ?_, behind.symm⟩
    rw [before]
    simpa using reports.trans silent
  | @line front last after' entry outcome' rest evaluates stays stopped other =>
    obtain ⟨next, done, -⟩ := (agrees.evaluates evaluates).1.evalReporting entry
    rw [stopped] at done
    cases done
    exact absurd rfl other

theorem run_replays (plain : ∀ source ∈ interpreter.sources, source.EndsPlainly)
    (steady : ∀ source ∈ interpreter.sources, source.Uninterrupting)
    (intact : reliable.intact interpreter.machine.output) :
    Replays reliable interpreter.machine interpreter.lines (interpreter.run .silent) ∧
      (∀ source ∈ (interpreter.run .silent).2.sources, source.EndsPlainly) ∧
      ∀ source ∈ (interpreter.run .silent).2.sources, source.Uninterrupting := by
  have unambiguous := fun source membership => (plain source membership).unambiguous
  obtain ⟨read, stopped, left, progress, result⟩ := run_progress unambiguous steady rfl
  obtain ⟨lines, still⟩ := lines_of_front plain progress.front
  rw [lines]
  exact ⟨replays_of_reads still intact progress.reads result, still, progress.steady⟩

end Plain

/-- On an output that never fails, and if no source reports anything but the end of the
input or interrupts the run, a run is the evaluation of all lines one by one, up to a
line that ends it, and the run after it goes on with exactly the lines behind. By
`Recorded.reliable`, this holds for every output that never fails and all the octets
that were written to it. -/
theorem run_line_by_line (reliable : Reliable σ ν) (interpreter : Interpreter σ)
    (plain : ∀ source ∈ interpreter.sources, source.EndsPlainly)
    (steady : ∀ source ∈ interpreter.sources, source.Uninterrupting)
    (intact : reliable.intact interpreter.machine.output) :
    Replays reliable interpreter.machine interpreter.lines (interpreter.run .silent) ∧
      Replays reliable (interpreter.run .silent).2.machine (SourceLine.afterExit interpreter.lines)
        ((interpreter.run .silent).2.run .silent) := by
  obtain ⟨first, still, unbroken⟩ := run_replays plain steady intact
  obtain ⟨second, -, -⟩ := run_replays still unbroken first.alike.intact'
  rw [first.unread] at second
  exact ⟨first, second⟩

/-- Two readers and a list. The first reader lacks its last newline, and one line of the
second one ends the run. -/
def threeInputs : Interpreter Console :=
  ⟨{ Machine.initial Machine.twoDevices with reportsLines := true },
    [.feed (Feed.ofQueue
      [⟨text "a", text "1 2\ndrop drop drop", 3, .failure .endOfInput, .closes none⟩,
        ⟨text "b", text "7 .\r\n exit \n8", 0, .failure .endOfInput, .never⟩]),
      .list ⟨text "c", [text "."], 0, .endOfInput, false, 0, none, 0⟩]⟩

theorem run_line_by_line_threeInputs :
    (threeInputs.run .silent).1 = .done ∧
      Console.reliable.view (threeInputs.run .silent).2.machine.output =
        [text "Error: empty stack: argument for drop\n> [7]\nBye!\n",
          text "Error: empty stack: argument for drop\n> [7]\nBye!\n"] ∧
      (threeInputs.run .silent).2.machine.journal.lineErrors =
        [text "a:2: empty stack: argument for drop"] ∧
      (threeInputs.run .silent).2.lines = [⟨some ⟨text "b", 3⟩, text "8"⟩, ⟨none, text "."⟩] ∧
      ((threeInputs.run .silent).2.run .silent).1 = .done ∧
      ((threeInputs.run .silent).2.run .silent).2.lines = [] := by
  have plain : ∀ source ∈ threeInputs.sources, source.EndsPlainly := by
    simp [threeInputs, Source.EndsPlainly, Source.endings, Feed.unclosed, Feed.ofQueue,
      StreamEnding.report]
  have steady : ∀ source ∈ threeInputs.sources, source.Uninterrupting := by
    simp [threeInputs, Source.Uninterrupting]
  have intact : Console.reliable.intact threeInputs.machine.output :=
    Machine.twoDevices_dependable
  obtain ⟨first, second⟩ := run_line_by_line Console.reliable threeInputs plain steady intact
  refine ⟨first.done, first.alike.view.trans (by decide +kernel),
    first.reports.lineErrors.trans (by decide +kernel), first.unread.trans (by decide +kernel),
    second.done, second.unread.trans (by decide +kernel)⟩

end Interpreter

end LineForth
