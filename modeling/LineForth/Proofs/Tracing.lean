import LineForth.Proofs.Reachable
import LineForth.Proofs.Sessions
import LineForth.Proofs.TraceAccount
import LineForth.Proofs.Turns
import LineForth.Proofs.Untraced

/-!
# Traced sessions

A line notes its text, and then the account of its tokens. A run notes its lines one after
the other, and the failure behind each line that fails. All other steps of a session note
nothing. What a step has noted is what its report shows as trace, each note behind two
spaces for each call that was active; and with or without the trace, the session is the same.
-/

set_option autoImplicit false

namespace LineForth

namespace Machine

variable {σ : Type} [Output σ] {active : List Token} {m : Machine σ}

theorem Logs.finish (result : Outcome × Machine σ) (aligned : Aligned active result.2) :
    Logs active [] result.2 (finish result).2 := by
  rcases result with ⟨outcome, m⟩
  cases outcome with
  | done => exact .flush aligned
  | failed failure => exact .flush aligned
  | panicked panic => exact .refl aligned

theorem Logs.conclude (result : Outcome × Machine σ) (aligned : Aligned active result.2) :
    Logs active [] result.2 (conclude result).2 := by
  rcases result with ⟨outcome, m⟩
  cases outcome with
  | done =>
    have echoed : Logs active [] m m.echoStack.2 := by
      unfold echoStack
      split
      · exact .write aligned _ _
      · exact .refl aligned
    exact echoed.trans (.finish _ echoed.aligned)
  | failed failure => exact .finish (.failed failure, m) aligned
  | panicked panic => exact .finish (.failed (panic.recover (text "eval")), m) aligned

section Line

variable (line : Bytes) (m)

/-- What a line notes. -/
def evalNotes : List Note :=
  let traced := m.trace (text ">") (text "eval " ++ line.quote)
  ⟨[], .input, text "eval " ++ line.quote⟩ ::
    Attempt.notesAll [] (traced.recount (tokenize line)).attempts

/-- What a line notes in a run, its failure included. -/
def reportNotes : List Note :=
  m.evalNotes line ++
    match (m.eval line).1 with
    | .failed failure => [⟨[], .failure, failure.detail⟩]
    | _ => []

variable {m}

theorem Logs.eval (aligned : Aligned [] m) : Logs [] (m.evalNotes line) m (m.eval line).2 := by
  have noted := Logs.trace aligned .input (text "eval " ++ line.quote)
  have told := tells_recount (tokenize line) noted.aligned.depth
  have same : (Machine.recount (tokenize line)
      (m.trace (text ">") (text "eval " ++ line.quote))).machine = (m.evalLine line).2 :=
    congrArg Prod.snd (told.result.trans (result_transcript _ _))
  have logs := told.logs noted.aligned
  have evaluated := noted.trans logs
  have concluded := Logs.conclude (m.evalLine line) (same ▸ evaluated.aligned)
  rw [← same] at concluded
  have whole := evaluated.trans concluded
  rw [List.append_nil] at whole
  exact whole

end Line

theorem Logs.farewell (aligned : Aligned [] m) :
    Logs [] [⟨[], .input, exitCommand⟩] m m.farewell.2 := by
  have noted := Logs.trace aligned .input exitCommand
  have written := noted.trans (.write noted.aligned .staged (text "Bye!" ++ [Bytes.newline]))
  exact written.trans (.finish _ written.aligned)

omit [Output σ] in
theorem Logs.noteLine (aligned : Aligned active m) (location : Option Location)
    (failure : Failure) : Logs active [] m (m.noteLine location failure) := by
  unfold Machine.noteLine
  split
  · refine .of_same aligned rfl rfl ?_
    simp [Journal.traceLines]
  · exact .refl aligned

theorem Logs.reportFailure (aligned : Aligned [] m) (location : Option Location)
    (failure : Failure) :
    Logs [] [⟨[], .failure, failure.detail⟩] m (m.reportFailure location failure).2 := by
  have traced := Logs.trace aligned .failure failure.detail
  have noted := traced.trans (.noteLine traced.aligned location failure)
  have written : Logs [] [⟨[], .failure, failure.detail⟩] m
      (((m.trace (text "!") failure.detail).noteLine location failure).write .direct
        (text "Error: " ++ failure.message ++ [Bytes.newline])).2 :=
    noted.trans (.write noted.aligned _ _)
  unfold Machine.reportFailure
  dsimp only
  generalize ((m.trace (text "!") failure.detail).noteLine location failure).write _ _ = result
    at written ⊢
  rcases result with ⟨outcome, after⟩
  cases outcome with
  | done => exact written.trans (.flush written.aligned)
  | failed failure => exact written
  | panicked panic => exact written

theorem Logs.evalReporting (aligned : Aligned [] m) (location : Option Location) (line : Bytes) :
    Logs [] (m.reportNotes line) m (m.evalReporting location line).2 := by
  have evaluated := Logs.eval line aligned
  unfold Machine.evalReporting reportNotes
  generalize m.eval line = result at evaluated ⊢
  rcases result with ⟨outcome, after⟩
  cases outcome with
  | failed failure => exact evaluated.trans (.reportFailure evaluated.aligned location failure)
  | done => exact evaluated.trans (.refl evaluated.aligned)
  | panicked panic => exact evaluated.trans (.refl evaluated.aligned)

end Machine

namespace Turn

open Machine (Aligned Logs)

variable {σ : Type} [Output σ] {turn later : Turn σ}

/-- What a turn of a run notes. -/
def notes (turn : Turn σ) : List Note :=
  match turn.interrupt, turn.sources with
  | none, source :: _ =>
    match source.readLine with
    | (.ok line, events, _) =>
      if line.trim = Machine.exitCommand then [⟨[], .input, Machine.exitCommand⟩]
      else (turn.machine.record events).reportNotes line
    | (.error _, _, _) => []
  | _, _ => []

theorem Next.logs (next : Next turn later) (aligned : Aligned [] turn.machine) :
    Logs [] turn.notes turn.machine later.machine := by
  cases next with
  | @line source after line events passed rest m evaluated received stays done =>
    have recorded := Logs.record aligned events
    have reported := recorded.trans (.evalReporting recorded.aligned after.location? line)
    rw [done] at reported
    simpa only [notes, received, if_neg stays, List.nil_append] using reported
  | @source source after failure events passed rest m received ended =>
    simpa only [notes, received] using Logs.record aligned events

theorem Ends.logs {result : Outcome × Interpreter σ} (ends : Ends turn result)
    (aligned : Aligned [] turn.machine) : Logs [] turn.notes turn.machine result.2.machine := by
  cases ends with
  | all interrupt passed m =>
    cases interrupt with
    | none => exact .flush aligned
    | some failure => exact .flush aligned
  | interrupted failure passed source rest m => exact .refl aligned
  | @failure source after failure events passed rest m received other =>
    simpa only [notes, received] using Logs.record aligned events
  | @exit source after line events passed rest m received exits =>
    have recorded := Logs.record aligned events
    have said := recorded.trans (.farewell recorded.aligned)
    simpa only [notes, received, if_pos exits, List.nil_append] using said
  | @line source after line events outcome passed rest m evaluated received stays stopped other =>
    have recorded := Logs.record aligned events
    have reported := recorded.trans (.evalReporting recorded.aligned after.location? line)
    rw [stopped] at reported
    simpa only [notes, received, if_neg stays, List.nil_append] using reported

theorem RunsThrough.logs {context : Context} {number : Nat} {turns : List (Turn σ)}
    {result : Outcome × Interpreter σ} (runs : RunsThrough context number turn turns result)
    (aligned : Aligned [] turn.machine) :
    Logs [] (turns.flatMap notes) turn.machine result.2.machine := by
  induction runs with
  | last ends =>
    rw [List.flatMap_singleton]
    exact ends.logs aligned
  | next next further inductionHypothesis =>
    have logs := next.logs aligned
    rw [List.flatMap_cons]
    exact logs.trans (inductionHypothesis logs.aligned)

end Turn

namespace Session

open Machine (Aligned Logs)

/-- What a step of a session notes. -/
inductive Chronicle (state : State) : Step → List Note → Prop
  | eval (line : Bytes) : Chronicle state (.eval line) (state.machine.evalNotes line)
  /-- The turns of the run, one after the other. -/
  | run {interrupt : Option Failure} {later : Context} {turns : List (Turn Console)}
      {result : Outcome × State}
      (runs : state.RunsThrough (.answering interrupt later) turns result) :
      Chronicle state (.run interrupt later) (turns.flatMap Turn.notes)
  /-- Only lines note anything. -/
  | silent {next : Step} (eval : ∀ line, next ≠ .eval line)
      (run : ∀ interrupt later, next ≠ .run interrupt later) : Chronicle state next []

/-- The machine is between two steps. -/
structure Ready (m : Machine Console) : Prop where
  aligned : Aligned [] m
  lines : m.journal.traceLines = []

theorem keptBySettings_ready : Interpreter.KeptBySettings Ready where
  flush ready := by
    have flushed := Logs.flush ready.aligned
    refine ⟨flushed.aligned, ?_⟩
    rw [flushed.lines, ready.lines]
    split <;> rfl
  output _ ready := ⟨ready.aligned.of_same rfl rfl, ready.lines⟩
  limit _ _ ready := ⟨ready.aligned.of_same rfl rfl, ready.lines⟩
  echo _ ready := ⟨ready.aligned.of_same rfl rfl, ready.lines⟩
  traced ready := ⟨⟨ready.aligned.depth, fun _ => rfl, ready.aligned.markWidth⟩, ready.lines⟩
  lineErrors ready := ⟨ready.aligned.of_same rfl rfl, ready.lines⟩

/-- The trace shows these notes, if anyone listens. -/
structure Shows (notes : List Note) (m : Machine Console) : Prop where
  aligned : Aligned [] m
  lines : m.journal.traceLines = if m.tracer.active then notes.map Note.line else []

theorem Ready.shows {before after : Machine Console} {notes : List Note} (ready : Ready before)
    (logs : Logs [] notes before after) : Shows notes after := by
  refine ⟨logs.aligned, ?_⟩
  rw [logs.lines, ready.lines, logs.listening, List.nil_append]

variable {state : State}

theorem logs_close (aligned : Aligned [] state.machine) :
    Logs [] [] state.machine state.close.2.machine := by
  have flushed := Logs.flush aligned
  unfold Interpreter.close
  split
  next panic m ended =>
    rw [ended] at flushed
    exact flushed
  next outcome m _ ended =>
    rw [ended] at flushed
    exact flushed.trans (.record flushed.aligned _)

theorem exists_chronicle (ready : Ready state.machine) (next : Step) :
    ∃ notes, Chronicle state next notes ∧ Shows notes (perform next state).2.machine := by
  cases next with
  | eval line => exact ⟨_, .eval line, ready.shows (.eval line ready.aligned)⟩
  | run interrupt later =>
    obtain ⟨turns, runs⟩ := state.exists_runsThrough (.answering interrupt later)
    exact ⟨_, .run runs, ready.shows (Turn.RunsThrough.logs runs ready.aligned)⟩
  | configure settings =>
    have settled := keptBySettings_ready.configure settings ready
    refine ⟨[], .silent (by simp) (by simp), settled.aligned, ?_⟩
    rw [List.map_nil, ite_self]
    exact settled.lines
  | close => exact ⟨[], .silent (by simp) (by simp), ready.shows (logs_close ready.aligned)⟩
  | push | word | constant | state | dump =>
    exact ⟨[], .silent (by simp) (by simp), ready.shows (.of_same ready.aligned rfl rfl rfl)⟩

theorem Ready.step (ready : Ready state.machine) (next : Step) :
    Ready (step next state).2.machine := by
  obtain ⟨_, -, shows⟩ := exists_chronicle ready next
  exact ⟨shows.aligned.of_same rfl rfl, rfl⟩

theorem ready_after (settings : SettingTree) (script : List Step) :
    Ready (after script (start settings)).machine := by
  have started : Ready (start settings).machine := by
    apply keptBySettings_ready.configure settings
    exact ⟨⟨rfl, fun _ => rfl, Nat.zero_le 1⟩, rfl⟩
  generalize start settings = state at started
  induction script generalizing state with
  | nil => exact started
  | cons next rest inductionHypothesis => exact inductionHypothesis _ (started.step next)

theorem untraced_after (settings : SettingTree) (script : List Step) :
    after (script.map Step.untraced) (start settings.untraced) =
      (after script (start settings)).untraced := by
  rw [untraced_start]
  generalize start settings = state
  induction script generalizing state with
  | nil => rfl
  | cons next rest inductionHypothesis =>
    have stepped := congrArg Prod.snd (untraced_step next state)
    simp only [after, List.map_cons, List.foldl_cons] at inductionHypothesis ⊢
    rw [stepped]
    exact inductionHypothesis _

/-- Tracing only observes. With and without it, a session makes the same reports, the trace
lines apart, and it comes to the same states. The trace lines of a step are its notes: each
starts with two spaces for each active call, and then comes its mark. Among them are those of
the account of each line, in which every token that is offered, not blank and successful
has one line, behind the lines of its call and with the stack at that point; the account has
the result of the evaluation and the tokens that are offered to it. -/
theorem tracing_only_observes (settings : SettingTree) (script : List Step) :
    run settings.untraced (script.map Step.untraced) =
        (run settings script).map Report.untraced ∧
      after (script.map Step.untraced) (start settings.untraced) =
        (after script (start settings)).untraced ∧
      (∀ next, ∃ notes, Chronicle (after script (start settings)) next notes ∧
        (step next (after script (start settings))).1.traceLines =
          if (step next (after script (start settings))).2.machine.tracer.active then
            some (notes.map Note.line)
          else none) ∧
      ∀ (m : Machine Console) (tokens : List Token), m.depth = 0 →
        (m.recount tokens).result = m.evalTokens tokens ∧
        Attempt.offersAll 0 (m.recount tokens).attempts =
          Offer.nonblank (m.transcript tokens).offers := by
  refine ⟨untraced_run settings script, untraced_after settings script, ?_, ?_⟩
  · intro next
    obtain ⟨notes, chronicle, shows⟩ := exists_chronicle (ready_after settings script) next
    refine ⟨notes, chronicle, ?_⟩
    unfold step
    dsimp only
    rw [shows.lines]
    split <;> rfl
  · intro m tokens idle
    have told := Machine.tells_recount tokens idle
    exact ⟨told.result.trans (Machine.result_transcript tokens m), told.offers⟩

/-- A word that is about to be called in a traced session. -/
def doubling : List Step := [.word (text "two") [text "2", text "dup"]]

theorem tracing_only_observes_doubling :
    (run (.one .trace) (doubling ++ [.eval (text "two drop")])).map Report.untraced =
        run .nothing (doubling ++ [.eval (text "two drop")]) ∧
      (∃ notes, Chronicle (after doubling (start (.one .trace))) (.eval (text "two drop")) notes ∧
        notes.map Note.line =
          [text "> eval \"two drop\"", text "  # literal \"2\" -- [2]",
            text "  # builtin \"dup\" -- [2, 2]", text "# call \"two\" -- [2, 2]",
            text "# builtin \"drop\" -- [2]"]) ∧
      (after doubling (start (.one .trace))).machine.depth = 0 ∧
      Attempt.offersAll 0 ((after doubling (start (.one .trace))).machine.recount
          [text "two", [], text "drop"]).attempts =
        [⟨text "two", 0⟩, ⟨text "2", 1⟩, ⟨text "dup", 1⟩, ⟨text "drop", 0⟩] := by
  obtain ⟨same, -, -, -⟩ :=
    tracing_only_observes (.one .trace) (doubling ++ [.eval (text "two drop")])
  obtain ⟨-, -, noted, accounts⟩ := tracing_only_observes (.one .trace) doubling
  obtain ⟨notes, chronicle, shown⟩ := noted (.eval (text "two drop"))
  have lines : (step (.eval (text "two drop"))
      (after doubling (start (.one .trace)))).1.traceLines =
        some [text "> eval \"two drop\"", text "  # literal \"2\" -- [2]",
          text "  # builtin \"dup\" -- [2, 2]", text "# call \"two\" -- [2, 2]",
          text "# builtin \"drop\" -- [2]"] := by decide +kernel
  have listening : (step (.eval (text "two drop"))
      (after doubling (start (.one .trace)))).2.machine.tracer.active = true := by decide +kernel
  rw [lines, if_pos listening, Option.some.injEq] at shown
  have idle : (after doubling (start (.one .trace))).machine.depth = 0 := by decide +kernel
  obtain ⟨-, offers⟩ := accounts _ [text "two", [], text "drop"] idle
  have offered : Offer.nonblank ((after doubling (start (.one .trace))).machine.transcript
        [text "two", [], text "drop"]).offers =
      [⟨text "two", 0⟩, ⟨text "2", 1⟩, ⟨text "dup", 1⟩, ⟨text "drop", 0⟩] := by decide +kernel
  exact ⟨same.symm, ⟨notes, chronicle, shown.symm⟩, idle, offers.trans offered⟩

end Session

end LineForth
