import LineForth.Proofs.Moments
import LineForth.Proofs.Operators
import LineForth.Proofs.Output.Reliable
import LineForth.Proofs.Output.Traffic

/-!
# Refused calls and their failures

A call that the limit refuses ends in a failure of its own kind. No other
instruction reports this failure, neither does a program that is not finished, and
on its way to the end of the line it is not turned into anything else. So a line
that reports it has come to the moment of the refused call, unless its output
reports such a failure itself.
-/

set_option autoImplicit false

namespace LineForth

variable {callee : Bytes} {depth : Nat}

namespace Outcome

/-- The failure is what the outcome reports or raises, or it stands behind that. -/
def Reports (failure : Failure) : Outcome → Prop
  | done => False
  | failed reported => failure ∈ reported.chain
  | panicked (.value _) => False
  | panicked (.failure cause) => failure ∈ cause.chain

theorem Reports.blame {failure : Failure} {outcome : Outcome} (reports : outcome.Reports failure)
    (word : Bytes) : (outcome.blame word).Reports failure := by
  cases outcome with
  | done => exact reports
  | panicked panic => exact reports
  | failed reported =>
    simp only [Outcome.blame, Failure.blame]
    split
    · exact reports
    · exact List.mem_cons_of_mem _ reports

theorem Reports.recover {failure : Failure} {outcome : Outcome} (reports : outcome.Reports failure)
    (name : Bytes) : (outcome.recover name).Reports failure := by
  cases outcome with
  | done => exact reports
  | failed reported => exact reports
  | panicked panic =>
    cases panic with
    | value shown => exact absurd reports id
    | failure cause => exact List.mem_cons_of_mem _ reports

theorem reports_of_blame {outcome : Outcome} {word : Bytes}
    (reports : (outcome.blame word).Reports (.recursionLimit callee depth)) :
    outcome.Reports (.recursionLimit callee depth) := by
  cases outcome with
  | done => exact reports
  | panicked panic => exact reports
  | failed failure =>
    simp only [blame, Failure.blame] at reports
    split at reports
    · exact reports
    · rcases List.mem_cons.mp reports with same | behind
      · cases same
      · exact behind

theorem reports_of_recover {outcome : Outcome} {name : Bytes}
    (reports : (outcome.recover name).Reports (.recursionLimit callee depth)) :
    outcome.Reports (.recursionLimit callee depth) := by
  cases outcome with
  | done => exact reports
  | failed failure => exact reports
  | panicked panic =>
    cases panic with
    | value shown => cases List.mem_singleton.mp reports
    | failure cause =>
      rcases List.mem_cons.mp reports with same | behind
      · cases same
      · exact behind

theorem reports_of_orElse {earlier later : Outcome} {failure : Failure}
    (reports : (earlier.orElse later).Reports failure) :
    earlier.Reports failure ∨ later.Reports failure := by
  unfold orElse at reports
  split at reports
  · exact .inr reports
  · exact .inr reports
  · exact .inl reports

end Outcome

namespace Output

variable {σ : Type} [Output σ]

/-- After some writes and flushes, a write or a flush reports the failure. -/
def MayReport (output : σ) (failure : Failure) : Prop :=
  ∃ later, Relation.ReflTransGen Next output later ∧
    ((∃ passage octets, (Output.write passage octets later).1.outcome.Reports failure) ∨
      (Output.flush later).1.outcome.Reports failure)

variable {output later : σ} {failure : Failure}

theorem MayReport.of_later (reports : MayReport later failure)
    (path : Relation.ReflTransGen Next output later) : MayReport output failure := by
  obtain ⟨last, further, reported⟩ := reports
  exact ⟨last, path.trans further, reported⟩

/-- An output that never fails reports nothing. -/
theorem not_mayReport (unfailing : Unfailing σ) (intact : unfailing.intact output) :
    ¬ MayReport output failure := by
  rintro ⟨later, path, reports⟩
  have stillIntact : unfailing.intact later := by
    clear reports
    induction path with
    | refl => exact intact
    | tail _ next inductionHypothesis =>
      cases next with
      | write passage octets => exact unfailing.write_intact passage octets inductionHypothesis
      | flush => exact unfailing.flush_intact inductionHypothesis
  rcases reports with ⟨passage, octets, written⟩ | flushed
  · rw [unfailing.write_done passage octets stillIntact] at written
    exact written
  · rw [unfailing.flush_done stillIntact] at flushed
    exact flushed

end Output

namespace Pending

theorem eq_invalidWordName_of_feed {state : Pending} {token : Token} {failure : Failure}
    (read : state.feed token = .invalid failure) : ∃ name, failure = .invalidWordName name := by
  cases state with
  | definition =>
    simp only [feed] at read
    repeat' split at read
    all_goals cases read
    exact ⟨token, rfl⟩
  | idle =>
    simp only [feed, start] at read
    repeat' split at read
    all_goals cases read
  | body name reversed =>
    simp only [feed] at read
    repeat' split at read
    all_goals cases read
  | constantName =>
    simp only [feed] at read
    split at read
    all_goals cases read
  | string reversed =>
    simp only [feed] at read
    split at read
    all_goals cases read

end Pending

namespace Program

theorem not_reports_ending (state : Pending) (tokens : List Token) :
    ¬ (readFrom state tokens).ending.Reports (.recursionLimit callee depth) := by
  induction tokens generalizing state with
  | nil => cases state <;> simp [readFrom, Pending.ending, Outcome.Reports, Failure.chain]
  | cons token rest inductionHypothesis =>
    simp only [readFrom]
    cases reading : state.feed token with
    | pending next => exact inductionHypothesis next
    | complete instruction => exact inductionHypothesis .idle
    | invalid failure =>
      obtain ⟨name, rfl⟩ := Pending.eq_invalidWordName_of_feed reading
      simp [Outcome.Reports, Failure.chain]

end Program

namespace Machine

variable {σ : Type} [Output σ]

/-- An instruction reports a refused call only if it is a call, or if the output
reports one. -/
theorem perform_reports {call : Call σ} {instruction : Instruction} {m : Machine σ}
    (reports : (m.perform call instruction).1.Reports (.recursionLimit callee depth)) :
    (∃ word body, instruction = .refer word ∧ m.words.lookup? word = some body ∧
      (call word body m).1.Reports (.recursionLimit callee depth)) ∨
    Output.MayReport m.output (.recursionLimit callee depth) := by
  cases instruction with
  | define name body => exact absurd reports id
  | print => exact .inr ⟨_, .refl, .inl ⟨_, _, reports⟩⟩
  | words => exact .inr ⟨_, .refl, .inl ⟨_, _, reports⟩⟩
  | say line => exact .inr ⟨_, .refl, .inl ⟨_, _, reports⟩⟩
  | constant name =>
    simp only [perform, bindConstant] at reports
    split at reports
    next => exact absurd reports id
    next failure rest popped =>
      rcases (Operation.Moves.pop _).fails popped with ⟨operand, rfl⟩ | rfl
      all_goals simp [Outcome.Reports, Failure.chain] at reports
  | refer word =>
    simp only [perform, refer] at reports
    split at reports
    next body meaning => exact .inl ⟨word, body, rfl, meaning_eq_word_iff.mp meaning, reports⟩
    next operator _ =>
      simp only [operate, Builtin.apply] at reports
      split at reports
      next => exact absurd reports id
      next failure after failed =>
        rcases Builtin.run_fails failed with ⟨operand, rfl⟩ | rfl
        all_goals simp [Outcome.Reports, Failure.chain] at reports
    next => exact absurd reports id
    next => exact absurd reports id
    next => simp [Outcome.Reports, Failure.chain] at reports

end Machine

namespace Moment

variable {σ : Type} [Output σ]

/-- From this moment on, a call is refused while so many calls are active. -/
def ComesToRefuse (moment : Moment σ) (callee : Token) (depth : Nat) : Prop :=
  ∃ later, Relation.ReflTransGen Next moment later ∧ later.levels = 0 ∧ later.Calls callee ∧
    later.machine.depth = depth

theorem Next.comesToRefuse {moment later : Moment σ} (next : Next moment later)
    (refuses : later.ComesToRefuse callee depth) : moment.ComesToRefuse callee depth := by
  obtain ⟨last, path, refused⟩ := refuses
  exact ⟨last, .head next path, refused⟩

section Program

variable {active : List Token} {levels : Nat} {instructions : List Instruction}
  {ending : Outcome} {m : Machine σ}

theorem comesToRefuse_of_calls
    (calls : ∀ {word body rest} {m : Machine σ}, m.words.lookup? word = some body →
      (Machine.call levels word body m).1.Reports (.recursionLimit callee depth) →
      ComesToRefuse ⟨active, levels, ⟨.refer word :: rest, ending⟩, m⟩ callee depth ∨
        Output.MayReport m.output (.recursionLimit callee depth))
    (finished : ¬ ending.Reports (.recursionLimit callee depth))
    (reports : (result ⟨active, levels, ⟨instructions, ending⟩, m⟩).1.Reports
      (.recursionLimit callee depth)) :
    ComesToRefuse ⟨active, levels, ⟨instructions, ending⟩, m⟩ callee depth ∨
      Output.MayReport m.output (.recursionLimit callee depth) := by
  induction instructions generalizing m with
  | nil => exact absurd reports finished
  | cons instruction rest inductionHypothesis =>
    simp only [result] at reports
    by_cases done : (m.perform (Machine.call levels) instruction).1 = .done
    · rw [Machine.performAll_cons_of_done done] at reports
      have path := Machine.perform_output (Machine.call_output levels) instruction m
      rcases inductionHypothesis (m := Machine.traceRule _ _ _) reports with refuses | output
      · exact .inl ((Next.past done).comesToRefuse refuses)
      · rw [Machine.traceRule, Machine.trace_output] at output
        exact .inr (output.of_later path)
    · rw [Machine.performAll_cons_of_ne_done done] at reports
      rcases Machine.perform_reports reports with ⟨word, body, rfl, defined, called⟩ | output
      · exact calls defined called
      · exact .inr output

/-- A refused call that a program reports was refused at some moment of it, unless
the output reports such a failure. -/
theorem comesToRefuse_of_reports
    (finished : ¬ ending.Reports (.recursionLimit callee depth))
    (reports : (result ⟨active, levels, ⟨instructions, ending⟩, m⟩).1.Reports
      (.recursionLimit callee depth)) :
    ComesToRefuse ⟨active, levels, ⟨instructions, ending⟩, m⟩ callee depth ∨
      Output.MayReport m.output (.recursionLimit callee depth) := by
  induction levels generalizing active instructions ending m with
  | zero =>
    refine comesToRefuse_of_calls ?_ finished reports
    intro word body rest m defined called
    -- Without a level left, the call itself is the one that is refused.
    have same : Failure.recursionLimit callee depth = .recursionLimit word m.depth :=
      List.mem_singleton.mp called
    cases same
    exact .inl ⟨_, .refl, rfl, ⟨body, rest, rfl, defined⟩, rfl⟩
  | succ levels inductionHypothesis =>
    refine comesToRefuse_of_calls ?_ finished reports
    intro word body rest m defined called
    have inside : ComesToRefuse ⟨word :: active, levels, Program.ofTokens body, m.enter⟩ callee
        depth ∨ Output.MayReport m.output (.recursionLimit callee depth) :=
      inductionHypothesis (Program.not_reports_ending .idle body)
        (Outcome.reports_of_blame called)
    exact inside.imp (Next.into defined).comesToRefuse id

end Program

end Moment

namespace Machine

variable {σ : Type} [Output σ]

theorem finish_reports {result : Outcome × Machine σ} {failure : Failure}
    (reports : (finish result).1.Reports failure) :
    result.1.Reports failure ∨ Output.MayReport result.2.output failure := by
  rcases result with ⟨outcome, m⟩
  cases outcome with
  | panicked panic => exact .inl reports
  | done | failed _ =>
    rcases Outcome.reports_of_orElse reports with earlier | flushed
    · exact .inl earlier
    · exact .inr ⟨m.output, .refl, .inr flushed⟩

theorem conclude_reports {result : Outcome × Machine σ}
    (reports : (conclude result).1.Reports (.recursionLimit callee depth)) :
    result.1.Reports (.recursionLimit callee depth) ∨
      Output.MayReport result.2.output (.recursionLimit callee depth) := by
  unfold conclude at reports
  split at reports
  next =>
    by_cases echo : result.2.echo
    · simp only [echoStack, echo, if_true] at reports
      rcases finish_reports reports with echoed | output
      · exact .inr ⟨_, .refl, .inl ⟨_, _, echoed⟩⟩
      · exact .inr (output.of_later (.single (.write _ _ _)))
    · simp only [echoStack, echo] at reports
      rcases finish_reports reports with done | output
      · exact absurd done id
      · exact .inr output
  next => exact (finish_reports reports).imp Outcome.reports_of_recover id

/-- A line reports a refused call only if a call was refused while it was evaluated,
or if its output reports such a failure. -/
theorem exists_passes_of_reports {m : Machine σ} {line : Bytes}
    (reports : (m.eval line).1.Reports (.recursionLimit callee depth)) :
    (∃ moment, m.Passes line moment ∧ moment.levels = 0 ∧ moment.Calls callee ∧
      moment.machine.depth = depth) ∨
    Output.MayReport m.output (.recursionLimit callee depth) := by
  rcases conclude_reports reports with tokens | output
  · have same : (Moment.start line m).machine.output = m.output := trace_output _ _ _
    have refuses : (Moment.start line m).ComesToRefuse callee depth ∨
        Output.MayReport (Moment.start line m).machine.output (.recursionLimit callee depth) :=
      Moment.comesToRefuse_of_reports (Program.not_reports_ending .idle _) tokens
    rw [same] at refuses
    exact refuses
  · exact .inr (output.of_later (evalLine_output line m))

end Machine

end LineForth
