import LineForth.Evaluation

/-!
# What evaluation leaves alone

Tracing changes the trace only, and writing changes the output only. Whatever an
evaluation does, it keeps the settings of the machine, it restores the number of
active calls and the margins of the trace, and it reports no failed line. Such
statements are proved for the single steps and carried over whole lines by `Framing` and
`LineFraming`.
-/

set_option autoImplicit false

namespace LineForth

namespace Machine

variable {σ : Type}

section Trace

theorem trace_eq (m : Machine σ) (mark message : Bytes) :
    m.trace mark message =
      { m with
        tracer := (m.tracer.log mark message).2
        journal := ((m.tracer.log mark message).1.map Entry.trace).toList ++ m.journal } := by
  unfold trace
  rcases m.tracer.log mark message with ⟨none | line, tracer⟩ <;> rfl

variable (m : Machine σ) (mark message : Bytes)

@[simp] theorem trace_stack : (m.trace mark message).stack = m.stack := by rw [trace_eq]

@[simp] theorem trace_words : (m.trace mark message).words = m.words := by rw [trace_eq]

@[simp] theorem trace_constants : (m.trace mark message).constants = m.constants := by
  rw [trace_eq]

@[simp] theorem trace_depth : (m.trace mark message).depth = m.depth := by rw [trace_eq]

@[simp] theorem trace_maxDepth : (m.trace mark message).maxDepth = m.maxDepth := by
  rw [trace_eq]

@[simp] theorem trace_echo : (m.trace mark message).echo = m.echo := by rw [trace_eq]

@[simp] theorem trace_output : (m.trace mark message).output = m.output := by rw [trace_eq]

/-- A word is defined in the table, whatever the trace says about it. -/
theorem exists_defineWord_eq (name : Token) (body : List Token) :
    ∃ message, m.defineWord name body =
      { m with words := m.words.define name body }.trace (text ":") message := by
  unfold defineWord
  cases m.words.lookup? name with
  | none => exact ⟨_, rfl⟩
  | some before => exact ⟨_, rfl⟩

theorem exists_defineConstant_eq (name : Token) (value : Cell) :
    ∃ message, m.defineConstant name value =
      { m with constants := m.constants.define name value }.trace (text ":") message := by
  unfold defineConstant
  cases m.constants.lookup? name with
  | none => exact ⟨_, rfl⟩
  | some before => exact ⟨_, rfl⟩

end Trace

/-- A token means a word exactly if the word is defined: nothing shadows words. -/
theorem meaning_eq_word_iff {m : Machine σ} {token : Token} {body : List Token} :
    m.meaning token = .word body ↔ m.words.lookup? token = some body := by
  unfold meaning
  cases m.words.lookup? token with
  | some found => simp
  | none =>
    simp only [reduceCtorEq, iff_false]
    split <;> try split <;> try split
    all_goals simp

theorem meaning_eq_builtin_iff {m : Machine σ} {token : Token} {operator : Builtin} :
    m.meaning token = .builtin operator ↔
      m.words.lookup? token = none ∧ Builtin.ofName? token = some operator := by
  unfold meaning
  cases m.words.lookup? token with
  | some found => simp
  | none =>
    cases Builtin.ofName? token with
    | some named => simp
    | none =>
      simp only [reduceCtorEq, and_false, iff_false]
      split <;> try split
      all_goals simp

section Run

variable [Output σ] {call : Call σ} {ending : Outcome} {instruction : Instruction}
  {rest : List Instruction} {m : Machine σ}

theorem performAll_cons_of_done (done : (perform call instruction m).1 = .done) :
    performAll call ending (instruction :: rest) m =
      performAll call ending rest
        ((perform call instruction m).2.traceRule (m.ruleName instruction)
          instruction.opener) := by
  rcases performed : perform call instruction m with ⟨outcome, after⟩
  rw [performed] at done
  subst done
  simp only [performAll, performed]

theorem performAll_cons_of_ne_done (stopped : (perform call instruction m).1 ≠ .done) :
    performAll call ending (instruction :: rest) m = perform call instruction m := by
  rcases performed : perform call instruction m with ⟨outcome, after⟩
  rw [performed] at stopped
  cases outcome with
  | done => exact absurd rfl stopped
  | failed failure => simp only [performAll, performed]
  | panicked panic => simp only [performAll, performed]

/-- What every instruction of a program keeps, and the trace does not disturb, is
kept by the whole program. -/
theorem performAll_preserves {P : Machine σ → Prop} {instructions : List Instruction}
    (step : ∀ instruction ∈ instructions, ∀ m, P m → P (perform call instruction m).2)
    (traced : ∀ m rule token, P m → P (traceRule m rule token)) (holds : P m) :
    P (performAll call ending instructions m).2 := by
  induction instructions generalizing m with
  | nil => exact holds
  | cons instruction rest inductionHypothesis =>
    have performed := step instruction (by simp) m holds
    by_cases done : (perform call instruction m).1 = .done
    · rw [performAll_cons_of_done done]
      apply inductionHypothesis
      · intro later membership
        exact step later (List.mem_cons_of_mem _ membership)
      · exact traced _ _ _ performed
    · rw [performAll_cons_of_ne_done done]
      exact performed

end Run

section Line

variable [Output σ]

/-- The tokens of a line, without what follows them. -/
def evalLine (line : Bytes) (m : Machine σ) : Outcome × Machine σ :=
  evalTokens (tokenize line) (m.trace (text ">") (text "eval " ++ line.quote))

/-- What follows the tokens of a line: the echo of the stack and the flush. -/
def conclude (result : Outcome × Machine σ) : Outcome × Machine σ :=
  match result.1.recover (text "eval") with
  | .done => finish result.2.echoStack
  | failed => finish (failed, result.2)

theorem eval_eq_conclude (line : Bytes) (m : Machine σ) :
    m.eval line = conclude (m.evalLine line) := rfl

theorem exists_finish_eq (result : Outcome × Machine σ) :
    ∃ output journal,
      (finish result).2 = { result.2 with output := output, journal := journal } := by
  rcases result with ⟨outcome, m⟩
  cases outcome with
  | done => exact ⟨_, _, rfl⟩
  | failed failure => exact ⟨_, _, rfl⟩
  | panicked panic => exact ⟨m.output, m.journal, rfl⟩

/-- The end of a line touches the output and the journal only. -/
theorem exists_conclude_eq (result : Outcome × Machine σ) :
    ∃ output journal,
      (conclude result).2 = { result.2 with output := output, journal := journal } := by
  rcases result with ⟨outcome, m⟩
  cases outcome with
  | done =>
    obtain ⟨output, journal, same⟩ := exists_finish_eq m.echoStack
    refine ⟨output, journal, ?_⟩
    simp only [conclude, Outcome.recover, same]
    unfold echoStack
    split <;> rfl
  | failed failure => exact exists_finish_eq (.failed failure, m)
  | panicked panic => exact exists_finish_eq (.failed (panic.recover (text "eval")), m)

/-- A line whose tokens do not succeed fails, unless its flush panics. -/
theorem conclude_of_ne_done {result : Outcome × Machine σ} (stopped : result.1 ≠ .done) :
    ∃ failure, result.1.recover (text "eval") = .failed failure ∧
      ((conclude result).1 = .failed failure ∨
        ∃ panic, result.2.flush.1 = .panicked panic ∧ (conclude result).1 = .panicked panic) := by
  rcases result with ⟨outcome, m⟩
  obtain ⟨failure, recovered⟩ : ∃ failure, outcome.recover (text "eval") = .failed failure := by
    cases outcome with
    | done => exact absurd rfl stopped
    | failed failure => exact ⟨failure, rfl⟩
    | panicked panic => exact ⟨panic.recover (text "eval"), rfl⟩
  refine ⟨failure, recovered, ?_⟩
  simp only [conclude, recovered, finish]
  cases m.flush.1 with
  | done => exact .inl rfl
  | failed later => exact .inl rfl
  | panicked panic => exact .inr ⟨panic, rfl, rfl⟩

theorem evalLine_done_of_eval {line : Bytes} {m : Machine σ} (done : (m.eval line).1 = .done) :
    (m.evalLine line).1 = .done := by
  by_cases succeeds : (m.evalLine line).1 = .done
  · exact succeeds
  · rw [eval_eq_conclude] at done
    obtain ⟨failure, -, failed | ⟨panic, -, panicked⟩⟩ := conclude_of_ne_done succeeds
    · rw [failed] at done
      cases done
    · rw [panicked] at done
      cases done

end Line

/-- A relation between machines before and after that each token of a line respects. -/
structure Framing (R : Machine σ → Machine σ → Prop) : Prop where
  refl : ∀ m, R m m
  trans : ∀ {first second third}, R first second → R second third → R first third
  trace : ∀ m mark message, R m (m.trace mark message)
  update : ∀ (m : Machine σ) stack words constants output,
    R m { m with stack := stack, words := words, constants := constants, output := output }
  leave : ∀ {m after : Machine σ}, R m.enter after → R m after.leave

namespace Framing

variable {R : Machine σ → Machine σ → Prop} (framing : Framing R)

include framing

theorem defineWord (m : Machine σ) (name : Token) (body : List Token) :
    R m (m.defineWord name body) := by
  obtain ⟨message, same⟩ := m.exists_defineWord_eq name body
  rw [same]
  exact framing.trans (framing.update m m.stack _ m.constants m.output) (framing.trace _ _ _)

theorem bindConstant (m : Machine σ) (name : Token) : R m (m.bindConstant name).2 := by
  unfold Machine.bindConstant
  split
  next value rest popped =>
    obtain ⟨message, same⟩ := { m with stack := rest }.exists_defineConstant_eq name value
    rw [same]
    exact framing.trans (framing.update m rest m.words _ m.output) (framing.trace _ _ _)
  next failure rest popped => exact framing.update m rest m.words m.constants m.output

section Run

variable [Output σ]

theorem write (m : Machine σ) (passage : Passage) (octets : Bytes) :
    R m (m.write passage octets).2 :=
  framing.update m m.stack m.words m.constants _

theorem perform {call : Call σ} (calls : ∀ name body m, R m (call name body m).2)
    (instruction : Instruction) (m : Machine σ) : R m (m.perform call instruction).2 := by
  cases instruction with
  | define name body => exact framing.defineWord m name body
  | print => exact framing.write m _ _
  | words => exact framing.write m _ _
  | constant name => exact framing.bindConstant m name
  | say line => exact framing.write m _ _
  | refer token =>
    simp only [Machine.perform, Machine.refer]
    split
    next body _ => exact calls token body m
    next => exact framing.update m _ m.words m.constants m.output
    next => exact framing.update m _ m.words m.constants m.output
    next => exact framing.update m _ m.words m.constants m.output
    next => exact framing.refl m

theorem execute {call : Call σ} (calls : ∀ name body m, R m (call name body m).2)
    (tokens : List Token) (m : Machine σ) : R m (m.execute call tokens).2 := by
  unfold Machine.execute
  apply performAll_preserves (P := R m)
  · intro instruction _ current kept
    exact framing.trans kept (framing.perform calls instruction current)
  · intro current rule token kept
    exact framing.trans kept (framing.trace _ _ _)
  · exact framing.refl m

theorem call (levels : Nat) (name : Token) (body : List Token) (m : Machine σ) :
    R m (Machine.call levels name body m).2 := by
  induction levels generalizing name body m with
  | zero => exact framing.refl m
  | succ levels inductionHypothesis =>
    exact framing.leave (framing.execute inductionHypothesis body m.enter)

theorem evalTokens (tokens : List Token) (m : Machine σ) : R m (m.evalTokens tokens).2 :=
  framing.execute (framing.call _) tokens m

theorem evalLine (line : Bytes) (m : Machine σ) : R m (m.evalLine line).2 :=
  framing.trans (framing.trace m _ _) (framing.evalTokens _ _)

end Run

end Framing

/-- A framing that the end of a line respects as well. -/
structure LineFraming [Output σ] (R : Machine σ → Machine σ → Prop) : Prop extends Framing R where
  flush : ∀ m, R m m.flush.2

namespace LineFraming

variable [Output σ] {R : Machine σ → Machine σ → Prop} (framing : LineFraming R)

include framing

theorem finish (result : Outcome × Machine σ) : R result.2 (Machine.finish result).2 := by
  rcases result with ⟨outcome, m⟩
  cases outcome with
  | done => exact framing.flush m
  | failed failure => exact framing.flush m
  | panicked panic => exact framing.refl m

theorem conclude (result : Outcome × Machine σ) : R result.2 (Machine.conclude result).2 := by
  rcases result with ⟨outcome, m⟩
  cases outcome with
  | done =>
    have echoed : R m m.echoStack.2 := by
      unfold echoStack
      split
      · exact framing.write m _ _
      · exact framing.refl m
    exact framing.trans echoed (framing.finish m.echoStack)
  | failed failure => exact framing.finish (.failed failure, m)
  | panicked panic => exact framing.finish (.failed (panic.recover (text "eval")), m)

theorem eval (line : Bytes) (m : Machine σ) : R m (m.eval line).2 :=
  framing.trans (framing.evalLine line m) (framing.conclude _)

end LineFraming

/-- What an evaluation finds and leaves the same. -/
structure SameSettings (before after : Machine σ) : Prop where
  depth : after.depth = before.depth
  maxDepth : after.maxDepth = before.maxDepth
  echo : after.echo = before.echo
  reportsLines : after.reportsLines = before.reportsLines
  active : after.tracer.active = before.tracer.active
  margins : after.tracer.margins = before.tracer.margins

namespace SameSettings

theorem trans {first second third : Machine σ} (earlier : SameSettings first second)
    (later : SameSettings second third) : SameSettings first third :=
  ⟨later.depth.trans earlier.depth, later.maxDepth.trans earlier.maxDepth,
    later.echo.trans earlier.echo, later.reportsLines.trans earlier.reportsLines,
    later.active.trans earlier.active, later.margins.trans earlier.margins⟩

theorem trace (m : Machine σ) (mark message : Bytes) :
    SameSettings m (m.trace mark message) := by
  have active : (m.tracer.log mark message).2.active = m.tracer.active := by
    unfold Tracer.log
    split <;> rfl
  have margins : (m.tracer.log mark message).2.margins = m.tracer.margins := by
    unfold Tracer.log
    split <;> rfl
  rw [trace_eq]
  exact ⟨rfl, rfl, rfl, rfl, active, margins⟩

/-- A body that restores the settings of its call leaves those of the caller. -/
theorem leave {m after : Machine σ} (body : SameSettings m.enter after) :
    SameSettings m after.leave := by
  have depth : after.leave.depth = m.depth := by
    simp [Machine.leave, body.depth, Machine.enter]
  refine ⟨depth, body.maxDepth, body.echo, body.reportsLines, ?_, ?_⟩
  all_goals
    have active := body.active
    have margins := body.margins
    by_cases listening : m.tracer.active <;>
      simp_all [Machine.enter, Machine.leave, Tracer.enter, Tracer.leave]

theorem framing : Framing (@SameSettings σ) where
  refl _ := ⟨rfl, rfl, rfl, rfl, rfl, rfl⟩
  trans := trans
  trace := trace
  update _ _ _ _ _ := ⟨rfl, rfl, rfl, rfl, rfl, rfl⟩
  leave := leave

theorem evalTokens [Output σ] (tokens : List Token) (m : Machine σ) :
    SameSettings m (m.evalTokens tokens).2 :=
  framing.evalTokens tokens m

theorem lineFraming [Output σ] : LineFraming (@SameSettings σ) where
  toFraming := framing
  flush _ := ⟨rfl, rfl, rfl, rfl, rfl, rfl⟩

theorem eval [Output σ] (line : Bytes) (m : Machine σ) : SameSettings m (m.eval line).2 :=
  lineFraming.eval line m

end SameSettings

/-- A machine adds these reports about failed lines, if it reports them at all. -/
structure Reports (reports : List Bytes) (before after : Machine σ) : Prop where
  listening : after.reportsLines = before.reportsLines
  lineErrors : after.journal.lineErrors =
    before.journal.lineErrors ++ if before.reportsLines then reports else []

namespace Reports

theorem of_same {before after : Machine σ} (listening : after.reportsLines = before.reportsLines)
    (lineErrors : after.journal.lineErrors = before.journal.lineErrors) :
    Reports [] before after :=
  ⟨listening, by simp [lineErrors]⟩

theorem trans {reports more : List Bytes} {first second third : Machine σ}
    (earlier : Reports reports first second) (later : Reports more second third) :
    Reports (reports ++ more) first third := by
  refine ⟨later.listening.trans earlier.listening, ?_⟩
  rw [later.lineErrors, earlier.lineErrors, earlier.listening, List.append_assoc]
  split <;> rfl

theorem record (m : Machine σ) (events : List Event) : Reports [] m (m.record events) :=
  .of_same rfl (by simp [Machine.record, Journal.record, Journal.lineErrors, List.filterMap_map])

/-- An evaluation reports nothing itself. -/
theorem framing [Output σ] : LineFraming (Reports [] : Machine σ → Machine σ → Prop) where
  refl _ := .of_same rfl rfl
  trans := trans
  trace m mark message := by
    rw [trace_eq]
    refine of_same rfl ?_
    cases (m.tracer.log mark message).1 <;> simp [Journal.lineErrors]
  update _ _ _ _ _ := .of_same rfl rfl
  leave body := ⟨body.listening, body.lineErrors⟩
  flush m := by
    have written : Reports [] m { m with output := (Output.flush m.output).2 } := .of_same rfl rfl
    exact written.trans (record _ (Output.flush m.output).1.events)

end Reports

end Machine

end LineForth
