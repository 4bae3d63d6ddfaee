import LineForth.Proofs.Frame
import Mathlib.Logic.Relation

/-!
# Moments of an evaluation

While a line is evaluated, the machine passes through moments: before the first
instruction of the line, after each instruction that succeeds, and likewise in the
body of every word that is called. A moment knows which calls are active. What one
step between moments keeps, every moment of the line has.
-/

set_option autoImplicit false

namespace LineForth

structure Moment (σ : Type) where
  /-- The words whose calls are active, the innermost first. -/
  active : List Token
  /-- How many more calls may become active. -/
  levels : Nat
  /-- What is left of the line, or of the body of the innermost call. -/
  program : Program
  machine : Machine σ

namespace Moment

variable {σ : Type}

/-- The next instruction is a call of the word. -/
def Calls (moment : Moment σ) (word : Token) : Prop :=
  ∃ body rest, moment.program.instructions = .refer word :: rest ∧
    moment.machine.words.lookup? word = some body

/-- The next instruction is the operator. -/
def Operates (moment : Moment σ) (operator : Builtin) : Prop :=
  ∃ token rest, moment.program.instructions = .refer token :: rest ∧
    moment.machine.meaning token = .builtin operator

/-- The operator that the next instruction is, if it is one. -/
def operator? (moment : Moment σ) : Option Builtin :=
  match moment.program.instructions with
  | .refer token :: _ =>
    match moment.machine.meaning token with
    | .builtin operator => some operator
    | _ => none
  | _ => none

theorem Operates.operator? {moment : Moment σ} {operator : Builtin}
    (operates : moment.Operates operator) : moment.operator? = some operator := by
  obtain ⟨token, rest, next, meaning⟩ := operates
  simp only [Moment.operator?, next, meaning]

/-- The moment before the first of the tokens. -/
def ofTokens (tokens : List Token) (m : Machine σ) : Moment σ :=
  ⟨[], m.maxDepth - m.depth, Program.ofTokens tokens, m⟩

/-- The moment before the first token of a line. -/
def start (line : Bytes) (m : Machine σ) : Moment σ :=
  let traced := m.trace (text ">") (text "eval " ++ line.quote)
  ⟨[], traced.maxDepth - traced.depth, Program.ofTokens (tokenize line), traced⟩

/-- The depth of the machine counts the active calls, and with those that may still
become active they make up the limit. -/
structure Counted (limit : Nat) (moment : Moment σ) : Prop where
  depth : moment.machine.depth = moment.active.length
  levels : moment.levels + moment.active.length = limit

theorem counted_start {m : Machine σ} (idle : m.depth = 0) (line : Bytes) :
    Counted m.maxDepth (start line m) := by
  refine ⟨?_, ?_⟩
  all_goals simp [start, idle]

variable [Output σ]

/-- How the rest of the program goes. -/
def result (moment : Moment σ) : Outcome × Machine σ :=
  Machine.performAll (Machine.call moment.levels) moment.program.ending
    moment.program.instructions moment.machine

theorem result_start (line : Bytes) (m : Machine σ) :
    (start line m).result = m.evalLine line := rfl

inductive Next : Moment σ → Moment σ → Prop
  /-- Past an instruction that succeeds, with all the calls it makes. -/
  | past {active : List Token} {levels : Nat} {instruction : Instruction}
      {rest : List Instruction} {ending : Outcome} {m : Machine σ}
      (done : (m.perform (Machine.call levels) instruction).1 = .done) :
      Next ⟨active, levels, ⟨instruction :: rest, ending⟩, m⟩
        ⟨active, levels, ⟨rest, ending⟩,
          (m.perform (Machine.call levels) instruction).2.traceRule (m.ruleName instruction)
            instruction.opener⟩
  /-- Into the body of a word that may be called. -/
  | into {active : List Token} {levels : Nat} {word : Token} {body : List Token}
      {rest : List Instruction} {ending : Outcome} {m : Machine σ}
      (defined : m.words.lookup? word = some body) :
      Next ⟨active, levels + 1, ⟨.refer word :: rest, ending⟩, m⟩
        ⟨word :: active, levels, Program.ofTokens body, m.enter⟩

/-- The moments that may come next, in a list. -/
def successors : Moment σ → List (Moment σ)
  | ⟨_, _, ⟨[], _⟩, _⟩ => []
  | ⟨active, levels, ⟨instruction :: rest, ending⟩, m⟩ =>
    let past := match m.perform (Machine.call levels) instruction with
      | (.done, after) =>
        [⟨active, levels, ⟨rest, ending⟩,
          after.traceRule (m.ruleName instruction) instruction.opener⟩]
      | _ => []
    let into := match instruction, levels with
      | .refer word, fewer + 1 =>
        (m.words.lookup? word).toList.map fun body =>
          ⟨word :: active, fewer, Program.ofTokens body, m.enter⟩
      | _, _ => []
    past ++ into

theorem mem_successors {moment later : Moment σ} (next : Next moment later) :
    later ∈ moment.successors := by
  cases next with
  | @past active levels instruction rest ending m done =>
    rcases performed : m.perform (Machine.call levels) instruction with ⟨outcome, after⟩
    rw [performed] at done
    cases done
    simp [successors, performed]
  | into defined => simp [successors, defined]

/-- Whether the check holds from this moment on, in a run of less than `bound` steps. -/
def always (check : Moment σ → Bool) : (bound : Nat) → Moment σ → Bool
  | 0, _ => false
  | bound + 1, moment => check moment && moment.successors.all (always check bound)

theorem check_of_always {check : Moment σ → Bool} {bound : Nat} {moment later : Moment σ}
    (holds : always check bound moment = true) (path : Relation.ReflTransGen Next moment later) :
    check later = true := by
  induction path using Relation.ReflTransGen.head_induction_on generalizing bound with
  | refl =>
    cases bound with
    | zero => cases holds
    | succ bound => exact (Bool.and_eq_true_iff.mp holds).1
  | head next _ inductionHypothesis =>
    cases bound with
    | zero => cases holds
    | succ bound =>
      have further := List.all_eq_true.mp (Bool.and_eq_true_iff.mp holds).2
      exact inductionHypothesis (further _ (mem_successors next))

theorem not_operates_of_always {operator : Builtin} {bound : Nat} {moment : Moment σ}
    (holds : always (fun later => later.operator? != some operator) bound moment = true) :
    ∀ later, Relation.ReflTransGen Next moment later → ¬ later.Operates operator := by
  intro later path operates
  have other := check_of_always holds path
  simp [operates.operator?] at other

end Moment

namespace Machine

variable {σ : Type} [Output σ]

/-- The line, evaluated from this machine, comes to the moment. -/
def Passes (m : Machine σ) (line : Bytes) (moment : Moment σ) : Prop :=
  Relation.ReflTransGen Moment.Next (Moment.start line m) moment

/-- What one step keeps, all moments of a line have. -/
theorem Passes.induct {P : Moment σ → Prop} {m : Machine σ} {line : Bytes} {moment : Moment σ}
    (passes : m.Passes line moment)
    (step : ∀ {moment later : Moment σ}, Moment.Next moment later → P moment → P later)
    (initially : P (Moment.start line m)) : P moment := by
  induction passes with
  | refl => exact initially
  | tail _ next inductionHypothesis => exact step next inductionHypothesis

/-- A line that comes to a call comes into the body of the word. -/
theorem Passes.into {m : Machine σ} {line : Bytes} {moment : Moment σ} {word : Token}
    {body : List Token} {rest : List Instruction} {levels : Nat} (passes : m.Passes line moment)
    (calls : moment.program.instructions = .refer word :: rest)
    (found : moment.machine.words.lookup? word = some body)
    (allowed : moment.levels = levels + 1) :
    m.Passes line ⟨word :: moment.active, levels, Program.ofTokens body, moment.machine.enter⟩ := by
  rcases moment with ⟨active, total, ⟨instructions, ending⟩, current⟩
  dsimp only at calls allowed
  subst calls allowed
  exact .tail passes (.into found)

/-- A line that comes to an instruction that succeeds comes past it. -/
theorem Passes.past {m : Machine σ} {line : Bytes} {moment : Moment σ}
    {instruction : Instruction} {rest : List Instruction} (passes : m.Passes line moment)
    (next : moment.program.instructions = instruction :: rest)
    (done : (moment.machine.perform (call moment.levels) instruction).1 = .done) :
    m.Passes line ⟨moment.active, moment.levels, ⟨rest, moment.program.ending⟩,
      (moment.machine.perform (call moment.levels) instruction).2.traceRule
        (moment.machine.ruleName instruction) instruction.opener⟩ := by
  rcases moment with ⟨active, levels, ⟨instructions, ending⟩, current⟩
  dsimp only at next
  subst next
  exact .tail passes (.past done)

theorem perform_refer_of_defined {call : Call σ} {word : Token} {body : List Token}
    {m : Machine σ} (defined : m.words.lookup? word = some body) :
    m.perform call (.refer word) = call word body m := by
  simp only [perform, refer, meaning_eq_word_iff.mpr defined]

theorem perform_done_of_performAll {call : Call σ} {ending : Outcome} {instruction : Instruction}
    {rest : List Instruction} {m : Machine σ}
    (done : (performAll call ending (instruction :: rest) m).1 = .done) :
    (m.perform call instruction).1 = .done := by
  by_cases stopped : (m.perform call instruction).1 = .done
  · exact stopped
  · rw [performAll_cons_of_ne_done stopped] at done
    exact done

theorem execute_done_of_call {levels : Nat} {word : Token} {body : List Token} {m : Machine σ}
    (done : (call (levels + 1) word body m).1 = .done) :
    (m.enter.execute (call levels) body).1 = .done := by
  simp only [call] at done
  cases executed : (m.enter.execute (call levels) body).1 with
  | done => rfl
  | failed failure => simp [executed, Outcome.blame] at done
  | panicked panic => simp [executed, Outcome.blame] at done

end Machine

namespace Moment

variable {σ : Type} [Output σ] {moment later : Moment σ}

/-- A program that succeeds succeeds from every moment on, and so do the bodies that
it calls. -/
theorem Next.result_done (next : Next moment later) (done : moment.result.1 = .done) :
    later.result.1 = .done := by
  cases next with
  | past performed =>
    simp only [result, Machine.performAll_cons_of_done performed] at done
    exact done
  | into defined =>
    have performed := Machine.perform_done_of_performAll done
    rw [Machine.perform_refer_of_defined defined] at performed
    exact Machine.execute_done_of_call performed

theorem Counted.next {limit : Nat} (counted : Counted limit moment) (next : Next moment later) :
    Counted limit later := by
  rcases counted with ⟨depth, total⟩
  cases next with
  | @past active levels instruction rest ending m performed =>
    have kept := Machine.SameSettings.framing.perform (Machine.SameSettings.framing.call levels)
      instruction m
    refine ⟨?_, total⟩
    simpa only [Machine.traceRule, Machine.trace_depth, kept.depth] using depth
  | @into active levels word body rest ending m found =>
    refine ⟨congrArg (· + 1) depth, ?_⟩
    dsimp only at total
    simp only [List.length_cons]
    omega

end Moment

namespace Machine

variable {σ : Type} [Output σ] {m : Machine σ} {line : Bytes} {moment : Moment σ}

theorem Passes.counted (passes : m.Passes line moment) (idle : m.depth = 0) :
    moment.Counted m.maxDepth := by
  apply passes.induct
  · intro before after next counted
    exact counted.next next
  · exact Moment.counted_start idle line

end Machine

end LineForth
