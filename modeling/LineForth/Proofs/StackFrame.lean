import LineForth.Proofs.LineByLine
import LineForth.Proofs.RefusedCalls

/-!
# Cells at the bottom of the stack

An evaluation that neither clears the stack nor misses an operand does not depend on the
cells below its stack. With more cells at the bottom it goes on to the same end, through
the same definitions and calls, and leaves these cells where they are. This holds for
lines that fail, too: a line that divides by zero or comes to an unknown token keeps the
part of the stack it has worked on, and the cells below it.
-/

set_option autoImplicit false

namespace LineForth

/-- An operand was missing. -/
def Outcome.Underflows (outcome : Outcome) : Prop :=
  ∃ operand, outcome.Reports (.emptyStack operand)

theorem Builtin.apply_frame {operator : Builtin} (keeps : operator ≠ .clearStack)
    (stack base : Stack) :
    (operator.apply stack).1.Underflows ∨
      operator.apply (stack ++ base) =
        ((operator.apply stack).1, (operator.apply stack).2 ++ base) := by
  rcases (moves_run keeps).frame stack base with ⟨operand, after, missing⟩ | framed
  · left
    simp only [apply, missing]
    exact ⟨operand, List.mem_singleton_self _⟩
  · right
    simp only [apply, framed]
    cases operator.run stack with
    | ok value after => rfl
    | error failure after => rfl

namespace Machine

variable {σ : Type}

/-- The machine with more cells at the bottom of its stack. -/
def atop (m : Machine σ) (base : Stack) : Machine σ := { m with stack := m.stack ++ base }

variable [Output σ]

/-- The second machine is the first one on top of more cells, as far as their outputs
never fail. -/
structure Rests (unfailing : Unfailing σ) (base : Stack) (m m' : Machine σ) : Prop where
  stack : m'.stack = m.stack ++ base
  words : m'.words = m.words
  constants : m'.constants = m.constants
  depth : m'.depth = m.depth
  intact : unfailing.intact m.output
  intact' : unfailing.intact m'.output

namespace Rests

variable {unfailing : Unfailing σ} {base : Stack} {m m' : Machine σ}

theorem atop (intact : unfailing.intact m.output) (base : Stack) :
    Rests unfailing base m (m.atop base) :=
  ⟨rfl, rfl, rfl, rfl, intact, intact⟩

theorem trace (rests : Rests unfailing base m m') (mark message mark' message' : Bytes) :
    Rests unfailing base (m.trace mark message) (m'.trace mark' message') := by
  constructor
  · simpa using rests.stack
  · simpa using rests.words
  · simpa using rests.constants
  · simpa using rests.depth
  · simpa using rests.intact
  · simpa using rests.intact'

theorem meaning (rests : Rests unfailing base m m') (token : Token) :
    m'.meaning token = m.meaning token := by
  unfold Machine.meaning
  rw [rests.words, rests.constants]

theorem push (rests : Rests unfailing base m m') (value : Cell) :
    Rests unfailing base (m.push value) (m'.push value) :=
  ⟨by simp only [Machine.push, rests.stack, List.cons_append], rests.words, rests.constants,
    rests.depth, rests.intact, rests.intact'⟩

theorem write (rests : Rests unfailing base m m') (passage : Passage) (octets octets' : Bytes) :
    (m'.write passage octets').1 = (m.write passage octets).1 ∧
      Rests unfailing base (m.write passage octets).2 (m'.write passage octets').2 := by
  constructor
  · exact (unfailing.write_done passage octets' rests.intact').trans
      (unfailing.write_done passage octets rests.intact).symm
  · exact ⟨rests.stack, rests.words, rests.constants, rests.depth,
      unfailing.write_intact passage octets rests.intact,
      unfailing.write_intact passage octets' rests.intact'⟩

theorem defineWord (rests : Rests unfailing base m m') (name : Token) (body : List Token) :
    Rests unfailing base (m.defineWord name body) (m'.defineWord name body) := by
  obtain ⟨message, first⟩ := m.exists_defineWord_eq name body
  obtain ⟨message', second⟩ := m'.exists_defineWord_eq name body
  rw [first, second]
  apply trace
  exact ⟨rests.stack, by simp only [rests.words], rests.constants, rests.depth, rests.intact,
    rests.intact'⟩

theorem bindConstant (rests : Rests unfailing base m m') (name : Token) :
    InStep (fun first _ => first.1.Underflows) (Rests unfailing base) (m.bindConstant name)
      (m'.bindConstant name) := by
  unfold Machine.bindConstant
  rw [rests.stack]
  cases m.stack with
  | nil => exact .inl ⟨_, List.mem_singleton_self _⟩
  | cons value rest =>
    obtain ⟨message, first⟩ := { m with stack := rest }.exists_defineConstant_eq name value
    obtain ⟨message', second⟩ :=
      { m' with stack := rest ++ base }.exists_defineConstant_eq name value
    refine .inr ⟨rfl, ?_⟩
    simp only [Stack.pop, List.cons_append, first, second]
    apply trace
    exact ⟨rfl, rests.words, by simp only [rests.constants], rests.depth, rests.intact,
      rests.intact'⟩

theorem operate (rests : Rests unfailing base m m') {operator : Builtin}
    (keeps : operator ≠ .clearStack) :
    InStep (fun first _ => first.1.Underflows) (Rests unfailing base) (m.operate operator)
      (m'.operate operator) := by
  rcases Builtin.apply_frame keeps m.stack base with underflows | framed
  · exact .inl underflows
  · refine .inr ⟨?_, ?_, rests.words, rests.constants, rests.depth, rests.intact, rests.intact'⟩
    all_goals simp only [Machine.operate, rests.stack, framed]

theorem perform (rests : Rests unfailing base m m') (call call' : Call σ)
    {instruction : Instruction} (leaves : m.LeavesBottom instruction)
    (callsNothing : m.CallsNothing instruction) :
    InStep (fun first _ => first.1.Underflows) (Rests unfailing base)
      (m.perform call instruction) (m'.perform call' instruction) := by
  cases instruction with
  | define name body => exact .inr ⟨rfl, rests.defineWord name body⟩
  | constant name => exact rests.bindConstant name
  | print => exact .inr (rests.write _ _ _)
  | words => exact .inr (rests.write _ _ _)
  | say line => exact .inr (rests.write _ _ _)
  | refer token =>
    simp only [Machine.perform, refer, rests.meaning token]
    cases meaning : m.meaning token with
    | word body =>
      rw [meaning_eq_word_iff, callsNothing token rfl] at meaning
      cases meaning
    | builtin operator =>
      apply rests.operate
      rintro rfl
      exact leaves token rfl meaning
    | constant value => exact .inr ⟨rfl, rests.push value⟩
    | literal value => exact .inr ⟨rfl, rests.push value⟩
    | unknown => exact .inr ⟨rfl, rests⟩

/-- Cells at the bottom keep two runs in step until the first one misses an operand. -/
theorem lockstep (unfailing : Unfailing σ) (base : Stack) :
    Lockstep LeavesBottom Eq (fun first _ => first.1.Underflows) (Rests unfailing base) where
  onward_first underflows onward := by
    obtain ⟨operand, reports⟩ := underflows
    cases onward with
    | further outcome path => exact absurd reports id
    | returned word outcome m => exact ⟨operand, reports.blame word⟩
  onward_second underflows _ := underflows
  lookup word rests _ := by rw [rests.words]
  step instruction rests leaves callsNothing := rests.perform _ _ leaves callsNothing
  traced _ _ rests := rests.trace _ _ _ _
  enter rests :=
    ⟨rests.stack, rests.words, rests.constants, congrArg (· + 1) rests.depth, rests.intact,
      rests.intact'⟩
  leave rests :=
    ⟨rests.stack, rests.words, rests.constants, congrArg (· - 1) rests.depth, rests.intact,
      rests.intact'⟩
  nested same := Nat.succ.inj same
  refused := by
    rintro m m' levels _ word body rests rfl exhausted
    obtain rfl : levels = 0 := by omega
    exact .inr ⟨by simp only [call, rests.depth], rests⟩

theorem evalLine (rests : Rests unfailing base m m') (limit : m'.maxDepth = m.maxDepth)
    {line : Bytes} (keeps : ∀ moment, m.Passes line moment → ¬ moment.Operates .clearStack) :
    InStep (fun first _ => first.1.Underflows) (Rests unfailing base) (m.evalLine line)
      (m'.evalLine line) := by
  apply (lockstep unfailing base).evalTokens
  · rw [trace_maxDepth, trace_maxDepth, trace_depth, trace_depth, limit, rests.depth]
  · exact rests.trace _ _ _ _
  · exact Moment.permits_leavesBottom keeps

end Rests

variable {m : Machine σ}

/-- Evaluating a line above more cells comes to the same, and to the same stack above
these cells, if the line neither clears the stack nor misses an operand. -/
theorem eval_atop (unfailing : Unfailing σ) (intact : unfailing.intact m.output) (line : Bytes)
    (base : Stack) (keeps : ∀ moment, m.Passes line moment → ¬ moment.Operates .clearStack)
    (enough : ¬ (m.eval line).1.Underflows) :
    ((m.atop base).eval line).1 = (m.eval line).1 ∧
      ((m.atop base).eval line).2.words = (m.eval line).2.words ∧
      ((m.atop base).eval line).2.constants = (m.eval line).2.constants ∧
      ((m.atop base).eval line).2.stack = (m.eval line).2.stack ++ base := by
  rw [eval_eq_conclude, eval_eq_conclude] at *
  have reached : unfailing.blind.intact (m.evalLine line).2.output := evalLine_intact intact line
  have ended := conclude_of_intact unfailing reached
  rcases (Rests.atop intact base).evalLine rfl keeps with underflows | ⟨same, rests⟩
  · obtain ⟨operand, reports⟩ := underflows
    rw [ended] at enough
    exact absurd ⟨operand, reports.recover _⟩ enough
  · obtain ⟨output, journal, first⟩ := exists_conclude_eq (m.evalLine line)
    obtain ⟨output', journal', second⟩ := exists_conclude_eq ((m.atop base).evalLine line)
    rw [ended, conclude_of_intact unfailing rests.intact', same, first, second]
    exact ⟨rfl, rests.words, rests.constants, rests.stack⟩

/-- Defines a word, binds a constant and divides by zero inside the word. -/
def dividing : Bytes := text ": share swap / ; 6 constant k k 0 k share ."

theorem eval_atop_dividing :
    ((initial twoDevices).eval dividing).1 = .failed (.inWord (text "share") .divideByZero) ∧
      (((initial twoDevices).atop [7, 8]).eval dividing).1 =
        .failed (.inWord (text "share") .divideByZero) ∧
      (((initial twoDevices).atop [7, 8]).eval dividing).2.stack = [6, 7, 8] := by
  have failed : ((initial twoDevices).eval dividing).1 =
      .failed (.inWord (text "share") .divideByZero) := by decide +kernel
  have stack : ((initial twoDevices).eval dividing).2.stack = [6] := by decide +kernel
  have intact : Console.reliable.intact (initial twoDevices).output := twoDevices_dependable
  have checked : Moment.always (fun moment => moment.operator? != some .clearStack) 10
      (Moment.start dividing (initial twoDevices)) = true := by decide +kernel
  have enough : ¬ ((initial twoDevices).eval dividing).1.Underflows := by
    simp [failed, Outcome.Underflows, Outcome.Reports, Failure.chain]
  obtain ⟨outcome, -, -, above⟩ := eval_atop Console.reliable.toUnfailing intact dividing [7, 8]
    (Moment.not_operates_of_always checked) enough
  exact ⟨failed, outcome.trans failed, by rw [above, stack]; rfl⟩

end Machine

end LineForth
