import LineForth.Proofs.Literals
import LineForth.Proofs.Output.Watched
import LineForth.Proofs.Reachable
import LineForth.Proofs.Storage

/-!
# Printed stacks as lines

What is printed of a stack is a line of numerals once its frame and its commas are taken
away. The numerals are read back as the cells, so the printed text determines the stack. They
are also evaluated to the stack wherever no name takes the place of a numeral: no word of a
reachable interpreter has such a name, and a constant has one only if a line has bound it.
Numerals put out nothing, so only the echo and the flush behind them can fail.
-/

set_option autoImplicit false

namespace LineForth

namespace Bytes

def comma : UInt8 := 0x2C

/-- A printed stack without `> [` in front, without `]` and the newline behind, and without
its commas. -/
def unframed (shown : Bytes) : Bytes :=
  ((shown.drop (text "> [").length).dropLast.dropLast).filter fun octet => octet ≠ comma

/-- Without commas, what was joined by commas and spaces is joined by spaces. -/
theorem filter_join {pieces : List Bytes} (plain : ∀ piece ∈ pieces, comma ∉ piece) :
    (join (text ", ") pieces).filter (fun octet => octet ≠ comma) = join [space] pieces := by
  have separator : (text ", ").filter (fun octet => octet ≠ comma) = [space] := by
    decide +kernel
  induction pieces with
  | nil => rfl
  | cons piece rest inductionHypothesis =>
    obtain ⟨first, later⟩ := List.forall_mem_cons.mp plain
    cases rest with
    | nil => exact filter_ne_of_not_mem first
    | cons next others =>
      simp only [join, List.filter_append, filter_ne_of_not_mem first, separator]
      rw [inductionHypothesis later]

end Bytes

namespace Numeral

theorem comma_not_mem_decimal (value : Int) : Bytes.comma ∉ decimal value := by
  have digits : Bytes.comma ∉ decimalNat value.natAbs := by
    intro membership
    exact absurd (digit_of_mem_decimalNat membership) (by decide)
  have sign : Bytes.comma ∉ text "-" := by decide +kernel
  unfold decimal
  split
  · intro membership
    rcases List.mem_append.mp membership with inSign | inDigits
    · exact sign inSign
    · exact digits inDigits
  · exact digits

end Numeral

namespace Stack

/-- What is printed of a stack. -/
def printed (stack : Stack) : Bytes := text "> " ++ stack.render ++ [Bytes.newline]

/-- The cells as numerals, bottom first. -/
def numerals (stack : Stack) : List Token := stack.bottomUp.map fun cell => decimal cell.toInt

theorem unframed_printed (stack : Stack) :
    stack.printed.unframed = Bytes.join [Bytes.space] stack.numerals := by
  have plain : ∀ piece ∈ stack.numerals, Bytes.comma ∉ piece := by
    intro piece membership
    obtain ⟨cell, -, rfl⟩ := List.mem_map.mp membership
    exact Numeral.comma_not_mem_decimal _
  have framed : stack.printed =
      text "> [" ++ (Bytes.join (text ", ") stack.numerals ++ text "]" ++ [Bytes.newline]) := by
    have frame : text "> [" = text "> " ++ text "[" := by decide +kernel
    simp [printed, render, numerals, frame]
  have bracket : text "]" = [0x5D] := by decide +kernel
  rw [Bytes.unframed, framed, List.drop_left, List.dropLast_concat, bracket,
    List.dropLast_concat, Bytes.filter_join plain]

/-- The tokens of the line are the numerals, and the line of an empty stack has one blank
token. -/
theorem tokenize_unframed_printed (stack : Stack) :
    tokenize stack.printed.unframed =
      if stack.isEmpty then [[]] else stack.numerals := by
  rw [unframed_printed]
  split
  next empty =>
    rw [List.isEmpty_iff.mp empty]
    decide +kernel
  next nonempty =>
    apply tokenize_join
    · simpa [numerals, bottomUp] using nonempty
    · intro token membership
      obtain ⟨cell, -, rfl⟩ := List.mem_map.mp membership
      exact (Numeral.solid_decimal _).toCut

theorem filterMap_parse?_numerals (stack : Stack) :
    stack.numerals.filterMap Numeral.parse? = stack.bottomUp := by
  have reads : Numeral.parse? ∘ (fun cell : Cell => decimal cell.toInt) = some :=
    funext Numeral.parse?_decimal
  rw [numerals, List.filterMap_map, reads, List.filterMap_some]

/-- Reading the numerals of a printed stack gives its cells. -/
theorem filterMap_parse?_printed (stack : Stack) :
    (tokenize stack.printed.unframed).filterMap Numeral.parse? = stack.bottomUp := by
  rw [tokenize_unframed_printed]
  split
  next empty =>
    rw [List.isEmpty_iff.mp empty]
    rfl
  next => exact filterMap_parse?_numerals stack

theorem printed_injective : Function.Injective printed := by
  intro stack other same
  have cells := filterMap_parse?_printed stack
  rw [same, filterMap_parse?_printed] at cells
  exact (List.reverse_injective cells).symm

end Stack

namespace Machine

variable {σ : Type}

/-- No name takes the place of a numeral. -/
def ReadsNumerals (m : Machine σ) : Prop :=
  ∀ token cell, Numeral.parse? token = some cell →
    m.words.lookup? token = none ∧ m.constants.lookup? token = none

section Numerals

variable [Output σ] {m : Machine σ}

/-- Numerals are pushed one after the other, and apart from the trace nothing else happens. -/
theorem execute_numerals (call : Call σ) (cells : List Cell) (reads : m.ReadsNumerals) :
    ∃ tracer journal, m.execute call (cells.map fun cell => decimal cell.toInt) =
      (.done, { m with
        stack := cells.reverse ++ m.stack
        tracer := tracer
        journal := journal }) := by
  induction cells generalizing m with
  | nil => exact ⟨m.tracer, m.journal, rfl⟩
  | cons cell rest inductionHypothesis =>
    have parsed := Numeral.parse?_decimal cell
    obtain ⟨unnamed, unbound⟩ := reads _ _ parsed
    rw [List.map_cons, execute_numeral call parsed unnamed unbound, traceRule, trace_eq]
    obtain ⟨tracer, journal, same⟩ := inductionHypothesis
      (m := { m.push cell with
        tracer := _
        journal := _ }) reads
    refine ⟨tracer, journal, same.trans ?_⟩
    simp [push]

/-- The line of a printed stack puts exactly its cells on an empty stack. -/
theorem evalLine_printed (reads : m.ReadsNumerals) (stack : Stack) :
    ∃ tracer journal, { m with stack := [] }.evalLine stack.printed.unframed =
      (.done, { m with stack := stack, tracer := tracer, journal := journal }) := by
  unfold evalLine evalTokens
  rw [Stack.tokenize_unframed_printed, trace_eq]
  split
  next empty =>
    rw [List.isEmpty_iff.mp empty]
    exact ⟨_, _, rfl⟩
  next =>
    obtain ⟨tracer, journal, same⟩ := execute_numerals _ stack.bottomUp
      (m := { m with
        stack := []
        tracer := _
        journal := _ }) reads
    refine ⟨tracer, journal, same.trans ?_⟩
    simp [Stack.bottomUp]

end Numerals

/-- The echo and the flush behind it look at the stack and the output only. -/
theorem echoStack_congr [Output σ] {m m' : Machine σ} (stack : m'.stack = m.stack)
    (echo : m'.echo = m.echo) (output : m'.output = m.output) :
    m'.echoStack.1 = m.echoStack.1 ∧ m'.echoStack.2.flush.1 = m.echoStack.2.flush.1 := by
  unfold echoStack
  rw [echo]
  split
  · simp only [printStack, write, flush, stack, output, and_self]
  · simp only [flush, output, and_self]

section Finish

variable [Output σ] {result : Outcome × Machine σ}

theorem finish_done_iff :
    (finish result).1 = .done ↔ result.1 = .done ∧ result.2.flush.1 = .done := by
  rcases result with ⟨outcome, m⟩
  cases outcome with
  | done => simp [finish, Outcome.done_orElse]
  | failed failure =>
    simp only [finish, reduceCtorEq, false_and, iff_false]
    intro done
    cases (Outcome.done_of_orElse done).1
  | panicked panic => simp [finish]

/-- The outcome is that of what comes before and of the flush. -/
theorem finish_congr {result' : Outcome × Machine σ} (outcome : result.1 = result'.1)
    (flush : result.2.flush.1 = result'.2.flush.1) : (finish result).1 = (finish result').1 := by
  rcases result with ⟨earlier, m⟩
  rcases result' with ⟨_, m'⟩
  cases outcome
  cases earlier with
  | panicked panic => rfl
  | done | failed failure => exact congrArg (Outcome.orElse _) flush

/-- An earlier failure is kept, but for a panic of the flush. -/
theorem finish_failed_iff {failure : Failure} :
    (finish result).1 = .failed failure ↔
      result.1 = .failed failure ∧ (∀ panic, result.2.flush.1 ≠ .panicked panic) ∨
        result.1 = .done ∧ result.2.flush.1 = .failed failure := by
  rcases result with ⟨outcome, m⟩
  rcases flushed : m.flush with ⟨flush, after⟩
  cases outcome <;> cases flush <;> simp [finish, flushed, Outcome.orElse]

/-- A panic of what comes before the flush keeps it from happening. -/
theorem finish_panicked_iff {panic : Panic} :
    (finish result).1 = .panicked panic ↔
      result.1 = .panicked panic ∨
        (∀ earlier, result.1 ≠ .panicked earlier) ∧ result.2.flush.1 = .panicked panic := by
  rcases result with ⟨outcome, m⟩
  rcases flushed : m.flush with ⟨flush, after⟩
  cases outcome <;> cases flush <;> simp [finish, flushed, Outcome.orElse]

end Finish

end Machine

namespace Interpreter

variable {σ : Type} [Output σ]

/-- Words are never named like numerals, and the constants are taken not to be. -/
theorem Reachable.readsNumerals {interpreter : Interpreter σ} (reached : Reachable interpreter)
    (unlike : ∀ name ∈ interpreter.machine.constants.names, Numeral.parse? name = none) :
    interpreter.machine.ReadsNumerals := by
  intro token cell parsed
  constructor
  · by_contra named
    obtain ⟨body, found⟩ := Option.ne_none_iff_exists'.mp named
    obtain ⟨-, unread⟩ := reached.orderly.words _ _ (Table.mem_of_lookup? found)
    rw [parsed] at unread
    cases unread
  · by_contra bound
    obtain ⟨value, found⟩ := Option.ne_none_iff_exists'.mp bound
    have unread := unlike token (Table.mem_names_iff.mpr (by rw [found]; rfl))
    rw [parsed] at unread
    cases unread

/-- The text that is printed determines the stack. On a reachable interpreter none of whose
constants is named like a number, its line evaluates to exactly the stack, from an empty one.
What comes after the numerals is the echo of the stack, if that is on, and the flush, and the
line ends as they do: it succeeds if the output takes both, it fails with the first failure of
the two, and a panic of either is not recovered. -/
theorem eval_printed :
    (∀ (call : Machine.Call σ) (m : Machine σ),
      m.perform call .print = m.write .direct m.stack.printed) ∧
    (∀ stack other : Stack, stack.printed = other.printed → stack = other) ∧
    ∀ interpreter : Interpreter σ, Reachable interpreter →
      (∀ name ∈ interpreter.machine.constants.names, Numeral.parse? name = none) →
      ∀ stack : Stack,
        let m := { interpreter.machine with stack := [] }
        let line := stack.printed.unframed
        let echoed := { m with stack := stack }.echoStack
        let flushed := echoed.2.flush.1
        (m.evalLine line).1 = .done ∧ (m.evalLine line).2.stack = stack ∧
          (m.eval line).2.stack = stack ∧
          (m.eval line).1 = (Machine.finish echoed).1 ∧
          ((m.eval line).1 = .done ↔ echoed.1 = .done ∧ flushed = .done) ∧
          (∀ failure, (m.eval line).1 = .failed failure ↔
            echoed.1 = .failed failure ∧ (∀ panic, flushed ≠ .panicked panic) ∨
              echoed.1 = .done ∧ flushed = .failed failure) ∧
          ∀ panic, (m.eval line).1 = .panicked panic ↔
            echoed.1 = .panicked panic ∨
              (∀ earlier, echoed.1 ≠ .panicked earlier) ∧ flushed = .panicked panic := by
  refine ⟨fun _ _ => rfl, fun _ _ same => Stack.printed_injective same, ?_⟩
  intro interpreter reached unlike stack m line echoed flushed
  obtain ⟨tracer, journal, evaluated⟩ :=
    Machine.evalLine_printed (reached.readsNumerals unlike) stack
  have done : (m.evalLine line).1 = .done := by rw [evaluated]
  have left : (m.evalLine line).2.stack = stack := by rw [evaluated]
  have kept : (m.eval line).2.stack = stack := by
    obtain ⟨output, journal, concluded⟩ := Machine.exists_conclude_eq (m.evalLine line)
    rw [Machine.eval_eq_conclude, concluded]
    exact left
  have same : (m.eval line).1 = (Machine.finish echoed).1 := by
    obtain ⟨echo, flush⟩ : (m.evalLine line).2.echoStack.1 = echoed.1 ∧
        (m.evalLine line).2.echoStack.2.flush.1 = echoed.2.flush.1 := by
      rw [evaluated]
      exact Machine.echoStack_congr rfl rfl rfl
    have concluded : m.eval line = Machine.finish (m.evalLine line).2.echoStack := by
      simp only [Machine.eval_eq_conclude, Machine.conclude, done, Outcome.recover]
    rw [concluded]
    exact Machine.finish_congr echo flush
  refine ⟨done, left, kept, same, ?_, ?_, ?_⟩
  · rw [same, Machine.finish_done_iff]
  · intro failure
    rw [same, Machine.finish_failed_iff]
  · intro panic
    rw [same, Machine.finish_panicked_iff]

/-- A word and a constant whose names are no numerals, only because they are too large or lack
a digit, and the echo of the stack. -/
def echoing : OnConsole :=
  let memory : Target := .fresh (Device.fresh .memory)
  ((Session.start (.group [.one (.output memory), .one (.echo true)])).eval
    (text ": 2147483648 . ; 7 constant -")).2

/-- The stack is echoed into a buffer that cannot be emptied without a panic. -/
def bursting : OnConsole :=
  let device := Device.fresh (.plain (some ⟨2, .panic⟩))
  Session.start (.group [.one (.output (.fresh device)), .one (.echo true)])

theorem eval_printed_echoing :
    let m := { echoing.machine with stack := [] }
    let stack : Stack := [-2147483648, 0, -1, 2147483647]
    Reachable echoing ∧ echoing.machine.words.names = [text "2147483648"] ∧
      echoing.machine.constants.names = [text "-"] ∧
      stack.printed.unframed = text "2147483647 -1 0 -2147483648" ∧
      (m.eval (text "2147483647 -1 0 -2147483648")).1 = .done ∧
      (m.eval (text "2147483647 -1 0 -2147483648")).2.stack = stack ∧
      Reachable bursting ∧
      ({ bursting.machine with stack := [] }.eval (text "1")).1 =
        .panicked (.value (text "writer exploded")) := by
  intro m stack
  have line : stack.printed.unframed = text "2147483647 -1 0 -2147483648" := by decide +kernel
  have reached : Reachable echoing := (Reachable.start _).eval _
  obtain ⟨-, -, evaluates⟩ := eval_printed (σ := Console)
  obtain ⟨-, -, left, -, succeeds, -, -⟩ := evaluates echoing reached (by decide +kernel) stack
  rw [line] at left succeeds
  have one : (Stack.printed [1]).unframed = text "1" := by decide +kernel
  obtain ⟨-, -, -, -, -, -, panics⟩ :=
    evaluates bursting (Reachable.start _) (by decide +kernel) [1]
  rw [one] at panics
  have echoed : { bursting.machine with stack := [1] }.echoStack.1 = .done := by decide +kernel
  have bursts : (.panicked (.value (text "writer exploded")) : Outcome) =
      { bursting.machine with stack := [1] }.echoStack.2.flush.1 := by decide +kernel
  refine ⟨reached, by decide +kernel, by decide +kernel, line,
    succeeds.mpr ⟨by decide +kernel, by decide +kernel⟩, left, Reachable.start _, ?_⟩
  refine (panics _).mpr (.inr ⟨?_, bursts.symm⟩)
  intro earlier panicked
  rw [echoed] at panicked
  cases panicked

/-- An output that takes everything, but fails to flush. -/
def unflushable : OnConsole :=
  let device := Device.fresh (.flushing none (some (.other (text "disk full"))))
  Session.start (.one (.output (.fresh device)))

/-- A line of numerals fails if the flush behind it does, although its cells have been
pushed. -/
theorem eval_printed_unflushable :
    let m := { unflushable.machine with stack := [] }
    let line := (Stack.printed [1]).unframed
    Reachable unflushable ∧ unflushable.machine.constants.names = [] ∧
      (m.eval line).1 = .failed (.other (text "disk full")) ∧ (m.eval line).2.stack = [1] :=
  ⟨Reachable.start _, by decide +kernel, by decide +kernel, by decide +kernel⟩

end Interpreter

end LineForth
