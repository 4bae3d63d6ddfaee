import LineForth.Builtin

/-!
# What operators do to the stack

Every operator but the one that clears the stack is put together from pushing a cell,
taking one off and the failure of a division. What holds of these parts holds of the
operators: cells below the operands are neither read nor moved, the height of the stack
changes by a number that is fixed for each operator, and nothing fails but for a missing
operand or a division by zero.
-/

set_option autoImplicit false

namespace LineForth

namespace Operation

/-- Put together from pushes and pops. Where the operation succeeds, the height of the
stack changes by `change`. -/
inductive Moves : Int → {result : Type} → Operation result → Prop
  | pure {result : Type} (value : result) : Moves 0 (pure value)
  | push (cell : Cell) : Moves 1 (Stack.push cell)
  | pop (operand : Bytes) : Moves (-1) (Stack.pop operand)
  | divideByZero {result : Type} (change : Int) :
      Moves change (throw .divideByZero : Operation result)
  | bind {first second : Type} {change further : Int} {operation : Operation first}
      {next : first → Operation second} (moves : Moves change operation)
      (rest : ∀ value, Moves further (next value)) : Moves (change + further) (operation >>= next)

/-- The same result with more cells at the bottom. -/
def Result.onto {result : Type} (base : Stack) :
    EStateM.Result Failure Stack result → EStateM.Result Failure Stack result
  | .ok value after => .ok value (after ++ base)
  | .error failure after => .error failure (after ++ base)

variable {result : Type} {operation : Operation result} {change : Int} {stack after : Stack}

theorem Moves.fails (moves : Moves change operation) {failure : Failure}
    (failed : operation stack = .error failure after) :
    (∃ operand, failure = .emptyStack operand) ∨ failure = .divideByZero := by
  induction moves generalizing stack with
  | pure value => cases failed
  | push cell => cases failed
  | pop operand =>
    cases stack with
    | nil =>
      cases failed
      exact .inl ⟨operand, rfl⟩
    | cons cell rest => cases failed
  | divideByZero change =>
    cases failed
    exact .inr rfl
  | bind moves rest firstHypothesis secondHypothesis =>
    simp only [Bind.bind, EStateM.bind] at failed
    split at failed
    next value middle _ => exact secondHypothesis value failed
    next earlier middle same =>
      cases failed
      exact firstHypothesis same

/-- Unless an operand is missing, cells at the bottom make no difference. -/
theorem Moves.frame (moves : Moves change operation) (stack base : Stack) :
    (∃ operand after, operation stack = .error (.emptyStack operand) after) ∨
      operation (stack ++ base) = Result.onto base (operation stack) := by
  induction moves generalizing stack with
  | pure value => exact .inr rfl
  | push cell => exact .inr rfl
  | pop operand =>
    cases stack with
    | nil => exact .inl ⟨operand, [], rfl⟩
    | cons cell rest => exact .inr rfl
  | divideByZero change => exact .inr rfl
  | @bind _ _ _ _ operation next moves rest firstHypothesis secondHypothesis =>
    simp only [Bind.bind, EStateM.bind]
    rcases firstHypothesis stack with ⟨operand, after, missing⟩ | framed
    · left
      rw [missing]
      exact ⟨operand, after, rfl⟩
    · rw [framed]
      cases operation stack with
      | error failure after => exact .inr rfl
      | ok value after => exact secondHypothesis value after

theorem Moves.height (moves : Moves change operation) {value : result}
    (succeeds : operation stack = .ok value after) :
    (after.length : Int) = stack.length + change := by
  induction moves generalizing stack after with
  | pure value =>
    cases succeeds
    simp
  | push cell =>
    cases succeeds
    simp
  | pop operand =>
    cases stack with
    | nil => cases succeeds
    | cons cell rest =>
      cases succeeds
      rw [List.length_cons]
      omega
  | divideByZero change => cases succeeds
  | bind moves rest firstHypothesis secondHypothesis =>
    simp only [Bind.bind, EStateM.bind] at succeeds
    split at succeeds
    next value middle same =>
      have first := firstHypothesis same
      have second := secondHypothesis value succeeds
      omega
    next => cases succeeds

end Operation

namespace Builtin

open Operation (Moves)

theorem moves_unary (builtin : Builtin) (result : Cell → Cell) : Moves 0 (unary builtin result) :=
  .bind (.pop _) fun _ => .push _

theorem moves_binary (builtin : Builtin) (result : Cell → Cell → Cell) :
    Moves (-1) (binary builtin result) :=
  .bind (.pop _) fun _ => .bind (.pop _) fun _ => .push _

theorem moves_division (builtin : Builtin) (result : Cell → Cell → Cell) :
    Moves (-1) (division builtin result) := by
  refine .bind (.pop _) fun top => .bind (.pop _) (?_ : ∀ below, Moves 1 _)
  intro below
  split
  · exact .divideByZero _
  · exact .push _

/-- By how much an operator changes the height of the stack. -/
def change : Builtin → Int
  | negate | abs | invert | swap | rot | clearStack => 0
  | dup | tuck | copyOver => 1
  | _ => -1

theorem moves_run {operator : Builtin} (keeps : operator ≠ .clearStack) :
    Moves operator.change operator.run := by
  cases operator with
  | clearStack => exact absurd rfl keeps
  | negate | abs | invert => exact moves_unary _ _
  | divide | modulus => exact moves_division _ _
  | dup => exact .bind (.pop _) fun _ => .bind (.push _) fun _ => .push _
  | drop => exact .bind (.pop _) fun _ => .pure _
  | swap =>
    exact .bind (.pop _) fun _ => .bind (.pop _) fun _ => .bind (.push _) fun _ => .push _
  | rot =>
    exact .bind (.pop _) fun _ => .bind (.pop _) fun _ => .bind (.pop _) fun _ =>
      .bind (.push _) fun _ => .bind (.push _) fun _ => .push _
  | nip => exact .bind (.pop _) fun _ => .bind (.pop _) fun _ => .push _
  | tuck | copyOver =>
    exact .bind (.pop _) fun _ => .bind (.pop _) fun _ =>
      .bind (.push _) fun _ => .bind (.push _) fun _ => .push _
  | add | subtract | multiply | max | min | equal | notEqual | greater | less | atLeast | atMost =>
    exact moves_binary _ _

theorem run_fails {operator : Builtin} {stack after : Stack} {failure : Failure}
    (failed : operator.run stack = .error failure after) :
    (∃ operand, failure = .emptyStack operand) ∨ failure = .divideByZero := by
  by_cases clears : operator = .clearStack
  · subst clears
    cases failed
  · exact (moves_run clears).fails failed

end Builtin

end LineForth
