import LineForth.Proofs.Frame
import Mathlib.Logic.Relation

/-!
# What evaluation does to its output

An evaluation does nothing to its output but write to it and flush it. So whatever
each write and each flush keeps, every evaluation keeps.
-/

set_option autoImplicit false

namespace LineForth

namespace Output

variable {σ : Type} [Output σ]

inductive Next : σ → σ → Prop
  | write (passage : Passage) (octets : Bytes) (output : σ) :
      Next output (Output.write passage octets output).2
  | flush (output : σ) : Next output (Output.flush output).2

end Output

namespace Machine

variable {σ : Type} [Output σ]

theorem perform_output {call : Call σ}
    (calls : ∀ name body m, Relation.ReflTransGen Output.Next m.output (call name body m).2.output)
    (instruction : Instruction) (m : Machine σ) :
    Relation.ReflTransGen Output.Next m.output (m.perform call instruction).2.output := by
  cases instruction with
  | define name body =>
    obtain ⟨message, same⟩ := m.exists_defineWord_eq name body
    simp only [perform, same, trace_output]
    exact .refl
  | print => exact .single (.write _ _ _)
  | words => exact .single (.write _ _ _)
  | say line => exact .single (.write _ _ _)
  | constant name =>
    simp only [perform, bindConstant]
    split
    next value rest _ =>
      obtain ⟨message, same⟩ := { m with stack := rest }.exists_defineConstant_eq name value
      simp only [same, trace_output]
      exact .refl
    next => exact .refl
  | refer word =>
    simp only [perform, refer]
    split
    next body _ => exact calls word body m
    all_goals exact .refl

theorem performAll_output {call : Call σ}
    (calls : ∀ name body m, Relation.ReflTransGen Output.Next m.output (call name body m).2.output)
    (ending : Outcome) (instructions : List Instruction) (m : Machine σ) :
    Relation.ReflTransGen Output.Next m.output
      (m.performAll call ending instructions).2.output := by
  apply performAll_preserves
    (P := fun current => Relation.ReflTransGen Output.Next m.output current.output)
  · intro instruction _ current path
    exact path.trans (perform_output calls instruction current)
  · intro current rule token path
    simpa only [traceRule, trace_output] using path
  · exact .refl

/-- A call does nothing to the output but write. -/
theorem call_output (levels : Nat) (name : Token) (body : List Token) (m : Machine σ) :
    Relation.ReflTransGen Output.Next m.output (call levels name body m).2.output := by
  induction levels generalizing name body m with
  | zero => exact .refl
  | succ levels inductionHypothesis =>
    exact performAll_output inductionHypothesis _ _ m.enter

theorem evalLine_output (line : Bytes) (m : Machine σ) :
    Relation.ReflTransGen Output.Next m.output (m.evalLine line).2.output := by
  have tokens := performAll_output (call_output (m.maxDepth - m.depth))
    (Program.ofTokens (tokenize line)).ending (Program.ofTokens (tokenize line)).instructions
    (m.trace (text ">") (text "eval " ++ line.quote))
  rw [trace_output] at tokens
  simpa only [evalLine, evalTokens, execute, trace_maxDepth, trace_depth] using tokens

theorem finish_output (result : Outcome × Machine σ) :
    Relation.ReflTransGen Output.Next result.2.output (finish result).2.output := by
  rcases result with ⟨outcome, m⟩
  cases outcome with
  | done => exact .single (.flush _)
  | failed failure => exact .single (.flush _)
  | panicked panic => exact .refl

theorem conclude_output (result : Outcome × Machine σ) :
    Relation.ReflTransGen Output.Next result.2.output (conclude result).2.output := by
  rcases result with ⟨outcome, m⟩
  cases outcome with
  | done =>
    have echoed : Relation.ReflTransGen Output.Next m.output m.echoStack.2.output := by
      unfold echoStack
      split
      · exact .single (.write _ _ _)
      · exact .refl
    exact echoed.trans (finish_output m.echoStack)
  | failed failure => exact finish_output (.failed failure, m)
  | panicked panic => exact finish_output (.failed (panic.recover (text "eval")), m)

theorem eval_output (line : Bytes) (m : Machine σ) :
    Relation.ReflTransGen Output.Next m.output (m.eval line).2.output :=
  (evalLine_output line m).trans (conclude_output _)

end Machine

end LineForth
