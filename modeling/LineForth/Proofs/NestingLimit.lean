import LineForth.Output.Console
import LineForth.Proofs.Simulation

/-!
# The nesting limit only cuts runs off

A machine is run once under a limit and once under a higher one. Up to the first
call that the lower limit refuses, the two runs go through the same machines. The
failure of a refused call is never swallowed: it reaches the end of the tokens,
with at most the name of a word in front. So a run that ends in any other way was
not cut off, and the higher limit gives the very same result.
-/

set_option autoImplicit false

namespace LineForth

namespace Failure

/-- A call refused by the nesting limit is the failure, or a failure behind it. -/
def HitsLimit (failure : Failure) : Prop :=
  ∃ callee depth, recursionLimit callee depth ∈ failure.chain

theorem HitsLimit.blame {failure : Failure} (hits : failure.HitsLimit) (word : Bytes) :
    (failure.blame word).HitsLimit := by
  obtain ⟨callee, depth, membership⟩ := hits
  unfold Failure.blame
  split
  · exact ⟨callee, depth, membership⟩
  · exact ⟨callee, depth, List.mem_cons_of_mem _ membership⟩

end Failure

namespace Outcome

def HitsLimit : Outcome → Prop
  | failed failure => failure.HitsLimit
  | _ => False

theorem HitsLimit.blame {outcome : Outcome} (hits : outcome.HitsLimit) (word : Bytes) :
    (outcome.blame word).HitsLimit := by
  cases outcome with
  | done => exact hits
  | failed failure => exact Failure.HitsLimit.blame hits word
  | panicked panic => exact hits

theorem HitsLimit.recover {outcome : Outcome} (hits : outcome.HitsLimit) (name : Bytes) :
    (outcome.recover name).HitsLimit := by
  cases outcome with
  | done => exact hits
  | failed failure => exact hits
  | panicked panic => exact absurd hits id

/-- An operation has returned, and not with the failure of a refused call. -/
def ReturnsWithinLimit : Outcome → Prop
  | done => True
  | failed failure => ¬ failure.HitsLimit
  | panicked _ => False

end Outcome

namespace Machine

variable {σ : Type}

def withLimit (m : Machine σ) (limit : Nat) : Machine σ := { m with maxDepth := limit }

section Operations

variable (m : Machine σ) (limit : Nat)

theorem trace_withLimit (mark message : Bytes) :
    (m.withLimit limit).trace mark message = (m.trace mark message).withLimit limit := by
  rw [trace_eq, trace_eq]
  rfl

theorem defineWord_withLimit (name : Token) (body : List Token) :
    (m.withLimit limit).defineWord name body = (m.defineWord name body).withLimit limit := by
  unfold defineWord
  dsimp only [withLimit]
  cases m.words.lookup? name with
  | none => exact trace_withLimit { m with words := m.words.define name body } limit _ _
  | some before => exact trace_withLimit { m with words := m.words.define name body } limit _ _

theorem defineConstant_withLimit (name : Token) (value : Cell) :
    (m.withLimit limit).defineConstant name value =
      (m.defineConstant name value).withLimit limit := by
  unfold defineConstant
  dsimp only [withLimit]
  cases m.constants.lookup? name with
  | none =>
    exact trace_withLimit { m with constants := m.constants.define name value } limit _ _
  | some before =>
    exact trace_withLimit { m with constants := m.constants.define name value } limit _ _

theorem bindConstant_withLimit (name : Token) :
    (m.withLimit limit).bindConstant name =
      ((m.bindConstant name).1, (m.bindConstant name).2.withLimit limit) := by
  unfold bindConstant
  dsimp only [withLimit]
  split
  next value rest _ =>
    rw [← withLimit, ← defineConstant_withLimit]
    rfl
  next failure rest _ => rfl

variable [Output σ]

theorem echoStack_withLimit :
    (m.withLimit limit).echoStack = (m.echoStack.1, m.echoStack.2.withLimit limit) := by
  rcases m with
    ⟨stack, words, constants, depth, maxDepth, echo, tracer, reportsLines, output, journal⟩
  cases echo <;> rfl

theorem finish_withLimit (outcome : Outcome) :
    finish (outcome, m.withLimit limit) =
      ((finish (outcome, m)).1, (finish (outcome, m)).2.withLimit limit) := by
  cases outcome <;> rfl

theorem conclude_withLimit (outcome : Outcome) :
    conclude (outcome, m.withLimit limit) =
      ((conclude (outcome, m)).1, (conclude (outcome, m)).2.withLimit limit) := by
  cases outcome with
  | done =>
    simp only [conclude, Outcome.recover, echoStack_withLimit]
    exact finish_withLimit _ _ _
  | failed failure => rfl
  | panicked panic => rfl

end Operations

variable [Output σ]

/-- Machines that differ in their limit go through the same steps for as long as
no call is refused. -/
theorem simulation_withLimit (limit : Nat) :
    Simulation Outcome.HitsLimit (fun m m' : Machine σ => m' = m.withLimit limit) where
  success := id
  blame word hits := hits.blame word
  meaning := by rintro m _ token rfl; rfl
  depth := by rintro m _ rfl; rfl
  traceRule := by rintro m _ rule token rfl; exact trace_withLimit _ _ _ _
  enter := by rintro m _ rfl; rfl
  leave := by rintro m _ rfl; rfl
  push := by rintro m _ value rfl; rfl
  operate := by rintro m _ operator rfl; exact .inr ⟨rfl, rfl⟩
  define := by rintro m _ name body rfl; exact defineWord_withLimit _ _ _ _
  bind := by
    rintro m _ name rfl
    rw [bindConstant_withLimit]
    exact .inr ⟨rfl, rfl⟩
  print := by rintro m _ rfl; exact .inr ⟨rfl, rfl⟩
  list := by rintro m _ rfl; exact .inr ⟨rfl, rfl⟩
  say := by rintro m _ line rfl; exact .inr ⟨rfl, rfl⟩

theorem evalLine_withLimit (m : Machine σ) (line : Bytes) (limit : Nat) :
    (m.withLimit limit).evalLine line =
      execute (call (limit - m.depth)) (tokenize line)
        ((m.trace (text ">") (text "eval " ++ line.quote)).withLimit limit) := by
  simp only [evalLine, evalTokens, trace_withLimit]
  simp only [withLimit, trace_depth]

theorem evalLine_withLimit_of_le (m : Machine σ) (line : Bytes) {limit higher : Nat}
    (le : limit ≤ higher) (uncut : ¬ ((m.withLimit limit).evalLine line).1.HitsLimit) :
    (m.withLimit higher).evalLine line =
      (((m.withLimit limit).evalLine line).1,
        ((m.withLimit limit).evalLine line).2.withLimit higher) := by
  have simulation : Simulation Outcome.HitsLimit
      (fun m m' : Machine σ => m' = m.withLimit higher) := simulation_withLimit higher
  rw [evalLine_withLimit] at uncut
  rw [evalLine_withLimit, evalLine_withLimit]
  have refused : limit - m.depth < higher - m.depth → ∀ name depth,
      (Outcome.failed (.recursionLimit name depth)).HitsLimit := by
    intro _ name depth
    exact ⟨name, depth, List.mem_singleton_self _⟩
  rcases simulation.execute (by omega) refused (tokenize line) rfl with
    excuse | ⟨sameOutcome, sameMachine⟩
  · exact absurd excuse uncut
  · exact Prod.ext sameOutcome sameMachine

/-- A line that returns without the failure of a refused call came to no refused
call at all. -/
theorem evalLine_uncut_of_returns {m : Machine σ} {line : Bytes}
    (returns : (m.eval line).1.ReturnsWithinLimit) : ¬ (m.evalLine line).1.HitsLimit := by
  intro hits
  rw [eval_eq_conclude] at returns
  cases tokens : (m.evalLine line).1 with
  | done => simp [tokens, Outcome.HitsLimit] at hits
  | panicked panic => simp [tokens, Outcome.HitsLimit] at hits
  | failed failure =>
    rw [tokens] at hits
    have stopped : (m.evalLine line).1 ≠ .done := by simp [tokens]
    obtain ⟨recovered, same, concluded | ⟨panic, -, concluded⟩⟩ := conclude_of_ne_done stopped
    · rw [tokens] at same
      cases same
      rw [concluded] at returns
      exact returns hits
    · rw [concluded] at returns
      exact returns

/-- Raising the limit changes nothing for a line that was not cut off: neither how
it ends nor the machine it leaves, the limit itself apart. It is enough that the
line returns without the failure of a refused call; a panic of the flush, which
escapes, could hide such a failure. -/
theorem eval_withLimit_of_le (m : Machine σ) (line : Bytes) {limit higher : Nat}
    (le : limit ≤ higher)
    (uncut : ((m.withLimit limit).eval line).1.ReturnsWithinLimit ∨
      ¬ ((m.withLimit limit).evalLine line).1.HitsLimit) :
    (m.withLimit higher).eval line =
      (((m.withLimit limit).eval line).1, ((m.withLimit limit).eval line).2.withLimit higher) := by
  have spared : ¬ ((m.withLimit limit).evalLine line).1.HitsLimit := by
    rcases uncut with returns | spared
    · exact evalLine_uncut_of_returns returns
    · exact spared
  rw [eval_eq_conclude, evalLine_withLimit_of_le m line le spared, conclude_withLimit]
  rfl

/-- The word `w` redefines `v` while it runs, and then calls it. -/
def redefining : Machine Console :=
  { initial (⟨⟨[Device.fresh .memory], []⟩, .single (.device 0)⟩ : Console) with
    words := Table.empty.defineAll [(text "w", [text ":", text "v", text "7", text ";", text "v"]),
      (text "v", [text "1"])] }

theorem eval_withLimit_redefining :
    ((redefining.withLimit 2).eval (text "v w v .")).1 = .done ∧
      ((redefining.withLimit 2).eval (text "v w v .")).2.stack = [7, 7, 1] ∧
      (redefining.withLimit 9).eval (text "v w v .") =
        (((redefining.withLimit 2).eval (text "v w v .")).1,
          ((redefining.withLimit 2).eval (text "v w v .")).2.withLimit 9) := by
  have done : ((redefining.withLimit 2).eval (text "v w v .")).1 = .done := by decide +kernel
  refine ⟨done, by decide +kernel, eval_withLimit_of_le redefining _ (by decide) (.inl ?_)⟩
  rw [done]
  trivial

/-- A word that calls another one, and a device behind a buffer that panics when
it is written to. -/
def exploding : Machine Console :=
  let (sink, bank) := Bank.empty.attach (.fresh (Device.fresh (.plain (some ⟨0, .panic⟩))))
  { initial (⟨bank, sink⟩ : Console) with
    words := Table.empty.defineAll [(text "u", [text "v"]), (text "v", [text "1"])] }

/-- A panic of the flush can hide that a call was refused: the line ends in the same
way under both limits, but the stacks differ. -/
theorem eval_withLimit_exploding :
    ((exploding.withLimit 1).eval (text ". u")).1 = .panicked (.value (text "writer exploded")) ∧
      ((exploding.withLimit 1).eval (text ". u")).2.stack = [] ∧
      ((exploding.withLimit 2).eval (text ". u")).1 =
        .panicked (.value (text "writer exploded")) ∧
      ((exploding.withLimit 2).eval (text ". u")).2.stack = [1] := by
  refine ⟨?_, ?_, ?_, ?_⟩
  all_goals decide +kernel

end Machine

end LineForth
