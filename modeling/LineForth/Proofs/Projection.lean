import LineForth.Proofs.ParallelRuns
import LineForth.Proofs.Simulation

/-!
# Machines seen through a map

A machine may carry more than another one, as long as no step of an evaluation looks at what
it carries. Then nothing that a machine does can tell the two apart: a line and a whole run
on the one, seen through the map, are the same as on the other. `Projects` lists what is
asked of the map. A map of outputs that answer alike is one of this kind.
-/

set_option autoImplicit false

namespace LineForth

variable {σ τ : Type}

/-- An output and its image answer alike. -/
structure Output.Projects [Output σ] [Output τ] (f : σ → τ) : Prop where
  write : ∀ passage octets output, Output.write passage octets (f output) =
    ((Output.write passage octets output).1, f (Output.write passage octets output).2)
  flush : ∀ output, Output.flush (f output) =
    ((Output.flush output).1, f (Output.flush output).2)

namespace Machine

/-- A result, seen through the map. -/
def through (f : Machine σ → Machine τ) (result : Outcome × Machine σ) : Outcome × Machine τ :=
  (result.1, f result.2)

theorem repeats_iff_through {f : Machine σ → Machine τ} {first : Outcome × Machine σ}
    {second : Outcome × Machine τ} :
    Repeats (fun m m' => m' = f m) first second ↔ second = through f first := by
  rw [Prod.ext_iff]
  rfl

/-- A map that keeps all that evaluation looks at, and that its steps respect. -/
structure Projects [Output σ] [Output τ] (f : Machine σ → Machine τ) : Prop where
  stack : ∀ m, (f m).stack = m.stack
  words : ∀ m, (f m).words = m.words
  constants : ∀ m, (f m).constants = m.constants
  depth : ∀ m, (f m).depth = m.depth
  maxDepth : ∀ m, (f m).maxDepth = m.maxDepth
  echo : ∀ m, (f m).echo = m.echo
  withStack : ∀ m stack, { f m with stack := stack } = f { m with stack := stack }
  withWords : ∀ m words, { f m with words := words } = f { m with words := words }
  withConstants : ∀ m constants,
    { f m with constants := constants } = f { m with constants := constants }
  enter : ∀ m, (f m).enter = f m.enter
  leave : ∀ m, (f m).leave = f m.leave
  trace : ∀ m mark message, (f m).trace mark message = f (m.trace mark message)
  record : ∀ m events, (f m).record events = f (m.record events)
  noteLine : ∀ m location failure,
    (f m).noteLine location failure = f (m.noteLine location failure)
  write : ∀ m passage octets, (f m).write passage octets = through f (m.write passage octets)
  flush : ∀ m, (f m).flush = through f m.flush

namespace Projects

variable [Output σ] [Output τ] {f : Machine σ → Machine τ} (projects : Projects f) (m : Machine σ)

include projects

theorem meaning (token : Token) : (f m).meaning token = m.meaning token := by
  unfold Machine.meaning
  rw [projects.words, projects.constants]

theorem defineWord (name : Token) (body : List Token) :
    (f m).defineWord name body = f (m.defineWord name body) := by
  unfold Machine.defineWord
  rw [projects.words]
  cases m.words.lookup? name with
  | none => simp only [projects.withWords, projects.trace]
  | some before => simp only [projects.withWords, projects.trace]

theorem defineConstant (name : Token) (value : Cell) :
    (f m).defineConstant name value = f (m.defineConstant name value) := by
  unfold Machine.defineConstant
  rw [projects.constants]
  cases m.constants.lookup? name with
  | none => simp only [projects.withConstants, projects.trace]
  | some before => simp only [projects.withConstants, projects.trace]

theorem bindConstant (name : Token) :
    (f m).bindConstant name = through f (m.bindConstant name) := by
  unfold Machine.bindConstant
  rw [projects.stack]
  split
  next value rest _ => simp only [projects.withStack, projects.defineConstant, through]
  next failure rest _ => simp only [projects.withStack, through]

theorem perform (levels levels' : Nat) {instruction : Instruction}
    (callsNothing : m.CallsNothing instruction) :
    (f m).perform (call levels') instruction =
      through f (m.perform (call levels) instruction) := by
  cases instruction with
  | define name body => exact congrArg (Outcome.done, ·) (projects.defineWord m name body)
  | print =>
    simp only [Machine.perform, printStack, projects.stack]
    exact projects.write m _ _
  | words =>
    simp only [Machine.perform, listWords, projects.words]
    exact projects.write m _ _
  | constant name => exact projects.bindConstant m name
  | say line => exact projects.write m _ _
  | refer token =>
    have undefined := callsNothing token rfl
    simp only [Machine.perform, refer, projects.meaning]
    split
    next body meaning =>
      rw [meaning_eq_word_iff, undefined] at meaning
      cases meaning
    next operator _ => simp only [operate, projects.stack, projects.withStack, through]
    next value _ => simp only [push, projects.stack, projects.withStack, through]
    next value _ => simp only [push, projects.stack, projects.withStack, through]
    next => rfl

omit m

/-- The same tokens on both machines. -/
theorem lockstep :
    Lockstep (fun _ _ => True) Eq (fun _ _ => False)
      (fun (m : Machine σ) (m' : Machine τ) => m' = f m) where
  onward_first impossible _ := impossible
  onward_second impossible _ := impossible
  lookup := by
    rintro m _ word rfl _
    rw [projects.words]
  step := by
    rintro m _ levels levels' instruction rfl _ callsNothing
    rw [projects.perform m levels levels' callsNothing]
    exact .inr ⟨rfl, rfl⟩
  traced := by
    rintro m _ after _ instruction rfl rfl
    simp only [traceRule, ruleName_congr (projects.meaning m), projects.stack, projects.trace]
  enter := by
    rintro m _ rfl
    exact projects.enter m
  leave := by
    rintro m _ rfl
    exact projects.leave m
  nested same := Nat.succ.inj same
  refused := by
    rintro m _ levels _ word body rfl rfl exhausted
    obtain rfl : levels = 0 := by omega
    refine .inr ⟨?_, rfl⟩
    simp only [call, projects.depth]

theorem evalTokens (tokens : List Token) (m : Machine σ) :
    (f m).evalTokens tokens = through f (m.evalTokens tokens) := by
  have pair : m.maxDepth - m.depth = (f m).maxDepth - (f m).depth := by
    rw [projects.maxDepth, projects.depth]
  have inStep := projects.lockstep.evalTokens tokens pair rfl (fun _ _ _ _ _ => trivial)
  exact repeats_iff_through.mp inStep.repeats

/-- All that a run does, it does on both. -/
theorem parallel : Parallel (fun (m : Machine σ) (m' : Machine τ) => m' = f m) where
  trace := by
    rintro m _ mark message rfl
    exact projects.trace m mark message
  record := by
    rintro m _ events rfl
    exact projects.record m events
  noteLine := by
    rintro m _ location failure rfl
    exact projects.noteLine m location failure
  write := by
    rintro m _ passage octets rfl
    exact repeats_iff_through.mpr (projects.write m passage octets)
  flush := by
    rintro m _ rfl
    exact repeats_iff_through.mpr (projects.flush m)
  stack := by
    rintro m _ rfl
    exact projects.stack m
  echo := by
    rintro m _ rfl
    exact projects.echo m
  evalLine := by
    rintro m _ line rfl
    apply repeats_iff_through.mpr
    unfold evalLine
    rw [projects.trace]
    exact projects.evalTokens _ _

end Projects

end Machine

namespace Interpreter

/-- The interpreter with another machine and the same sources. -/
def mapMachine (f : Machine σ → Machine τ) (interpreter : Interpreter σ) : Interpreter τ :=
  ⟨f interpreter.machine, interpreter.sources⟩

variable [Output σ] [Output τ] {f : Machine σ → Machine τ}

/-- A run, seen through a map, is the run on the image. -/
theorem run_mapMachine (projects : Machine.Projects f) (context : Context)
    (interpreter : Interpreter σ) :
    (interpreter.mapMachine f).run context =
      ((interpreter.run context).1, (interpreter.run context).2.mapMachine f) := by
  have together : SideBySide (fun m m' => m' = f m) interpreter (interpreter.mapMachine f) :=
    ⟨rfl, rfl⟩
  obtain ⟨outcome, sources, machine⟩ := together.run projects.parallel context
  rcases ran : (interpreter.mapMachine f).run context with ⟨_, last, left⟩
  rw [ran] at outcome sources machine
  cases outcome
  cases sources
  cases machine
  rfl

end Interpreter

section MapOutput

def Machine.mapOutput (f : σ → τ) (m : Machine σ) : Machine τ := { m with output := f m.output }

theorem Machine.projects_mapOutput [Output σ] [Output τ] {f : σ → τ}
    (projects : Output.Projects f) : Machine.Projects (Machine.mapOutput f) where
  stack _ := rfl
  words _ := rfl
  constants _ := rfl
  depth _ := rfl
  maxDepth _ := rfl
  echo _ := rfl
  withStack _ _ := rfl
  withWords _ _ := rfl
  withConstants _ _ := rfl
  enter _ := rfl
  leave _ := rfl
  trace m mark message := by
    rw [trace_eq, trace_eq]
    rfl
  record _ _ := rfl
  noteLine m location failure := by
    unfold noteLine
    split
    all_goals
      split
      all_goals first | rfl | contradiction
  write m passage octets := by
    simp only [write, mapOutput, projects.write]
    rfl
  flush m := by
    simp only [flush, mapOutput, projects.flush]
    rfl

def Interpreter.mapOutput (f : σ → τ) (interpreter : Interpreter σ) : Interpreter τ :=
  ⟨interpreter.machine.mapOutput f, interpreter.sources⟩

/-- A run on an output, seen through a map, is the run on its image. -/
theorem Interpreter.run_mapOutput [Output σ] [Output τ] {f : σ → τ}
    (projects : Output.Projects f) (context : Context) (interpreter : Interpreter σ) :
    (interpreter.mapOutput f).run context =
      ((interpreter.run context).1, (interpreter.run context).2.mapOutput f) :=
  run_mapMachine (Machine.projects_mapOutput projects) context interpreter

end MapOutput

end LineForth
