import LineForth.Proofs.Lockstep

/-!
# Two runs side by side

A simulation relates the machines of two runs of the same tokens. It says, for
each kind of instruction, that related machines stay related and that the second
run ends as the first one does. The first run may be excused from the comparison
by how it ends; an excused ending stays excused on its way through the active
calls. Two runs that a simulation relates stay in step.
-/

set_option autoImplicit false

namespace LineForth

namespace Machine

variable {σ τ : Type}

/-- The second result repeats the first, unless the first is excused. -/
def Follows (excused : Outcome → Prop) (related : Machine σ → Machine τ → Prop)
    (first : Outcome × Machine σ) (second : Outcome × Machine τ) : Prop :=
  excused first.1 ∨ (second.1 = first.1 ∧ related first.2 second.2)

structure Simulation [Output σ] [Output τ] (excused : Outcome → Prop)
    (related : Machine σ → Machine τ → Prop) : Prop where
  /-- Success is compared. -/
  success : ¬ excused .done
  blame : ∀ {outcome} word, excused outcome → excused (outcome.blame word)
  meaning : ∀ {m m'} token, related m m' → m'.meaning token = m.meaning token
  depth : ∀ {m m'}, related m m' → m'.depth = m.depth
  traceRule : ∀ {m m'} rule token, related m m' →
    related (m.traceRule rule token) (m'.traceRule rule token)
  enter : ∀ {m m'}, related m m' → related m.enter m'.enter
  leave : ∀ {m m'}, related m m' → related m.leave m'.leave
  push : ∀ {m m'} value, related m m' → related (m.push value) (m'.push value)
  operate : ∀ {m m'} operator, related m m' →
    Follows excused related (m.operate operator) (m'.operate operator)
  define : ∀ {m m'} name body, related m m' →
    related (m.defineWord name body) (m'.defineWord name body)
  bind : ∀ {m m'} name, related m m' →
    Follows excused related (m.bindConstant name) (m'.bindConstant name)
  print : ∀ {m m'}, related m m' → Follows excused related m.printStack m'.printStack
  list : ∀ {m m'}, related m m' → Follows excused related m.listWords m'.listWords
  say : ∀ {m m'} line, related m m' → Follows excused related (m.say line) (m'.say line)

theorem ruleName_congr {m : Machine σ} {m' : Machine τ}
    (same : ∀ token, m'.meaning token = m.meaning token) (instruction : Instruction) :
    m'.ruleName instruction = m.ruleName instruction := by
  cases instruction <;> simp [ruleName, same]

namespace Simulation

variable [Output σ] [Output τ] {excused : Outcome → Prop}
  {related : Machine σ → Machine τ → Prop} {m : Machine σ} {m' : Machine τ}

theorem step (simulation : Simulation excused related) {levels levels' : Nat}
    (instruction : Instruction) (relation : related m m')
    (callsNothing : m.CallsNothing instruction) :
    Follows excused related (m.perform (call levels) instruction)
      (m'.perform (call levels') instruction) := by
  cases instruction with
  | define name body => exact .inr ⟨rfl, simulation.define name body relation⟩
  | print => exact simulation.print relation
  | words => exact simulation.list relation
  | constant name => exact simulation.bind name relation
  | say line => exact simulation.say line relation
  | refer token =>
    simp only [Machine.perform, refer, simulation.meaning token relation]
    cases meaning : m.meaning token with
    | word body =>
      rw [meaning_eq_word_iff, callsNothing token rfl] at meaning
      cases meaning
    | builtin operator => exact simulation.operate operator relation
    | constant value => exact .inr ⟨rfl, simulation.push value relation⟩
    | literal value => exact .inr ⟨rfl, simulation.push value relation⟩
    | unknown => exact .inr ⟨rfl, relation⟩

theorem onward (simulation : Simulation excused related) {first later : Outcome × Machine σ}
    (excuse : excused first.1) (onward : Onward first later) : excused later.1 := by
  cases onward with
  | further outcome path => exact absurd excuse simulation.success
  | returned word outcome m => exact simulation.blame word excuse

theorem lookup (simulation : Simulation excused related) (word : Token)
    (relation : related m m') : m'.words.lookup? word = m.words.lookup? word := by
  apply Option.ext
  intro body
  rw [← meaning_eq_word_iff, ← meaning_eq_word_iff, simulation.meaning word relation]

/-- The second run may allow more calls than the first, if the failure of a
refused call is excused. -/
theorem lockstep (simulation : Simulation excused related) :
    Lockstep (fun _ _ => True)
      (fun levels levels' => levels ≤ levels' ∧
        (levels < levels' → ∀ name depth, excused (.failed (.recursionLimit name depth))))
      (fun first _ => excused first.1) related where
  onward_first excuse onward := simulation.onward excuse onward
  onward_second excuse _ := excuse
  lookup word relation _ := simulation.lookup word relation
  step instruction relation _ callsNothing := simulation.step instruction relation callsNothing
  traced instruction relation relatedAfter := by
    rw [ruleName_congr fun token => simulation.meaning token relation]
    exact simulation.traceRule _ _ relatedAfter
  enter := simulation.enter
  leave := simulation.leave
  nested pair := ⟨by omega, fun less => pair.2 (by omega)⟩
  refused := by
    intro m m' levels levels' word body relation pair exhausted
    obtain rfl : levels = 0 := by omega
    cases levels' with
    | zero =>
      refine .inr ⟨?_, relation⟩
      simp only [call, simulation.depth relation]
    | succ more => exact .inl (pair.2 (Nat.succ_pos more) word m.depth)

theorem performAll (simulation : Simulation excused related) {levels levels' : Nat}
    (le : levels ≤ levels')
    (refused : levels < levels' → ∀ name depth, excused (.failed (.recursionLimit name depth)))
    (ending : Outcome) (instructions : List Instruction) (relation : related m m') :
    Follows excused related (m.performAll (call levels) ending instructions)
      (m'.performAll (call levels') ending instructions) := by
  have permits : Moment.Permits (fun _ _ => True) ⟨[], levels, ⟨instructions, ending⟩, m⟩ :=
    fun _ _ _ _ _ => trivial
  exact simulation.lockstep.performAll ⟨le, refused⟩ relation permits

theorem execute (simulation : Simulation excused related) {levels levels' : Nat}
    (le : levels ≤ levels')
    (refused : levels < levels' → ∀ name depth, excused (.failed (.recursionLimit name depth)))
    (tokens : List Token) (relation : related m m') :
    Follows excused related (m.execute (call levels) tokens)
      (m'.execute (call levels') tokens) :=
  simulation.performAll le refused _ _ relation

theorem performAll_same (simulation : Simulation excused related) (levels : Nat)
    (ending : Outcome) (instructions : List Instruction) (relation : related m m') :
    Follows excused related (m.performAll (call levels) ending instructions)
      (m'.performAll (call levels) ending instructions) :=
  simulation.performAll (Nat.le_refl levels) (fun less => absurd less (Nat.lt_irrefl levels))
    ending instructions relation

end Simulation

end Machine

end LineForth
