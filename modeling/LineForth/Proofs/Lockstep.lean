import LineForth.Proofs.Moments
import LineForth.Proofs.Output.Traffic

/-!
# Two runs in step

Two runs of the same tokens are compared step by step. Related machines stay related
and the second run ends as the first one does, for as long as the two are not excused
from the comparison. An excuse is a fact about two results, one of either run, and it
must last: nothing that may still happen on the way to the end of the tokens takes it
back. What is asked of the single steps is listed in `Lockstep`; from there it is
carried over programs and, by induction on the calls that are still allowed, over
calls. The steps may be restricted to those that the first run comes to.
-/

set_option autoImplicit false

namespace LineForth

namespace Moment

variable {σ : Type} [Output σ]

/-- From this moment on, the program comes to permitted instructions only. -/
def Permits (permitted : Machine σ → Instruction → Prop) (moment : Moment σ) : Prop :=
  ∀ later, Relation.ReflTransGen Next moment later → ∀ instruction rest,
    later.program.instructions = instruction :: rest → permitted later.machine instruction

theorem Permits.next {permitted : Machine σ → Instruction → Prop} {moment later : Moment σ}
    (permits : moment.Permits permitted) (next : Next moment later) : later.Permits permitted := by
  intro last path
  exact permits last (.head next path)

end Moment

/-- The instruction does not call a word. -/
def Machine.CallsNothing {σ : Type} (m : Machine σ) (instruction : Instruction) : Prop :=
  ∀ word, instruction = .refer word → m.words.lookup? word = none

theorem Machine.calls_or_callsNothing {σ : Type} (m : Machine σ) (instruction : Instruction) :
    (∃ word body, instruction = .refer word ∧ m.words.lookup? word = some body) ∨
      m.CallsNothing instruction := by
  by_cases calls : ∃ word body, instruction = .refer word ∧ m.words.lookup? word = some body
  · exact .inl calls
  · right
    rintro word rfl
    cases found : m.words.lookup? word with
    | none => rfl
    | some body => exact absurd ⟨word, body, rfl, found⟩ calls

/-- The instruction does not clear the stack. -/
def Machine.LeavesBottom {σ : Type} (m : Machine σ) (instruction : Instruction) : Prop :=
  ∀ token, instruction = .refer token → m.meaning token ≠ .builtin .clearStack

theorem Moment.permits_leavesBottom {σ : Type} [Output σ] {moment : Moment σ}
    (keeps : ∀ later, Relation.ReflTransGen Next moment later → ¬ later.Operates .clearStack) :
    moment.Permits Machine.LeavesBottom := by
  intro later path instruction rest next
  rintro token rfl meaning
  exact keeps later path ⟨token, rest, next, meaning⟩

namespace Machine

variable {σ τ : Type}

/-- What becomes of a result on the way to the end of the tokens: behind success the
output may go on, and a call that returns may put its word in front. -/
inductive Onward [Output σ] : Outcome × Machine σ → Outcome × Machine σ → Prop
  | further {m after : Machine σ} (outcome : Outcome)
      (path : Relation.ReflTransGen Output.Next m.output after.output) :
      Onward (.done, m) (outcome, after)
  | returned (word : Token) (outcome : Outcome) (m : Machine σ) :
      Onward (outcome, m) (outcome.blame word, m.leave)

theorem onward_performAll [Output σ] {levels : Nat} {ending : Outcome} {instruction : Instruction}
    {rest : List Instruction} {m : Machine σ}
    (done : (m.perform (call levels) instruction).1 = .done) :
    Onward (m.perform (call levels) instruction)
      (m.performAll (call levels) ending (instruction :: rest)) := by
  rw [performAll_cons_of_done done]
  rcases performed : m.perform (call levels) instruction with ⟨outcome, after⟩
  rw [performed] at done
  cases done
  apply Onward.further
  have path := performAll_output (call_output levels) ending rest
    (after.traceRule (m.ruleName instruction) instruction.opener)
  simpa only [traceRule, trace_output] using path

/-- The second result repeats the first, unless the two are excused. -/
def InStep (excused : Outcome × Machine σ → Outcome × Machine τ → Prop)
    (related : Machine σ → Machine τ → Prop) (first : Outcome × Machine σ)
    (second : Outcome × Machine τ) : Prop :=
  excused first second ∨ (second.1 = first.1 ∧ related first.2 second.2)

/-- What two runs need to stay in step. The numbers of calls that they may still make
are `paired`. -/
structure Lockstep [Output σ] [Output τ] (permitted : Machine σ → Instruction → Prop)
    (paired : Nat → Nat → Prop) (excused : Outcome × Machine σ → Outcome × Machine τ → Prop)
    (related : Machine σ → Machine τ → Prop) : Prop where
  onward_first : ∀ {first later second}, excused first second → Onward first later →
    excused later second
  onward_second : ∀ {first second later}, excused first second → Onward second later →
    excused first later
  lookup : ∀ {m m'} word, related m m' → permitted m (.refer word) →
    m'.words.lookup? word = m.words.lookup? word
  /-- An instruction that calls no word. -/
  step : ∀ {m m' levels levels'} instruction, related m m' → permitted m instruction →
    m.CallsNothing instruction →
    InStep excused related (m.perform (call levels) instruction)
      (m'.perform (call levels') instruction)
  traced : ∀ {m m' after after'} instruction, related m m' → related after after' →
    related (after.traceRule (m.ruleName instruction) instruction.opener)
      (after'.traceRule (m'.ruleName instruction) instruction.opener)
  enter : ∀ {m m'}, related m m' → related m.enter m'.enter
  leave : ∀ {m m'}, related m m' → related m.leave m'.leave
  nested : ∀ {levels levels'}, paired (levels + 1) (levels' + 1) → paired levels levels'
  /-- A call that one of the runs refuses. -/
  refused : ∀ {m m' levels levels'} word body, related m m' → paired levels levels' →
    levels = 0 ∨ levels' = 0 →
    InStep excused related (call levels word body m) (call levels' word body m')

namespace Lockstep

variable [Output σ] [Output τ] {permitted : Machine σ → Instruction → Prop}
  {paired : Nat → Nat → Prop} {excused : Outcome × Machine σ → Outcome × Machine τ → Prop}
  {related : Machine σ → Machine τ → Prop} {levels levels' : Nat} {ending : Outcome}
  {m : Machine σ} {m' : Machine τ}

/-- An excuse at an instruction excuses the program that goes on with it. -/
theorem excused_performAll (lockstep : Lockstep permitted paired excused related)
    {instruction : Instruction} {rest : List Instruction}
    (excuse : excused (m.perform (call levels) instruction)
      (m'.perform (call levels') instruction)) :
    excused (m.performAll (call levels) ending (instruction :: rest))
      (m'.performAll (call levels') ending (instruction :: rest)) := by
  have first : excused (m.performAll (call levels) ending (instruction :: rest))
      (m'.perform (call levels') instruction) := by
    by_cases done : (m.perform (call levels) instruction).1 = .done
    · exact lockstep.onward_first excuse (onward_performAll done)
    · rw [performAll_cons_of_ne_done done]
      exact excuse
  by_cases done : (m'.perform (call levels') instruction).1 = .done
  · exact lockstep.onward_second first (onward_performAll done)
  · rw [performAll_cons_of_ne_done done]
    exact first

theorem performAll_of_calls (lockstep : Lockstep permitted paired excused related)
    {active : List Token} {instructions : List Instruction}
    (calls : ∀ {word body rest} {m : Machine σ} {m' : Machine τ},
      m.words.lookup? word = some body → related m m' →
      Moment.Permits permitted ⟨active, levels, ⟨.refer word :: rest, ending⟩, m⟩ →
      InStep excused related (call levels word body m) (call levels' word body m'))
    (relation : related m m')
    (permits : Moment.Permits permitted ⟨active, levels, ⟨instructions, ending⟩, m⟩) :
    InStep excused related (m.performAll (call levels) ending instructions)
      (m'.performAll (call levels') ending instructions) := by
  induction instructions generalizing m m' with
  | nil => exact .inr ⟨rfl, relation⟩
  | cons instruction rest inductionHypothesis =>
    have performed : InStep excused related (m.perform (call levels) instruction)
        (m'.perform (call levels') instruction) := by
      rcases m.calls_or_callsNothing instruction with ⟨word, body, rfl, defined⟩ | callsNothing
      · have defined' := (lockstep.lookup word relation (permits _ .refl _ _ rfl)).trans defined
        rw [perform_refer_of_defined defined, perform_refer_of_defined defined']
        exact calls defined relation permits
      · exact lockstep.step instruction relation (permits _ .refl _ _ rfl) callsNothing
    rcases performed with excuse | ⟨same, relatedAfter⟩
    · exact .inl (lockstep.excused_performAll excuse)
    · by_cases done : (m.perform (call levels) instruction).1 = .done
      · rw [performAll_cons_of_done done, performAll_cons_of_done (same.trans done)]
        exact inductionHypothesis (lockstep.traced instruction relation relatedAfter)
          (permits.next (.past done))
      · rw [performAll_cons_of_ne_done done,
          performAll_cons_of_ne_done (by rw [same]; exact done)]
        exact .inr ⟨same, relatedAfter⟩

theorem performAll (lockstep : Lockstep permitted paired excused related) {active : List Token}
    {instructions : List Instruction} (pair : paired levels levels') (relation : related m m')
    (permits : Moment.Permits permitted ⟨active, levels, ⟨instructions, ending⟩, m⟩) :
    InStep excused related (m.performAll (call levels) ending instructions)
      (m'.performAll (call levels') ending instructions) := by
  induction levels generalizing active levels' ending instructions m m' with
  | zero =>
    apply lockstep.performAll_of_calls ?_ relation permits
    intro word body rest m m' defined relation _
    exact lockstep.refused word body relation pair (.inl rfl)
  | succ levels inductionHypothesis =>
    apply lockstep.performAll_of_calls ?_ relation permits
    intro word body rest m m' defined relation permits
    cases levels' with
    | zero => exact lockstep.refused word body relation pair (.inr rfl)
    | succ levels' =>
      have inside := inductionHypothesis (lockstep.nested pair) (lockstep.enter relation)
        (permits.next (.into defined))
      rcases inside with excuse | ⟨same, relatedAfter⟩
      · have returned := lockstep.onward_first excuse (.returned word _ _)
        exact .inl (lockstep.onward_second returned (.returned word _ _))
      · refine .inr ⟨?_, lockstep.leave relatedAfter⟩
        exact congrArg (Outcome.blame word) same

/-- Two evaluations of the same tokens stay in step. -/
theorem evalTokens (lockstep : Lockstep permitted paired excused related) (tokens : List Token)
    (pair : paired (m.maxDepth - m.depth) (m'.maxDepth - m'.depth)) (relation : related m m')
    (permits : (Moment.ofTokens tokens m).Permits permitted) :
    InStep excused related (m.evalTokens tokens) (m'.evalTokens tokens) :=
  lockstep.performAll pair relation permits

end Lockstep

/-- Machines on which an instruction does the same, as far as the output lets it. -/
structure Same (m : Machine σ) (m' : Machine τ) : Prop where
  stack : m'.stack = m.stack
  words : m'.words = m.words
  constants : m'.constants = m.constants

namespace Same

variable {m : Machine σ} {m' : Machine τ}

theorem trace (same : Same m m') (mark message mark' message' : Bytes) :
    Same (m.trace mark message) (m'.trace mark' message') := by
  constructor
  · simpa using same.stack
  · simpa using same.words
  · simpa using same.constants

theorem meaning (same : Same m m') (token : Token) : m'.meaning token = m.meaning token := by
  unfold Machine.meaning
  rw [same.words, same.constants]

theorem defineWord (same : Same m m') (name : Token) (body : List Token) :
    Same (m.defineWord name body) (m'.defineWord name body) := by
  obtain ⟨message, first⟩ := m.exists_defineWord_eq name body
  obtain ⟨message', second⟩ := m'.exists_defineWord_eq name body
  rw [first, second]
  apply trace
  exact ⟨same.stack, by simp only [same.words], same.constants⟩

theorem bindConstant (same : Same m m') (name : Token) :
    (m'.bindConstant name).1 = (m.bindConstant name).1 ∧
      Same (m.bindConstant name).2 (m'.bindConstant name).2 := by
  unfold Machine.bindConstant
  rw [same.stack]
  split
  next value rest _ =>
    obtain ⟨message, first⟩ := { m with stack := rest }.exists_defineConstant_eq name value
    obtain ⟨message', second⟩ := { m' with stack := rest }.exists_defineConstant_eq name value
    rw [first, second]
    refine ⟨rfl, ?_⟩
    apply trace
    exact ⟨rfl, same.words, by simp only [same.constants]⟩
  next failure rest _ => exact ⟨rfl, rfl, same.words, same.constants⟩

end Same

theorem bindConstant_output (m : Machine σ) (name : Token) :
    (m.bindConstant name).2.output = m.output := by
  unfold bindConstant
  split
  next value rest _ =>
    obtain ⟨message, same⟩ := { m with stack := rest }.exists_defineConstant_eq name value
    rw [same, trace_output]
  next => rfl

theorem defineWord_output (m : Machine σ) (name : Token) (body : List Token) :
    (m.defineWord name body).output = m.output := by
  obtain ⟨message, same⟩ := m.exists_defineWord_eq name body
  rw [same, trace_output]

/-- On machines that are the same, an instruction that calls no word either writes the
same octets on both, or it leaves the outputs alone and does the same. -/
theorem Same.perform [Output σ] [Output τ] {m : Machine σ} {m' : Machine τ} (same : Same m m')
    {instruction : Instruction} (call : Call σ) (call' : Call τ)
    (callsNothing : m.CallsNothing instruction) :
    (∃ passage octets, m.perform call instruction = m.write passage octets ∧
      m'.perform call' instruction = m'.write passage octets) ∨
    ((m'.perform call' instruction).1 = (m.perform call instruction).1 ∧
      Same (m.perform call instruction).2 (m'.perform call' instruction).2 ∧
      (m.perform call instruction).2.output = m.output ∧
      (m'.perform call' instruction).2.output = m'.output) := by
  cases instruction with
  | define name body =>
    exact .inr ⟨rfl, same.defineWord name body, m.defineWord_output name body,
      m'.defineWord_output name body⟩
  | constant name =>
    obtain ⟨outcome, after⟩ := same.bindConstant name
    exact .inr ⟨outcome, after, m.bindConstant_output name, m'.bindConstant_output name⟩
  | print =>
    refine .inl ⟨_, _, rfl, ?_⟩
    simp only [Machine.perform, printStack, same.stack]
  | words =>
    refine .inl ⟨_, _, rfl, ?_⟩
    simp only [Machine.perform, listWords, same.words]
  | say line => exact .inl ⟨_, _, rfl, rfl⟩
  | refer token =>
    have undefined := callsNothing token rfl
    simp only [Machine.perform, refer, same.meaning token]
    right
    cases meaning : m.meaning token with
    | word body =>
      rw [meaning_eq_word_iff, undefined] at meaning
      cases meaning
    | builtin operator =>
      refine ⟨?_, ⟨?_, same.words, same.constants⟩, rfl, rfl⟩
      all_goals simp only [operate, same.stack]
    | constant value =>
      exact ⟨rfl, ⟨by simp only [push, same.stack], same.words, same.constants⟩, rfl, rfl⟩
    | literal value =>
      exact ⟨rfl, ⟨by simp only [push, same.stack], same.words, same.constants⟩, rfl, rfl⟩
    | unknown => exact ⟨rfl, same, rfl, rfl⟩

end Machine

end LineForth
