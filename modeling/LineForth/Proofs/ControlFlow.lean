import LineForth.Proofs.Attribution
import LineForth.Proofs.Dictionary
import LineForth.Proofs.NestingLimit
import LineForth.Proofs.Operators

/-!
# Control flow and data

Which tokens come to be evaluated, and inside how many calls, is noted in a transcript.
It depends on the words alone: two machines with the same words, on the same tokens,
offer the same tokens in the same order, until one of them stops. Neither the cells of
the stack nor the constants, the output or the nesting limit make a difference before
that, even if bodies define words while they run. If both succeed and the stack is not
cleared, both change its height by as much.
-/

set_option autoImplicit false

namespace LineForth

/-- A token that is to be evaluated, and the number of calls that are active then. -/
structure Offer where
  token : Token
  depth : Nat
  deriving DecidableEq, Repr

/-- The result of an evaluation, with the tokens that were offered on the way to it. -/
structure Transcript (σ : Type) where
  offers : List Offer
  outcome : Outcome
  machine : Machine σ

namespace Transcript

variable {σ : Type}

def result (transcript : Transcript σ) : Outcome × Machine σ :=
  (transcript.outcome, transcript.machine)

/-- The transcript with more offers in front. -/
def offering (offers : List Offer) (transcript : Transcript σ) : Transcript σ :=
  { transcript with offers := offers ++ transcript.offers }

/-- Goes on after success. -/
def andThen (transcript : Transcript σ) (next : Machine σ → Transcript σ) : Transcript σ :=
  match transcript.outcome with
  | .done => (next transcript.machine).offering transcript.offers
  | _ => transcript

variable {transcript : Transcript σ} {next : Machine σ → Transcript σ}

theorem andThen_of_done (done : transcript.outcome = .done) :
    transcript.andThen next = (next transcript.machine).offering transcript.offers := by
  simp only [andThen, done]

theorem andThen_of_ne_done (stopped : transcript.outcome ≠ .done) :
    transcript.andThen next = transcript := by
  unfold andThen
  split
  next done => exact absurd done stopped
  next => rfl

theorem offers_andThen : transcript.offers <+: (transcript.andThen next).offers := by
  by_cases done : transcript.outcome = .done
  · rw [andThen_of_done done]
    exact List.prefix_append _ _
  · rewrite [andThen_of_ne_done done]
    exact List.prefix_rfl

end Transcript

/-- By how much the instruction changes the height of the stack, unless it calls a word. -/
def Instruction.change : Instruction → Int
  | constant _ => -1
  | refer token =>
    match Builtin.ofName? token with
    | some operator => operator.change
    | none => 1
  | define _ _ | print | words | say _ => 0

namespace Machine

section Transcribe

variable {σ : Type} [Output σ]

/-- What the call of an instruction offers, if it is a call. -/
def offersOf (call : Token → List Token → Machine σ → Transcript σ) (m : Machine σ) :
    Instruction → List Offer
  | .refer word =>
    match m.words.lookup? word with
    | some body => (call word body m).offers
    | none => []
  | _ => []

/-- Performs an instruction. -/
def transcribeStep (call : Token → List Token → Machine σ → Transcript σ)
    (instruction : Instruction) (m : Machine σ) : Transcript σ :=
  let performed := m.perform (fun word body before => (call word body before).result) instruction
  ⟨m.offersOf call instruction, performed.1, performed.2⟩

/-- Evaluates tokens one by one. A token is offered if it stands where an instruction may
start; the tokens that an instruction reads behind its first one are not. -/
def transcribe (call : Token → List Token → Machine σ → Transcript σ) :
    Pending → List Token → Machine σ → Transcript σ
  | state, [], m => ⟨[], state.ending, m⟩
  | state, token :: rest, m =>
    let evaluated := match state.feed token with
      | .pending next => transcribe call next rest m
      | .complete instruction =>
        (m.transcribeStep call instruction).andThen fun after =>
          transcribe call .idle rest (after.traceRule (m.ruleName instruction) instruction.opener)
      | .invalid failure => ⟨[], .failed failure, m⟩
    evaluated.offering (if state = .idle then [⟨token, m.depth⟩] else [])

def transcribeCall : (levels : Nat) → Token → List Token → Machine σ → Transcript σ
  | 0, name, _, m => ⟨[], .failed (.recursionLimit name m.depth), m⟩
  | levels + 1, name, body, m =>
    let inside := transcribe (transcribeCall levels) .idle body m.enter
    ⟨inside.offers, inside.outcome.blame name, inside.machine.leave⟩

/-- The evaluation of tokens under the limit of the machine, with its offers. -/
def transcript (tokens : List Token) (m : Machine σ) : Transcript σ :=
  transcribe (transcribeCall (m.maxDepth - m.depth)) .idle tokens m

section Result

variable {calling : Token → List Token → Machine σ → Transcript σ} {call : Call σ}
  (same : ∀ name body m, (calling name body m).result = call name body m)

include same

theorem result_transcribeStep (instruction : Instruction) (m : Machine σ) :
    (m.transcribeStep calling instruction).result = m.perform call instruction := by
  have calls : (fun name body m => (calling name body m).result) = call := by
    funext name body m
    exact same name body m
  rw [← calls]
  rfl

theorem result_transcribe (state : Pending) (tokens : List Token) (m : Machine σ) :
    (transcribe calling state tokens m).result =
      m.performAll call (Program.readFrom state tokens).ending
        (Program.readFrom state tokens).instructions := by
  induction tokens generalizing state m with
  | nil => rfl
  | cons token rest inductionHypothesis =>
    simp only [transcribe, Program.readFrom]
    cases state.feed token with
    | pending next => exact inductionHypothesis next m
    | invalid failure => rfl
    | complete instruction =>
      have performed := result_transcribeStep same instruction m
      by_cases done : (m.perform call instruction).1 = .done
      · rw [performAll_cons_of_done done, ← inductionHypothesis .idle, ← performed]
        rw [← performed] at done
        simp only [Transcript.andThen_of_done done]
        rfl
      · rw [performAll_cons_of_ne_done done, ← performed]
        rw [← performed] at done
        simp only [Transcript.andThen_of_ne_done done]
        rfl

end Result

theorem result_transcribeCall (levels : Nat) (name : Token) (body : List Token)
    (m : Machine σ) : (transcribeCall levels name body m).result = call levels name body m := by
  induction levels generalizing name body m with
  | zero => rfl
  | succ levels inductionHypothesis =>
    have inside := result_transcribe inductionHypothesis .idle body m.enter
    simp only [call, execute, Program.ofTokens, ← inside]
    rfl

/-- A transcript is one of the evaluation itself. -/
theorem result_transcript (tokens : List Token) (m : Machine σ) :
    (m.transcript tokens).result = m.evalTokens tokens :=
  result_transcribe (result_transcribeCall _) .idle tokens m

end Transcribe

variable {σ τ : Type}

/-- The part of a machine that the control flow depends on. -/
structure SameFlow (m : Machine σ) (m' : Machine τ) : Prop where
  words : m'.words = m.words
  depth : m'.depth = m.depth

/-- Two evaluations offer the same up to the point where one of them stops. -/
inductive Comparable (first : Transcript σ) (second : Transcript τ) : Prop
  | both (done : first.outcome = .done) (done' : second.outcome = .done)
      (offers : second.offers = first.offers) (same : SameFlow first.machine second.machine)
  | first (stopped : first.outcome ≠ .done) (shorter : first.offers <+: second.offers)
  | second (stopped : second.outcome ≠ .done) (shorter : second.offers <+: first.offers)

namespace Comparable

variable {first : Transcript σ} {second : Transcript τ}

theorem offering (comparable : Comparable first second) (offers : List Offer) :
    Comparable (first.offering offers) (second.offering offers) := by
  cases comparable with
  | both done done' same flow => exact .both done done' (congrArg (offers ++ ·) same) flow
  | first stopped shorter =>
    exact .first stopped ((List.prefix_append_right_inj offers).mpr shorter)
  | second stopped shorter =>
    exact .second stopped ((List.prefix_append_right_inj offers).mpr shorter)

theorem andThen (comparable : Comparable first second) {next : Machine σ → Transcript σ}
    {next' : Machine τ → Transcript τ}
    (further : SameFlow first.machine second.machine →
      Comparable (next first.machine) (next' second.machine)) :
    Comparable (first.andThen next) (second.andThen next') := by
  cases comparable with
  | both done done' same flow =>
    rw [Transcript.andThen_of_done done, Transcript.andThen_of_done done', same]
    exact (further flow).offering first.offers
  | first stopped shorter =>
    rw [Transcript.andThen_of_ne_done stopped]
    exact .first stopped (shorter.trans Transcript.offers_andThen)
  | second stopped shorter =>
    rw [Transcript.andThen_of_ne_done stopped]
    exact .second stopped (shorter.trans Transcript.offers_andThen)

end Comparable

theorem CallsNothing.congr {instruction : Instruction} {m : Machine σ} {m' : Machine τ}
    (callsNothing : m.CallsNothing instruction) (same : m'.words = m.words) :
    m'.CallsNothing instruction := by
  intro word refers
  rw [same, callsNothing word refers]

theorem offersOf_of_callsNothing {instruction : Instruction} {m : Machine σ}
    (callsNothing : m.CallsNothing instruction)
    (calling : Token → List Token → Machine σ → Transcript σ) :
    m.offersOf calling instruction = [] := by
  cases instruction with
  | refer token => simp only [offersOf, callsNothing token rfl]
  | define | print | words | constant | say => rfl

section Step

variable [Output σ] {call : Call σ} {instruction : Instruction} {m : Machine σ}
  (callsNothing : m.CallsNothing instruction)

include callsNothing

theorem perform_of_callsNothing (other : Call σ) :
    m.perform call instruction = m.perform other instruction := by
  cases instruction with
  | refer token =>
    have undefined := callsNothing token rfl
    simp only [perform, refer]
    cases meaning : m.meaning token with
    | word body =>
      rw [meaning_eq_word_iff, undefined] at meaning
      cases meaning
    | builtin | constant | literal | unknown => rfl
  | define | print | words | constant | say => rfl

theorem perform_depth_of_callsNothing : (m.perform call instruction).2.depth = m.depth := by
  have calls (name : Token) (body : List Token) (m : Machine σ) :
      SameSettings m (Machine.call 0 name body m).2 := SameSettings.framing.refl m
  rw [perform_of_callsNothing callsNothing (Machine.call 0)]
  exact (SameSettings.framing.perform calls instruction m).depth

/-- The words after an instruction that calls no word depend on the words before it. -/
theorem perform_words_congr [Output τ] {call' : Call τ} {m' : Machine τ}
    (same : m'.words = m.words) :
    (m'.perform call' instruction).2.words = (m.perform call instruction).2.words := by
  have callsNothing' := callsNothing.congr same
  rw [perform_of_callsNothing callsNothing (Machine.call 0),
    perform_of_callsNothing callsNothing' (Machine.call 0)]
  by_cases defines : ∃ name body, instruction = .define name body
  · obtain ⟨name, body, rfl⟩ := defines
    obtain ⟨message, first⟩ := m.exists_defineWord_eq name body
    obtain ⟨message', second⟩ := m'.exists_defineWord_eq name body
    simp only [perform, first, second, trace_words, same]
  · have other : ∀ name body, instruction ≠ .define name body := by
      intro name body equal
      exact defines ⟨name, body, equal⟩
    rw [perform_words other fun _ _ _ => rfl, perform_words other fun _ _ _ => rfl, same]

/-- The height of the stack changes by a number that the instruction alone decides. -/
theorem perform_height (leaves : m.LeavesBottom instruction)
    (done : (m.perform call instruction).1 = .done) :
    ((m.perform call instruction).2.stack.length : Int) =
      m.stack.length + instruction.change := by
  cases instruction with
  | define name body =>
    obtain ⟨message, same⟩ := m.exists_defineWord_eq name body
    simp [perform, same, Instruction.change]
  | print => simp [perform, printStack, write, Instruction.change]
  | words => simp [perform, listWords, write, Instruction.change]
  | say line => simp [perform, say, write, Instruction.change]
  | constant name =>
    simp only [perform, bindConstant] at done ⊢
    cases cells : m.stack with
    | nil =>
      rw [cells] at done
      cases done
    | cons value rest =>
      obtain ⟨message, same⟩ := { m with stack := rest }.exists_defineConstant_eq name value
      simp only [Stack.pop, same, trace_stack, Instruction.change, List.length_cons]
      omega
  | refer token =>
    have undefined := callsNothing token rfl
    have leaves := leaves token rfl
    simp only [perform, refer, meaning, undefined, Instruction.change] at done leaves ⊢
    cases named : Builtin.ofName? token with
    | some operator =>
      simp only [named, ne_eq, Meaning.builtin.injEq, operate, Builtin.apply] at done leaves ⊢
      split at done
      next value after ran => exact (Builtin.moves_run leaves).height ran
      next => cases done
    | none =>
      simp only [named] at done ⊢
      cases bound : m.constants.lookup? token with
      | some value => simp [push]
      | none =>
        cases parsed : Numeral.parse? token with
        | some value => simp [push]
        | none => simp [bound, parsed] at done

end Step

variable [Output σ] [Output τ] {m : Machine σ} {m' : Machine τ} {levels levels' : Nat}

theorem transcribeStep_of_called {calling : Token → List Token → Machine σ → Transcript σ}
    {word : Token} {body : List Token} (defined : m.words.lookup? word = some body) :
    m.transcribeStep calling (.refer word) = calling word body m := by
  unfold transcribeStep
  rw [perform_refer_of_defined defined]
  simp only [offersOf, defined]
  rfl

theorem SameFlow.transcribeStep (flow : SameFlow m m')
    (calls : ∀ word body {m : Machine σ} {m' : Machine τ}, SameFlow m m' →
      Comparable (transcribeCall levels word body m) (transcribeCall levels' word body m'))
    (instruction : Instruction) :
    Comparable (m.transcribeStep (transcribeCall levels) instruction)
      (m'.transcribeStep (transcribeCall levels') instruction) := by
  rcases m.calls_or_callsNothing instruction with ⟨word, body, rfl, defined⟩ | callsNothing
  · have defined' : m'.words.lookup? word = some body := by rw [flow.words, defined]
    rw [transcribeStep_of_called defined, transcribeStep_of_called defined']
    exact calls word body flow
  · have callsNothing' := callsNothing.congr flow.words
    have offers : (m.transcribeStep (transcribeCall levels) instruction).offers = [] :=
      offersOf_of_callsNothing callsNothing _
    have offers' : (m'.transcribeStep (transcribeCall levels') instruction).offers = [] :=
      offersOf_of_callsNothing callsNothing' _
    by_cases done : (m.transcribeStep (transcribeCall levels) instruction).outcome = .done
    · by_cases done' : (m'.transcribeStep (transcribeCall levels') instruction).outcome = .done
      · refine .both done done' (offers'.trans offers.symm) ⟨?_, ?_⟩
        · exact perform_words_congr callsNothing flow.words
        · exact (perform_depth_of_callsNothing callsNothing').trans
            (flow.depth.trans (perform_depth_of_callsNothing callsNothing).symm)
      · exact .second done' (by rw [offers']; exact List.nil_prefix)
    · exact .first done (by rw [offers]; exact List.nil_prefix)

theorem SameFlow.transcribe (flow : SameFlow m m')
    (calls : ∀ word body {m : Machine σ} {m' : Machine τ}, SameFlow m m' →
      Comparable (transcribeCall levels word body m) (transcribeCall levels' word body m'))
    (state : Pending) (tokens : List Token) :
    Comparable (transcribe (transcribeCall levels) state tokens m)
      (transcribe (transcribeCall levels') state tokens m') := by
  induction tokens generalizing state m m' with
  | nil =>
    by_cases done : state.ending = .done
    · exact .both done done rfl flow
    · exact .first done List.prefix_rfl
  | cons token rest inductionHypothesis =>
    simp only [Machine.transcribe, flow.depth]
    apply Comparable.offering
    cases state.feed token with
    | pending next => exact inductionHypothesis flow next
    | invalid failure => exact .first (by simp) List.prefix_rfl
    | complete instruction =>
      apply (flow.transcribeStep calls instruction).andThen
      intro after
      apply inductionHypothesis
      constructor
      · simpa only [traceRule, trace_words] using after.words
      · simpa only [traceRule, trace_depth] using after.depth

theorem SameFlow.transcribeCall (flow : SameFlow m m') (levels levels' : Nat) (word : Token)
    (body : List Token) :
    Comparable (transcribeCall levels word body m) (transcribeCall levels' word body m') := by
  induction levels generalizing levels' word body m m' with
  | zero => exact .first (by simp [Machine.transcribeCall]) List.nil_prefix
  | succ levels inductionHypothesis =>
    cases levels' with
    | zero => exact .second (by simp [Machine.transcribeCall]) List.nil_prefix
    | succ levels' =>
      have entered : SameFlow m.enter m'.enter := ⟨flow.words, congrArg (· + 1) flow.depth⟩
      have inside := entered.transcribe
        (fun word body {_ _} flow => inductionHypothesis flow levels' word body) .idle body
      cases inside with
      | both done done' offers same =>
        refine .both ?_ ?_ offers ⟨same.words, congrArg (· - 1) same.depth⟩
        · exact congrArg (Outcome.blame word) done
        · exact congrArg (Outcome.blame word) done'
      | first stopped shorter => exact .first (Outcome.blame_ne_done stopped word) shorter
      | second stopped shorter => exact .second (Outcome.blame_ne_done stopped word) shorter

theorem SameFlow.transcript (flow : SameFlow m m') (tokens : List Token) :
    Comparable (m.transcript tokens) (m'.transcript tokens) :=
  flow.transcribe (fun word body {_ _} flow => flow.transcribeCall _ _ word body) .idle tokens

/-- Two machines with the same words that are as far from the heights `height` and
`height'`, at which they started. -/
structure Level (height height' : Nat) (m : Machine σ) (m' : Machine τ) : Prop where
  words : m'.words = m.words
  heights : m'.stack.length + height = m.stack.length + height'

/-- Heights keep level until one of the runs stops. -/
theorem Level.lockstep (height height' : Nat) :
    Lockstep LeavesBottom (fun _ _ => True)
      (fun (first : Outcome × Machine σ) (second : Outcome × Machine τ) =>
        first.1 ≠ .done ∨ second.1 ≠ .done)
      (Level height height') where
  onward_first excuse onward := by
    cases onward with
    | further outcome path => exact .inr (excuse.resolve_left (absurd rfl))
    | returned word outcome m => exact excuse.imp_left (Outcome.blame_ne_done · word)
  onward_second excuse onward := by
    cases onward with
    | further outcome path => exact .inl (excuse.resolve_right (absurd rfl))
    | returned word outcome m => exact excuse.imp_right (Outcome.blame_ne_done · word)
  lookup word level _ := by rw [level.words]
  step := by
    intro m m' levels levels' instruction level leaves callsNothing
    have callsNothing' := callsNothing.congr level.words
    have leaves' : m'.LeavesBottom instruction := by
      intro token refers clears
      rw [meaning_eq_builtin_iff, level.words, ← meaning_eq_builtin_iff] at clears
      exact leaves token refers clears
    by_cases done : (m.perform (call levels) instruction).1 = .done
    · by_cases done' : (m'.perform (call levels') instruction).1 = .done
      · refine .inr ⟨done'.trans done.symm, perform_words_congr callsNothing level.words, ?_⟩
        have first := perform_height callsNothing leaves done
        have second := perform_height callsNothing' leaves' done'
        have heights := level.heights
        omega
      · exact .inl (.inr done')
    · exact .inl (.inl done)
  traced instruction _ level := by
    constructor
    · simpa only [traceRule, trace_words] using level.words
    · simpa only [traceRule, trace_stack] using level.heights
  enter level := ⟨level.words, level.heights⟩
  leave level := ⟨level.words, level.heights⟩
  nested _ := trivial
  refused := by
    intro m m' levels levels' word body level _ exhausted
    rcases exhausted with rfl | rfl
    · exact .inl (.inl (by simp [call]))
    · exact .inl (.inr (by simp [call]))

/-- The words alone decide which tokens come to be evaluated and inside how many calls,
as long as the evaluation goes on, and by how much the height of the stack changes. -/
theorem transcript_of_sameFlow (flow : SameFlow m m') (tokens : List Token) :
    ((m.transcript tokens).offers <+: (m'.transcript tokens).offers ∨
      (m'.transcript tokens).offers <+: (m.transcript tokens).offers) ∧
    ((m.evalTokens tokens).1 = .done → (m'.evalTokens tokens).1 = .done →
      (m'.transcript tokens).offers = (m.transcript tokens).offers ∧
      ((∀ moment, Relation.ReflTransGen Moment.Next (Moment.ofTokens tokens m) moment →
          ¬ moment.Operates .clearStack) →
        ((m'.evalTokens tokens).2.stack.length : Int) - m'.stack.length =
          (m.evalTokens tokens).2.stack.length - m.stack.length)) := by
  have comparable := flow.transcript tokens
  constructor
  · cases comparable with
    | both _ _ offers _ =>
      left
      rewrite [offers]
      exact List.prefix_rfl
    | first _ shorter => exact .inl shorter
    | second _ shorter => exact .inr shorter
  · intro done done'
    constructor
    · rw [← result_transcript] at done done'
      cases comparable with
      | both _ _ offers _ => exact offers
      | first stopped _ => exact absurd done stopped
      | second stopped _ => exact absurd done' stopped
    · intro keeps
      have start : Level m.stack.length m'.stack.length m m' := ⟨flow.words, Nat.add_comm _ _⟩
      rcases (Level.lockstep _ _).evalTokens tokens trivial start
        (Moment.permits_leavesBottom keeps) with (stopped | stopped) | ⟨_, level⟩
      · exact absurd done stopped
      · exact absurd done' stopped
      · have heights := level.heights
        omega

/-- The words of `redefining`, with another stack, another limit and another output. -/
def crowded : Machine (Recorded Console) :=
  { initial (Recorded.mk redefining.output []) with
    stack := [4, 5, 6]
    words := redefining.words
    constants := Table.empty.defineAll [(text "k", 9)]
    maxDepth := 2 }

theorem transcript_of_sameFlow_crowded :
    (redefining.evalTokens (tokenize (text "w  v + constant k k dup"))).1 = .done ∧
      (crowded.evalTokens (tokenize (text "w  v + constant k k dup"))).1 = .done ∧
      (crowded.transcript (tokenize (text "w  v + constant k k dup"))).offers =
        (redefining.transcript (tokenize (text "w  v + constant k k dup"))).offers ∧
      ((crowded.evalTokens (tokenize (text "w  v + constant k k dup"))).2.stack.length : Int) -
        crowded.stack.length = 2 := by
  have done : (redefining.evalTokens (tokenize (text "w  v + constant k k dup"))).1 = .done := by
    decide +kernel
  have done' : (crowded.evalTokens (tokenize (text "w  v + constant k k dup"))).1 = .done := by
    decide +kernel
  have checked : Moment.always (fun moment => moment.operator? != some .clearStack) 10
      (Moment.ofTokens (tokenize (text "w  v + constant k k dup")) redefining) = true := by
    decide +kernel
  have flow : SameFlow redefining crowded := ⟨rfl, rfl⟩
  obtain ⟨offers, heights⟩ :=
    (transcript_of_sameFlow flow (tokenize (text "w  v + constant k k dup"))).2 done done'
  exact ⟨done, done', offers,
    (heights (Moment.not_operates_of_always checked)).trans (by decide +kernel)⟩

end Machine

end LineForth
