import LineForth.Proofs.RefusedCalls
import LineForth.Proofs.Sequencing
import LineForth.Session

/-!
# Which word a failure is attributed to

A line that does not succeed stops at one of its moments: a construct is not
finished, an instruction that calls nothing stops, or a call is refused. What stops
it goes through all active calls on its way out. The innermost call puts its word in
front of a failure, and the outer ones leave it at that; a panic passes through all
of them and is recovered behind the last.
-/

set_option autoImplicit false

namespace LineForth

namespace Failure

/-- The failures that evaluation raises by itself, the refusal of a call apart. -/
def isElementary : Failure → Bool
  | emptyStack _ => true
  | invalidWordName _ => true
  | unknownToken _ => true
  | unterminatedDefinition => true
  | unterminatedString => true
  | missingConstantName => true
  | divideByZero => true
  | _ => false

/-- The failure with the innermost of the active words in front, if there is one. -/
def attributed (active : List Token) (failure : Failure) : Failure :=
  match active with
  | [] => failure
  | word :: _ => inWord word failure

end Failure

namespace Outcome

/-- What becomes of an outcome on its way through the active calls, the innermost
first. -/
def unwind (active : List Token) (outcome : Outcome) : Outcome :=
  active.foldl (fun outcome word => outcome.blame word) outcome

theorem unwind_cons (word : Token) (active : List Token) (outcome : Outcome) :
    outcome.unwind (word :: active) = (outcome.blame word).unwind active := rfl

theorem blame_done (word : Token) : done.blame word = .done := rfl

theorem blame_ne_done {outcome : Outcome} (stopped : outcome ≠ .done) (word : Token) :
    outcome.blame word ≠ .done := by
  cases outcome with
  | done => exact absurd rfl stopped
  | failed failure => simp [blame]
  | panicked panic => simp [blame]

theorem unwind_panicked (active : List Token) (panic : Panic) :
    (panicked panic).unwind active = .panicked panic := by
  induction active with
  | nil => rfl
  | cons word active inductionHypothesis => exact inductionHypothesis

/-- No call adds a word to a failure that has one. -/
theorem unwind_inWord (active : List Token) (word : Token) (cause : Failure) :
    (failed (.inWord word cause)).unwind active = .failed (.inWord word cause) := by
  induction active with
  | nil => rfl
  | cons outer active inductionHypothesis => exact inductionHypothesis

theorem unwind_failed (active : List Token) {failure : Failure}
    (bare : failure.isInWord = false) :
    (failed failure).unwind active = .failed (failure.attributed active) := by
  cases active with
  | nil => rfl
  | cons word active =>
    have blamed : (failed failure).blame word = .failed (.inWord word failure) := by
      simp [blame, Failure.blame, bare]
    rw [unwind_cons, blamed]
    exact unwind_inWord active word failure

end Outcome

namespace Program

/-- A program that is not finished ends in a failure of its own. -/
theorem isElementary_of_ending {state : Pending} {tokens : List Token}
    (stopped : (readFrom state tokens).ending ≠ .done) :
    ∃ failure, (readFrom state tokens).ending = .failed failure ∧ failure.isElementary := by
  induction tokens generalizing state with
  | nil =>
    rcases state.ending_done_or_unfinished with done | unfinished | unfinished | unfinished
    · exact absurd done stopped
    all_goals exact ⟨_, unfinished, rfl⟩
  | cons token rest inductionHypothesis =>
    simp only [readFrom] at stopped ⊢
    cases reading : state.feed token with
    | pending next =>
      rw [reading] at stopped
      exact inductionHypothesis stopped
    | complete instruction =>
      rw [reading] at stopped
      exact inductionHypothesis stopped
    | invalid failure =>
      obtain ⟨name, rfl⟩ := Pending.eq_invalidWordName_of_feed reading
      exact ⟨_, rfl, rfl⟩

end Program

namespace Instruction

/-- Whether the instruction is one that writes to the output. -/
def writes : Instruction → Bool
  | print => true
  | words => true
  | say _ => true
  | _ => false

end Instruction

namespace Machine

variable {σ : Type}

/-- The machine, after all the active calls have been left. -/
def unwind (active : List Token) (m : Machine σ) : Machine σ :=
  active.foldl (fun m _ => m.leave) m

end Machine

namespace Moment

variable {σ : Type} [Output σ]

/-- The line stops at the moment, and nothing has been made of the outcome yet. -/
inductive Stops : Moment σ → Outcome → Prop
  /-- The tokens have run out, or cannot be read any further. -/
  | unfinished {active : List Token} {levels : Nat} {ending : Outcome} {m : Machine σ}
      (stopped : ending ≠ .done) : Stops ⟨active, levels, ⟨[], ending⟩, m⟩ ending
  /-- The next instruction calls no word, and it does not succeed. -/
  | instruction {active : List Token} {levels : Nat} {instruction : Instruction}
      {rest : List Instruction} {ending : Outcome} {m : Machine σ}
      (callsNothing : ∀ word, instruction = .refer word → m.words.lookup? word = none)
      (stopped : (m.perform (Machine.call levels) instruction).1 ≠ .done) :
      Stops ⟨active, levels, ⟨instruction :: rest, ending⟩, m⟩
        (m.perform (Machine.call levels) instruction).1
  /-- The next instruction is a call, and no more calls may become active. -/
  | refused {active : List Token} {word : Token} {body : List Token}
      {rest : List Instruction} {ending : Outcome} {m : Machine σ}
      (defined : m.words.lookup? word = some body) :
      Stops ⟨active, 0, ⟨.refer word :: rest, ending⟩, m⟩
        (.failed (.recursionLimit word m.depth))

/-- The next instruction writes, and the outcome is what the output makes of it. -/
def OutputStops (moment : Moment σ) (outcome : Outcome) : Prop :=
  ∃ instruction rest, moment.program.instructions = instruction :: rest ∧
    instruction.writes = true ∧ outcome ≠ .done ∧
    (moment.machine.perform (Machine.call moment.levels) instruction).1 = outcome

variable {moment later : Moment σ} {outcome : Outcome}

theorem Stops.ne_done (stops : moment.Stops outcome) : outcome ≠ .done := by
  cases stops with
  | unfinished stopped => exact stopped
  | instruction _ stopped => exact stopped
  | refused _ => simp

theorem Stops.result (stops : moment.Stops outcome) : moment.result.1 = outcome := by
  cases stops with
  | unfinished _ => rfl
  | instruction _ stopped => simp only [Moment.result, Machine.performAll_cons_of_ne_done stopped]
  | @refused active word body rest ending m defined =>
    have refusal : m.perform (Machine.call 0) (.refer word) =
        (.failed (.recursionLimit word m.depth), m) := Machine.perform_refer_of_defined defined
    have stopped : (m.perform (Machine.call 0) (.refer word)).1 ≠ .done := by simp [refusal]
    simp only [Moment.result, Machine.performAll_cons_of_ne_done stopped, refusal]

theorem stops_of_instruction {instruction : Instruction} {rest : List Instruction}
    (next : moment.program.instructions = instruction :: rest)
    (callsNothing : ∀ word, instruction = .refer word → moment.machine.words.lookup? word = none)
    (performed : (moment.machine.perform (Machine.call moment.levels) instruction).1 = outcome)
    (stopped : outcome ≠ .done) : moment.Stops outcome := by
  rcases moment with ⟨active, levels, ⟨instructions, ending⟩, m⟩
  dsimp only at next performed
  subst next performed
  exact .instruction callsNothing stopped

/-- What stops a body stops the program that called it, with the word in front, and the
machine leaves the call. -/
theorem result_of_called {active : List Token} {levels : Nat} {word : Token}
    {body : List Token} {rest : List Instruction} {ending : Outcome} {m : Machine σ}
    (defined : m.words.lookup? word = some body)
    (stopped : (result ⟨word :: active, levels, Program.ofTokens body, m.enter⟩).1 ≠ .done) :
    result ⟨active, levels + 1, ⟨.refer word :: rest, ending⟩, m⟩ =
      ((result ⟨word :: active, levels, Program.ofTokens body, m.enter⟩).1.blame word,
        (result ⟨word :: active, levels, Program.ofTokens body, m.enter⟩).2.leave) := by
  have called : m.perform (Machine.call (levels + 1)) (.refer word) =
      Machine.call (levels + 1) word body m := Machine.perform_refer_of_defined defined
  have unfinished : (m.perform (Machine.call (levels + 1)) (.refer word)).1 ≠ .done := by
    rw [called]
    exact fun done => stopped (Machine.execute_done_of_call done)
  calc result ⟨active, levels + 1, ⟨.refer word :: rest, ending⟩, m⟩
      = m.perform (Machine.call (levels + 1)) (.refer word) := by
        simp only [result, Machine.performAll_cons_of_ne_done unfinished]
    _ = _ := by rw [called]; rfl

/-- The result as it is seen outside of all calls. -/
def outside (moment : Moment σ) : Outcome × Machine σ :=
  (moment.result.1.unwind moment.active, moment.result.2.unwind moment.active)

/-- Seen from outside of all calls, a program that does not succeed ends as every
program does that it comes to and that does not succeed. -/
theorem Next.outside_eq (next : Next moment later) (stopped : later.result.1 ≠ .done) :
    moment.result.1 ≠ .done ∧ moment.outside = later.outside := by
  cases next with
  | @past active levels instruction rest ending m performed =>
    have same : result ⟨active, levels, ⟨instruction :: rest, ending⟩, m⟩ =
        result ⟨active, levels, ⟨rest, ending⟩, Machine.traceRule _ _ _⟩ :=
      Machine.performAll_cons_of_done performed
    rw [outside, same]
    exact ⟨stopped, rfl⟩
  | @into active levels word body rest ending m defined =>
    rw [outside, result_of_called defined stopped]
    exact ⟨Outcome.blame_ne_done stopped word, rfl⟩

theorem outside_of_path (path : Relation.ReflTransGen Next moment later)
    (stopped : later.result.1 ≠ .done) : moment.outside = later.outside := by
  have both : moment.result.1 ≠ .done ∧ moment.outside = later.outside := by
    induction path using Relation.ReflTransGen.head_induction_on with
    | refl => exact ⟨stopped, rfl⟩
    | head next _ inductionHypothesis =>
      obtain ⟨unfinished, same⟩ := next.outside_eq inductionHypothesis.1
      exact ⟨unfinished, same.trans inductionHypothesis.2⟩
  exact both.2

/-- A program that does not succeed comes to a moment at which it stops. -/
theorem exists_stops_of_calls {active : List Token} {levels : Nat}
    {instructions : List Instruction} {ending : Outcome} {m : Machine σ}
    (calls : ∀ {word body rest} {m : Machine σ}, m.words.lookup? word = some body →
      (Machine.call levels word body m).1 ≠ .done →
      ∃ later outcome, Relation.ReflTransGen Next
        ⟨active, levels, ⟨.refer word :: rest, ending⟩, m⟩ later ∧ later.Stops outcome)
    (stopped : (result ⟨active, levels, ⟨instructions, ending⟩, m⟩).1 ≠ .done) :
    ∃ later outcome, Relation.ReflTransGen Next
      ⟨active, levels, ⟨instructions, ending⟩, m⟩ later ∧ later.Stops outcome := by
  induction instructions generalizing m with
  | nil => exact ⟨_, _, .refl, .unfinished stopped⟩
  | cons instruction rest inductionHypothesis =>
    by_cases done : (m.perform (Machine.call levels) instruction).1 = .done
    · simp only [result, Machine.performAll_cons_of_done done] at stopped
      obtain ⟨later, outcome, path, stops⟩ :=
        inductionHypothesis (m := Machine.traceRule _ _ _) stopped
      exact ⟨later, outcome, .head (.past done) path, stops⟩
    · by_cases call : ∃ word body, instruction = .refer word ∧ m.words.lookup? word = some body
      · obtain ⟨word, body, rfl, defined⟩ := call
        rw [Machine.perform_refer_of_defined defined] at done
        exact calls defined done
      · refine ⟨_, _, .refl, .instruction ?_ done⟩
        rintro word rfl
        cases found : m.words.lookup? word with
        | none => rfl
        | some body => exact absurd ⟨word, body, rfl, found⟩ call

theorem exists_stops {active : List Token} {levels : Nat} {instructions : List Instruction}
    {ending : Outcome} {m : Machine σ}
    (stopped : (result ⟨active, levels, ⟨instructions, ending⟩, m⟩).1 ≠ .done) :
    ∃ later outcome, Relation.ReflTransGen Next
      ⟨active, levels, ⟨instructions, ending⟩, m⟩ later ∧ later.Stops outcome := by
  -- The induction is on the calls that may still become active.
  induction levels generalizing active instructions ending m with
  | zero =>
    refine exists_stops_of_calls ?_ stopped
    intro word body rest m defined _
    exact ⟨_, _, .refl, .refused defined⟩
  | succ levels inductionHypothesis =>
    refine exists_stops_of_calls ?_ stopped
    intro word body rest m defined called
    have unfinished : (result ⟨word :: active, levels, Program.ofTokens body, m.enter⟩).1 ≠
        .done := fun done => called (by rw [← Outcome.blame_done word, ← done]; rfl)
    obtain ⟨later, outcome, path, stops⟩ := inductionHypothesis unfinished
    exact ⟨later, outcome, .head (.into defined) path, stops⟩

end Moment

namespace Machine

variable {σ : Type} [Output σ] {m : Machine σ} {line : Bytes} {moment : Moment σ}
  {outcome : Outcome}

/-- An instruction that neither calls nor writes fails in an elementary way. -/
theorem isElementary_of_perform {call : Call σ} {instruction : Instruction}
    (callsNothing : ∀ word, instruction = .refer word → m.words.lookup? word = none)
    (writesNothing : instruction.writes = false)
    (stopped : (m.perform call instruction).1 ≠ .done) :
    ∃ failure, (m.perform call instruction).1 = .failed failure ∧ failure.isElementary := by
  cases instruction with
  | define name body => exact absurd rfl stopped
  | print => cases writesNothing
  | words => cases writesNothing
  | say line => cases writesNothing
  | constant name =>
    simp only [perform, bindConstant] at stopped ⊢
    split at stopped
    next => exact absurd rfl stopped
    next failure rest popped =>
      rcases (Operation.Moves.pop _).fails popped with ⟨operand, rfl⟩ | rfl
      all_goals exact ⟨_, rfl, rfl⟩
  | refer word =>
    simp only [perform, refer] at stopped ⊢
    split at stopped
    next body meaning =>
      have undefined := callsNothing word rfl
      rw [meaning_eq_word_iff.mp meaning] at undefined
      cases undefined
    next operator _ =>
      simp only [operate, Builtin.apply] at stopped ⊢
      split at stopped
      next => exact absurd rfl stopped
      next failure after failed =>
        rcases Builtin.run_fails failed with ⟨operand, rfl⟩ | rfl
        all_goals exact ⟨_, rfl, rfl⟩
    next => exact absurd rfl stopped
    next => exact absurd rfl stopped
    next => exact ⟨_, rfl, rfl⟩

theorem Passes.isElementary_of_ending (passes : m.Passes line moment)
    (stopped : moment.program.ending ≠ .done) :
    ∃ failure, moment.program.ending = .failed failure ∧ failure.isElementary := by
  refine passes.induct (P := fun moment => moment.program.ending ≠ .done →
    ∃ failure, moment.program.ending = .failed failure ∧ failure.isElementary) ?_ ?_ stopped
  · intro before after next elementary
    cases next with
    | past _ => exact elementary
    | into _ => exact Program.isElementary_of_ending
  · exact Program.isElementary_of_ending

/-- A line stops by a failure of its own, by a refused call or by its output. -/
theorem Passes.stops_cases (passes : m.Passes line moment) (stops : moment.Stops outcome) :
    (∃ failure, outcome = .failed failure ∧ failure.isElementary) ∨
      (∃ callee, moment.Calls callee ∧ moment.levels = 0 ∧
        outcome = .failed (.recursionLimit callee moment.machine.depth)) ∨
      moment.OutputStops outcome := by
  cases stops with
  | unfinished stopped => exact .inl (passes.isElementary_of_ending stopped)
  | @instruction active levels instruction rest ending m callsNothing stopped =>
    cases writes : instruction.writes with
    | true => exact .inr (.inr ⟨instruction, rest, rfl, writes, stopped, rfl⟩)
    | false => exact .inl (isElementary_of_perform callsNothing writes stopped)
  | @refused active word body rest ending m defined =>
    exact .inr (.inl ⟨word, ⟨body, rest, rfl, defined⟩, rfl, rfl⟩)

/-- What stops a line ends its tokens, after it has gone through the active calls. -/
theorem Passes.evalLine_of_stops (passes : m.Passes line moment) (stops : moment.Stops outcome) :
    (m.evalLine line).1 = outcome.unwind moment.active := by
  have stopped : moment.result.1 ≠ .done := by
    rw [stops.result]
    exact stops.ne_done
  have same : (m.evalLine line).1 = moment.result.1.unwind moment.active :=
    congrArg Prod.fst (Moment.outside_of_path passes stopped)
  rw [same, stops.result]

theorem exists_passes_stops (stopped : (m.evalLine line).1 ≠ .done) :
    ∃ moment outcome, m.Passes line moment ∧ moment.Stops outcome :=
  Moment.exists_stops stopped

/-- The tokens of the line come to the failure, and the line returns it, unless the
flush behind the tokens panics: that panic escapes. -/
def Returns (m : Machine σ) (line : Bytes) (failure : Failure) : Prop :=
  (m.evalLine line).1.recover (text "eval") = .failed failure ∧
    ((m.eval line).1 = .failed failure ∨
      ∃ panic, (m.evalLine line).2.flush.1 = .panicked panic ∧ (m.eval line).1 = .panicked panic)

theorem returns_of_recover {failure : Failure}
    (recovered : (m.evalLine line).1.recover (text "eval") = .failed failure) :
    m.Returns line failure := by
  have stopped : (m.evalLine line).1 ≠ .done := by
    intro done
    rw [done] at recovered
    cases recovered
  obtain ⟨reported, same, returned⟩ := conclude_of_ne_done stopped
  rw [recovered] at same
  cases same
  exact ⟨recovered, returned⟩

theorem Passes.returns_of_failed (passes : m.Passes line moment) {failure : Failure}
    (stops : moment.Stops (.failed failure)) (bare : failure.isInWord = false) :
    m.Returns line (failure.attributed moment.active) := by
  apply returns_of_recover
  rw [passes.evalLine_of_stops stops, Outcome.unwind_failed _ bare]
  rfl

theorem Passes.returns_of_panicked (passes : m.Passes line moment) {panic : Panic}
    (stops : moment.Stops (.panicked panic)) : m.Returns line (panic.recover (text "eval")) := by
  apply returns_of_recover
  rw [passes.evalLine_of_stops stops, Outcome.unwind_panicked]
  rfl

/-- A refusal comes from the limit or, as any failure may, from the output. -/
theorem Passes.refusal_cases (passes : m.Passes line moment) {callee : Token} {depth : Nat}
    (stops : moment.Stops (.failed (.recursionLimit callee depth))) :
    (moment.Calls callee ∧ moment.levels = 0 ∧ moment.machine.depth = depth) ∨
      moment.OutputStops (.failed (.recursionLimit callee depth)) := by
  rcases passes.stops_cases stops with ⟨failure, same, elementary⟩ | refused | output
  · cases same
    cases elementary
  · obtain ⟨word, calls, exhausted, same⟩ := refused
    cases same
    exact .inl ⟨calls, exhausted, rfl⟩
  · exact .inr output

/-- A line whose tokens do not succeed stops at a moment. A bare failure that stops it
is returned as it is where no call is active, and otherwise with the word of the
innermost call in front; for a refused call this is the caller. A panic is returned
without any word. Only the flush can get in the way of this, by a panic of its own. -/
theorem eval_attributes (m : Machine σ) (line : Bytes) (idle : m.depth = 0) :
    ((m.evalLine line).1 ≠ .done →
      ∃ moment outcome, m.Passes line moment ∧ moment.Stops outcome) ∧
    ∀ moment, m.Passes line moment →
      (∀ failure, moment.Stops (.failed failure) →
        (failure.isInWord = false → m.Returns line (failure.attributed moment.active)) ∧
        (failure.isInWord = true → moment.OutputStops (.failed failure))) ∧
      (∀ callee depth, moment.Stops (.failed (.recursionLimit callee depth)) →
        moment.OutputStops (.failed (.recursionLimit callee depth)) ∨
          moment.Calls callee ∧ (0 < m.maxDepth → ∃ caller outer,
            moment.active = caller :: outer ∧
            m.Returns line (.inWord caller (.recursionLimit callee depth)))) ∧
      ∀ panic, moment.Stops (.panicked panic) → m.Returns line (panic.recover (text "eval")) := by
  refine ⟨exists_passes_stops, ?_⟩
  intro moment passes
  refine ⟨?_, ?_, ?_⟩
  · intro failure stops
    refine ⟨passes.returns_of_failed stops, ?_⟩
    intro attributed
    rcases passes.stops_cases stops with ⟨_, same, elementary⟩ | ⟨callee, -, -, same⟩ | output
    · cases same
      cases failure <;> simp_all [Failure.isInWord, Failure.isElementary]
    · cases same
      cases attributed
    · exact output
  · intro callee depth stops
    rcases passes.refusal_cases stops with ⟨calls, exhausted, -⟩ | output
    · refine .inr ⟨calls, ?_⟩
      intro positive
      have levels := (passes.counted idle).levels
      have returned := passes.returns_of_failed stops rfl
      cases active : moment.active with
      | nil =>
        simp only [active, exhausted, List.length_nil] at levels
        omega
      | cons caller outer =>
        rw [active] at returned
        exact ⟨caller, outer, rfl, returned⟩
    · exact .inl output
  · intro panic stops
    exact passes.returns_of_panicked stops

/-- A word that calls another one, which prints, and a device that accepts nothing. -/
def outwritten : Machine Console :=
  let device := Device.fresh (.flushing (some ⟨0, .fail⟩) none)
  { (Session.start (.one (.output (.fresh device)))).machine with
    words := Table.empty.defineAll [(text "u", [text "v"]), (text "v", [text "."])] }

theorem eval_attributes_outwritten :
    outwritten.depth = 0 ∧
      (∃ moment, outwritten.Passes (text "u") moment ∧ moment.active = [text "v", text "u"] ∧
        moment.Stops (.failed (.other (text "write failed")))) ∧
      outwritten.Returns (text "u") (.inWord (text "v") (.other (text "write failed"))) := by
  let start := Moment.start (text "u") outwritten
  have callsU : start.program.instructions = [.refer (text "u")] := by decide +kernel
  have foundU : start.machine.words.lookup? (text "u") = some [text "v"] := by decide +kernel
  have allowed : start.levels = 1023 + 1 := by decide +kernel
  have inU : outwritten.Passes (text "u") _ := .into .refl callsU foundU allowed
  have callsV : (Program.ofTokens [text "v"]).instructions = [.refer (text "v")] := by
    decide +kernel
  have foundV : start.machine.enter.words.lookup? (text "v") = some [text "."] := by
    decide +kernel
  have inV := inU.into callsV foundV rfl
  let moment : Moment Console :=
    ⟨[text "v", text "u"], 1022, Program.ofTokens [text "."], start.machine.enter.enter⟩
  have prints : moment.program.instructions = [.print] := by decide +kernel
  have performed : (moment.machine.perform (call moment.levels) .print).1 =
      .failed (.other (text "write failed")) := by decide +kernel
  have stops := Moment.stops_of_instruction prints (by simp) performed (by simp)
  have idle : outwritten.depth = 0 := by decide +kernel
  have attributed := ((eval_attributes outwritten (text "u") idle).2 moment inV).1 _ stops
  exact ⟨idle, ⟨moment, inV, rfl, stops⟩, attributed.1 rfl⟩

/-- A device behind a buffer that panics when it is written to. -/
def escaping : Machine Console :=
  let device := Device.fresh (.plain (some ⟨0, .panic⟩))
  (Session.start (.one (.output (.fresh device)))).machine

/-- Where the flush panics, a line does not return the failure that stopped it. -/
theorem eval_escapes_attribution :
    escaping.depth = 0 ∧
      (∃ moment, escaping.Passes (text ". foo") moment ∧ moment.active = [] ∧
        moment.Stops (.failed (.unknownToken (text "foo")))) ∧
      (escaping.eval (text ". foo")).1 = .panicked (.value (text "writer exploded")) := by
  let start := Moment.start (text ". foo") escaping
  have prints : start.program.instructions = [.print, .refer (text "foo")] := by decide +kernel
  have printed : (start.machine.perform (call start.levels) .print).1 = .done := by
    decide +kernel
  have passes : escaping.Passes (text ". foo") _ := .past .refl prints printed
  let after := (start.machine.perform (call start.levels) .print).2.traceRule
    (start.machine.ruleName .print) Token.dot
  have performed : (after.perform (call start.levels) (.refer (text "foo"))).1 =
      .failed (.unknownToken (text "foo")) := by decide +kernel
  have undefined : after.words.lookup? (text "foo") = none := by decide +kernel
  refine ⟨by decide +kernel, ⟨_, passes, rfl, ?_⟩, by decide +kernel⟩
  apply Moment.stops_of_instruction rfl ?_ performed (by simp)
  rintro word ⟨⟩
  exact undefined

end Machine

end LineForth
