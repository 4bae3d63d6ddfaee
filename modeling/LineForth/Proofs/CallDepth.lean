import LineForth.Proofs.Attribution

/-!
# The depth counts the active calls

Whatever a line does, and however it ends, the depth of the machine is the number of
active calls: it never exceeds the limit, and it is zero again behind the tokens, with
the margins of the trace as they were before. A call is refused exactly where the
limit is reached. Since the limit is positive, some call is active there, and so the
refusal leaves the tokens with a word in front.
-/

set_option autoImplicit false

namespace LineForth

namespace Moment

variable {σ : Type} [Output σ] {moment : Moment σ} {callee : Token} {outcome : Outcome}

theorem stops_of_refused (calls : moment.Calls callee) (exhausted : moment.levels = 0) :
    moment.Stops (.failed (.recursionLimit callee moment.machine.depth)) := by
  rcases moment with ⟨active, levels, ⟨instructions, ending⟩, m⟩
  obtain ⟨body, rest, next, defined⟩ := calls
  dsimp only at next exhausted defined
  subst next exhausted
  exact .refused defined

theorem OutputStops.stops (output : moment.OutputStops outcome) : moment.Stops outcome := by
  obtain ⟨instruction, rest, next, writes, stopped, performed⟩ := output
  apply stops_of_instruction next ?_ performed stopped
  rintro word rfl
  cases writes

end Moment

namespace Machine

variable {σ : Type} [Output σ] {m : Machine σ} {line : Bytes} {moment : Moment σ}

theorem Passes.levels_eq_zero_iff (passes : m.Passes line moment) (idle : m.depth = 0) :
    moment.levels = 0 ↔ moment.machine.depth = m.maxDepth := by
  obtain ⟨depth, levels⟩ := passes.counted idle
  omega

/-- A refusal is raised exactly where a call meets the limit, unless it is the output
that reports one. -/
theorem Passes.stops_refused_iff (passes : m.Passes line moment) (idle : m.depth = 0)
    {callee : Token} {depth : Nat} :
    moment.Stops (.failed (.recursionLimit callee depth)) ↔
      (moment.Calls callee ∧ moment.machine.depth = m.maxDepth ∧ depth = m.maxDepth) ∨
        moment.OutputStops (.failed (.recursionLimit callee depth)) := by
  constructor
  · intro stops
    rcases passes.refusal_cases stops with ⟨calls, exhausted, same⟩ | output
    · have full := (passes.levels_eq_zero_iff idle).mp exhausted
      exact .inl ⟨calls, full, same.symm.trans full⟩
    · exact .inr output
  · rintro (⟨calls, full, rfl⟩ | output)
    · rw [← full]
      exact Moment.stops_of_refused calls ((passes.levels_eq_zero_iff idle).mpr full)
    · exact output.stops

theorem Passes.returns_refusal (passes : m.Passes line moment) (idle : m.depth = 0)
    (positive : 0 < m.maxDepth) {callee : Token} (calls : moment.Calls callee)
    (full : moment.machine.depth = m.maxDepth) :
    ∃ caller outer, moment.active = caller :: outer ∧
      m.Returns line (.inWord caller (.recursionLimit callee m.maxDepth)) := by
  have stops : moment.Stops (.failed (.recursionLimit callee m.maxDepth)) :=
    (passes.stops_refused_iff idle).mpr (.inl ⟨calls, full, rfl⟩)
  have depth := (passes.counted idle).depth
  have returned := passes.returns_of_failed stops rfl
  cases active : moment.active with
  | nil =>
    rw [active, List.length_nil] at depth
    omega
  | cons caller outer =>
    rw [active] at returned
    exact ⟨caller, outer, rfl, returned⟩

/-- At every moment of a line the depth is the number of active calls and within the
limit, and a call is refused exactly where the limit is reached. A refusal is returned
with the word of the caller in front; only a panic of the flush behind the tokens can
get in its way. Behind the tokens no call is active, and the trace goes on with the
margins that it had before, if anyone listens to it. -/
theorem eval_restores_depth (m : Machine σ) (line : Bytes) (idle : m.depth = 0)
    (positive : 0 < m.maxDepth) :
    (∀ moment, m.Passes line moment →
      moment.machine.depth = moment.active.length ∧ moment.machine.depth ≤ m.maxDepth ∧
      (∀ callee depth, moment.Stops (.failed (.recursionLimit callee depth)) ↔
        (moment.Calls callee ∧ moment.machine.depth = m.maxDepth ∧ depth = m.maxDepth) ∨
          moment.OutputStops (.failed (.recursionLimit callee depth))) ∧
      ∀ callee, moment.Calls callee → moment.machine.depth = m.maxDepth →
        ∃ caller outer, moment.active = caller :: outer ∧
          m.Returns line (.inWord caller (.recursionLimit callee m.maxDepth))) ∧
    ((m.evalLine line).2.depth = 0 ∧ (m.evalLine line).2.tracer.active = m.tracer.active ∧
      (m.evalLine line).2.tracer.margins = m.tracer.margins) ∧
    (m.eval line).2.depth = 0 ∧ (m.eval line).2.tracer.active = m.tracer.active ∧
      (m.eval line).2.tracer.margins = m.tracer.margins := by
  have tokens := SameSettings.framing.evalLine line m
  have whole := SameSettings.eval line m
  refine ⟨?_, ⟨tokens.depth.trans idle, tokens.active, tokens.margins⟩,
    whole.depth.trans idle, whole.active, whole.margins⟩
  intro moment passes
  obtain ⟨depth, levels⟩ := passes.counted idle
  refine ⟨depth, by omega, ?_, ?_⟩
  · intro callee refusedAt
    exact passes.stops_refused_iff idle
  · intro callee calls full
    exact passes.returns_refusal idle positive calls full

/-- A word that calls itself under a limit of two calls, with a trace. -/
def descending : Machine Console :=
  { (Session.start (.group [.one (.maxDepth 2), .one .trace])).machine with
    words := Table.empty.defineAll [(text "w", [text "w"])] }

theorem eval_restores_depth_descending :
    (∃ moment, descending.Passes (text "w") moment ∧ moment.active = [text "w", text "w"] ∧
      moment.machine.depth = 2 ∧ moment.Stops (.failed (.recursionLimit (text "w") 2))) ∧
    descending.Returns (text "w") (.inWord (text "w") (.recursionLimit (text "w") 2)) ∧
    (descending.eval (text "w")).2.depth = 0 ∧
    (descending.eval (text "w")).2.tracer.active = true ∧
    (descending.eval (text "w")).2.tracer.margins = [] := by
  let start := Moment.start (text "w") descending
  have calls : start.program.instructions = [.refer (text "w")] := by decide +kernel
  have found : start.machine.words.lookup? (text "w") = some [text "w"] := by decide +kernel
  have allowed : start.levels = 1 + 1 := by decide +kernel
  have outer : descending.Passes (text "w") _ := .into .refl calls found allowed
  have body : (Program.ofTokens [text "w"]).instructions = [.refer (text "w")] := by
    decide +kernel
  have again : start.machine.enter.words.lookup? (text "w") = some [text "w"] := by
    decide +kernel
  have inner := outer.into body again rfl
  let moment : Moment Console :=
    ⟨[text "w", text "w"], 0, Program.ofTokens [text "w"], start.machine.enter.enter⟩
  have refused : moment.Calls (text "w") := ⟨[text "w"], [], body, by decide +kernel⟩
  have full : moment.machine.depth = descending.maxDepth := by decide +kernel
  have limit : descending.maxDepth = 2 := by decide +kernel
  obtain ⟨moments, -, idle, listening, margins⟩ :=
    eval_restores_depth descending (text "w") (by decide +kernel) (by decide +kernel)
  obtain ⟨-, -, raised, returned⟩ := moments moment inner
  obtain ⟨caller, rest, active, returns⟩ := returned _ refused full
  have stops := (raised (text "w") 2).mpr (.inl ⟨refused, full, limit.symm⟩)
  cases active
  rw [limit] at returns full
  exact ⟨⟨moment, inner, rfl, full, stops⟩, returns, idle, listening.trans (by decide +kernel),
    margins.trans (by decide +kernel)⟩

/-- A word that prints and calls itself under a limit of one call, and a device behind
a buffer that panics when it is written to. -/
def overflowing : Machine Console :=
  let device := Device.fresh (.plain (some ⟨0, .panic⟩))
  { (Session.start (.group [.one (.output (.fresh device)), .one (.maxDepth 1)])).machine with
    words := Table.empty.defineAll [(text "w", [text ".", text "w"])] }

/-- Where the flush panics, a refusal does not come back from the line. -/
theorem eval_escapes_refusal :
    overflowing.depth = 0 ∧ overflowing.maxDepth = 1 ∧
      (∃ moment, overflowing.Passes (text "w") moment ∧ moment.Calls (text "w") ∧
        moment.machine.depth = overflowing.maxDepth) ∧
      (overflowing.eval (text "w")).1 = .panicked (.value (text "writer exploded")) := by
  let start := Moment.start (text "w") overflowing
  have calls : start.program.instructions = [.refer (text "w")] := by decide +kernel
  have found : start.machine.words.lookup? (text "w") = some [text ".", text "w"] := by
    decide +kernel
  have allowed : start.levels = 0 + 1 := by decide +kernel
  have inside : overflowing.Passes (text "w") _ := .into .refl calls found allowed
  have body : (Program.ofTokens [text ".", text "w"]).instructions =
      [.print, .refer (text "w")] := by decide +kernel
  have passes := inside.past body (by decide +kernel)
  refine ⟨by decide +kernel, by decide +kernel,
    ⟨_, passes, ⟨[text ".", text "w"], [], rfl, ?_⟩, ?_⟩, ?_⟩
  all_goals decide +kernel

end Machine

end LineForth
