import LineForth.Proofs.Reachable
import LineForth.Proofs.RefusedCalls
import Mathlib.Data.List.Perm.Subperm

/-!
# Recursion never succeeds

No word is defined while a word runs, and what a body does next depends neither on
the stack nor on the output. So a call that succeeds has called every word that its
body mentions, each with fewer levels to go, and a word that leads back to itself
would have to succeed at no level at all. The active words of a line that succeeds
are therefore distinct, and there are no more of them than words.
-/

set_option autoImplicit false

namespace LineForth

namespace Table

theorem length_le_names {α : Type} {table : Table α} {names : List Bytes} (distinct : names.Nodup)
    (defined : ∀ name ∈ names, (table.lookup? name).isSome) :
    names.length ≤ table.names.length := by
  apply (distinct.subperm ?_).length_le
  intro name membership
  exact mem_names_iff.mpr (defined name membership)

/-- The body of the caller calls the word, if it comes that far. -/
def Mentions (words : Table (List Token)) (caller word : Token) : Prop :=
  ∃ body, words.lookup? caller = some body ∧
    .refer word ∈ (Program.ofTokens body).instructions ∧ (words.lookup? word).isSome

end Table

namespace Machine

variable {σ : Type} [Output σ]

/-- Under some machine with these words, calling the word at the level succeeds. -/
def Callable (σ : Type) [Output σ] (words : Table (List Token)) (levels : Nat) (word : Token) :
    Prop :=
  ∃ (body : List Token) (m : Machine σ), m.words = words ∧ words.lookup? word = some body ∧
    (call levels word body m).1 = .done

/-- A program that defines no word and succeeds has called the words it mentions. -/
theorem callable_of_performAll {levels : Nat} {ending : Outcome} {instructions : List Instruction}
    {word : Token} {m : Machine σ} (settled : Settled m.words)
    (closed : ∀ name body, .define name body ∉ instructions)
    (done : (performAll (call levels) ending instructions m).1 = .done)
    (mentioned : .refer word ∈ instructions) (defined : (m.words.lookup? word).isSome) :
    Callable σ m.words levels word := by
  induction instructions generalizing m with
  | nil => simp at mentioned
  | cons instruction rest inductionHypothesis =>
    have performed := perform_done_of_performAll done
    rcases List.mem_cons.mp mentioned with rfl | later
    · obtain ⟨body, found⟩ := Option.isSome_iff_exists.mp defined
      rw [perform_refer_of_defined found] at performed
      exact ⟨body, m, rfl, found, performed⟩
    · have frozen : (m.perform (call levels) instruction).2.words = m.words := by
        apply perform_call_words levels settled
        intro name body same
        exact closed name body (same ▸ List.mem_cons_self)
      rw [performAll_cons_of_done performed] at done
      have same : ((m.perform (call levels) instruction).2.traceRule (m.ruleName instruction)
          instruction.opener).words = m.words := by
        simp only [traceRule, trace_words, frozen]
      rw [← same] at settled defined ⊢
      refine inductionHypothesis settled ?_ done later defined
      intro name body membership
      exact closed name body (List.mem_cons_of_mem _ membership)

variable {words : Table (List Token)} {levels : Nat} {caller word : Token}

theorem Callable.mentioned (callable : Callable σ words levels caller) (settled : Settled words)
    (mentions : words.Mentions caller word) : ∃ fewer < levels, Callable σ words fewer word := by
  obtain ⟨body, m, rfl, found, done⟩ := callable
  obtain ⟨sameBody, sameFound, mentioned, defined⟩ := mentions
  rw [found, Option.some.injEq] at sameFound
  subst sameFound
  cases levels with
  | zero => cases done
  | succ fewer =>
    refine ⟨fewer, Nat.lt_succ_self fewer, ?_⟩
    have unclosed : Token.semicolon ∉ body := settled caller body found
    exact callable_of_performAll (m := m.enter) settled
      (Program.define_not_mem_readFrom unclosed .idle) (execute_done_of_call done) mentioned defined

theorem Callable.descends (callable : Callable σ words levels caller) (settled : Settled words)
    (leads : Relation.TransGen words.Mentions caller word) :
    ∃ fewer < levels, Callable σ words fewer word := by
  induction leads with
  | single mentions => exact callable.mentioned settled mentions
  | tail _ mentions inductionHypothesis =>
    obtain ⟨fewer, less, middle⟩ := inductionHypothesis
    obtain ⟨fewest, lesser, last⟩ := middle.mentioned settled mentions
    exact ⟨fewest, Nat.lt_trans lesser less, last⟩

/-- A word whose call succeeds does not lead back to itself. -/
theorem Callable.not_recursive (callable : Callable σ words levels word)
    (settled : Settled words) : ¬ Relation.TransGen words.Mentions word word := by
  intro loop
  induction levels using Nat.strongRecOn with
  | ind levels inductionHypothesis =>
    obtain ⟨fewer, less, again⟩ := callable.descends settled loop
    exact inductionHypothesis fewer less again

end Machine

namespace Moment

variable {σ : Type}

/-- How a moment of a line that is evaluated on an orderly dictionary looks: every
active word leads, by way of what bodies mention, to the words that are still to be
called, and no word is defined before all calls have returned. -/
structure Nested (moment : Moment σ) : Prop where
  orderly : moment.machine.Orderly
  readable : ∀ instruction ∈ moment.program.instructions, instruction.Orderly
  closed : moment.active ≠ [] → ∀ name body, .define name body ∉ moment.program.instructions
  defined : ∀ caller ∈ moment.active, (moment.machine.words.lookup? caller).isSome
  leads : ∀ caller ∈ moment.active, ∀ word, .refer word ∈ moment.program.instructions →
    (moment.machine.words.lookup? word).isSome →
    Relation.TransGen moment.machine.words.Mentions caller word

theorem nested_start {m : Machine σ} (orderly : m.Orderly) (line : Bytes) :
    (start line m).Nested where
  orderly := orderly.trace _ _
  readable := Program.orderly_of_mem_ofTokens fun _ => cut_of_mem_tokenize
  closed := fun active => absurd rfl active
  defined := by simp [start]
  leads := by simp [start]

theorem Nested.into {active : List Token} {levels : Nat} {word : Token} {body : List Token}
    {rest : List Instruction} {ending : Outcome} {m : Machine σ}
    (nested : Nested ⟨active, levels + 1, ⟨.refer word :: rest, ending⟩, m⟩)
    (found : m.words.lookup? word = some body) :
    Nested ⟨word :: active, levels, Program.ofTokens body, m.enter⟩ := by
  have inBody := nested.orderly.inBody found
  have isDefined : (m.words.lookup? word).isSome := Option.isSome_of_eq_some found
  refine ⟨nested.orderly.congr rfl rfl, ?_, ?_, ?_, ?_⟩
  · exact Program.orderly_of_mem_ofTokens fun token membership => (inBody token membership).1.toCut
  · intro _
    exact Program.define_not_mem_readFrom (nested.orderly.settled word body found) .idle
  · intro caller membership
    rcases List.mem_cons.mp membership with rfl | outer
    · exact isDefined
    · exact nested.defined caller outer
  · intro caller membership inner mentioned innerDefined
    have mentions : m.words.Mentions word inner := ⟨body, found, mentioned, innerDefined⟩
    rcases List.mem_cons.mp membership with rfl | outer
    · exact .single mentions
    · exact .tail (nested.leads caller outer word List.mem_cons_self isDefined) mentions

variable [Output σ] {moment later : Moment σ}

theorem Nested.past {active : List Token} {levels : Nat} {instruction : Instruction}
    {rest : List Instruction} {ending : Outcome} {m : Machine σ} {rule : Bytes} {token : Token}
    (nested : Nested ⟨active, levels, ⟨instruction :: rest, ending⟩, m⟩) :
    Nested ⟨active, levels, ⟨rest, ending⟩,
      (m.perform (Machine.call levels) instruction).2.traceRule rule token⟩ := by
  -- At the top of a line a definition may change the words, but no call is active there.
  have frozen : active ≠ [] →
      ((m.perform (Machine.call levels) instruction).2.traceRule rule token).words = m.words := by
    intro inCall
    rw [Machine.traceRule, Machine.trace_words]
    apply Machine.perform_call_words levels nested.orderly.settled
    intro name body same
    exact nested.closed inCall name body (same ▸ List.mem_cons_self)
  have performed := nested.orderly.perform (nested.readable _ List.mem_cons_self)
    (fun name body {_} => Machine.Orderly.call levels name body)
  refine ⟨performed.trace _ _, ?_, ?_, ?_, ?_⟩
  · intro later membership
    exact nested.readable later (List.mem_cons_of_mem _ membership)
  · intro inCall name body membership
    exact nested.closed inCall name body (List.mem_cons_of_mem _ membership)
  · intro caller membership
    dsimp only
    rw [frozen (List.ne_nil_of_mem membership)]
    exact nested.defined caller membership
  · intro caller membership word mentioned
    dsimp only
    rw [frozen (List.ne_nil_of_mem membership)]
    exact nested.leads caller membership word (List.mem_cons_of_mem _ mentioned)

theorem Nested.next (nested : moment.Nested) (next : Next moment later) : later.Nested := by
  cases next with
  | past _ => exact nested.past
  | into found => exact nested.into found

/-- Where the rest of the program succeeds, no active word is called again. -/
theorem Nested.not_mem_active (nested : moment.Nested) (done : moment.result.1 = .done)
    {word : Token} (calls : moment.Calls word) : word ∉ moment.active := by
  intro membership
  rcases moment with ⟨active, levels, ⟨instructions, ending⟩, m⟩
  obtain ⟨body, rest, rfl, found⟩ := calls
  have performed := Machine.perform_done_of_performAll done
  rw [Machine.perform_refer_of_defined found] at performed
  have callable : Machine.Callable σ m.words levels word := ⟨body, m, rfl, found, performed⟩
  exact callable.not_recursive nested.orderly.settled
    (nested.leads word membership word List.mem_cons_self (Option.isSome_of_eq_some found))

end Moment

namespace Machine

variable {σ : Type} [Output σ] {m : Machine σ} {line : Bytes} {moment : Moment σ}

theorem Passes.nested (passes : m.Passes line moment) (orderly : m.Orderly) : moment.Nested := by
  apply passes.induct
  · intro before after next nested
    exact nested.next next
  · exact Moment.nested_start orderly line

theorem Passes.result_done (passes : m.Passes line moment)
    (done : (m.evalLine line).1 = .done) : moment.result.1 = .done := by
  apply passes.induct (P := fun moment => moment.result.1 = .done)
  · intro before after next succeeds
    exact next.result_done succeeds
  · rw [Moment.result_start]
    exact done

/-- Where the tokens of a line succeed, each word is called at most once in a chain
of active calls. -/
theorem Passes.nodup_active (passes : m.Passes line moment) (orderly : m.Orderly)
    (done : (m.evalLine line).1 = .done) : moment.active.Nodup := by
  induction passes with
  | refl => exact List.nodup_nil
  | tail earlier next inductionHypothesis =>
    cases next with
    | past _ => exact inductionHypothesis
    | @into active levels word body rest ending m found =>
      have nested := Passes.nested earlier orderly
      have succeeds := Passes.result_done earlier done
      refine List.nodup_cons.mpr ⟨nested.not_mem_active succeeds ?_, inductionHypothesis⟩
      exact ⟨body, rest, rfl, found⟩

/-- A call that is refused although the limit leaves room for every word repeats
one. -/
theorem Passes.not_nodup_of_refused (passes : m.Passes line moment) (orderly : m.Orderly)
    (idle : m.depth = 0) {callee : Token} (calls : moment.Calls callee)
    (refused : m.maxDepth ≤ moment.machine.depth)
    (room : moment.machine.words.names.length ≤ m.maxDepth) :
    ¬ (callee :: moment.active).Nodup := by
  intro distinct
  obtain ⟨body, rest, -, found⟩ := calls
  have length : (callee :: moment.active).length ≤ moment.machine.words.names.length := by
    apply Table.length_le_names distinct
    intro word membership
    rcases List.mem_cons.mp membership with rfl | active
    · exact Option.isSome_of_eq_some found
    · exact (passes.nested orderly).defined word active
  have depth := (passes.counted idle).depth
  rw [List.length_cons] at length
  omega

end Machine

namespace Interpreter

variable {σ : Type} [Output σ]

/-- A line that comes to call a word whose call is active does not succeed: it
fails, unless its flush panics. In a line that succeeds the active words are
distinct. A call that is refused although the limit leaves room for every word
repeats one, and nothing but a refused call gives the failure that says so, unless
the output reports one of its own. -/
theorem Reachable.recursion_fails {interpreter : Interpreter σ}
    (reached : Reachable interpreter) (line : Bytes) :
    (∀ moment, interpreter.machine.Passes line moment →
      ∀ word, moment.Calls word → word ∈ moment.active →
        (∃ failure, (interpreter.machine.eval line).1 = .failed failure) ∨
        ∃ panic, (interpreter.machine.evalLine line).2.flush.1 = .panicked panic ∧
          (interpreter.machine.eval line).1 = .panicked panic) ∧
    ((interpreter.machine.eval line).1 = .done →
      ∀ moment, interpreter.machine.Passes line moment →
        moment.active.Nodup ∧ moment.machine.depth = moment.active.length ∧
          moment.machine.depth ≤ moment.machine.words.names.length) ∧
    (∀ moment, interpreter.machine.Passes line moment →
      ∀ callee, moment.Calls callee → interpreter.machine.maxDepth ≤ moment.machine.depth →
        moment.machine.words.names.length ≤ interpreter.machine.maxDepth →
        ¬ (callee :: moment.active).Nodup) ∧
    ∀ callee depth,
      (interpreter.machine.eval line).1.Reports (.recursionLimit callee depth) →
        (∃ moment, interpreter.machine.Passes line moment ∧ moment.Calls callee ∧
          moment.machine.depth = depth ∧ depth = interpreter.machine.maxDepth) ∨
        Output.MayReport interpreter.machine.output (.recursionLimit callee depth) := by
  have orderly := reached.orderly
  have idle := reached.depth
  refine ⟨?_, ?_, ?_, ?_⟩
  · intro moment passes word calls active
    have stopped : (interpreter.machine.evalLine line).1 ≠ .done := fun done =>
      (passes.nested orderly).not_mem_active (passes.result_done done) calls active
    obtain ⟨failure, -, failed | panicked⟩ := Machine.conclude_of_ne_done stopped
    · exact .inl ⟨failure, failed⟩
    · exact .inr panicked
  · intro done moment passes
    have distinct := passes.nodup_active orderly (Machine.evalLine_done_of_eval done)
    have depth := (passes.counted idle).depth
    refine ⟨distinct, depth, ?_⟩
    rw [depth]
    exact Table.length_le_names distinct (passes.nested orderly).defined
  · intro moment passes callee calls refused room
    exact passes.not_nodup_of_refused orderly idle calls refused room
  · intro callee depth reports
    refine (Machine.exists_passes_of_reports reports).imp ?_ id
    rintro ⟨moment, passes, exhausted, calls, rfl⟩
    obtain ⟨depth, levels⟩ := passes.counted idle
    exact ⟨moment, passes, calls, rfl, by omega⟩

/-- Two words that call each other. -/
def entwined : OnConsole :=
  let memory : Target := .fresh (Device.fresh .memory)
  let started := Session.start (.group [.one (.output memory), .one (.maxDepth 3)])
  (started.eval (text ": a b ; : b a ;")).2

theorem dependable_entwined : entwined.machine.output.Dependable := by
  have same : entwined.machine.output =
      ⟨⟨[Device.fresh .memory], []⟩, .single (.device 0)⟩ := by decide +kernel
  rw [same]
  refine ⟨?_, by decide⟩
  intro endpoint membership
  rw [List.mem_singleton.mp membership]
  exact ⟨_, rfl, trivial⟩

theorem Reachable.recursion_fails_entwined :
    (∃ moment, entwined.machine.Passes (text "a") moment ∧ moment.Calls (text "a") ∧
      text "a" ∈ moment.active) ∧
    ((∃ failure, (entwined.machine.eval (text "a")).1 = .failed failure) ∨
      ∃ panic, (entwined.machine.evalLine (text "a")).2.flush.1 = .panicked panic ∧
        (entwined.machine.eval (text "a")).1 = .panicked panic) ∧
    ∃ moment, entwined.machine.Passes (text "a") moment ∧ moment.Calls (text "b") ∧
      moment.machine.depth = 3 ∧ 3 = entwined.machine.maxDepth := by
  have reached : Reachable entwined := (Reachable.start _).eval _
  let start := Moment.start (text "a") entwined.machine
  have callsA : start.program.instructions = [.refer (text "a")] := by decide +kernel
  have foundA : start.machine.words.lookup? (text "a") = some [text "b"] := by decide +kernel
  have allowed : start.levels = 2 + 1 := by decide +kernel
  have inA : entwined.machine.Passes (text "a") _ := .into .refl callsA foundA allowed
  have callsB : (Program.ofTokens [text "b"]).instructions = [.refer (text "b")] := by
    decide +kernel
  have foundB : start.machine.enter.words.lookup? (text "b") = some [text "a"] := by
    decide +kernel
  have inB := inA.into callsB foundB rfl
  have again : Moment.Calls ⟨[text "b", text "a"], 1, Program.ofTokens [text "a"],
      start.machine.enter.enter⟩ (text "a") :=
    ⟨[text "b"], [], by decide +kernel, by decide +kernel⟩
  obtain ⟨stops, -, -, refuses⟩ := Reachable.recursion_fails reached (text "a")
  refine ⟨⟨_, inB, again, by decide⟩, stops _ inB _ again (by decide), ?_⟩
  have failed : (entwined.machine.eval (text "a")).1 =
      .failed (.inWord (text "a") (.recursionLimit (text "b") 3)) := by decide +kernel
  have reported : (entwined.machine.eval (text "a")).1.Reports (.recursionLimit (text "b") 3) := by
    simp [failed, Outcome.Reports, Failure.chain]
  rcases refuses (text "b") 3 reported with found | output
  · exact found
  · exact absurd output (Output.not_mayReport Console.reliable.toUnfailing dependable_entwined)

/-- A word that calls itself, and a device behind a buffer that panics when it is
written to. -/
def exploding : OnConsole :=
  let device := Device.fresh (.plain (some ⟨0, .panic⟩))
  let started := Session.start (.group [.one (.output (.fresh device)), .one (.maxDepth 2)])
  (started.eval (text ": w w ; .")).2

/-- Where the flush panics, a line that calls an active word returns no failure. -/
theorem recursion_panics_exploding :
    Reachable exploding ∧
      (∃ moment, exploding.machine.Passes (text "w") moment ∧ moment.Calls (text "w") ∧
        text "w" ∈ moment.active) ∧
      (exploding.machine.eval (text "w")).1 = .panicked (.value (text "writer exploded")) := by
  let start := Moment.start (text "w") exploding.machine
  have calls : start.program.instructions = [.refer (text "w")] := by decide +kernel
  have found : start.machine.words.lookup? (text "w") = some [text "w"] := by decide +kernel
  have allowed : start.levels = 1 + 1 := by decide +kernel
  have inside : exploding.machine.Passes (text "w") _ := .into .refl calls found allowed
  have again : Moment.Calls ⟨[text "w"], 1, Program.ofTokens [text "w"], start.machine.enter⟩
      (text "w") := ⟨[text "w"], [], by decide +kernel, by decide +kernel⟩
  exact ⟨(Reachable.start _).eval _, ⟨_, inside, again, by decide⟩, by decide +kernel⟩

end Interpreter

end LineForth
