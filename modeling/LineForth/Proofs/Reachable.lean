import LineForth.Proofs.Dictionary
import LineForth.Proofs.Grouping
import LineForth.Proofs.Kept

/-!
# Reachable interpreters

An interpreter is reached from a fresh one by evaluating lines and by running its
sources, whatever the lines are and however each step ends. A property of
machines that evaluation keeps, and that does not look at the output, the trace
and the journal, holds of every reachable interpreter if it holds of fresh ones.
-/

set_option autoImplicit false

namespace LineForth

/-- A machine as it is made, whatever its settings and its output are. -/
structure Machine.Fresh {σ : Type} (m : Machine σ) : Prop where
  stack : m.stack = []
  words : m.words = Table.empty
  constants : m.constants = Table.empty
  depth : m.depth = 0
  maxDepth : 0 < m.maxDepth

/-- A property that steps between lines and lines themselves keep. -/
structure Machine.Lasting {σ : Type} [Output σ] (P : Machine σ → Prop) : Prop where
  trace : ∀ {m} mark message, P m → P (m.trace mark message)
  output : ∀ {m} output journal, P m → P { m with output := output, journal := journal }
  eval : ∀ {m} line, P m → P (m.eval line).2

theorem Machine.Lasting.kept {σ : Type} [Output σ] {P : Machine σ → Prop} (lasting : Lasting P) :
    Kept P where
  trace := lasting.trace
  journal := lasting.output _
  write _ _ := lasting.output _ _
  flush := lasting.output _ _
  eval := lasting.eval

namespace Interpreter

/-- The interpreters that evaluating lines and running the sources lead to from a
fresh one. Nothing is asked of how a step ends. -/
inductive Reachable {σ : Type} [Output σ] : Interpreter σ → Prop
  | fresh {interpreter : Interpreter σ} (fresh : interpreter.machine.Fresh) :
      Reachable interpreter
  | eval {interpreter : Interpreter σ} (line : Bytes) (earlier : Reachable interpreter) :
      Reachable (interpreter.eval line).2
  | run {interpreter : Interpreter σ} (context : Context)
      (earlier : Reachable interpreter) : Reachable (interpreter.run context).2

/-- What holds of fresh machines and lasts holds of every reachable one. -/
theorem Reachable.induct {σ : Type} [Output σ] {P : Machine σ → Prop}
    (lasting : Machine.Lasting P) (initially : ∀ m : Machine σ, m.Fresh → P m)
    {interpreter : Interpreter σ} (reached : Reachable interpreter) : P interpreter.machine := by
  induction reached with
  | fresh fresh => exact initially _ fresh
  | eval line _ inductionHypothesis => exact lasting.eval line inductionHypothesis
  | run context _ inductionHypothesis =>
    exact lasting.kept.runSources context _ inductionHypothesis

section Start

/-- A property that every setting keeps. -/
structure KeptBySettings (P : Machine Console → Prop) : Prop where
  flush : ∀ {m}, P m → P m.flush.2
  output : ∀ {m} output, P m → P { m with output := output }
  limit : ∀ {m} limit, 0 < limit → P m → P { m with maxDepth := limit }
  echo : ∀ {m} enabled, P m → P { m with echo := enabled }
  traced : ∀ {m}, P m → P m.traced
  lineErrors : ∀ {m}, P m → P { m with reportsLines := true }

namespace KeptBySettings

variable {P : Machine Console → Prop} {interpreter : OnConsole}

theorem apply (kept : KeptBySettings P) (setting : Setting) (holds : P interpreter.machine) :
    P (interpreter.apply setting).2.machine := by
  cases setting with
  | output target =>
    have flushed := kept.flush holds
    simp only [Interpreter.apply, replaceOutput]
    split
    next panic m ended =>
      rw [ended] at flushed
      exact flushed
    next outcome m _ ended =>
      rw [ended] at flushed
      exact kept.output _ flushed
  | tee target => exact kept.output _ holds
  | input stream =>
    simp only [Interpreter.apply, addStream]
    split <;> exact holds
  | lines list => exact holds
  | maxDepth limit =>
    simp only [Interpreter.apply, withMachine, Machine.limited]
    split
    next allowed => exact kept.limit _ (by simpa using allowed) holds
    next => exact holds
  | echo enabled => exact kept.echo enabled holds
  | trace => exact kept.traced holds
  | lineErrors => exact kept.lineErrors holds

theorem applyAll (kept : KeptBySettings P) (settings : List Setting)
    (holds : P interpreter.machine) : P (interpreter.applyAll settings).2.machine := by
  induction settings generalizing interpreter with
  | nil => exact holds
  | cons setting rest inductionHypothesis =>
    have applied := kept.apply setting holds
    simp only [Interpreter.applyAll]
    split
    next after same =>
      rw [same] at applied
      exact inductionHypothesis applied
    next => exact applied

theorem numberDevices (kept : KeptBySettings P) (settings : List Setting)
    (holds : P interpreter.machine) :
    P (Session.numberDevices settings interpreter).2.machine := by
  induction settings generalizing interpreter with
  | nil => exact holds
  | cons setting rest inductionHypothesis =>
    simp only [Session.numberDevices]
    apply inductionHypothesis
    cases setting with
    | output target => exact kept.output _ holds
    | tee target => exact kept.output _ holds
    | input | lines | maxDepth | echo | trace | lineErrors => exact holds

theorem configure (kept : KeptBySettings P) (settings : SettingTree)
    (holds : P interpreter.machine) : P (Session.configure settings interpreter).2.machine := by
  rw [Session.configure_eq]
  exact kept.applyAll _ (kept.numberDevices _ holds)

end KeptBySettings

theorem keptBySettings_fresh : KeptBySettings Machine.Fresh where
  flush fresh := ⟨fresh.stack, fresh.words, fresh.constants, fresh.depth, fresh.maxDepth⟩
  output _ fresh := ⟨fresh.stack, fresh.words, fresh.constants, fresh.depth, fresh.maxDepth⟩
  limit _ positive fresh := ⟨fresh.stack, fresh.words, fresh.constants, fresh.depth, positive⟩
  echo _ fresh := ⟨fresh.stack, fresh.words, fresh.constants, fresh.depth, fresh.maxDepth⟩
  traced fresh := ⟨fresh.stack, fresh.words, fresh.constants, fresh.depth, fresh.maxDepth⟩
  lineErrors fresh := ⟨fresh.stack, fresh.words, fresh.constants, fresh.depth, fresh.maxDepth⟩

/-- A session starts with a fresh machine, whatever its settings are. -/
theorem Reachable.start (settings : SettingTree) : Reachable (Session.start settings) := by
  have initial : Interpreter.initial.machine.Fresh := ⟨rfl, rfl, rfl, rfl, by decide⟩
  exact .fresh (keptBySettings_fresh.configure settings initial)

end Start

section Dictionary

variable {σ : Type} [Output σ] {interpreter : Interpreter σ}

theorem Reachable.orderly (reached : Reachable interpreter) : interpreter.machine.Orderly := by
  apply reached.induct
  · constructor
    · intro m mark message orderly
      exact orderly.trace mark message
    · intro m output journal orderly
      exact orderly.congr rfl rfl
    · intro m line orderly
      exact orderly.eval line
  · intro m fresh
    constructor
    all_goals simp [fresh.words, fresh.constants]

theorem Reachable.depth (reached : Reachable interpreter) : interpreter.machine.depth = 0 := by
  apply reached.induct (P := fun m => m.depth = 0)
  · constructor
    · intro m mark message idle
      rw [Machine.trace_depth]
      exact idle
    · intro m output journal idle
      exact idle
    · intro m line idle
      exact (Machine.SameSettings.eval line m).depth.trans idle
  · intro m fresh
    exact fresh.depth

/-- The dictionary of a reachable interpreter is orderly. So a word that is called
on it, from whatever machine and under whatever limit, defines no word: a colon
that its body comes to ends the body with a failure. -/
theorem Reachable.orderly_frozen (reached : Reachable interpreter) :
    interpreter.machine.Orderly ∧
      ∀ name body, interpreter.machine.words.lookup? name = some body →
        ∀ levels (m : Machine σ), m.words = interpreter.machine.words →
          (Machine.call levels name body m).2.words = m.words ∧
          ∀ before rest, body = before ++ Token.colon :: rest →
            (m.execute (Machine.call levels) before).1 = .done →
            ∃ failure,
              m.execute (Machine.call levels) body =
                (.failed failure, (m.execute (Machine.call levels) before).2) ∧
              (failure = .unterminatedDefinition ∨
                ∃ invalid, failure = .invalidWordName invalid) := by
  refine ⟨reached.orderly, ?_⟩
  intro name body defined levels m same
  have settled := reached.orderly.settled
  refine ⟨?_, ?_⟩
  · rw [← same] at settled defined
    exact Machine.call_words levels settled defined
  · rintro before rest rfl done
    have unclosed : Token.semicolon ∉ rest := by
      intro membership
      exact settled name _ defined (by simp [membership])
    exact Machine.execute_colon unclosed done

end Dictionary

/-- A word named `;`, a definition that is not finished, and a word that opens a
definition when it is called, which is what the last line does. -/
def opening : OnConsole :=
  let source : LineList :=
    { name := text "lines"
      lines := [text ": ; 1 ;", text ": v 6"]
      taken := 0
      ending := .endOfInput
      located := false
      interruptAt := 0
      closeFailure := none }
  let memory : Target := .fresh (Device.fresh .memory)
  let started := Session.start (.group [.one (.output memory), .one (.lines source)])
  (((started.run .silent).2.eval (text ": w 5 : v ;")).2.eval (text "w")).2

theorem reachable_opening : Reachable opening :=
  (((Reachable.start _).run .silent).eval _).eval _

theorem Reachable.orderly_frozen_opening :
    opening.machine.Orderly ∧
      opening.machine.words.entries =
        [(text ";", [text "1"]), (text "w", [text "5", text ":", text "v"])] ∧
      (opening.machine.call 7 (text "w") [text "5", text ":", text "v"]).2.words =
        opening.machine.words ∧
      ∃ failure,
        opening.machine.execute (Machine.call 7) [text "5", text ":", text "v"] =
          (.failed failure, (opening.machine.execute (Machine.call 7) [text "5"]).2) ∧
        (failure = .unterminatedDefinition ∨ ∃ invalid, failure = .invalidWordName invalid) := by
  have defined : opening.machine.words.lookup? (text "w") =
      some [text "5", text ":", text "v"] := by decide +kernel
  have pushed : (opening.machine.execute (Machine.call 7) [text "5"]).1 = .done := by
    decide +kernel
  obtain ⟨orderly, calls⟩ := Reachable.orderly_frozen reachable_opening
  obtain ⟨frozen, colon⟩ := calls _ _ defined 7 opening.machine rfl
  exact ⟨orderly, by decide +kernel, frozen, colon [text "5"] [text "v"] rfl pushed⟩

end Interpreter

end LineForth
