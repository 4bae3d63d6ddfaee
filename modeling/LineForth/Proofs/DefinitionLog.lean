import LineForth.Interpreter
import LineForth.Proofs.Frame
import LineForth.Proofs.Table

/-!
# The log of definitions

Evaluation makes one definition after the other, in the line itself and in the bodies that the
line calls. An evaluator beside the machine lists them in this order and nothing else. Whatever
a line does and however it ends, its tables are the tables before it with these definitions
made; so they hold what the log of all definitions comes to.
-/

set_option autoImplicit false

namespace LineForth

inductive Definition where
  | word (name : Bytes) (body : List Token)
  | constant (name : Bytes) (value : Cell)
  deriving DecidableEq, Repr

namespace Definition

def word? : Definition → Option (Bytes × List Token)
  | word name body => some (name, body)
  | constant _ _ => none

def constant? : Definition → Option (Bytes × Cell)
  | word _ _ => none
  | constant name value => some (name, value)

def words (definitions : List Definition) : Table.Log (List Token) := definitions.filterMap word?

def constants (definitions : List Definition) : Table.Log Cell := definitions.filterMap constant?

theorem words_append (first second : List Definition) :
    words (first ++ second) = words first ++ words second :=
  List.filterMap_append

theorem constants_append (first second : List Definition) :
    constants (first ++ second) = constants first ++ constants second :=
  List.filterMap_append

end Definition

namespace Table

variable {α : Type} {table : Table α} {log : Log α}

theorem defineAll_append (table : Table α) (first second : Log α) :
    table.defineAll (first ++ second) = (table.defineAll first).defineAll second :=
  List.foldl_append

theorem Holds.defineAll (holds : table.Holds log) (more : Log α) :
    (table.defineAll more).Holds (log ++ more) := by
  induction more generalizing table log with
  | nil =>
    rw [List.append_nil]
    exact holds
  | cons entry rest inductionHypothesis =>
    have further := inductionHypothesis (holds.define entry.1 entry.2)
    rw [List.append_assoc, List.singleton_append] at further
    exact further

end Table

namespace Machine

variable {σ : Type}

/-- What a call defines. -/
abbrev Defining (σ : Type) := Token → List Token → Machine σ → List Definition

/-- What an instruction defines. A name for a constant needs a value on the stack. -/
def definitionsOf (defining : Defining σ) (m : Machine σ) : Instruction → List Definition
  | .define name body => [.word name body]
  | .constant name => (m.stack.head?.map (.constant name)).toList
  | .refer token =>
    match m.meaning token with
    | .word body => defining token body m
    | _ => []
  | .print | .words | .say _ => []

section Evaluation

variable [Output σ]

def definitionsOfAll (call : Call σ) (defining : Defining σ) :
    List Instruction → Machine σ → List Definition
  | [], _ => []
  | instruction :: rest, m =>
    m.definitionsOf defining instruction ++
      match m.perform call instruction with
      | (.done, after) =>
        definitionsOfAll call defining rest
          (after.traceRule (m.ruleName instruction) instruction.opener)
      | _ => []

def definitionsOfCall : (levels : Nat) → Defining σ
  | 0, _, _, _ => []
  | levels + 1, _, body, m =>
    definitionsOfAll (call levels) (definitionsOfCall levels) (Program.ofTokens body).instructions
      m.enter

/-- What a line defines, in order, until it ends. -/
def definitions (line : Bytes) (m : Machine σ) : List Definition :=
  let traced := m.trace (text ">") (text "eval " ++ line.quote)
  let levels := traced.maxDepth - traced.depth
  definitionsOfAll (call levels) (definitionsOfCall levels)
    (Program.ofTokens (tokenize line)).instructions traced

end Evaluation

/-- The tables change by these definitions. -/
structure Defines (definitions : List Definition) (before after : Machine σ) : Prop where
  words : after.words = before.words.defineAll (Definition.words definitions)
  constants : after.constants = before.constants.defineAll (Definition.constants definitions)

namespace Defines

variable {m after last : Machine σ} {earlier later : List Definition}

theorem of_same (words : after.words = m.words) (constants : after.constants = m.constants) :
    Defines [] m after :=
  ⟨words, constants⟩

theorem trans (first : Defines earlier m after) (second : Defines later after last) :
    Defines (earlier ++ later) m last where
  words := by rw [second.words, first.words, Definition.words_append, Table.defineAll_append]
  constants := by
    rw [second.constants, first.constants, Definition.constants_append, Table.defineAll_append]

theorem trace (mark message : Bytes) : Defines [] m (m.trace mark message) :=
  of_same (trace_words m mark message) (trace_constants m mark message)

theorem before_trace {mark message : Bytes} (defines : Defines later (m.trace mark message) last) :
    Defines later m last :=
  (trace mark message).trans defines

theorem defineWord (name : Token) (body : List Token) :
    Defines [.word name body] m (m.defineWord name body) := by
  obtain ⟨message, same⟩ := m.exists_defineWord_eq name body
  rw [same]
  constructor
  · rw [trace_words]
    rfl
  · rw [trace_constants]
    rfl

theorem bindConstant (name : Token) :
    Defines (m.stack.head?.map (Definition.constant name)).toList m (m.bindConstant name).2 := by
  unfold Machine.bindConstant
  cases m.stack with
  | nil => exact of_same rfl rfl
  | cons value rest =>
    obtain ⟨message, same⟩ := { m with stack := rest }.exists_defineConstant_eq name value
    simp only [Stack.pop, same]
    constructor
    · rw [trace_words]
      rfl
    · rw [trace_constants]
      rfl

section Evaluation

variable [Output σ]

section Program

variable {call : Call σ} {defining : Defining σ}
  (calls : ∀ name body (m : Machine σ), Defines (defining name body m) m (call name body m).2)

include calls

theorem perform (instruction : Instruction) (m : Machine σ) :
    Defines (m.definitionsOf defining instruction) m (m.perform call instruction).2 := by
  cases instruction with
  | define name body => exact defineWord name body
  | constant name => exact bindConstant name
  | print | words | say line => exact of_same rfl rfl
  | refer token =>
    simp only [Machine.perform, refer, definitionsOf]
    cases m.meaning token with
    | word body => exact calls token body m
    | builtin | constant | literal | unknown => exact of_same rfl rfl

theorem performAll (ending : Outcome) (instructions : List Instruction) (m : Machine σ) :
    Defines (definitionsOfAll call defining instructions m) m
      (Machine.performAll call ending instructions m).2 := by
  induction instructions generalizing m with
  | nil => exact of_same rfl rfl
  | cons instruction rest inductionHypothesis =>
    have performed := perform calls instruction m
    rcases same : m.perform call instruction with ⟨outcome, after⟩
    rw [same] at performed
    simp only [definitionsOfAll, Machine.performAll, same]
    cases outcome with
    | done => exact performed.trans (inductionHypothesis _).before_trace
    | failed | panicked =>
      rw [List.append_nil]
      exact performed

end Program

theorem call (levels : Nat) (name : Token) (body : List Token) (m : Machine σ) :
    Defines (definitionsOfCall levels name body m) m (Machine.call levels name body m).2 := by
  induction levels generalizing name body m with
  | zero => exact of_same rfl rfl
  | succ levels inductionHypothesis =>
    -- Entering and leaving the body keeps the tables, so this is what the body does.
    obtain ⟨words, constants⟩ := performAll inductionHypothesis
      (Program.ofTokens body).ending (Program.ofTokens body).instructions m.enter
    exact ⟨words, constants⟩

/-- A line makes its definitions, however it ends. -/
theorem eval (line : Bytes) (m : Machine σ) : Defines (m.definitions line) m (m.eval line).2 := by
  obtain ⟨output, journal, concluded⟩ := exists_conclude_eq (m.evalLine line)
  have evaluated : Defines (m.definitions line) m (m.evalLine line).2 :=
    (performAll (call _) _ _ _).before_trace
  rw [eval_eq_conclude, concluded]
  exact ⟨evaluated.words, evaluated.constants⟩

theorem farewell (m : Machine σ) : Defines [] m m.farewell.2 := by
  obtain ⟨output, journal, same⟩ := exists_finish_eq
    ((m.trace (text ">") exitCommand).write .staged (text "Bye!" ++ [Bytes.newline]))
  rw [Machine.farewell, same]
  exact of_same (trace_words m _ _) (trace_constants m _ _)

theorem reportFailure (location : Option Location) (failure : Failure) (m : Machine σ) :
    Defines [] m (m.reportFailure location failure).2 := by
  have noted : Defines [] m ((m.trace (text "!") failure.detail).noteLine location failure) := by
    unfold noteLine
    split
    all_goals exact of_same (trace_words m _ _) (trace_constants m _ _)
  have written (octets : Bytes) : Defines [] m
      (((m.trace (text "!") failure.detail).noteLine location failure).write .direct octets).2 :=
    ⟨noted.words, noted.constants⟩
  unfold Machine.reportFailure
  dsimp only
  split
  next after same =>
    have flushed := written (text "Error: " ++ failure.message ++ [Bytes.newline])
    rw [same] at flushed
    exact ⟨flushed.words, flushed.constants⟩
  next => exact written _

theorem evalReporting (location : Option Location) (line : Bytes) (m : Machine σ) :
    Defines (m.definitions line) m (m.evalReporting location line).2 := by
  have evaluated := eval line m
  unfold Machine.evalReporting
  split
  next failure after same =>
    rw [same] at evaluated
    have reported := evaluated.trans (reportFailure location failure after)
    rw [List.append_nil] at reported
    exact reported
  next => exact evaluated

end Evaluation

end Defines

/-- The tables hold what the definitions come to. -/
structure Records (m : Machine σ) (definitions : List Definition) : Prop where
  words : m.words.Holds (Definition.words definitions)
  constants : m.constants.Holds (Definition.constants definitions)

theorem Defines.records {m after : Machine σ} {earlier later : List Definition}
    (defines : Defines later m after) (records : m.Records earlier) :
    after.Records (earlier ++ later) where
  words := by
    rw [defines.words, Definition.words_append]
    exact records.words.defineAll _
  constants := by
    rw [defines.constants, Definition.constants_append]
    exact records.constants.defineAll _

end Machine

end LineForth
