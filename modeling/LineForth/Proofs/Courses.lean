import LineForth.Proofs.Cancellation
import LineForth.Proofs.Closing
import LineForth.Proofs.DefinitionLog

/-!
# The course of an interpreter

An interpreter is set up, evaluates lines, runs its sources and is closed, in any order and as
often as one likes. Its annals say what came of that: the inputs that were handed over since it
was last closed, the lines that its runs have read since then, and all definitions, each in the
order of the events. A run is followed turn by turn for this, under any context.
-/

set_option autoImplicit false

namespace LineForth

namespace Turn

variable {σ : Type}

section Received

/-- The line that is read in the turn, the events on the way to it, and the source behind it. -/
def received? (turn : Turn σ) : Option (Bytes × List Event × Source) :=
  match turn.interrupt, turn.sources with
  | none, source :: _ =>
    match source.readLine with
    | (.ok line, events, after) => some (line, events, after)
    | (.error _, _, _) => none
  | _, _ => none

def line? (turn : Turn σ) : Option SourceLine :=
  turn.received?.map fun (line, _, after) => ⟨after.location?, line⟩

variable {source after : Source} {events : List Event}

theorem received?_of_ok {line : Bytes} (received : source.readLine = (.ok line, events, after))
    (passed rest : List Source) (m : Machine σ) :
    received? ⟨none, passed, source :: rest, m⟩ = some (line, events, after) := by
  simp only [received?, received]

theorem received?_of_error {failure : Failure}
    (received : source.readLine = (.error failure, events, after)) (passed rest : List Source)
    (m : Machine σ) : received? ⟨none, passed, source :: rest, m⟩ = none := by
  simp only [received?, received]

theorem line?_of_ok {line : Bytes} (received : source.readLine = (.ok line, events, after))
    (passed rest : List Source) (m : Machine σ) :
    line? ⟨none, passed, source :: rest, m⟩ = some ⟨after.location?, line⟩ := by
  rw [line?, received?_of_ok received, Option.map_some]

theorem line?_of_error {failure : Failure}
    (received : source.readLine = (.error failure, events, after)) (passed rest : List Source)
    (m : Machine σ) : line? ⟨none, passed, source :: rest, m⟩ = none := by
  rw [line?, received?_of_error received, Option.map_none]

end Received

variable [Output σ]

/-- What the line of the turn defines. -/
def definitions (turn : Turn σ) : List Definition :=
  match turn.received? with
  | some (line, events, _) =>
    if line.trim = Machine.exitCommand then [] else (turn.machine.record events).definitions line
  | none => []

section Definitions

variable {turn later : Turn σ} {result : Outcome × Interpreter σ}

theorem Next.defines (next : Next turn later) :
    turn.machine.Defines turn.definitions later.machine := by
  cases next with
  | @line source after line events passed rest m evaluated received stays done =>
    simp only [definitions, received?_of_ok received, if_neg stays]
    have defines := Machine.Defines.evalReporting after.location? line (m.record events)
    rw [done] at defines
    exact ⟨defines.words, defines.constants⟩
  | source received ended =>
    rw [definitions, received?_of_error received]
    exact .of_same rfl rfl

theorem Ends.defines (ends : Ends turn result) :
    turn.machine.Defines turn.definitions result.2.machine := by
  cases ends with
  | all interrupt passed m =>
    cases interrupt <;> exact .of_same rfl rfl
  | interrupted failure passed source rest m => exact .of_same rfl rfl
  | failure received other =>
    rw [definitions, received?_of_error received]
    exact .of_same rfl rfl
  | @exit source after line events passed rest m received exits =>
    simp only [definitions, received?_of_ok received, if_pos exits]
    have defines := Machine.Defines.farewell (m.record events)
    exact ⟨defines.words, defines.constants⟩
  | @line source after line events outcome passed rest m evaluated received stays stopped other =>
    simp only [definitions, received?_of_ok received, if_neg stays]
    have defines := Machine.Defines.evalReporting after.location? line (m.record events)
    rw [stopped] at defines
    exact ⟨defines.words, defines.constants⟩

end Definitions

namespace RunsThrough

variable {context : Context} {number : Nat} {turn : Turn σ} {turns : List (Turn σ)}
  {result : Outcome × Interpreter σ}

theorem defines (runs : RunsThrough context number turn turns result) :
    turn.machine.Defines (turns.flatMap definitions) result.2.machine := by
  induction runs with
  | last ends =>
    rw [List.flatMap_singleton]
    exact ends.defines
  | next next further inductionHypothesis =>
    rw [List.flatMap_cons]
    exact next.defines.trans inductionHypothesis

end RunsThrough

end Turn

structure Annals where
  /-- The inputs that were handed over since the interpreter was closed. -/
  supplied : List Source
  /-- The lines that were read since then. -/
  read : List SourceLine
  definitions : List Definition

namespace Annals

def empty : Annals := ⟨[], [], []⟩

def supply (annals : Annals) (sources : List Source) : Annals :=
  { annals with supplied := annals.supplied ++ sources }

def define (annals : Annals) (definitions : List Definition) : Annals :=
  { annals with definitions := annals.definitions ++ definitions }

def follow (annals : Annals) (turns : List (Turn Console)) : Annals where
  supplied := annals.supplied
  read := annals.read ++ turns.filterMap Turn.line?
  definitions := annals.definitions ++ turns.flatMap Turn.definitions

/-- The interpreter has no input any more. -/
def close (annals : Annals) : Annals := { annals with supplied := [], read := [] }

end Annals

open Interpreter (OnConsole)

/-- What may become of an interpreter, with its annals. Cells are pushed and names are defined by
lines or directly. Nothing is asked of how a step ends, except that a close has to return: if its
flush panics, nothing is closed and the inputs stay as they are. -/
inductive Course : Annals → OnConsole → Prop
  | start : Course .empty .initial
  | set {annals : Annals} {state : OnConsole} (setting : Setting)
      (earlier : Course annals state) :
      Course (annals.supply setting.source?.toList) (state.apply setting).2
  | eval {annals : Annals} {state : OnConsole} (line : Bytes) (earlier : Course annals state) :
      Course (annals.define (state.machine.definitions line)) (state.eval line).2
  | push {annals : Annals} {state : OnConsole} (cells : List Cell)
      (earlier : Course annals state) : Course annals (Session.perform (.push cells) state).2
  | word {annals : Annals} {state : OnConsole} (name : Bytes) (body : List Token)
      (earlier : Course annals state) :
      Course (annals.define [.word name body]) (Session.perform (.word name body) state).2
  | constant {annals : Annals} {state : OnConsole} (name : Bytes) (value : Cell)
      (earlier : Course annals state) :
      Course (annals.define [.constant name value]) (Session.perform (.constant name value) state).2
  | run {annals : Annals} {state : OnConsole} {context : Context}
      {turns : List (Turn Console)} {result : Outcome × OnConsole}
      (runs : state.RunsThrough context turns result) (earlier : Course annals state) :
      Course (annals.follow turns) result.2
  | close {annals : Annals} {state : OnConsole}
      (returns : ∀ panic, state.close.1 ≠ .panicked panic) (earlier : Course annals state) :
      Course annals.close state.close.2
  | closeStopped {annals : Annals} {state : OnConsole} {panic : Panic}
      (panicked : state.close.1 = .panicked panic) (earlier : Course annals state) :
      Course annals state.close.2

namespace Course

variable {annals : Annals} {state : OnConsole}

theorem applyAll {settings : List Setting} (earlier : Course annals state)
    (done : (state.applyAll settings).1 = .done) :
    Course (annals.supply (settings.filterMap Setting.source?)) (state.applyAll settings).2 := by
  induction settings generalizing annals state with
  | nil =>
    rw [List.filterMap_nil, Annals.supply, List.append_nil]
    exact earlier
  | cons setting rest inductionHypothesis =>
    have applied := earlier.set setting
    rw [Interpreter.applyAll] at done ⊢
    split at done
    next after same =>
      rw [same] at applied
      have further := inductionHypothesis applied done
      rw [Annals.supply, Annals.supply, List.append_assoc] at further
      rw [Annals.supply, List.filterMap_cons]
      cases setting <;> exact further
    next stopped => exact (stopped _ (Prod.ext done rfl)).elim

theorem configure {settings : SettingTree} (earlier : Course annals state)
    (done : (state.configure settings).1 = .done) :
    Course (annals.supply (settings.flatten.filterMap Setting.source?))
      (state.configure settings).2 := by
  rw [Interpreter.configure_eq_applyAll] at done ⊢
  exact earlier.applyAll done

theorem keptBySettings_records (definitions : List Definition) :
    Interpreter.KeptBySettings fun m => m.Records definitions where
  flush records := ⟨records.words, records.constants⟩
  output _ records := ⟨records.words, records.constants⟩
  limit _ _ records := ⟨records.words, records.constants⟩
  echo _ records := ⟨records.words, records.constants⟩
  traced records := ⟨records.words, records.constants⟩
  lineErrors records := ⟨records.words, records.constants⟩

theorem records_close {definitions : List Definition}
    (records : state.machine.Records definitions) :
    state.close.2.machine.Records definitions := by
  have flushed : state.machine.flush.2.Records definitions := ⟨records.words, records.constants⟩
  unfold Interpreter.close
  split
  next panic machine same =>
    rw [same] at flushed
    exact flushed
  next outcome machine _ same =>
    rw [same] at flushed
    exact ⟨flushed.words, flushed.constants⟩

/-- The tables hold what all definitions come to. -/
theorem records (course : Course annals state) : state.machine.Records annals.definitions := by
  induction course with
  | start => exact ⟨.empty, .empty⟩
  | set setting _ inductionHypothesis =>
    exact (keptBySettings_records _).apply setting inductionHypothesis
  | eval line _ inductionHypothesis =>
    exact (Machine.Defines.eval line _).records inductionHypothesis
  | push cells _ inductionHypothesis =>
    exact ⟨inductionHypothesis.words, inductionHypothesis.constants⟩
  | @word annals state name body _ inductionHypothesis =>
    have defines : state.machine.Defines [.word name body]
        (Session.perform (.word name body) state).2.machine := ⟨rfl, rfl⟩
    exact defines.records inductionHypothesis
  | @constant annals state name value _ inductionHypothesis =>
    have defines : state.machine.Defines [.constant name value]
        (Session.perform (.constant name value) state).2.machine := ⟨rfl, rfl⟩
    exact defines.records inductionHypothesis
  | run runs _ inductionHypothesis => exact runs.defines.records inductionHypothesis
  | close returns _ inductionHypothesis => exact records_close inductionHypothesis
  | closeStopped panicked _ inductionHypothesis => exact records_close inductionHypothesis

end Course

end LineForth
