import LineForth.Dump
import LineForth.Setting

/-!
# Sessions

A session is an interpreter on a console, driven step by step. After each step
it reports what became visible in that step: how it ended, the stack, what each
device accepted, and what was written to the journal.
-/

set_option autoImplicit false

namespace LineForth

inductive Step where
  | eval (line : Bytes)
  /-- Run the sources; the context answers first with the interrupt. -/
  | run (interrupt : Option Failure) (later : Context := Context.silent)
  | close
  /-- Push cells directly, the first one first. -/
  | push (cells : List Cell)
  /-- Define a word without reading it from tokens. -/
  | word (name : Bytes) (body : List Token)
  | constant (name : Bytes) (value : Cell)
  | configure (settings : SettingTree)
  | state
  /-- Show the state, and the bodies of words as it is said. -/
  | dump (render : List Token → Bytes := Dump.renderBody)

/-- What a step adds to its report. -/
inductive Detail where
  | nothing
  | word (previous : Option (List Token))
  | constant (previous : Option Cell)
  | state (words : List (Bytes × List Token)) (constants : List (Bytes × Cell))
      (sources maxDepth : Nat) (echo : Bool)
  | dump (text : Bytes)
  deriving DecidableEq, Repr

structure Report where
  outcome : Outcome
  detail : Detail
  /-- Bottom to top. -/
  stack : List Cell
  depth : Nat
  /-- What each device accepted in the step. -/
  received : List Bytes
  /-- Present once tracing is on. -/
  traceLines : Option (List Bytes)
  /-- Present once failed lines are recorded. -/
  lineErrors : Option (List Bytes)
  events : List Event
  deriving DecidableEq, Repr

namespace Session

abbrev State := Interpreter Console

def numberTarget (target : Target) (state : State) : Target × State :=
  let (number, bank) := state.machine.output.bank.enroll target
  let known := match number with
    | some number => Target.numbered number
    | none => Target.nothing
  (known, state.withConsole fun console => { console with bank := bank })

def numberSetting (setting : Setting) (state : State) : Setting × State :=
  match setting with
  | .output target =>
    let (known, numbered) := numberTarget target state
    (.output known, numbered)
  | .tee target =>
    let (known, numbered) := numberTarget target state
    (.tee known, numbered)
  | setting => (setting, state)

mutual

/-- Numbers the fresh devices of the settings, in the order of the settings. -/
def numberTree : SettingTree → State → SettingTree × State
  | .nothing, state => (.nothing, state)
  | .one setting, state =>
    let (known, numbered) := numberSetting setting state
    (.one known, numbered)
  | .group members, state =>
    let (known, numbered) := numberMembers members state
    (.group known, numbered)

def numberMembers : List SettingTree → State → List SettingTree × State
  | [], state => ([], state)
  | member :: rest, state =>
    let (known, numbered) := numberTree member state
    let (others, last) := numberMembers rest numbered
    (known :: others, last)

end

/-- Every device that the settings mention is numbered before the first setting
takes effect, so its number does not depend on how the settings go. -/
def configure (settings : SettingTree) (state : State) : Outcome × State :=
  let (known, numbered) := numberTree settings state
  numbered.configure known

def start (settings : SettingTree) : State := (configure settings Interpreter.initial).2

def perform (step : Step) (state : State) : (Outcome × Detail) × State :=
  let machine := state.machine
  match step with
  | .eval line =>
    let (outcome, after) := state.eval line
    ((outcome, .nothing), after)
  | .run interrupt later =>
    let (outcome, after) := state.run (.answering interrupt later)
    ((outcome, .nothing), after)
  | .close =>
    let (outcome, after) := state.close
    ((outcome, .nothing), after)
  | .push cells =>
    ((.done, .nothing),
      { state with machine := { machine with stack := cells.reverse ++ machine.stack } })
  | .word name body =>
    let (previous, words) := machine.words.exchange name body
    ((.done, .word previous), { state with machine := { machine with words := words } })
  | .constant name value =>
    let (previous, constants) := machine.constants.exchange name value
    ((.done, .constant previous),
      { state with machine := { machine with constants := constants } })
  | .configure settings =>
    let (outcome, after) := configure settings state
    ((outcome, .nothing), after)
  | .state =>
    ((.done, .state machine.words.entries machine.constants.entries state.sources.length
      machine.maxDepth machine.echo), state)
  | .dump render => ((.done, .dump (machine.dump render)), state)

/-- The octets that each device accepted after it had accepted `before`. -/
def newlyReceived (before after : List Bytes) : List Bytes :=
  after.mapIdx fun number octets => octets.drop (before.getD number []).length

def step (step : Step) (state : State) : Report × State :=
  let ((outcome, detail), after) := perform step state
  let machine := after.machine
  let report : Report :=
    { outcome := outcome
      detail := detail
      stack := machine.stack.bottomUp
      depth := machine.depth
      received := newlyReceived state.machine.output.bank.received machine.output.bank.received
      traceLines := if machine.tracer.active then some machine.journal.traceLines else none
      lineErrors := if machine.reportsLines then some machine.journal.lineErrors else none
      events := machine.journal.events }
  (report, { after with machine := { machine with journal := [] } })

def steps : List Step → State → List Report
  | [], _ => []
  | first :: rest, state =>
    let (report, after) := step first state
    report :: steps rest after

def run (settings : SettingTree) (script : List Step) : List Report :=
  steps script (start settings)

end Session

end LineForth
