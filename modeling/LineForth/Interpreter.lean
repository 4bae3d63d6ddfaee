import LineForth.Evaluation
import LineForth.Input.Source

/-!
# Running an interpreter

An interpreter evaluates the lines of its sources in order. A line that fails is
reported on the output and the run goes on; only the input, the output or the context
of the run end it early. The context is asked before each line is asked for.
-/

set_option autoImplicit false

namespace LineForth

structure Interpreter (σ : Type) where
  machine : Machine σ
  sources : List Source

/-- What a run is told whenever it asks whether to go on, by how often it has asked before:
the failure with which it has to stop, if there is one. -/
abbrev Context := Nat → Option Failure

namespace Context

/-- Lets a run go on. -/
def silent : Context := fun _ => none

/-- One answer, and then the answers of another context. -/
def answering (first : Option Failure) (later : Context) : Context
  | 0 => first
  | number + 1 => later number

/-- What is still answered after the first answer. -/
def next (context : Context) : Context := fun number => context (number + 1)

/-- The next answer is an interrupt, unless the context has one of its own. -/
def interrupted (context : Context) : Option Failure → Context
  | none => context
  | some failure => answering ((context 0).or (some failure)) context.next

theorem interrupted_none (context : Context) : context.interrupted none = context := rfl

theorem interrupted_zero (context : Context) (interrupt : Option Failure) :
    context.interrupted interrupt 0 = (context 0).or interrupt := by
  cases interrupt with
  | none => exact Option.or_none.symm
  | some failure => rfl

theorem next_of_silent {context : Context} (clear : context = silent) : context.next = silent := by
  rw [clear]
  rfl

end Context

namespace Machine

variable {σ : Type}

def exitCommand : Bytes := text "exit"

/-- The report about a failed line: its place, if that is known, and the
failure. -/
def lineReport (location : Option Location) (failure : Failure) : Bytes :=
  match location with
  | some location => location.render ++ text ": " ++ failure.message
  | none => failure.message

def noteLine (m : Machine σ) (location : Option Location) (failure : Failure) : Machine σ :=
  if m.reportsLines then
    { m with journal := .lineError (lineReport location failure) :: m.journal }
  else m

variable [Output σ]

def farewell (m : Machine σ) : Outcome × Machine σ :=
  let traced := m.trace (text ">") exitCommand
  finish (traced.write .staged (text "Bye!" ++ [Bytes.newline]))

def reportFailure (m : Machine σ) (location : Option Location) (failure : Failure) :
    Outcome × Machine σ :=
  let noted := (m.trace (text "!") failure.detail).noteLine location failure
  match noted.write .direct (text "Error: " ++ failure.message ++ [Bytes.newline]) with
  | (.done, written) => written.flush
  | stopped => stopped

/-- Evaluates a line and reports its failure. What does not succeed here ends
the run. -/
def evalReporting (m : Machine σ) (location : Option Location) (line : Bytes) :
    Outcome × Machine σ :=
  match m.eval line with
  | (.failed failure, after) => after.reportFailure location failure
  | result => result

end Machine

namespace Interpreter

variable {σ : Type}

/-- How far a run came with one source. -/
structure Drained (σ : Type) where
  /-- How the run ended at this source, unless the source ran out of lines. -/
  stopped : Option Outcome
  /-- What the context still answers. -/
  context : Context
  source : Source
  machine : Machine σ

section Run

variable [Output σ]

def drain (context : Context) (source : Source) (m : Machine σ) : Drained σ :=
  match context 0 with
  | some failure => ⟨some (.failed failure), context.next, source, m⟩
  | none =>
    match _received : source.readLine with
    | (.error failure, events, after) =>
      if failure.isEndOfInput then ⟨none, context.next, after, m.record events⟩
      else ⟨some (.failed failure), context.next, after, m.record events⟩
    | (.ok line, events, after) =>
      if line.trim = Machine.exitCommand then
        let (outcome, left) := (m.record events).farewell
        ⟨some outcome, context.next, after, left⟩
      else
        match (m.record events).evalReporting after.location? line with
        | (.done, evaluated) =>
          let interrupt := if after.interrupts then some .canceled else none
          drain (context.next.interrupted interrupt) after evaluated
        | (outcome, evaluated) => ⟨some outcome, context.next, after, evaluated⟩
termination_by source.size
decreasing_by exact Source.size_readLine _received

def runSources (context : Context) :
    List Source → Machine σ → Outcome × List Source × Machine σ
  | [], m =>
    let (outcome, flushed) := m.flush
    (outcome, [], flushed)
  | source :: rest, m =>
    match drain context source m with
    | ⟨some outcome, _, after, left⟩ => (outcome, after :: rest, left)
    | ⟨none, further, after, left⟩ =>
      let (outcome, others, last) := runSources further rest left
      (outcome, after :: others, last)

/-- Runs all sources, as long as the context does not stop the run. -/
def run (context : Context) (interpreter : Interpreter σ) : Outcome × Interpreter σ :=
  let (outcome, sources, machine) := runSources context interpreter.sources interpreter.machine
  (outcome, ⟨machine, sources⟩)

def eval (line : Bytes) (interpreter : Interpreter σ) : Outcome × Interpreter σ :=
  let (outcome, machine) := interpreter.machine.eval line
  (outcome, { interpreter with machine := machine })

def closeSources : List Source → Outcome × List Event
  | [] => (.done, [])
  | source :: rest =>
    let (outcome, events) := source.close
    let (later, others) := closeSources rest
    (outcome.orElse later, events ++ others)

/-- Flushes the output and closes the sources, the last one first. The first
failure is reported; only a panic of the flush keeps the sources open. -/
def close (interpreter : Interpreter σ) : Outcome × Interpreter σ :=
  match interpreter.machine.flush with
  | (.panicked panic, machine) => (.panicked panic, { interpreter with machine := machine })
  | (flushed, machine) =>
    let (closed, events) := closeSources interpreter.sources.reverse
    (flushed.orElse closed, ⟨machine.record events, []⟩)

end Run

/-- A stream joins the feed at the end, if there is one there. -/
def addStream (interpreter : Interpreter σ) (stream : Stream) : Interpreter σ :=
  match interpreter.sources.getLast? with
  | some (.feed feed) =>
    { interpreter with
      sources := interpreter.sources.dropLast ++ [.feed (feed.enqueue stream)] }
  | _ => { interpreter with sources := interpreter.sources ++ [.feed (Feed.ofQueue [stream])] }

def addList (interpreter : Interpreter σ) (list : LineList) : Interpreter σ :=
  { interpreter with sources := interpreter.sources ++ [.list list] }

end Interpreter

end LineForth
