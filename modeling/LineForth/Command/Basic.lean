import LineForth.Command.Directory
import LineForth.Command.Flags
import LineForth.Dump
import LineForth.Logger
import LineForth.Setting

/-!
# The command

The command evaluates the named files and then standard input, and writes to two
devices: its standard output and the log. A time limit ends the run before a line.
The exit status says whether everything went well: all files could be opened, the run
and the closing succeeded, every log line was written and, if asked for, no line failed.
-/

set_option autoImplicit false

namespace LineForth

structure StandardInput where
  octets : Bytes
  chunk : Chunking := 0
  ending : StreamEnding := .failure .endOfInput
  closeFailure : Option Failure := none
  deriving DecidableEq, Repr

namespace StandardInput

instance : Coe Bytes StandardInput := ⟨fun octets => { octets := octets }⟩

def name : Bytes := text "/dev/stdin"

def stream (input : StandardInput) : Stream :=
  ⟨name, input.octets, input.chunk, input.ending, .closes input.closeFailure⟩

end StandardInput

structure Invocation where
  arguments : List Bytes
  standardInput : StandardInput
  /-- What is read from a file, or why it cannot be opened. -/
  openFile : Bytes → Except Failure Stream

/-- What a command does not choose for itself. -/
structure Conditions where
  /-- The time that has passed whenever the run looks at it. -/
  elapsed : Nat → Nat := fun _ => 0
  /-- How a dump shows the body of a word. -/
  render : List Token → Bytes := Dump.renderBody

structure Exit where
  status : Nat
  standardOutput : Bytes
  standardError : Bytes
  deriving DecidableEq, Repr

namespace Command

/-- The number of the device that the log goes to. -/
def errorDevice : Nat := 0

/-- Opens files in order, up to the first that cannot be opened. -/
def openAll (openFile : Bytes → Except Failure Stream) :
    List Bytes → Except Failure (List Stream)
  | [] => .ok []
  | name :: rest =>
    match openFile name with
    | .error failure => .error failure
    | .ok stream =>
      match openAll openFile rest with
      | .error failure => .error failure
      | .ok streams => .ok (stream :: streams)

/-- Standard input comes after the files. -/
def inputs (invocation : Invocation) (files : List Stream) : List Stream :=
  files ++ [invocation.standardInput.stream]

/-- A run goes on while there is time left; no limit is given by 0. -/
def timeLimit (options : Options) (elapsed : Nat → Nat) : Context := fun number =>
  if options.timeout ≠ 0 ∧ options.timeout ≤ elapsed number then some .deadlineExceeded else none

section Run

variable {σ δ : Type}

/-- The interpreter that the options ask for. -/
def interpreter (options : Options) (streams : List Stream) (output : σ) : Interpreter σ :=
  let limited := (Machine.initial output).limited options.maxDepth
  let traced := if options.trace then limited.traced else limited
  let machine := { traced with echo := options.echo, reportsLines := options.strict }
  streams.foldl Interpreter.addStream ⟨machine, []⟩

/-- How an entry of the journal shows in the log. -/
def actOf : Entry → Option Log.Act
  | .trace line => some (.print (text "TRACE") line)
  | .lineError line => some (.error line)
  | .event _ => none

/-- What goes to the log, in the order of what happened: the run, the failure that ended
it, the dump, and the failure of closing. -/
def acts (options : Options) (render : List Token → Bytes) (ran : Outcome) (left : Machine σ)
    (closed : Outcome) : List Log.Act :=
  left.journal.reverse.filterMap actOf ++ [.errorIf ran] ++
    (if options.dump then (left.dumpLines render).map .bypass else []) ++ [.errorIf closed]

def log (devices : δ) : Log δ := ⟨{ Logger.initial with output := some errorDevice }, devices⟩

variable [Output σ] [Devices δ]

def evaluate (conditions : Conditions) (options : Options) (streams : List Stream) (output : σ)
    (devices : δ) : Nat × σ × δ :=
  let (ran, running) :=
    (interpreter options streams output).run (timeLimit options conditions.elapsed)
  let (closed, final) := running.close
  let logged :=
    (log devices).actAll (acts options conditions.render ran running.machine closed)
  (logged.logger.exitCode, final.machine.output, logged.devices)

/-- Runs the command with its output and its log. -/
def runOn (conditions : Conditions) (output : σ) (devices : δ) (invocation : Invocation) :
    Nat × σ × δ :=
  match Options.parse invocation.arguments with
  | .error problem =>
    let shown := (log devices).act (.bypass (problem.message ++ UsageProblem.usage))
    (problem.exitCode, output, shown.devices)
  | .ok options =>
    match openAll invocation.openFile options.files with
    | .error failure =>
      let refused := (log devices).act (.errorIf (.failed failure))
      (refused.logger.exitCode, output, refused.devices)
    | .ok files => evaluate conditions options (inputs invocation files) output devices

end Run

/-- Runs the command on devices that never fail. -/
def run (invocation : Invocation) (conditions : Conditions := {}) : Exit :=
  let plain := Device.fresh (.plain none)
  let (status, console, bank) :=
    runOn conditions (Console.only plain) (⟨[plain], []⟩ : Bank) invocation
  { status := status
    standardOutput := console.bank.received.flatten
    standardError := bank.received.flatten }

end Command

end LineForth
