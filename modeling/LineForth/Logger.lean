import LineForth.Output.Console

/-!
# Loggers

A logger writes one line for each message, with the level in front. It remembers
for the end of the program whether an error was logged, or whether a line could
not be written. A log is a logger together with the devices that it writes to.
-/

set_option autoImplicit false

namespace LineForth

structure Logger where
  /-- The number of the device that lines go to. Without one they are dropped. -/
  output : Option Nat
  /-- Left over from a write that ended in a panic. -/
  held : Bytes
  exitCode : Nat
  deriving DecidableEq, Repr

namespace Logger

def initial : Logger := ⟨none, [], 0⟩

def terminate (line : Bytes) : Bytes :=
  if line.isEmpty ∨ line.getLast? = some Bytes.newline then line else line ++ [Bytes.newline]

def compose (level message : Bytes) : Bytes :=
  if level.isEmpty then message else level ++ text ": " ++ message

/-- The line that logs a message. -/
def line (logger : Logger) (level message : Bytes) : Bytes :=
  terminate (logger.held ++ compose level message)

variable {δ : Type} [Devices δ]

/-- Writes octets, if there are any and an output for them. Taking fewer octets
is a failure. -/
def write (logger : Logger) (octets : Bytes) (devices : δ) : Outcome × δ :=
  match logger.output with
  | none => (.done, devices)
  | some number =>
    if octets.isEmpty then (.done, devices)
    else
      let (written, after) := Devices.write number octets devices
      (Buffer.verdict octets.length written, after)

/-- Logs a message. A line that is not written as a whole is dropped. -/
def print (level message : Bytes) (logger : Logger) (devices : δ) : Outcome × Logger × δ :=
  let line := logger.line level message
  match logger.write line devices with
  | (.done, after) => (.done, { logger with held := [] }, after)
  | (.failed _, after) => (.done, { logger with held := [], exitCode := 2 }, after)
  | (.panicked panic, after) => (.panicked panic, { logger with held := line }, after)

def errorLevel : Bytes := text "ERROR"

/-- Logs an error, which the exit code remembers. -/
def error (message : Bytes) (logger : Logger) (devices : δ) : Outcome × Logger × δ :=
  match logger.print errorLevel message devices with
  | (.done, after, written) => (.done, { after with exitCode := 1 }, written)
  | stopped => stopped

/-- Logs how an operation ended, if it did not succeed. -/
def errorIf (outcome : Outcome) (logger : Logger) (devices : δ) : Outcome × Logger × δ :=
  match outcome with
  | .done => (.done, logger, devices)
  | .failed failure => logger.error failure.detail devices
  | .panicked panic => (.panicked panic, logger, devices)

end Logger

structure Log (δ : Type) where
  logger : Logger
  devices : δ

namespace Log

/-- What may be done with a log. -/
inductive Act where
  | print (level message : Bytes)
  | error (message : Bytes)
  | errorIf (outcome : Outcome)
  /-- Write to the device of the log, past the logger. -/
  | bypass (octets : Bytes)
  deriving DecidableEq, Repr

variable {δ : Type} [Devices δ]

/-- Whatever an act comes to, the log can be used on. -/
def act (log : Log δ) (act : Act) : Log δ :=
  let (_, logger, devices) := match act with
    | .print level message => log.logger.print level message log.devices
    | .error message => log.logger.error message log.devices
    | .errorIf outcome => log.logger.errorIf outcome log.devices
    | .bypass octets =>
      let (outcome, devices) := log.logger.write octets log.devices
      (outcome, log.logger, devices)
  ⟨logger, devices⟩

def actAll (log : Log δ) (acts : List Act) : Log δ := acts.foldl act log

end Log

end LineForth
