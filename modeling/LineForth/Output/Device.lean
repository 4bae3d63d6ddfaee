import LineForth.Output.Basic
import LineForth.Output.LineLog

/-!
# Devices

A device is where output arrives. It remembers every octet that it accepted. A
device may have a limit: of a write that goes beyond it the device accepts what
still fits, and then reports or raises what its overflow says.
-/

set_option autoImplicit false

namespace LineForth

inductive Overflow where
  | fail
  /-- Take fewer octets and report no failure. -/
  | short
  | panic
  | panicWithFailure
  deriving DecidableEq, Repr

structure Limit where
  /-- The number of octets accepted in all. -/
  bound : Nat
  overflow : Overflow
  deriving DecidableEq, Repr

inductive DeviceKind where
  /-- A buffer in memory: never fails, and needs no flush. -/
  | memory
  /-- A bare device that can only be written to. -/
  | plain (limit : Option Limit)
  /-- A device that is told about flushes, and may fail then. -/
  | flushing (limit : Option Limit) (flushFailure : Option Failure)
  /-- A log that shows each line between angle brackets. -/
  | lineLog (log : LineLog)
  deriving DecidableEq, Repr

structure Device where
  kind : DeviceKind
  received : Bytes
  deriving DecidableEq, Repr

namespace Overflow

def outcome : Overflow → Outcome
  | fail => .failed (.other (text "write failed"))
  | short => .done
  | panic => .panicked (.value (text "writer exploded"))
  | panicWithFailure => .panicked (.failure (.other (text "writer exploded with an error")))

end Overflow

namespace Device

def fresh (kind : DeviceKind) : Device := ⟨kind, []⟩

def accept (device : Device) (octets : Bytes) : Device :=
  { device with received := device.received ++ octets }

def writeLimited (limit : Option Limit) (octets : Bytes) (device : Device) : Written × Device :=
  match limit with
  | none => (⟨octets.length, .done⟩, device.accept octets)
  | some limit =>
    let room := limit.bound - device.received.length
    if octets.length ≤ room then (⟨octets.length, .done⟩, device.accept octets)
    else (⟨room, limit.overflow.outcome⟩, device.accept (octets.take room))

def showLines (lines : List Bytes) : Bytes :=
  lines.flatMap fun line => text "<" ++ line ++ text ">"

def write (octets : Bytes) (device : Device) : Written × Device :=
  match device.kind with
  | .memory => (⟨octets.length, .done⟩, device.accept octets)
  | .plain limit => writeLimited limit octets device
  | .flushing limit _ => writeLimited limit octets device
  | .lineLog log =>
    let (written, lines, after) := log.write octets
    (written, { device with kind := .lineLog after }.accept (showLines lines))

/-- Flushes the device with the given number. -/
def flush (number : Nat) (device : Device) : Flushed × Device :=
  match device.kind with
  | .memory => (⟨.done, []⟩, device)
  | .plain _ => (⟨.done, []⟩, device)
  | .flushing _ failure => (⟨Outcome.ofFailure? failure, [.flushed number]⟩, device)
  | .lineLog log =>
    let (outcome, lines, after) := log.flush
    (⟨outcome, []⟩, { device with kind := .lineLog after }.accept (showLines lines))

end Device

end LineForth
