import LineForth.Output.Buffer
import LineForth.Output.Sink

/-!
# Consoles

The devices of a session are numbered in the order in which they appear. A plain
device is reached through a buffer; the others are reached directly. A console
is the devices and buffers together with the sink that output goes to.
-/

set_option autoImplicit false

namespace LineForth

inductive Endpoint where
  | device (number : Nat)
  | buffered (buffer : Nat)
  deriving DecidableEq, Repr

structure Bank where
  devices : List Device
  buffers : List Buffer
  deriving DecidableEq, Repr

/-- What an output is asked to go to. -/
inductive Target where
  | fresh (device : Device)
  /-- A device that is already numbered. -/
  | numbered (device : Nat)
  | nothing
  deriving DecidableEq, Repr

structure Console where
  bank : Bank
  sink : Sink Endpoint
  deriving DecidableEq, Repr

namespace Bank

def empty : Bank := ⟨[], []⟩

def updateDevice (bank : Bank) (number : Nat) (device : Device) : Bank :=
  { bank with devices := bank.devices.set number device }

def updateBuffer (bank : Bank) (number : Nat) (buffer : Buffer) : Bank :=
  { bank with buffers := bank.buffers.set number buffer }

def writeDevice (number : Nat) (octets : Bytes) (bank : Bank) : Written × Bank :=
  match bank.devices[number]? with
  | none => (⟨octets.length, .done⟩, bank)
  | some device =>
    let (written, after) := device.write octets
    (written, bank.updateDevice number after)

def write (endpoint : Endpoint) (passage : Passage) (octets : Bytes) (bank : Bank) :
    Written × Bank :=
  match endpoint with
  | .device number => writeDevice number octets bank
  | .buffered number =>
    match bank.buffers[number]? with
    | none => (⟨octets.length, .done⟩, bank)
    | some buffer =>
      match bank.devices[buffer.device]? with
      | none => (⟨octets.length, .done⟩, bank)
      | some device =>
        let (written, left, after) := buffer.write passage octets device
        (written, (bank.updateDevice buffer.device after).updateBuffer number left)

def flush (endpoint : Endpoint) (bank : Bank) : Flushed × Bank :=
  match endpoint with
  | .device number =>
    match bank.devices[number]? with
    | none => (⟨.done, []⟩, bank)
    | some device =>
      let (flushed, after) := device.flush number
      (flushed, bank.updateDevice number after)
  | .buffered number =>
    match bank.buffers[number]? with
    | none => (⟨.done, []⟩, bank)
    | some buffer =>
      match bank.devices[buffer.device]? with
      | none => (⟨.done, []⟩, bank)
      | some device =>
        let (outcome, left, after) := buffer.flush device
        (⟨outcome, []⟩, (bank.updateDevice buffer.device after).updateBuffer number left)

/-- The number of a target's device; a fresh one gets the next number. -/
def enroll (target : Target) (bank : Bank) : Option Nat × Bank :=
  match target with
  | .fresh device =>
    (some bank.devices.length, { bank with devices := bank.devices ++ [device] })
  | .numbered number => (some number, bank)
  | .nothing => (none, bank)

/-- The sink that reaches a device; a plain device gets a new buffer. -/
def reach (number : Nat) (bank : Bank) : Sink Endpoint × Bank :=
  match bank.devices[number]? with
  | some ⟨.plain _, _⟩ =>
    (.single (.buffered bank.buffers.length),
      { bank with buffers := bank.buffers ++ [Buffer.onDevice number] })
  | _ => (.single (.device number), bank)

def attach (target : Target) (bank : Bank) : Sink Endpoint × Bank :=
  match bank.enroll target with
  | (none, enrolled) => (.discard, enrolled)
  | (some number, enrolled) => enrolled.reach number

/-- In words, how a sink handles its octets. -/
def describe (bank : Bank) : Sink Endpoint → Bytes
  | .discard => text "discard"
  | .tee members => text "tee of " ++ decimalNat members.length
  | .single (.buffered _) => text "buffered"
  | .single (.device number) =>
    match bank.devices[number]? with
    | some ⟨.memory, _⟩ => text "unbuffered"
    | _ => text "as is"

/-- What each device has accepted so far. -/
def received (bank : Bank) : List Bytes := bank.devices.map Device.received

instance : Devices Bank where
  write := writeDevice

end Bank

namespace Console

def silent : Console := ⟨Bank.empty, .discard⟩

/-- A single device, reached in the way of its kind. -/
def only (device : Device) : Console :=
  let (sink, bank) := Bank.empty.attach (.fresh device)
  ⟨bank, sink⟩

instance : Output Console where
  write passage octets console :=
    let (written, bank) := console.sink.writeTo Bank.write passage octets console.bank
    (written, { console with bank := bank })
  flush console :=
    let (flushed, bank) := console.sink.flushTo Bank.flush console.bank
    (flushed, { console with bank := bank })

end Console

end LineForth
