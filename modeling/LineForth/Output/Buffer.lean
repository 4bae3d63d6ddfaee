import LineForth.Output.Device

/-!
# Buffers

A buffer gathers octets for a device and hands them over when it is full or
flushed. Once the device has failed, the failure sticks: the buffer takes nothing
more and reports that failure for ever. A panic of the device leaves the buffer
as it was.
-/

set_option autoImplicit false

namespace LineForth

structure Buffer where
  /-- The number of the device behind the buffer. -/
  device : Nat
  held : Bytes
  /-- The failure that sticks. -/
  stuck : Option Failure
  deriving DecidableEq, Repr

namespace Buffer

def capacity : Nat := 4096

def onDevice (device : Nat) : Buffer := ⟨device, [], none⟩

def room (buffer : Buffer) : Nat := capacity - buffer.held.length

def hold (buffer : Buffer) (octets : Bytes) : Buffer :=
  { buffer with held := buffer.held ++ octets }

/-- What a write means to the buffer: taking fewer octets is a failure. -/
def verdict (offered : Nat) (written : Written) : Outcome :=
  match written.outcome with
  | .done => if written.taken < offered then .failed .shortWrite else .done
  | outcome => outcome

/-- Hands the held octets over. After a failure the octets not taken are kept. -/
def flush (buffer : Buffer) (device : Device) : Outcome × Buffer × Device :=
  match buffer.stuck with
  | some failure => (.failed failure, buffer, device)
  | none =>
    if buffer.held.isEmpty then (.done, buffer, device)
    else
      let (written, after) := device.write buffer.held
      match verdict buffer.held.length written with
      | .done => (.done, { buffer with held := [] }, after)
      | .failed failure =>
        (.failed failure,
          { buffer with held := buffer.held.drop written.taken, stuck := some failure }, after)
      | .panicked panic => (.panicked panic, buffer, after)

theorem held_of_flush_done {buffer after : Buffer} {device written : Device}
    (flushed : buffer.flush device = (.done, after, written)) : after.held = [] := by
  unfold flush at flushed
  split at flushed
  · simp at flushed
  · split at flushed
    · rename_i empty
      simp only [Prod.mk.injEq, true_and] at flushed
      simpa [← flushed.1] using empty
    · dsimp only at flushed
      split at flushed <;> simp only [Prod.mk.injEq, reduceCtorEq, false_and, true_and] at flushed
      rw [← flushed.1]

/-- Takes octets. What does not fit is handed over in full buffers, except that a
direct write goes straight to the device while nothing is held. -/
def write (passage : Passage) (octets : Bytes) (buffer : Buffer) (device : Device) :
    Written × Buffer × Device :=
  match buffer.stuck with
  | some failure => (⟨0, .failed failure⟩, buffer, device)
  | none =>
    if octets.length ≤ buffer.room then (⟨octets.length, .done⟩, buffer.hold octets, device)
    else if passage = .direct ∧ buffer.held = [] then
      let (written, after) := device.write octets
      match written.outcome with
      | .panicked panic => (⟨0, .panicked panic⟩, buffer, after)
      | .failed failure =>
        (⟨written.taken, .failed failure⟩, { buffer with stuck := some failure }, after)
      | .done =>
        if written.taken = 0 then
          (⟨0, .failed .shortWrite⟩, { buffer with stuck := some .shortWrite }, after)
        else
          let (later, result) := write passage (octets.drop written.taken) buffer after
          (⟨written.taken + later.taken, later.outcome⟩, result)
    else
      match _flushed : (buffer.hold (octets.take buffer.room)).flush device with
      | (.done, emptied, after) =>
        let (later, result) := write passage (octets.drop buffer.room) emptied after
        (⟨buffer.room + later.taken, later.outcome⟩, result)
      | (outcome, left, after) => (⟨buffer.room, outcome⟩, left, after)
termination_by octets.length + buffer.held.length
decreasing_by
  · simp only [List.length_drop]
    omega
  · have emptied := held_of_flush_done _flushed
    simp only [emptied, List.length_drop, List.length_nil, room, capacity] at *
    omega

end Buffer

end LineForth
