import LineForth.Proofs.Output.Reliable
import LineForth.Proofs.Output.Traffic

/-!
# Outputs that deliver up to a limit

A device with a limit receives the octets that are written to it, in order and once,
until a write goes beyond the limit. Of that write it receives what still fits, and from
then on it is full and receives nothing more. A buffer in front of the device holds
octets back that are not received yet. What is received and what is held together make up
what was written, until the device is full; then what is received is the beginning of it.
A device in memory, written to side by side, shows what was written.
-/

set_option autoImplicit false

namespace LineForth

namespace Limit

variable (limit : Option Limit)

/-- What of the octets written in all a device with the limit receives. -/
def admits (octets : Bytes) : Bytes :=
  match limit with
  | none => octets
  | some cap => octets.take cap.bound

/-- A write that goes beyond the limit is noticed. -/
def Fails : Prop := ∀ cap ∈ limit, cap.overflow ≠ .short

def Within (received : Bytes) : Prop := ∀ cap ∈ limit, received.length ≤ cap.bound

def Full (received : Bytes) : Prop := ∃ cap ∈ limit, received.length = cap.bound

variable {limit} {received octets : Bytes}

theorem Within.admits (within : Within limit octets) : admits limit octets = octets := by
  cases limit with
  | none => rfl
  | some cap => exact List.take_of_length_le (within cap rfl)

theorem Full.admits (full : Full limit received) (front : received <+: octets) :
    admits limit octets = received := by
  obtain ⟨cap, rfl, length⟩ := full
  simp only [Limit.admits, ← length]
  exact (List.prefix_iff_eq_take.mp front).symm

end Limit

namespace Device

/-- A device that is written to under the limit, and whose flush does not fail. -/
def Limited (limit : Option Limit) (device : Device) : Prop :=
  device.kind = .plain limit ∨ device.kind = .flushing limit none

variable {limit : Option Limit} {device : Device}

theorem Limited.write (limited : device.Limited limit) (octets : Bytes) :
    device.write octets = writeLimited limit octets device := by
  unfold Device.write
  rcases limited with kind | kind
  all_goals rw [kind]

theorem Limited.of_kind (limited : device.Limited limit) {other : Device}
    (same : other.kind = device.kind) : other.Limited limit := by
  unfold Limited
  rw [same]
  exact limited

/-- A write is either received whole, or it fills the device. -/
theorem Limited.write_cases (limited : device.Limited limit) (fails : Limit.Fails limit)
    (within : Limit.Within limit device.received) {octets : Bytes} {written : Written}
    {after : Device} (reached : device.write octets = (written, after)) :
    (written = ⟨octets.length, .done⟩ ∧ after = device.accept octets ∧
      Limit.Within limit after.received) ∨
    (written.outcome ≠ .done ∧ after = device.accept (octets.take written.taken) ∧
      Limit.Full limit after.received) := by
  rw [limited.write] at reached
  cases limit with
  | none =>
    cases reached
    exact .inl ⟨rfl, rfl, by simp [Limit.Within]⟩
  | some cap =>
    have room := within cap rfl
    simp only [writeLimited] at reached
    by_cases fits : octets.length ≤ cap.bound - device.received.length
    · rw [if_pos fits] at reached
      cases reached
      refine .inl ⟨rfl, rfl, ?_⟩
      rintro _ ⟨⟩
      simp only [accept, List.length_append]
      omega
    · rw [if_neg fits] at reached
      cases reached
      refine .inr ⟨?_, rfl, cap, rfl, ?_⟩
      · have noticed := fails cap rfl
        cases overflow : cap.overflow <;> simp_all [Overflow.outcome]
      · simp only [accept, List.length_append, List.length_take]
        omega

theorem Limited.flush (limited : device.Limited limit) (number : Nat) :
    (device.flush number).1.outcome = .done ∧ (device.flush number).2 = device := by
  unfold Device.flush
  rcases limited with kind | kind
  all_goals simp [kind, Outcome.ofFailure?]

/-- A full device stays as it is. -/
theorem Limited.write_of_full (limited : device.Limited limit)
    (full : Limit.Full limit device.received) (octets : Bytes) :
    (device.write octets).2 = device := by
  obtain ⟨cap, rfl, length⟩ := full
  rw [limited.write]
  simp only [writeLimited, length, Nat.sub_self]
  split
  next fits =>
    have none : octets = [] := List.length_eq_zero_iff.mp (Nat.le_zero.mp fits)
    simp [accept, none]
  next => simp [accept]

end Device

namespace Buffer

/-- What a buffer and its device come to when the device becomes full. -/
structure Overflows (limit : Option Limit) (octets : Bytes) (buffer after : Buffer)
    (device written : Device) : Prop where
  place : after.device = buffer.device
  kind : written.kind = device.kind
  full : Limit.Full limit written.received
  front : written.received <+: device.received ++ buffer.held ++ octets

variable {limit : Option Limit} {buffer : Buffer} {device : Device}

theorem flush_cases (unstuck : buffer.stuck = none) (limited : device.Limited limit)
    (fails : Limit.Fails limit) (within : Limit.Within limit device.received) {outcome : Outcome}
    {after : Buffer} {written : Device}
    (flushed : buffer.flush device = (outcome, after, written)) :
    (outcome = .done ∧ after = { buffer with held := [] } ∧ written = device.accept buffer.held ∧
      Limit.Within limit written.received) ∨
    (outcome ≠ .done ∧ Overflows limit [] buffer after device written) := by
  rcases buffer with ⟨number, held, stuck⟩
  cases unstuck
  cases held with
  | nil =>
    cases flushed
    exact .inl ⟨rfl, rfl, by simp [Device.accept], within⟩
  | cons octet rest =>
    rcases reached : device.write (octet :: rest) with ⟨result, received⟩
    simp only [flush, List.isEmpty_cons, Bool.false_eq_true, if_false, reached] at flushed
    rcases limited.write_cases fails within reached with ⟨rfl, rfl, more⟩ | ⟨stopped, rfl, full⟩
    · simp only [verdict, Nat.lt_irrefl, if_false] at flushed
      cases flushed
      exact .inl ⟨rfl, rfl, rfl, more⟩
    · have front : (device.accept ((octet :: rest).take result.taken)).received <+:
          device.received ++ (octet :: rest) ++ [] := by
        rw [List.append_nil]
        exact (List.prefix_append_right_inj _).mpr (List.take_prefix _ _)
      unfold verdict at flushed
      cases ended : result.outcome with
      | done => exact absurd ended stopped
      | failed failure =>
        simp only [ended] at flushed
        cases flushed
        exact .inr ⟨by simp, rfl, rfl, full, front⟩
      | panicked panic =>
        simp only [ended] at flushed
        cases flushed
        exact .inr ⟨by simp, rfl, rfl, full, front⟩

/-- A direct write that fills the device while nothing is held. -/
theorem overflows_of_direct {octets : Bytes} {after : Buffer} {taken : Nat}
    (empty : buffer.held = []) (place : after.device = buffer.device)
    (full : Limit.Full limit (device.accept (octets.take taken)).received) :
    Overflows limit octets buffer after device (device.accept (octets.take taken)) := by
  refine ⟨place, rfl, full, ?_⟩
  rw [empty, List.append_nil]
  exact (List.prefix_append_right_inj _).mpr (List.take_prefix _ _)

/-- A buffer takes a write whole, or it fills its device. -/
theorem write_cases (passage : Passage) (octets : Bytes) (unstuck : buffer.stuck = none)
    (limited : device.Limited limit) (fails : Limit.Fails limit)
    (within : Limit.Within limit device.received) :
    (∃ after written,
      buffer.write passage octets device = (⟨octets.length, .done⟩, after, written) ∧
      Takes octets buffer after device written ∧ Limit.Within limit written.received) ∨
    ∃ result after written, buffer.write passage octets device = (result, after, written) ∧
      Overflows limit octets buffer after device written := by
  fun_induction write passage octets buffer device with
  | case1 octets buffer device failure stuck => simp [stuck] at unstuck
  | case2 octets buffer device _ fits =>
    exact .inl ⟨_, _, rfl, ⟨rfl, unstuck, rfl, by simp [hold]⟩, within⟩
  | case3 octets buffer device _ tooLong direct written after reached _ outcome
  | case4 octets buffer device _ tooLong direct written after reached _ outcome =>
    rcases limited.write_cases fails within reached with ⟨rfl, rfl, -⟩ | ⟨-, rfl, full⟩
    · cases outcome
    · exact .inr ⟨_, _, _, rfl, overflows_of_direct direct.2 rfl full⟩
  | case5 octets buffer device _ tooLong direct written after reached outcome none =>
    rcases limited.write_cases fails within reached with ⟨rfl, rfl, -⟩ | ⟨noticed, -⟩
    · simp only at none
      omega
    · exact absurd outcome noticed
  | case6 octets buffer device _ tooLong direct written after reached outcome some later result
      rest inductionHypothesis =>
    rcases limited.write_cases fails within reached with ⟨rfl, rfl, more⟩ | ⟨noticed, -⟩
    · rcases inductionHypothesis unstuck limited more with
        ⟨left, device', same, takes, still⟩ | ⟨ended, left, device', same, overflows⟩
      · rw [rest] at same
        cases same
        refine .inl ⟨left, device', by simp, ⟨takes.place, takes.unstuck, takes.kind, ?_⟩, still⟩
        rw [takes.total]
        simp [Device.accept, direct.2]
      · rw [rest] at same
        cases same
        refine .inr ⟨_, left, device', rfl, overflows.place, overflows.kind, overflows.full, ?_⟩
        simpa [Device.accept, direct.2] using overflows.front
    · exact absurd outcome noticed
  | case7 octets buffer device _ tooLong indirect emptied after flushed later result rest
      inductionHypothesis =>
    rcases flush_cases (by exact unstuck) limited fails within flushed with
      ⟨-, rfl, rfl, more⟩ | ⟨noticed, -⟩
    · rcases inductionHypothesis unstuck limited more with
        ⟨left, device', same, takes, still⟩ | ⟨ended, left, device', same, overflows⟩
      · rw [rest] at same
        cases same
        refine .inl ⟨left, device', ?_, ⟨takes.place, takes.unstuck, takes.kind, ?_⟩, still⟩
        · simp only [List.length_drop, Prod.mk.injEq, Written.mk.injEq, and_true]
          omega
        · rw [takes.total]
          simp [Device.accept, hold]
      · rw [rest] at same
        cases same
        refine .inr ⟨_, left, device', rfl, overflows.place, overflows.kind, overflows.full, ?_⟩
        simpa [Device.accept, hold] using overflows.front
    · exact absurd rfl noticed
  | case8 octets buffer device _ tooLong indirect outcome left after stopped flushed =>
    rcases flush_cases (by exact unstuck) limited fails within flushed with
      ⟨rfl, rfl, rfl, -⟩ | ⟨-, overflows⟩
    · exact absurd rfl stopped
    · refine .inr ⟨_, _, _, rfl, overflows.place, overflows.kind, overflows.full, ?_⟩
      have shorter := (List.prefix_append_right_inj (device.received ++ buffer.held)).mpr
        (List.take_prefix buffer.room octets)
      exact overflows.front.trans (by simpa [hold] using shorter)

theorem flush_of_full (buffer : Buffer) (limited : device.Limited limit)
    (full : Limit.Full limit device.received) : (buffer.flush device).2.2 = device := by
  have same := limited.write_of_full full buffer.held
  unfold flush
  split
  · rfl
  · split
    · rfl
    · dsimp only
      split
      all_goals exact same

/-- Whatever is written to a buffer, its full device stays as it is. -/
theorem write_of_full (passage : Passage) (octets : Bytes) (buffer : Buffer)
    (limited : device.Limited limit) (full : Limit.Full limit device.received) :
    (buffer.write passage octets device).2.2 = device := by
  fun_induction write passage octets buffer device with
  | case1 => rfl
  | case2 => rfl
  | case3 octets buffer device _ _ _ written after reached
  | case4 octets buffer device _ _ _ written after reached
  | case5 octets buffer device _ _ _ written after reached =>
    have same := limited.write_of_full full octets
    rw [reached] at same
    exact same
  | case6 octets buffer device _ tooLong direct written after reached outcome some later result
      rest inductionHypothesis =>
    have same := limited.write_of_full full octets
    rw [reached] at same
    cases same
    rw [rest] at inductionHypothesis
    exact inductionHypothesis limited full
  | case7 octets buffer device _ tooLong indirect emptied after flushed later result rest
      inductionHypothesis =>
    have same := (buffer.hold (octets.take buffer.room)).flush_of_full limited full
    rw [flushed] at same
    cases same
    rw [rest] at inductionHypothesis
    exact inductionHypothesis limited full
  | case8 octets buffer device _ tooLong indirect outcome left after stopped flushed =>
    have same := (buffer.hold (octets.take buffer.room)).flush_of_full limited full
    rw [flushed] at same
    exact same

end Buffer

namespace Console

/-- A single device that is reached directly. -/
def direct (device : Device) : Console := ⟨⟨[device], []⟩, .single (.device 0)⟩

/-- A single device behind a buffer. -/
def behind (buffer : Buffer) (device : Device) : Console :=
  ⟨⟨[device], [buffer]⟩, .single (.buffered 0)⟩

theorem write_direct (passage : Passage) (octets : Bytes) (device : Device) :
    Output.write passage octets (direct device) =
      ((device.write octets).1, direct (device.write octets).2) := rfl

theorem flush_direct (device : Device) :
    Output.flush (direct device) = ((device.flush 0).1, direct (device.flush 0).2) := rfl

variable {buffer : Buffer} (place : buffer.device = 0)

include place

theorem write_behind (passage : Passage) (octets : Bytes) (device : Device) :
    Output.write passage octets (behind buffer device) =
      ((buffer.write passage octets device).1,
        behind (buffer.write passage octets device).2.1
          (buffer.write passage octets device).2.2) := by
  rcases buffer with ⟨number, held, stuck⟩
  cases place
  rfl

theorem flush_behind (device : Device) :
    Output.flush (behind buffer device) =
      (⟨(buffer.flush device).1, []⟩,
        behind (buffer.flush device).2.1 (buffer.flush device).2.2) := by
  rcases buffer with ⟨number, held, stuck⟩
  cases place
  rfl

end Console

/-- Consoles that deliver in order what is written to them, up to a limit. -/
structure Capped (limit : Option Limit) where
  /-- These octets have arrived, and these can still be delivered. -/
  carries : (received held : Bytes) → Console → Prop
  /-- These octets have arrived, and no more will. -/
  full : (received : Bytes) → Console → Prop
  received_of_carries : ∀ {received held console}, carries received held console →
    console.bank.received = [received] ∧ Limit.Within limit received
  received_of_full : ∀ {received console}, full received console →
    console.bank.received = [received] ∧ Limit.Full limit received
  write : ∀ {received held console} passage octets, carries received held console →
    ((Output.write passage octets console).1.outcome = .done ∧
      ∃ received' held', carries received' held' (Output.write passage octets console).2 ∧
        received' ++ held' = received ++ held ++ octets) ∨
    ∃ received', full received' (Output.write passage octets console).2 ∧
      received' <+: received ++ held ++ octets
  flush : ∀ {received held console}, carries received held console →
    ((Output.flush console).1.outcome = .done ∧
      carries (received ++ held) [] (Output.flush console).2) ∨
    ∃ received', full received' (Output.flush console).2 ∧ received' <+: received ++ held
  full_next : ∀ {received console later}, full received console → Output.Next console later →
    full received later

namespace Capped

variable {limit : Option Limit}

def direct (fails : Limit.Fails limit) : Capped limit where
  carries received held console :=
    ∃ device : Device, console = .direct device ∧ device.Limited limit ∧
      Limit.Within limit device.received ∧ device.received = received ∧ held = []
  full received console :=
    ∃ device : Device, console = .direct device ∧ device.Limited limit ∧
      Limit.Full limit device.received ∧ device.received = received
  received_of_carries := by
    rintro _ _ _ ⟨device, rfl, -, within, rfl, -⟩
    exact ⟨rfl, within⟩
  received_of_full := by
    rintro _ _ ⟨device, rfl, -, full, rfl⟩
    exact ⟨rfl, full⟩
  write := by
    rintro _ _ _ passage octets ⟨device, rfl, limited, within, rfl, rfl⟩
    rw [Console.write_direct]
    rcases reached : device.write octets with ⟨written, after⟩
    rcases limited.write_cases fails within reached with ⟨rfl, rfl, more⟩ | ⟨-, rfl, full⟩
    · exact .inl ⟨rfl, _, [], ⟨_, rfl, limited, more, rfl, rfl⟩, by simp [Device.accept]⟩
    · refine .inr ⟨_, ⟨_, rfl, limited, full, rfl⟩, ?_⟩
      rw [List.append_nil]
      exact (List.prefix_append_right_inj _).mpr (List.take_prefix _ _)
  flush := by
    rintro _ _ _ ⟨device, rfl, limited, within, rfl, rfl⟩
    obtain ⟨done, same⟩ := limited.flush 0
    rw [Console.flush_direct, same, List.append_nil]
    exact .inl ⟨done, device, rfl, limited, within, rfl, rfl⟩
  full_next := by
    rintro _ _ _ ⟨device, rfl, limited, full, rfl⟩ next
    cases next with
    | write passage octets =>
      rw [Console.write_direct, limited.write_of_full full]
      exact ⟨device, rfl, limited, full, rfl⟩
    | flush =>
      rw [Console.flush_direct, (limited.flush 0).2]
      exact ⟨device, rfl, limited, full, rfl⟩

def behind (fails : Limit.Fails limit) : Capped limit where
  carries received held console :=
    ∃ (buffer : Buffer) (device : Device), console = .behind buffer device ∧ buffer.device = 0 ∧
      buffer.stuck = none ∧ device.Limited limit ∧ Limit.Within limit device.received ∧
      device.received = received ∧ buffer.held = held
  full received console :=
    ∃ (buffer : Buffer) (device : Device), console = .behind buffer device ∧ buffer.device = 0 ∧
      device.Limited limit ∧ Limit.Full limit device.received ∧ device.received = received
  received_of_carries := by
    rintro _ _ _ ⟨buffer, device, rfl, -, -, -, within, rfl, -⟩
    exact ⟨rfl, within⟩
  received_of_full := by
    rintro _ _ ⟨buffer, device, rfl, -, -, full, rfl⟩
    exact ⟨rfl, full⟩
  write := by
    rintro _ _ _ passage octets ⟨buffer, device, rfl, place, unstuck, limited, within, rfl, rfl⟩
    rw [Console.write_behind place]
    rcases Buffer.write_cases passage octets unstuck limited fails within with
      ⟨after, written, same, takes, more⟩ | ⟨result, after, written, same, overflows⟩
    · rw [same]
      exact .inl ⟨rfl, _, _, ⟨after, written, rfl, takes.place.trans place, takes.unstuck,
        limited.of_kind takes.kind, more, rfl, rfl⟩, takes.total⟩
    · rw [same]
      exact .inr ⟨_, ⟨after, written, rfl, overflows.place.trans place,
        limited.of_kind overflows.kind, overflows.full, rfl⟩, overflows.front⟩
  flush := by
    rintro _ _ _ ⟨buffer, device, rfl, place, unstuck, limited, within, rfl, rfl⟩
    rw [Console.flush_behind place]
    rcases flushed : buffer.flush device with ⟨outcome, after, written⟩
    rcases Buffer.flush_cases unstuck limited fails within flushed with
      ⟨rfl, rfl, rfl, more⟩ | ⟨-, overflows⟩
    · exact .inl ⟨rfl, _, _, rfl, place, unstuck, limited, more, rfl, rfl⟩
    · refine .inr ⟨_, ⟨after, written, rfl, overflows.place.trans place,
        limited.of_kind overflows.kind, overflows.full, rfl⟩, ?_⟩
      simpa using overflows.front
  full_next := by
    rintro _ _ _ ⟨buffer, device, rfl, place, limited, full, rfl⟩ next
    cases next with
    | write passage octets =>
      rw [Console.write_behind place, buffer.write_of_full passage octets limited full]
      have here := (buffer.write_device passage octets device).trans place
      exact ⟨_, device, rfl, here, limited, full, rfl⟩
    | flush =>
      rw [Console.flush_behind place, buffer.flush_of_full limited full]
      exact ⟨_, device, rfl, (buffer.flush_device device).trans place, limited, full, rfl⟩

section Memory

variable (capped : Capped limit)

/-- The memory holds everything that has arrived at the console, and behind it what can
still be delivered. -/
def Linked (held : Bytes) (memory console : Console) : Prop :=
  ∃ received, memory = .direct ⟨.memory, received ++ held⟩ ∧ capped.carries received held console

/-- The console is full, and the memory begins with what has arrived there. -/
def Broken (memory console : Console) : Prop :=
  ∃ octets received, memory = .direct ⟨.memory, octets⟩ ∧ capped.full received console ∧
    received <+: octets

variable {capped} {held : Bytes} {memory console later : Console}

theorem Linked.write (linked : capped.Linked held memory console) (passage : Passage)
    (octets : Bytes) :
    capped.Broken (Output.write passage octets memory).2 (Output.write passage octets console).2 ∨
      ((Output.write passage octets memory).1.outcome = .done ∧
        (Output.write passage octets console).1.outcome = .done ∧
        ∃ more, capped.Linked more (Output.write passage octets memory).2
          (Output.write passage octets console).2) := by
  obtain ⟨received, rfl, carries⟩ := linked
  rcases capped.write passage octets carries with
    ⟨done, received', held', carries', total⟩ | ⟨received', full, front⟩
  · exact .inr ⟨rfl, done, held', received', by rw [total]; rfl, carries'⟩
  · exact .inl ⟨_, received', rfl, full, front⟩

theorem Linked.flush (linked : capped.Linked held memory console) :
    capped.Broken (Output.flush memory).2 (Output.flush console).2 ∨
      ((Output.flush memory).1.outcome = .done ∧ (Output.flush console).1.outcome = .done ∧
        capped.Linked [] (Output.flush memory).2 (Output.flush console).2) := by
  obtain ⟨received, rfl, carries⟩ := linked
  rcases capped.flush carries with ⟨done, carries'⟩ | ⟨received', full, front⟩
  · exact .inr ⟨rfl, done, received ++ held, by rw [List.append_nil]; rfl, carries'⟩
  · exact .inl ⟨_, received', rfl, full, front⟩

theorem Broken.next_memory (broken : capped.Broken memory console)
    (next : Output.Next memory later) : capped.Broken later console := by
  obtain ⟨octets, received, rfl, full, front⟩ := broken
  cases next with
  | write passage more =>
    exact ⟨octets ++ more, received, rfl, full, front.trans (List.prefix_append _ _)⟩
  | flush => exact ⟨octets, received, rfl, full, front⟩

theorem Broken.next_console (broken : capped.Broken memory console)
    (next : Output.Next console later) : capped.Broken memory later := by
  obtain ⟨octets, received, rfl, full, front⟩ := broken
  exact ⟨octets, received, rfl, capped.full_next full next, front⟩

/-- Whatever is written and flushed after a failure, what arrived is the beginning of what
is in the memory. -/
theorem Broken.onward (broken : capped.Broken memory console) {memory' console' : Console}
    (path : Relation.ReflTransGen Output.Next memory memory')
    (path' : Relation.ReflTransGen Output.Next console console') :
    capped.Broken memory' console' := by
  induction path with
  | refl =>
    induction path' with
    | refl => exact broken
    | tail _ next inductionHypothesis => exact inductionHypothesis.next_console next
  | tail _ next inductionHypothesis => exact inductionHypothesis.next_memory next

theorem Linked.received (linked : capped.Linked [] memory console) :
    ∃ octets, memory.bank.received = [octets] ∧
      console.bank.received = [Limit.admits limit octets] := by
  obtain ⟨received, rfl, carries⟩ := linked
  obtain ⟨arrived, within⟩ := capped.received_of_carries carries
  refine ⟨received, by rw [List.append_nil]; rfl, ?_⟩
  rw [arrived, within.admits]

theorem Broken.received (broken : capped.Broken memory console) :
    ∃ octets, memory.bank.received = [octets] ∧
      console.bank.received = [Limit.admits limit octets] := by
  obtain ⟨octets, received, rfl, full, front⟩ := broken
  obtain ⟨arrived, reached⟩ := capped.received_of_full full
  refine ⟨octets, rfl, ?_⟩
  rw [arrived, reached.admits front]

end Memory

end Capped

end LineForth
