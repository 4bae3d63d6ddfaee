import LineForth.Proofs.Output.Reliable
import LineForth.Proofs.Output.Watched

/-!
# Consoles that fail for good

A device that is full stays full, one whose flush fails goes on failing, and a buffer whose
device has failed is stuck. So a console none of whose devices panics or takes fewer octets
than it says does not recover from a failure, however its devices are joined.
-/

set_option autoImplicit false

namespace LineForth

namespace Device

/-- The bound on what the device receives. -/
def limit? (device : Device) : Option Limit :=
  match device.kind with
  | .plain limit => limit
  | .flushing limit _ => limit
  | _ => none

def flushFailure? (device : Device) : Option Failure :=
  match device.kind with
  | .flushing _ failure => failure
  | _ => none

/-- A write that goes beyond the limit is reported as a failure. -/
def Honest (device : Device) : Prop := ∀ cap ∈ device.limit?, cap.overflow = .fail

def Full (device : Device) : Prop := ∃ cap ∈ device.limit?, cap.bound ≤ device.received.length

/-- What becomes of a device. -/
structure Leads (device after : Device) : Prop where
  limit : after.limit? = device.limit?
  flushFailure : after.flushFailure? = device.flushFailure?
  received : device.received.length ≤ after.received.length

namespace Leads

variable {device middle after : Device}

theorem refl (device : Device) : Leads device device := ⟨rfl, rfl, Nat.le_refl _⟩

theorem trans (first : Leads device middle) (second : Leads middle after) : Leads device after :=
  ⟨second.limit.trans first.limit, second.flushFailure.trans first.flushFailure,
    Nat.le_trans first.received second.received⟩

theorem honest (leads : Leads device after) (honest : device.Honest) : after.Honest := by
  unfold Honest
  rw [leads.limit]
  exact honest

theorem full (leads : Leads device after) (full : device.Full) : after.Full := by
  obtain ⟨cap, limited, bound⟩ := full
  exact ⟨cap, leads.limit.symm ▸ limited, Nat.le_trans bound leads.received⟩

theorem accept (device : Device) (octets : Bytes) : Leads device (device.accept octets) :=
  ⟨rfl, rfl, by simp [Device.accept]⟩

end Leads

/-- A write follows the limit of the device, unless the device is a log, which has none. -/
theorem write_eq (device : Device) (octets : Bytes) :
    device.write octets = writeLimited device.limit? octets device ∨
      (device.limit? = none ∧ (device.write octets).1 = ⟨octets.length, .done⟩ ∧
        Leads device (device.write octets).2) := by
  rcases device with ⟨_ | limit | ⟨limit, failure⟩ | log, received⟩
  · exact .inl rfl
  · exact .inl rfl
  · exact .inl rfl
  · exact .inr ⟨rfl, rfl, rfl, rfl, by simp [write, accept]⟩

variable {device : Device}

/-- A write is received whole, or the device is full after it. -/
theorem write_cases (honest : device.Honest) (octets : Bytes) :
    Leads device (device.write octets).2 ∧
      ((device.write octets).1 = ⟨octets.length, .done⟩ ∨
        ∃ failure, (device.write octets).1.outcome = .failed failure ∧
          (device.write octets).2.Full) := by
  rcases device.write_eq octets with limited | ⟨-, whole, leads⟩
  · rw [limited]
    cases known : device.limit? with
    | none => exact ⟨.accept _ _, .inl rfl⟩
    | some cap =>
      simp only [writeLimited, honest cap known]
      split
      · exact ⟨.accept _ _, .inl rfl⟩
      next longer =>
        refine ⟨.accept _ _, .inr ⟨_, rfl, cap, known, ?_⟩⟩
        simp only [accept, List.length_append, List.length_take]
        omega
  · exact ⟨leads, .inl whole⟩

theorem Full.write (full : device.Full) (honest : device.Honest) {octets : Bytes}
    (nonempty : octets ≠ []) : (device.write octets).1.outcome ≠ .done := by
  obtain ⟨cap, known, bound⟩ := full
  have longer : ¬ octets.length ≤ cap.bound - device.received.length := by
    have positive := List.length_pos_iff.mpr nonempty
    omega
  rcases device.write_eq octets with limited | ⟨unlimited, -⟩
  · rw [limited, known, writeLimited, if_neg longer, honest cap known]
    simp [Overflow.outcome]
  · rw [unlimited] at known
    cases known

theorem flush_cases (device : Device) (number : Nat) :
    Leads device (device.flush number).2 ∧
      (device.flush number).1.outcome = Outcome.ofFailure? device.flushFailure? := by
  rcases device with ⟨_ | limit | ⟨limit, failure⟩ | log, received⟩
  · exact ⟨.refl _, rfl⟩
  · exact ⟨.refl _, rfl⟩
  · exact ⟨.refl _, rfl⟩
  · exact ⟨⟨rfl, rfl, by simp [flush, accept]⟩, rfl⟩

end Device

namespace Buffer

/-- What becomes of a buffer. -/
structure Leads (buffer after : Buffer) : Prop where
  device : after.device = buffer.device
  stuck : buffer.stuck ≠ none → after.stuck ≠ none

theorem Leads.refl (buffer : Buffer) : Leads buffer buffer := ⟨rfl, id⟩

theorem Leads.trans {buffer middle after : Buffer} (first : Leads buffer middle)
    (second : Leads middle after) : Leads buffer after :=
  ⟨second.device.trans first.device, fun stuck => second.stuck (first.stuck stuck)⟩

variable {buffer : Buffer} {device : Device}

/-- The buffer and the device after a write or a flush with the given outcome. -/
structure Passes (buffer : Buffer) (device : Device) (outcome : Outcome) (left : Buffer)
    (after : Device) : Prop where
  buffer : buffer.Leads left
  device : device.Leads after
  outcome : outcome = .done ∨ ∃ failure, outcome = .failed failure ∧ left.stuck ≠ none

theorem flush_passes (honest : device.Honest) (buffer : Buffer) :
    Passes buffer device (buffer.flush device).1 (buffer.flush device).2.1
      (buffer.flush device).2.2 := by
  obtain ⟨leads, written⟩ := device.write_cases honest buffer.held
  unfold flush
  split
  next failure stuck =>
    exact ⟨.refl _, .refl _, .inr ⟨failure, rfl, by simp [stuck]⟩⟩
  next unstuck =>
    split
    · exact ⟨.refl _, .refl _, .inl rfl⟩
    · rcases written with whole | ⟨failure, failed, -⟩
      · have passed : verdict buffer.held.length (device.write buffer.held).1 = .done := by
          simp [verdict, whole]
        simp only [passed]
        exact ⟨⟨rfl, fun stuck => absurd unstuck stuck⟩, leads, .inl rfl⟩
      · have passed :
            verdict buffer.held.length (device.write buffer.held).1 = .failed failure := by
          simp [verdict, failed]
        simp only [passed]
        exact ⟨⟨rfl, fun _ => by simp⟩, leads, .inr ⟨failure, rfl, by simp⟩⟩

/-- A buffer takes a write whole, or it is stuck after it. -/
theorem write_passes (honest : device.Honest) (passage : Passage) (octets : Bytes)
    (buffer : Buffer) :
    Passes buffer device (buffer.write passage octets device).1.outcome
        (buffer.write passage octets device).2.1 (buffer.write passage octets device).2.2 ∧
      ((buffer.write passage octets device).1.outcome = .done →
        (buffer.write passage octets device).1.taken = octets.length) := by
  fun_induction write passage octets buffer device with
  | case1 octets buffer device failure stuck =>
    exact ⟨⟨.refl _, .refl _, .inr ⟨failure, rfl, by simp [stuck]⟩⟩, by simp⟩
  | case2 octets buffer device unstuck fits =>
    exact ⟨⟨⟨rfl, fun stuck => absurd unstuck stuck⟩, .refl _, .inl rfl⟩, fun _ => rfl⟩
  | case3 octets buffer device unstuck tooLong direct written after reached panic outcome =>
    obtain ⟨leads, whole | ⟨failure, failed, -⟩⟩ := device.write_cases honest octets
    · rw [reached] at whole
      cases whole
      cases outcome
    · rw [reached] at failed
      cases failed.symm.trans outcome
  | case4 octets buffer device unstuck tooLong direct written after reached failure outcome =>
    obtain ⟨leads, -⟩ := device.write_cases honest octets
    rw [reached] at leads
    exact ⟨⟨⟨rfl, fun _ => by simp⟩, leads, .inr ⟨failure, rfl, by simp⟩⟩, by simp⟩
  | case5 octets buffer device unstuck tooLong direct written after reached outcome none =>
    obtain ⟨leads, -⟩ := device.write_cases honest octets
    rw [reached] at leads
    exact ⟨⟨⟨rfl, fun _ => by simp⟩, leads, .inr ⟨_, rfl, by simp⟩⟩, by simp⟩
  | case6 octets buffer device unstuck tooLong direct written after reached outcome some later
      result rest inductionHypothesis =>
    obtain ⟨leads, whole | ⟨failure, failed, -⟩⟩ := device.write_cases honest octets
    · rw [reached] at leads whole
      rw [rest] at inductionHypothesis
      obtain ⟨passes, taken⟩ := inductionHypothesis (leads.honest honest)
      refine ⟨⟨passes.buffer, leads.trans passes.device, passes.outcome⟩, ?_⟩
      intro done
      have all := taken done
      cases whole
      simp only [List.length_drop] at all ⊢
      omega
    · rw [reached] at failed
      cases failed.symm.trans outcome
  | case7 octets buffer device unstuck tooLong indirect emptied after flushed later result rest
      inductionHypothesis =>
    have passed := flush_passes honest (buffer.hold (octets.take buffer.room))
    rw [flushed] at passed
    rw [rest] at inductionHypothesis
    have held : buffer.Leads emptied := ⟨passed.buffer.device, passed.buffer.stuck⟩
    obtain ⟨passes, taken⟩ := inductionHypothesis (passed.device.honest honest)
    refine ⟨⟨held.trans passes.buffer, passed.device.trans passes.device, passes.outcome⟩, ?_⟩
    intro done
    have all := taken done
    simp only [List.length_drop] at all ⊢
    omega
  | case8 octets buffer device unstuck tooLong indirect outcome left after stopped flushed =>
    have passed := flush_passes honest (buffer.hold (octets.take buffer.room))
    rw [flushed] at passed
    refine ⟨⟨⟨passed.buffer.device, passed.buffer.stuck⟩, passed.device, passed.outcome⟩, ?_⟩
    intro done
    exact absurd done stopped

end Buffer

namespace Bank

/-- One device or one buffer goes on. -/
inductive Advance : Bank → Bank → Prop
  | device {bank : Bank} {number : Nat} {device after : Device}
      (found : bank.devices[number]? = some device) (leads : device.Leads after) :
      Advance bank (bank.updateDevice number after)
  | buffer {bank : Bank} {number : Nat} {buffer after : Buffer}
      (found : bank.buffers[number]? = some buffer) (leads : buffer.Leads after) :
      Advance bank (bank.updateBuffer number after)

def Honest (bank : Bank) : Prop := ∀ device ∈ bank.devices, device.Honest

/-- No octet passes this endpoint any more. -/
def Blocked (bank : Bank) : Endpoint → Prop
  | .device number => ∃ device, bank.devices[number]? = some device ∧ device.Full
  | .buffered number => ∃ buffer, bank.buffers[number]? = some buffer ∧
      buffer.stuck ≠ none ∧ buffer.device < bank.devices.length

/-- A flush of this endpoint fails. -/
def Unflushable (bank : Bank) : Endpoint → Prop
  | .device number => ∃ device, bank.devices[number]? = some device ∧
      device.flushFailure? ≠ none
  | .buffered _ => False

def Broken (bank : Bank) (endpoint : Endpoint) : Prop :=
  bank.Blocked endpoint ∨ bank.Unflushable endpoint

namespace Advance

variable {bank after : Bank}

theorem honest (advance : Advance bank after) (honest : bank.Honest) : after.Honest := by
  cases advance with
  | device found leads =>
    intro other membership
    rcases List.mem_or_eq_of_mem_set membership with old | rfl
    · exact honest other old
    · exact leads.honest (honest _ (List.mem_of_getElem? found))
  | buffer found leads => exact honest

theorem blocked (advance : Advance bank after) {endpoint : Endpoint}
    (blocked : bank.Blocked endpoint) : after.Blocked endpoint := by
  cases advance with
  | device found leads =>
    cases endpoint with
    | device number => exact exists_getElem?_set found leads.full blocked
    | buffered number =>
      obtain ⟨buffer, front, stuck, bound⟩ := blocked
      exact ⟨buffer, front, stuck, by simpa [updateDevice] using bound⟩
  | buffer found leads =>
    cases endpoint with
    | device number => exact blocked
    | buffered number =>
      refine exists_getElem?_set found ?_ blocked
      rintro ⟨stuck, bound⟩
      exact ⟨leads.stuck stuck, leads.device.symm ▸ bound⟩

theorem unflushable (advance : Advance bank after) {endpoint : Endpoint}
    (unflushable : bank.Unflushable endpoint) : after.Unflushable endpoint := by
  cases endpoint with
  | buffered number => exact unflushable
  | device number =>
    cases advance with
    | device found leads =>
      refine exists_getElem?_set found ?_ unflushable
      intro fails
      rw [leads.flushFailure]
      exact fails
    | buffer found leads => exact unflushable

/-- What one advance keeps, every path of them keeps. -/
theorem path {P : Bank → Prop} (kept : ∀ {bank after}, Advance bank after → P bank → P after)
    (path : Relation.ReflTransGen Advance bank after) (holds : P bank) : P after := by
  induction path with
  | refl => exact holds
  | tail _ advance inductionHypothesis => exact kept advance inductionHypothesis

end Advance

/-- What a bank comes to when some of its endpoints are written to or flushed: all goes
well, or one of the endpoints is broken. -/
structure Passes (bank : Bank) (endpoints : List Endpoint) (outcome : Outcome)
    (after : Bank) : Prop where
  path : Relation.ReflTransGen Advance bank after
  outcome : outcome = .done ∨
    ∃ failure, outcome = .failed failure ∧ ∃ endpoint ∈ endpoints, after.Broken endpoint

variable {bank : Bank}

theorem Passes.refl (bank : Bank) (endpoints : List Endpoint) :
    Passes bank endpoints .done bank := ⟨.refl, .inl rfl⟩

section

variable {endpoints : List Endpoint} {outcome : Outcome} {after : Bank}
  (passes : Passes bank endpoints outcome after) {endpoint : Endpoint}

include passes

theorem Passes.honest (honest : bank.Honest) : after.Honest :=
  Advance.path Advance.honest passes.path honest

theorem Passes.blocked (blocked : bank.Blocked endpoint) : after.Blocked endpoint :=
  Advance.path (P := (·.Blocked endpoint)) (fun advance => advance.blocked) passes.path blocked

theorem Passes.unflushable (unflushable : bank.Unflushable endpoint) :
    after.Unflushable endpoint :=
  Advance.path (P := (·.Unflushable endpoint)) (fun advance => advance.unflushable) passes.path
    unflushable

theorem Passes.broken (broken : bank.Broken endpoint) : after.Broken endpoint :=
  broken.imp passes.blocked passes.unflushable

theorem Passes.calm (panic : Panic) : outcome ≠ .panicked panic := by
  rcases passes.outcome with rfl | ⟨failure, rfl, -⟩ <;> simp

end

/-- A device that is written to or flushed. -/
theorem passes_device {number : Nat} {device after : Device}
    (found : bank.devices[number]? = some device) (leads : device.Leads after) {outcome : Outcome}
    (ends : outcome = .done ∨ ∃ failure, outcome = .failed failure ∧
      (after.Full ∨ after.flushFailure? ≠ none)) :
    Passes bank [.device number] outcome (bank.updateDevice number after) := by
  obtain ⟨bound, -⟩ := List.getElem?_eq_some_iff.mp found
  have placed : (bank.updateDevice number after).devices[number]? = some after :=
    List.getElem?_set_self bound
  refine ⟨.single (.device found leads), ends.imp_right ?_⟩
  rintro ⟨failure, failed, full | unflushable⟩
  · exact ⟨failure, failed, _, List.mem_singleton_self _, .inl ⟨after, placed, full⟩⟩
  · exact ⟨failure, failed, _, List.mem_singleton_self _, .inr ⟨after, placed, unflushable⟩⟩

/-- A buffer and the device behind it. -/
theorem passes_buffered {number : Nat} {buffer left : Buffer} {device written : Device}
    (front : bank.buffers[number]? = some buffer)
    (behind : bank.devices[buffer.device]? = some device) {outcome : Outcome}
    (passes : buffer.Passes device outcome left written) :
    Passes bank [.buffered number] outcome
      ((bank.updateDevice buffer.device written).updateBuffer number left) := by
  have device := Advance.device behind passes.device
  refine ⟨.tail (.single device) (.buffer (by exact front) passes.buffer), ?_⟩
  refine passes.outcome.imp_right ?_
  rintro ⟨failure, failed, stuck⟩
  obtain ⟨bound, -⟩ := List.getElem?_eq_some_iff.mp front
  obtain ⟨place, -⟩ := List.getElem?_eq_some_iff.mp behind
  refine ⟨failure, failed, _, List.mem_singleton_self _, .inl ⟨left, ?_, stuck, ?_⟩⟩
  · exact List.getElem?_set_self bound
  · simpa [updateBuffer, updateDevice, passes.buffer.device] using place

theorem write_passes (honest : bank.Honest) (endpoint : Endpoint) (passage : Passage)
    (octets : Bytes) :
    Passes bank [endpoint] (bank.write endpoint passage octets).1.outcome
        (bank.write endpoint passage octets).2 ∧
      ((bank.write endpoint passage octets).1.outcome = .done →
        (bank.write endpoint passage octets).1.taken = octets.length) := by
  cases endpoint with
  | device number =>
    unfold write writeDevice
    dsimp only
    split
    next absent => exact ⟨.refl _ _, fun _ => rfl⟩
    next device found =>
      obtain ⟨leads, whole | ⟨failure, failed, full⟩⟩ :=
        device.write_cases (honest device (List.mem_of_getElem? found)) octets
      · rw [whole]
        exact ⟨passes_device found leads (.inl rfl), fun _ => rfl⟩
      · rw [failed]
        exact ⟨passes_device found leads (.inr ⟨failure, rfl, .inl full⟩), by simp⟩
  | buffered number =>
    unfold write
    dsimp only
    split
    next absent => exact ⟨.refl _ _, fun _ => rfl⟩
    next buffer front =>
      split
      next absent => exact ⟨.refl _ _, fun _ => rfl⟩
      next device behind =>
        obtain ⟨passes, taken⟩ := Buffer.write_passes
          (honest device (List.mem_of_getElem? behind)) passage octets buffer
        exact ⟨passes_buffered front behind passes, taken⟩

theorem flush_passes (honest : bank.Honest) (endpoint : Endpoint) :
    Passes bank [endpoint] (bank.flush endpoint).1.outcome (bank.flush endpoint).2 := by
  cases endpoint with
  | device number =>
    unfold flush
    dsimp only
    split
    next absent => exact .refl _ _
    next device found =>
      obtain ⟨leads, flushed⟩ := device.flush_cases number
      rw [flushed]
      cases fails : device.flushFailure? with
      | none => exact passes_device found leads (.inl rfl)
      | some failure =>
        apply passes_device found leads
        exact .inr ⟨failure, rfl, .inr (by simp [leads.flushFailure, fails])⟩
  | buffered number =>
    unfold flush
    dsimp only
    split
    next absent => exact .refl _ _
    next buffer front =>
      split
      next absent => exact .refl _ _
      next device behind =>
        exact passes_buffered front behind
          (Buffer.flush_passes (honest device (List.mem_of_getElem? behind)) buffer)

theorem Blocked.write {endpoint : Endpoint} (blocked : bank.Blocked endpoint)
    (honest : bank.Honest) (passage : Passage) {octets : Bytes} (nonempty : octets ≠ []) :
    (bank.write endpoint passage octets).1.outcome ≠ .done := by
  cases endpoint with
  | device number =>
    obtain ⟨device, found, full⟩ := blocked
    simp only [Bank.write, writeDevice, found]
    exact full.write (honest device (List.mem_of_getElem? found)) nonempty
  | buffered number =>
    obtain ⟨buffer, front, stuck, bound⟩ := blocked
    obtain ⟨failure, known⟩ := Option.ne_none_iff_exists'.mp stuck
    simp only [Bank.write, front, List.getElem?_eq_getElem bound]
    unfold Buffer.write
    simp [known]

theorem Unflushable.flush {endpoint : Endpoint} (unflushable : bank.Unflushable endpoint) :
    (bank.flush endpoint).1.outcome ≠ .done := by
  cases endpoint with
  | buffered number => exact unflushable.elim
  | device number =>
    obtain ⟨device, found, fails⟩ := unflushable
    obtain ⟨failure, known⟩ := Option.ne_none_iff_exists'.mp fails
    simp only [Bank.flush, found, (device.flush_cases number).2, known, Outcome.ofFailure?]
    simp

theorem Passes.cons {endpoint : Endpoint} {rest : List Endpoint} {first later : Outcome}
    {middle after : Bank} (begins : Passes bank [endpoint] first middle)
    (ends : Passes middle rest later after) :
    Passes bank (endpoint :: rest) (first.orElse later) after := by
  refine ⟨begins.path.trans ends.path, ?_⟩
  rcases begins.outcome with rfl | ⟨failure, rfl, broken, membership, breaks⟩
  · rcases ends.outcome with rfl | ⟨failure, rfl, broken, membership, breaks⟩
    · exact .inl rfl
    · exact .inr ⟨failure, rfl, broken, List.mem_cons_of_mem _ membership, breaks⟩
  · cases List.mem_singleton.mp membership
    have kept := ends.broken breaks
    rcases ends.outcome with rfl | ⟨other, rfl, -⟩
    · exact .inr ⟨failure, rfl, endpoint, List.mem_cons_self, kept⟩
    · exact .inr ⟨failure, rfl, endpoint, List.mem_cons_self, kept⟩

theorem writeAll_passes (honest : bank.Honest) (octets : Bytes) (endpoints : List Endpoint) :
    Passes bank endpoints (Sink.writeAll Bank.write octets endpoints bank).1.outcome
      (Sink.writeAll Bank.write octets endpoints bank).2 := by
  induction endpoints generalizing bank with
  | nil => exact .refl _ _
  | cons endpoint rest inductionHypothesis =>
    obtain ⟨passes, taken⟩ := write_passes honest endpoint .direct octets
    unfold Sink.writeAll
    generalize bank.write endpoint .direct octets = written at passes taken ⊢
    rcases written with ⟨⟨count, outcome⟩, middle⟩
    cases outcome with
    | done =>
      have later := inductionHypothesis (passes.honest honest)
      dsimp only
      rw [if_pos (taken rfl)]
      simpa only [Outcome.done_orElse] using passes.cons later
    | failed failure => exact passes.cons (.refl middle rest)
    | panicked panic => exact absurd rfl (passes.calm panic)

theorem flushAll_passes (honest : bank.Honest) (endpoints : List Endpoint) :
    Passes bank endpoints (Sink.flushAll Bank.flush endpoints bank).1.outcome
      (Sink.flushAll Bank.flush endpoints bank).2 := by
  induction endpoints generalizing bank with
  | nil => exact .refl _ _
  | cons endpoint rest inductionHypothesis =>
    have passes := flush_passes honest endpoint
    unfold Sink.flushAll
    generalize bank.flush endpoint = flushed at passes ⊢
    rcases flushed with ⟨⟨outcome, events⟩, middle⟩
    cases outcome with
    | panicked panic => exact absurd rfl (passes.calm panic)
    | done | failed failure => exact passes.cons (inductionHypothesis (passes.honest honest))

/-- A write to several endpoints does not get past a blocked one. -/
theorem Blocked.writeAll {endpoint : Endpoint} (blocked : bank.Blocked endpoint)
    (honest : bank.Honest) {octets : Bytes} (nonempty : octets ≠ []) {endpoints : List Endpoint}
    (membership : endpoint ∈ endpoints) :
    (Sink.writeAll Bank.write octets endpoints bank).1.outcome ≠ .done := by
  induction endpoints generalizing bank with
  | nil => cases membership
  | cons first rest inductionHypothesis =>
    obtain ⟨passes, taken⟩ := write_passes honest first .direct octets
    have stops : endpoint = first → (bank.write first .direct octets).1.outcome ≠ .done := by
      rintro rfl
      exact blocked.write honest .direct nonempty
    unfold Sink.writeAll
    generalize bank.write first .direct octets = written at passes taken stops ⊢
    rcases written with ⟨⟨count, outcome⟩, middle⟩
    cases outcome with
    | done =>
      dsimp only
      rw [if_pos (taken rfl)]
      rcases List.mem_cons.mp membership with same | later
      · exact absurd rfl (stops same)
      · exact inductionHypothesis (passes.blocked blocked) (passes.honest honest) later
    | failed failure => simp
    | panicked panic => simp

/-- A flush of several endpoints reports the failure of each. -/
theorem Unflushable.flushAll {endpoint : Endpoint} (unflushable : bank.Unflushable endpoint)
    (honest : bank.Honest) {endpoints : List Endpoint} (membership : endpoint ∈ endpoints) :
    (Sink.flushAll Bank.flush endpoints bank).1.outcome ≠ .done := by
  induction endpoints generalizing bank with
  | nil => cases membership
  | cons first rest inductionHypothesis =>
    have passes := flush_passes honest first
    have fails : endpoint = first → (bank.flush first).1.outcome ≠ .done := by
      rintro rfl
      exact unflushable.flush
    unfold Sink.flushAll
    generalize bank.flush first = flushed at passes fails ⊢
    rcases flushed with ⟨⟨outcome, events⟩, middle⟩
    cases outcome with
    | panicked panic => simp
    | done | failed failure =>
      intro done
      obtain ⟨early, late⟩ := Outcome.done_of_orElse done
      rcases List.mem_cons.mp membership with same | later
      · exact fails same early
      · exact inductionHypothesis (passes.unflushable unflushable) (passes.honest honest) later late

variable {sink : Sink Endpoint}

theorem writeTo_passes (honest : bank.Honest) (sink : Sink Endpoint) (passage : Passage)
    (octets : Bytes) :
    Passes bank sink.members (sink.writeTo Bank.write passage octets bank).1.outcome
      (sink.writeTo Bank.write passage octets bank).2 := by
  cases sink with
  | discard => exact .refl _ _
  | single endpoint => exact (write_passes honest endpoint passage octets).1
  | tee endpoints => exact writeAll_passes honest octets endpoints

theorem flushTo_passes (honest : bank.Honest) (sink : Sink Endpoint) :
    Passes bank sink.members (sink.flushTo Bank.flush bank).1.outcome
      (sink.flushTo Bank.flush bank).2 := by
  cases sink with
  | discard => exact .refl _ _
  | single endpoint => exact flush_passes honest endpoint
  | tee endpoints => exact flushAll_passes honest endpoints

theorem Blocked.writeTo {endpoint : Endpoint} (blocked : bank.Blocked endpoint)
    (honest : bank.Honest) (membership : endpoint ∈ sink.members) (passage : Passage)
    {octets : Bytes} (nonempty : octets ≠ []) :
    (sink.writeTo Bank.write passage octets bank).1.outcome ≠ .done := by
  cases sink with
  | discard => cases membership
  | single member =>
    cases List.mem_singleton.mp membership
    exact blocked.write honest passage nonempty
  | tee members => exact blocked.writeAll honest nonempty membership

theorem Unflushable.flushTo {endpoint : Endpoint} (unflushable : bank.Unflushable endpoint)
    (honest : bank.Honest) (membership : endpoint ∈ sink.members) :
    (sink.flushTo Bank.flush bank).1.outcome ≠ .done := by
  cases sink with
  | discard => cases membership
  | single member =>
    cases List.mem_singleton.mp membership
    exact unflushable.flush
  | tee members => exact unflushable.flushAll honest membership

end Bank

namespace Console

variable {console later : Console}

/-- None of the devices panics or takes too few octets in silence. -/
def Honest (console : Console) : Prop := console.bank.Honest

/-- Some member of the sink is blocked or cannot be flushed. -/
def Broken (console : Console) : Prop :=
  ∃ endpoint ∈ console.sink.members, console.bank.Broken endpoint

theorem passes_of_next (honest : console.Honest) (next : Output.Next console later) :
    later.sink = console.sink ∧
      ∃ outcome, console.bank.Passes console.sink.members outcome later.bank := by
  cases next with
  | write passage octets => exact ⟨rfl, _, Bank.writeTo_passes honest console.sink passage octets⟩
  | flush => exact ⟨rfl, _, Bank.flushTo_passes honest console.sink⟩

theorem honest_path (honest : console.Honest)
    (path : Relation.ReflTransGen Output.Next console later) : later.Honest := by
  induction path with
  | refl => exact honest
  | tail _ next inductionHypothesis =>
    obtain ⟨-, outcome, passes⟩ := passes_of_next inductionHypothesis next
    exact passes.honest inductionHypothesis

theorem Broken.path (broken : console.Broken) (honest : console.Honest)
    (path : Relation.ReflTransGen Output.Next console later) : later.Broken := by
  induction path with
  | refl => exact broken
  | tail earlier next inductionHypothesis =>
    obtain ⟨endpoint, membership, breaks⟩ := inductionHypothesis
    obtain ⟨same, outcome, passes⟩ := passes_of_next (honest_path honest earlier) next
    exact ⟨endpoint, same ▸ membership, passes.broken breaks⟩

theorem Broken.refuses (broken : console.Broken) (honest : console.Honest) :
    Output.Refuses console := by
  intro later path passage octets nonempty written
  have honest := honest_path honest path
  obtain ⟨endpoint, membership, blocked | unflushable⟩ := broken.path ‹_› path
  · exact absurd written (blocked.writeTo honest membership passage nonempty)
  · have passes := Bank.writeTo_passes honest later.sink passage octets
    exact (passes.unflushable unflushable).flushTo (passes.honest honest) membership

theorem refuses_of_failed {outcome : Outcome} {failure : Failure} (honest : console.Honest)
    (passes : console.bank.Passes console.sink.members outcome later.bank)
    (same : later.sink = console.sink) (failed : outcome = .failed failure) :
    Output.Refuses later := by
  rcases passes.outcome with done | ⟨_, -, endpoint, membership, broken⟩
  · cases done.symm.trans failed
  · exact Broken.refuses ⟨endpoint, same ▸ membership, broken⟩ (passes.honest honest)

/-- However the devices of a console are joined, if all are honest, then none of its
failures passes. -/
theorem persistent (honest : console.Honest) : Output.Persistent console where
  write_calm path passage octets panic :=
    (Bank.writeTo_passes (honest_path honest path) _ passage octets).calm panic
  flush_calm path panic := (Bank.flushTo_passes (honest_path honest path) _).calm panic
  write_lasts path passage octets _ failed :=
    have honest := honest_path honest path
    refuses_of_failed honest (Bank.writeTo_passes honest _ passage octets) rfl failed
  flush_lasts path _ failed :=
    have honest := honest_path honest path
    refuses_of_failed honest (Bank.flushTo_passes honest _) rfl failed

end Console

end LineForth
