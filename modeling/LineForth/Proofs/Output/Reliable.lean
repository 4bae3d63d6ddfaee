import LineForth.Output.Console

/-!
# Outputs that never fail

What an output that never fails has taken is looked at through a view: a write
extends the view by its octets, and a flush leaves the view alone. Any output that
never fails has such a view once the octets written to it are recorded. A console
needs no record if every member of its sink ends in a device of its own without a
limit: its view is what each of these devices has received, together with what a
buffer in front of the device still holds.
-/

set_option autoImplicit false

namespace LineForth

/-- Outputs of which no write and no flush fails. -/
structure Unfailing (σ : Type) [Output σ] where
  intact : σ → Prop
  write_done : ∀ passage octets {output : σ}, intact output →
    (Output.write passage octets output).1.outcome = .done
  write_intact : ∀ passage octets {output : σ}, intact output →
    intact (Output.write passage octets output).2
  flush_done : ∀ {output : σ}, intact output → (Output.flush output).1.outcome = .done
  flush_intact : ∀ {output : σ}, intact output → intact (Output.flush output).2

/-- A way of looking at outputs that never fail. -/
structure Reliable (σ ν : Type) [Output σ] extends Unfailing σ where
  /-- What has been put out so far. -/
  view : σ → ν
  /-- What a write adds. -/
  extend : Bytes → ν → ν
  view_write : ∀ passage octets {output : σ}, intact output →
    view (Output.write passage octets output).2 = extend octets (view output)
  view_flush : ∀ {output : σ}, intact output → view (Output.flush output).2 = view output

/-- A view that shows nothing. -/
def Unfailing.blind {σ : Type} [Output σ] (unfailing : Unfailing σ) : Reliable σ Unit where
  toUnfailing := unfailing
  view _ := ()
  extend _ _ := ()
  view_write _ _ _ _ := rfl
  view_flush _ := rfl

/-- An output together with all the octets that were written to it. -/
structure Recorded (σ : Type) where
  output : σ
  octets : Bytes

namespace Recorded

variable {σ : Type} [Output σ]

instance : Output (Recorded σ) where
  write passage octets recorded :=
    let (written, output) := Output.write passage octets recorded.output
    (written, ⟨output, recorded.octets ++ octets⟩)
  flush recorded :=
    let (flushed, output) := Output.flush recorded.output
    (flushed, { recorded with output := output })

/-- The record is a view of every output that never fails. -/
def reliable (unfailing : Unfailing σ) : Reliable (Recorded σ) Bytes where
  intact recorded := unfailing.intact recorded.output
  view := octets
  extend octets earlier := earlier ++ octets
  write_done passage octets _ intact := unfailing.write_done passage octets intact
  write_intact passage octets _ intact := unfailing.write_intact passage octets intact
  view_write _ _ _ _ := rfl
  flush_done intact := unfailing.flush_done intact
  flush_intact intact := unfailing.flush_intact intact
  view_flush _ := rfl

end Recorded

namespace Device

/-- Accepts every octet, and has no flush that could fail. -/
def Unlimited (device : Device) : Prop :=
  match device.kind with
  | .memory => True
  | .plain limit => limit = none
  | .flushing limit failure => limit = none ∧ failure = none
  | .lineLog _ => False

theorem Unlimited.of_kind {device other : Device} (unlimited : device.Unlimited)
    (same : other.kind = device.kind) : other.Unlimited := by
  unfold Unlimited
  rw [same]
  exact unlimited

theorem write_of_unlimited {device : Device} (unlimited : device.Unlimited) (octets : Bytes) :
    device.write octets = (⟨octets.length, .done⟩, device.accept octets) := by
  unfold Unlimited at unlimited
  unfold write
  cases kind : device.kind with
  | memory => rfl
  | plain limit =>
    simp only [kind] at unlimited
    simp only [unlimited, writeLimited]
  | flushing limit failure =>
    simp only [kind] at unlimited
    simp only [unlimited.1, writeLimited]
  | lineLog log => simp only [kind] at unlimited

theorem flush_of_unlimited {device : Device} (unlimited : device.Unlimited) (number : Nat) :
    ∃ events, device.flush number = (⟨.done, events⟩, device) := by
  unfold Unlimited at unlimited
  unfold flush
  cases kind : device.kind with
  | memory => exact ⟨[], rfl⟩
  | plain limit => exact ⟨[], rfl⟩
  | flushing limit failure =>
    simp only [kind] at unlimited
    exact ⟨[.flushed number], by simp only [unlimited.2, Outcome.ofFailure?]⟩
  | lineLog log => simp only [kind] at unlimited

end Device

namespace Buffer

/-- What a buffer and its device come to when they take octets and nothing fails.
Whether an octet is held or has been handed over is left open. -/
structure Takes (octets : Bytes) (buffer after : Buffer) (device written : Device) : Prop where
  place : after.device = buffer.device
  unstuck : after.stuck = none
  kind : written.kind = device.kind
  total : written.received ++ after.held = device.received ++ buffer.held ++ octets

theorem flush_device (buffer : Buffer) (device : Device) :
    (buffer.flush device).2.1.device = buffer.device := by
  unfold flush
  split
  · rfl
  · split
    · rfl
    · dsimp only
      split <;> rfl

theorem write_device (passage : Passage) (octets : Bytes) (buffer : Buffer) (device : Device) :
    (buffer.write passage octets device).2.1.device = buffer.device := by
  fun_induction write passage octets buffer device with
  | case1 => rfl
  | case2 => rfl
  | case3 => rfl
  | case4 => rfl
  | case5 => rfl
  | case6 octets buffer device _ _ _ written after _ _ _ later result rest inductionHypothesis =>
    rw [rest] at inductionHypothesis
    exact inductionHypothesis
  | case7 octets buffer device _ _ _ emptied after flushed later result rest
      inductionHypothesis =>
    have place := flush_device (buffer.hold (octets.take buffer.room)) device
    rw [flushed] at place
    rw [rest] at inductionHypothesis
    exact inductionHypothesis.trans place
  | case8 octets buffer device _ _ _ outcome left after _ flushed =>
    have place := flush_device (buffer.hold (octets.take buffer.room)) device
    rw [flushed] at place
    exact place

theorem flush_of_unlimited {buffer : Buffer} {device : Device} (unstuck : buffer.stuck = none)
    (unlimited : device.Unlimited) :
    buffer.flush device = (.done, { buffer with held := [] }, device.accept buffer.held) := by
  rcases buffer with ⟨number, held, stuck⟩
  cases unstuck
  cases held with
  | nil => simp [flush, Device.accept]
  | cons octet rest => simp [flush, Device.write_of_unlimited unlimited, verdict]

theorem write_of_unlimited (passage : Passage) (octets : Bytes) {buffer : Buffer}
    {device : Device} (unstuck : buffer.stuck = none) (unlimited : device.Unlimited) :
    ∃ after written,
      buffer.write passage octets device = (⟨octets.length, .done⟩, after, written) ∧
        Takes octets buffer after device written := by
  fun_induction write passage octets buffer device with
  | case1 octets buffer device failure stuck => simp [stuck] at unstuck
  | case2 octets buffer device _ fits =>
    exact ⟨_, _, rfl, rfl, unstuck, rfl, by simp [hold]⟩
  | case3 octets buffer device _ tooLong direct written after reached panic outcome =>
    rw [Device.write_of_unlimited unlimited] at reached
    cases reached
    cases outcome
  | case4 octets buffer device _ tooLong direct written after reached failure outcome =>
    rw [Device.write_of_unlimited unlimited] at reached
    cases reached
    cases outcome
  | case5 octets buffer device _ tooLong direct written after reached outcome none =>
    rw [Device.write_of_unlimited unlimited] at reached
    cases reached
    simp only at none
    omega
  | case6 octets buffer device _ tooLong direct written after reached outcome some later result
      rest inductionHypothesis =>
    rw [Device.write_of_unlimited unlimited] at reached
    cases reached
    obtain ⟨left, device', same, takes⟩ := inductionHypothesis unstuck (unlimited.of_kind rfl)
    rw [rest] at same
    cases same
    refine ⟨left, device', by simp, takes.place, takes.unstuck, takes.kind, ?_⟩
    rw [takes.total]
    simp [Device.accept, direct.2]
  | case7 octets buffer device _ tooLong indirect emptied after flushed later result rest
      inductionHypothesis =>
    have filled : (buffer.hold (octets.take buffer.room)).stuck = none := unstuck
    rw [flush_of_unlimited filled unlimited] at flushed
    cases flushed
    obtain ⟨left, device', same, takes⟩ := inductionHypothesis unstuck (unlimited.of_kind rfl)
    rw [rest] at same
    cases same
    refine ⟨left, device', ?_, takes.place, takes.unstuck, takes.kind, ?_⟩
    · simp only [List.length_drop, Prod.mk.injEq, Written.mk.injEq, and_true]
      omega
    · rw [takes.total]
      simp [Device.accept, hold]
  | case8 octets buffer device _ tooLong indirect outcome left after stopped flushed =>
    have filled : (buffer.hold (octets.take buffer.room)).stuck = none := unstuck
    rw [flush_of_unlimited filled unlimited] at flushed
    cases flushed
    exact absurd rfl stopped

end Buffer

namespace Bank

/-- The number of the device that an endpoint ends in. -/
def deviceNumber (bank : Bank) : Endpoint → Option Nat
  | .device number => some number
  | .buffered number => (bank.buffers[number]?).map Buffer.device

/-- What the buffer of an endpoint holds. -/
def held (bank : Bank) : Endpoint → Bytes
  | .device _ => []
  | .buffered number => ((bank.buffers[number]?).map Buffer.held).getD []

/-- Everything that an endpoint has taken. -/
def sent (bank : Bank) (endpoint : Endpoint) : Bytes :=
  (((bank.deviceNumber endpoint).bind (bank.devices[·]?)).map Device.received).getD [] ++
    bank.held endpoint

/-- The endpoint ends in a device without a limit, and nothing is stuck in front
of it. -/
def Serves (bank : Bank) : Endpoint → Prop
  | .device number => ∃ device, bank.devices[number]? = some device ∧ device.Unlimited
  | .buffered number => ∃ buffer, bank.buffers[number]? = some buffer ∧ buffer.stuck = none ∧
      ∃ device, bank.devices[buffer.device]? = some device ∧ device.Unlimited

/-- What a bank comes to when one of its endpoints takes octets and nothing
fails. -/
structure Takes (octets : Bytes) (endpoint : Endpoint) (bank after : Bank) : Prop where
  deviceNumber : after.deviceNumber = bank.deviceNumber
  serves : ∀ other, bank.Serves other → after.Serves other
  sent : after.sent endpoint = bank.sent endpoint ++ octets
  others : ∀ other, bank.deviceNumber other ≠ bank.deviceNumber endpoint →
    after.sent other = bank.sent other

/-- An update of one entry keeps what there is elsewhere. -/
theorem exists_getElem?_set {α : Type} {P : α → Prop} {list : List α} {number other : Nat}
    {old new : α} (found : list[number]? = some old) (kept : P old → P new)
    (holds : ∃ value, list[other]? = some value ∧ P value) :
    ∃ value, (list.set number new)[other]? = some value ∧ P value := by
  obtain ⟨value, position, holds⟩ := holds
  by_cases same : number = other
  · subst same
    obtain ⟨bound, -⟩ := List.getElem?_eq_some_iff.mp found
    rw [found] at position
    cases position
    exact ⟨new, List.getElem?_set_self bound, kept holds⟩
  · exact ⟨value, by rw [List.getElem?_set_ne same, position], holds⟩

theorem deviceNumber_updateDevice (bank : Bank) (number : Nat) (device : Device) :
    (bank.updateDevice number device).deviceNumber = bank.deviceNumber := by
  funext endpoint
  cases endpoint <;> rfl

section UpdateDevice

variable {bank : Bank} {number : Nat} {device written : Device}

theorem serves_updateDevice (found : bank.devices[number]? = some device)
    (kind : written.kind = device.kind) {endpoint : Endpoint} (serves : bank.Serves endpoint) :
    (bank.updateDevice number written).Serves endpoint := by
  have kept (unlimited : device.Unlimited) : written.Unlimited := unlimited.of_kind kind
  cases endpoint with
  | device other => exact exists_getElem?_set found kept serves
  | buffered other =>
    obtain ⟨buffer, position, unstuck, behind⟩ := serves
    exact ⟨buffer, position, unstuck, exists_getElem?_set found kept behind⟩

theorem sent_updateDevice_of_ne {endpoint : Endpoint}
    (other : bank.deviceNumber endpoint ≠ some number) :
    (bank.updateDevice number written).sent endpoint = bank.sent endpoint := by
  have held : (bank.updateDevice number written).held endpoint = bank.held endpoint := by
    cases endpoint <;> rfl
  unfold sent
  rw [deviceNumber_updateDevice, held]
  cases place : bank.deviceNumber endpoint with
  | none => rfl
  | some place' =>
    rw [place] at other
    have different : number ≠ place' := fun equal => other (by rw [equal])
    simp [updateDevice, List.getElem?_set_ne different]

end UpdateDevice

section UpdateBuffer

variable {bank : Bank} {number : Nat} {buffer after : Buffer}

theorem deviceNumber_updateBuffer (found : bank.buffers[number]? = some buffer)
    (place : after.device = buffer.device) :
    (bank.updateBuffer number after).deviceNumber = bank.deviceNumber := by
  obtain ⟨bound, -⟩ := List.getElem?_eq_some_iff.mp found
  funext endpoint
  cases endpoint with
  | device other => rfl
  | buffered other =>
    by_cases same : number = other
    · subst same
      simp [deviceNumber, updateBuffer, List.getElem?_set_self bound, found, place]
    · simp [deviceNumber, updateBuffer, List.getElem?_set_ne same]

theorem serves_updateBuffer (found : bank.buffers[number]? = some buffer)
    (place : after.device = buffer.device) (unstuck : after.stuck = none) {endpoint : Endpoint}
    (serves : bank.Serves endpoint) : (bank.updateBuffer number after).Serves endpoint := by
  cases endpoint with
  | device other => exact serves
  | buffered other =>
    refine exists_getElem?_set found ?_ serves
    rintro ⟨-, behind⟩
    exact ⟨unstuck, place.symm ▸ behind⟩

theorem sent_updateBuffer_of_ne {endpoint : Endpoint} (other : endpoint ≠ .buffered number) :
    (bank.updateBuffer number after).sent endpoint = bank.sent endpoint := by
  cases endpoint with
  | device place => rfl
  | buffered place =>
    have different : number ≠ place := fun equal => other (by rw [equal])
    simp [sent, deviceNumber, held, updateBuffer, List.getElem?_set_ne different]

end UpdateBuffer

theorem takes_device {bank : Bank} {number : Nat} {device written : Device} {octets : Bytes}
    (found : bank.devices[number]? = some device) (kind : written.kind = device.kind)
    (received : written.received = device.received ++ octets) :
    Takes octets (.device number) bank (bank.updateDevice number written) where
  deviceNumber := bank.deviceNumber_updateDevice number written
  serves _ serves := serves_updateDevice found kind serves
  sent := by
    obtain ⟨bound, -⟩ := List.getElem?_eq_some_iff.mp found
    simp [Bank.sent, Bank.deviceNumber, held, updateDevice, List.getElem?_set_self bound, found,
      received]
  others _ different := sent_updateDevice_of_ne different

theorem takes_buffered {bank : Bank} {number : Nat} {buffer after : Buffer}
    {device written : Device} {octets : Bytes} (front : bank.buffers[number]? = some buffer)
    (behind : bank.devices[buffer.device]? = some device)
    (takes : Buffer.Takes octets buffer after device written) :
    Takes octets (.buffered number) bank
      ((bank.updateDevice buffer.device written).updateBuffer number after) where
  deviceNumber := by
    rw [deviceNumber_updateBuffer (by exact front) takes.place, deviceNumber_updateDevice]
  serves _ serves :=
    serves_updateBuffer (by exact front) takes.place takes.unstuck
      (serves_updateDevice behind takes.kind serves)
  sent := by
    obtain ⟨frontBound, -⟩ := List.getElem?_eq_some_iff.mp front
    obtain ⟨behindBound, -⟩ := List.getElem?_eq_some_iff.mp behind
    simpa [Bank.sent, Bank.deviceNumber, held, updateDevice, updateBuffer,
      List.getElem?_set_self frontBound, front, takes.place,
      List.getElem?_set_self behindBound, behind] using takes.total
  others other different := by
    have place : bank.deviceNumber (.buffered number) = some buffer.device := by
      simp [Bank.deviceNumber, front]
    rw [place] at different
    rw [sent_updateBuffer_of_ne, sent_updateDevice_of_ne different]
    intro same
    exact different (by rw [same, place])

theorem write_of_serves {bank : Bank} {endpoint : Endpoint} (serves : bank.Serves endpoint)
    (passage : Passage) (octets : Bytes) :
    ∃ after, bank.write endpoint passage octets = (⟨octets.length, .done⟩, after) ∧
      Takes octets endpoint bank after := by
  cases endpoint with
  | device number =>
    obtain ⟨device, found, unlimited⟩ := serves
    refine ⟨bank.updateDevice number (device.accept octets), ?_, takes_device found rfl rfl⟩
    simp only [write, writeDevice, found, Device.write_of_unlimited unlimited]
  | buffered number =>
    obtain ⟨buffer, front, unstuck, device, behind, unlimited⟩ := serves
    obtain ⟨left, written, same, takes⟩ :=
      Buffer.write_of_unlimited passage octets unstuck unlimited
    refine ⟨_, ?_, takes_buffered front behind takes⟩
    simp only [write, front, behind, same]

theorem flush_of_serves {bank : Bank} {endpoint : Endpoint} (serves : bank.Serves endpoint) :
    ∃ events after, bank.flush endpoint = (⟨.done, events⟩, after) ∧
      Takes [] endpoint bank after := by
  cases endpoint with
  | device number =>
    obtain ⟨device, found, unlimited⟩ := serves
    obtain ⟨events, flushed⟩ := Device.flush_of_unlimited unlimited number
    refine ⟨events, _, ?_, takes_device found rfl (List.append_nil _).symm⟩
    simp only [flush, found, flushed]
  | buffered number =>
    obtain ⟨buffer, front, unstuck, device, behind, unlimited⟩ := serves
    have takes : Buffer.Takes [] buffer { buffer with held := [] } device
        (device.accept buffer.held) := ⟨rfl, unstuck, rfl, by simp [Device.accept]⟩
    refine ⟨[], _, ?_, takes_buffered front behind takes⟩
    simp only [flush, front, behind, Buffer.flush_of_unlimited unstuck unlimited]

/-- Several endpoints that end in different devices. -/
structure ServesAll (bank : Bank) (endpoints : List Endpoint) : Prop where
  serves : ∀ endpoint ∈ endpoints, bank.Serves endpoint
  distinct : (endpoints.map bank.deviceNumber).Nodup

/-- What a bank comes to when several of its endpoints take octets. -/
structure TakesAll (octets : Bytes) (endpoints : List Endpoint) (bank after : Bank) : Prop where
  deviceNumber : after.deviceNumber = bank.deviceNumber
  serves : ∀ other, bank.Serves other → after.Serves other
  sent : endpoints.map after.sent = (endpoints.map bank.sent).map (· ++ octets)
  others : ∀ other, bank.deviceNumber other ∉ endpoints.map bank.deviceNumber →
    after.sent other = bank.sent other

theorem TakesAll.nil (octets : Bytes) (bank : Bank) : TakesAll octets [] bank bank :=
  ⟨rfl, fun _ serves => serves, rfl, fun _ _ => rfl⟩

theorem TakesAll.cons {octets : Bytes} {endpoint : Endpoint} {rest : List Endpoint}
    {bank middle after : Bank} (distinct : ((endpoint :: rest).map bank.deviceNumber).Nodup)
    (first : Takes octets endpoint bank middle) (later : TakesAll octets rest middle after) :
    TakesAll octets (endpoint :: rest) bank after := by
  rw [List.map_cons, List.nodup_cons] at distinct
  have unchanged : rest.map middle.sent = rest.map bank.sent := by
    apply List.map_congr_left
    intro other membership
    apply first.others
    intro same
    exact distinct.1 (same ▸ List.mem_map_of_mem membership)
  refine ⟨later.deviceNumber.trans first.deviceNumber,
    fun other serves => later.serves other (first.serves other serves), ?_, ?_⟩
  · rw [List.map_cons, later.sent, unchanged, later.others, first.sent]
    · rfl
    · rw [first.deviceNumber]
      exact distinct.1
  · intro other outside
    rw [List.map_cons, List.mem_cons, not_or] at outside
    rw [later.others, first.others other outside.1]
    rw [first.deviceNumber]
    exact outside.2

theorem ServesAll.tail {endpoint : Endpoint} {rest : List Endpoint} {bank middle : Bank}
    {octets : Bytes} (all : bank.ServesAll (endpoint :: rest))
    (first : Takes octets endpoint bank middle) : middle.ServesAll rest where
  serves other membership :=
    first.serves other (all.serves other (List.mem_cons_of_mem _ membership))
  distinct := by
    rw [first.deviceNumber]
    exact (List.nodup_cons.mp all.distinct).2

theorem writeAll_of_serves {bank : Bank} {endpoints : List Endpoint}
    (all : bank.ServesAll endpoints) (octets : Bytes) :
    ∃ after, Sink.writeAll Bank.write octets endpoints bank = (⟨octets.length, .done⟩, after) ∧
      TakesAll octets endpoints bank after := by
  induction endpoints generalizing bank with
  | nil => exact ⟨bank, rfl, .nil octets bank⟩
  | cons endpoint rest inductionHypothesis =>
    obtain ⟨middle, written, first⟩ :=
      write_of_serves (all.serves endpoint (by simp)) .direct octets
    obtain ⟨after, others, later⟩ := inductionHypothesis (all.tail first)
    refine ⟨after, ?_, .cons all.distinct first later⟩
    simp only [Sink.writeAll, written, if_true, others]

theorem flushAll_of_serves {bank : Bank} {endpoints : List Endpoint}
    (all : bank.ServesAll endpoints) :
    ∃ events after, Sink.flushAll Bank.flush endpoints bank = (⟨.done, events⟩, after) ∧
      TakesAll [] endpoints bank after := by
  induction endpoints generalizing bank with
  | nil => exact ⟨[], bank, rfl, .nil [] bank⟩
  | cons endpoint rest inductionHypothesis =>
    obtain ⟨events, middle, flushed, first⟩ :=
      flush_of_serves (all.serves endpoint (by simp))
    obtain ⟨more, after, others, later⟩ := inductionHypothesis (all.tail first)
    refine ⟨events ++ more, after, ?_, .cons all.distinct first later⟩
    simp only [Sink.flushAll, flushed, others, Outcome.orElse]

theorem writeTo_of_serves {bank : Bank} {sink : Sink Endpoint}
    (all : bank.ServesAll sink.members) (passage : Passage) (octets : Bytes) :
    ∃ after, sink.writeTo Bank.write passage octets bank = (⟨octets.length, .done⟩, after) ∧
      TakesAll octets sink.members bank after := by
  cases sink with
  | discard => exact ⟨bank, rfl, .nil octets bank⟩
  | single endpoint =>
    obtain ⟨after, written, takes⟩ :=
      write_of_serves (all.serves endpoint (List.mem_singleton_self _)) passage octets
    exact ⟨after, written, .cons all.distinct takes (.nil octets after)⟩
  | tee endpoints => exact writeAll_of_serves all octets

theorem flushTo_of_serves {bank : Bank} {sink : Sink Endpoint}
    (all : bank.ServesAll sink.members) :
    ∃ events after, sink.flushTo Bank.flush bank = (⟨.done, events⟩, after) ∧
      TakesAll [] sink.members bank after := by
  cases sink with
  | discard => exact ⟨[], bank, rfl, .nil [] bank⟩
  | single endpoint =>
    obtain ⟨events, after, flushed, takes⟩ :=
      flush_of_serves (all.serves endpoint (List.mem_singleton_self _))
    exact ⟨events, after, flushed, .cons all.distinct takes (.nil [] after)⟩
  | tee endpoints => exact flushAll_of_serves all

theorem ServesAll.after {bank after : Bank} {endpoints : List Endpoint} {octets : Bytes}
    (all : bank.ServesAll endpoints) (takes : TakesAll octets endpoints bank after) :
    after.ServesAll endpoints where
  serves endpoint membership := takes.serves endpoint (all.serves endpoint membership)
  distinct := by
    rw [takes.deviceNumber]
    exact all.distinct

end Bank

namespace Console

/-- No member of the sink can fail, and no two members share a device. -/
def Dependable (console : Console) : Prop := console.bank.ServesAll console.sink.members

theorem write_of_dependable {console : Console} (dependable : console.Dependable)
    (passage : Passage) (octets : Bytes) :
    ∃ after, Output.write passage octets console =
        (⟨octets.length, .done⟩, { console with bank := after }) ∧
      Bank.TakesAll octets console.sink.members console.bank after := by
  obtain ⟨after, written, takes⟩ := Bank.writeTo_of_serves dependable passage octets
  exact ⟨after, by simp only [Output.write, written], takes⟩

theorem flush_of_dependable {console : Console} (dependable : console.Dependable) :
    ∃ events after, Output.flush console =
        (⟨.done, events⟩, { console with bank := after }) ∧
      Bank.TakesAll [] console.sink.members console.bank after := by
  obtain ⟨events, after, flushed, takes⟩ := Bank.flushTo_of_serves dependable
  exact ⟨events, after, by simp only [Output.flush, flushed], takes⟩

/-- What each member of the sink has taken, as the view of a dependable
console. -/
def reliable : Reliable Console (List Bytes) where
  intact := Dependable
  view console := console.sink.members.map console.bank.sent
  extend octets := List.map (· ++ octets)
  write_done passage octets console dependable := by
    obtain ⟨after, written, -⟩ := write_of_dependable dependable passage octets
    rw [written]
  write_intact passage octets console dependable := by
    obtain ⟨after, written, takes⟩ := write_of_dependable dependable passage octets
    rw [written]
    exact Bank.ServesAll.after dependable takes
  view_write passage octets console dependable := by
    obtain ⟨after, written, takes⟩ := write_of_dependable dependable passage octets
    rw [written]
    exact takes.sent
  flush_done := by
    intro console dependable
    obtain ⟨events, after, flushed, -⟩ := flush_of_dependable dependable
    rw [flushed]
  flush_intact := by
    intro console dependable
    obtain ⟨events, after, flushed, takes⟩ := flush_of_dependable dependable
    rw [flushed]
    exact Bank.ServesAll.after dependable takes
  view_flush := by
    intro console dependable
    obtain ⟨events, after, flushed, takes⟩ := flush_of_dependable dependable
    rw [flushed]
    simpa using takes.sent

end Console

end LineForth
