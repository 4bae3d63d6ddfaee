import LineForth.Proofs.Output.LoggedLines
import LineForth.Proofs.Output.Persistence
import LineForth.Proofs.Output.Tees
import Mathlib.Data.List.Nodup

/-!
# What arrives at the members of a sink

Octets go to the members of a sink write by write, and a member passes them on to its
device at once or holds some of them back. However the octets are cut up on the way, a
device that takes them whole comes to the same: what it has taken and what is held in
front of it make up what the member was given. So after a flush in which nothing fails,
each device has taken what its member was given, once for each place of the member.
-/

set_option autoImplicit false

namespace LineForth

namespace Device

/-- The device takes the octets whole. -/
def Takes (octets : Bytes) (device after : Device) : Prop :=
  device.write octets = (⟨octets.length, .done⟩, after)

/-- A log has logged every line that a newline ended. -/
def Rests (device : Device) : Prop :=
  ∀ log, device.kind = .lineLog log → Bytes.newline ∉ log.held

theorem log_or_not (device : Device) :
    (∃ log received, device = ⟨.lineLog log, received⟩) ∨ ∀ log, device.kind ≠ .lineLog log := by
  rcases device with ⟨_ | limit | ⟨limit, failure⟩ | log, received⟩
  · exact .inr (by simp)
  · exact .inr (by simp)
  · exact .inr (by simp)
  · exact .inl ⟨log, received, rfl⟩

variable {device middle after : Device} {octets more : Bytes}

theorem takes_iff_of_log {log : LineLog} {received : Bytes} :
    Takes octets ⟨.lineLog log, received⟩ after ↔
      ⟨.lineLog ⟨(log.held ++ octets).unterminated⟩,
        received ++ showLines (log.held ++ octets).terminated⟩ = after := by
  simp only [Takes, write, LineLog.write, LineLog.logLines_false, accept, Prod.mk.injEq, true_and]

theorem write_of_not_log (unlogged : ∀ log, device.kind ≠ .lineLog log) (octets : Bytes) :
    device.write octets = writeLimited device.limit? octets device := by
  rcases device with ⟨_ | limit | ⟨limit, failure⟩ | log, received⟩
  · rfl
  · rfl
  · rfl
  · exact absurd rfl (unlogged log)

/-- A device that is no log takes octets whole if they fit, and then receives them. -/
theorem takes_iff_of_not_log (unlogged : ∀ log, device.kind ≠ .lineLog log) :
    device.Takes octets after ↔
      (∀ cap ∈ device.limit?, octets.length ≤ cap.bound - device.received.length) ∧
        device.accept octets = after := by
  unfold Takes
  rw [write_of_not_log unlogged]
  cases device.limit? with
  | none => simp [writeLimited]
  | some cap =>
    by_cases fits : octets.length ≤ cap.bound - device.received.length
    · simp [writeLimited, fits]
    · have short : cap.bound - device.received.length ≠ octets.length := by omega
      simp [writeLimited, fits, short]

theorem Takes.unique {other : Device} (takes : device.Takes octets after)
    (same : device.Takes octets other) : after = other :=
  (Prod.mk.inj (Eq.trans (Eq.symm takes) same)).2

theorem Takes.rests (takes : device.Takes octets after) : after.Rests := by
  rcases device.log_or_not with ⟨log, received, rfl⟩ | unlogged
  · cases takes_iff_of_log.mp takes
    rintro _ ⟨⟩
    exact Bytes.newline_not_mem_unterminated _
  · obtain ⟨-, rfl⟩ := (takes_iff_of_not_log unlogged).mp takes
    exact fun log kind => absurd kind (unlogged log)

theorem Rests.takes_nil (rests : device.Rests) : device.Takes [] device := by
  rcases device.log_or_not with ⟨log, received, rfl⟩ | unlogged
  · obtain ⟨none, whole⟩ := Bytes.terminated_of_not_mem (rests log rfl)
    rw [takes_iff_of_log, List.append_nil, none, whole]
    simp [showLines]
  · exact (takes_iff_of_not_log unlogged).mpr ⟨by simp, by simp [accept]⟩

/-- It makes no difference in how many pieces octets are taken. -/
theorem Takes.append (first : device.Takes octets middle) (second : middle.Takes more after) :
    device.Takes (octets ++ more) after := by
  rcases device.log_or_not with ⟨log, received, rfl⟩ | unlogged
  · cases takes_iff_of_log.mp first
    cases takes_iff_of_log.mp second
    obtain ⟨lines, rest⟩ := Bytes.terminated_append (log.held ++ octets) more
    rw [takes_iff_of_log, ← List.append_assoc, lines, rest]
    simp [showLines]
  · obtain ⟨fits, rfl⟩ := (takes_iff_of_not_log unlogged).mp first
    obtain ⟨still, rfl⟩ := (takes_iff_of_not_log (by exact unlogged)).mp second
    refine (takes_iff_of_not_log unlogged).mpr ⟨?_, by simp [accept]⟩
    intro cap limited
    have front := fits cap limited
    have back := still cap limited
    simp only [accept, List.length_append] at back ⊢
    omega

/-- A device takes whole what it says to have taken. -/
theorem takes_take_of_done {written : Written} (answer : device.write octets = (written, after))
    (done : written.outcome = .done) : device.Takes (octets.take written.taken) after := by
  rcases written with ⟨taken, outcome⟩
  cases done
  rcases device.log_or_not with ⟨log, received, rfl⟩ | unlogged
  · have whole : taken = octets.length := by
      simp only [write, LineLog.write, Prod.mk.injEq, Written.mk.injEq] at answer
      exact answer.1.1.symm
    subst whole
    simpa only [Takes, List.take_length] using answer
  · rw [takes_iff_of_not_log unlogged]
    rw [write_of_not_log unlogged] at answer
    cases limit : device.limit? with
    | none =>
      rw [limit] at answer
      cases answer
      simp
    | some cap =>
      rw [limit] at answer
      simp only [writeLimited] at answer
      split at answer
      next fits =>
        cases answer
        simpa using fits
      next =>
        simp only [Prod.mk.injEq, Written.mk.injEq] at answer
        obtain ⟨⟨rfl, -⟩, rfl⟩ := answer
        simp only [Option.mem_some_iff, List.length_take, and_true]
        rintro _ rfl
        exact Nat.min_le_left _ _

theorem flush_of_not_log (unlogged : ∀ log, device.kind ≠ .lineLog log) (number : Nat) :
    (device.flush number).2 = device := by
  rcases device with ⟨_ | limit | ⟨limit, failure⟩ | log, received⟩
  · rfl
  · rfl
  · rfl
  · exact absurd rfl (unlogged log)

theorem flush_flush (device : Device) (number : Nat) :
    ((device.flush number).2.flush number).2 = (device.flush number).2 := by
  rcases device.log_or_not with ⟨log, received, rfl⟩ | unlogged
  · simp [flush, LineLog.flush, LineLog.logLines_true, accept, Bytes.fields, Bytes.withoutEmptyEnd,
      showLines]
  · rw [flush_of_not_log unlogged, flush_of_not_log unlogged]

theorem Rests.flush (rests : device.Rests) (number : Nat) : (device.flush number).2.Rests := by
  rcases device.log_or_not with ⟨log, received, rfl⟩ | unlogged
  · simp only [Device.flush, LineLog.flush, LineLog.logLines_true]
    rintro _ ⟨⟩
    simp
  · rw [flush_of_not_log unlogged]
    exact rests

end Device

namespace Buffer

variable {buffer after : Buffer} {device written : Device}

theorem done_of_verdict {offered : Nat} {written : Written}
    (done : verdict offered written = .done) :
    written.outcome = .done ∧ offered ≤ written.taken := by
  unfold verdict at done
  split at done
  next success =>
    split at done
    · cases done
    next enough => exact ⟨success, Nat.le_of_not_lt enough⟩
  next unsuccessful => exact absurd done unsuccessful

/-- A flush that succeeds hands over what is held. -/
theorem takes_of_flush_done (flushed : buffer.flush device = (.done, after, written))
    (rests : device.Rests) : device.Takes buffer.held written := by
  unfold flush at flushed
  split at flushed
  · cases flushed
  · split at flushed
    next empty =>
      cases flushed
      rw [List.isEmpty_iff.mp empty]
      exact rests.takes_nil
    next =>
      dsimp only at flushed
      split at flushed
      next verdict =>
        cases flushed
        obtain ⟨success, enough⟩ := done_of_verdict verdict
        have takes := Device.takes_take_of_done (Prod.eta _).symm success
        rwa [List.take_of_length_le enough] at takes
      next => cases flushed
      next => cases flushed

/-- After a write that succeeds, what the device has taken and what is held make up what
was held and what was written. -/
theorem takes_of_write_done {passage : Passage} {octets : Bytes} {result : Written}
    (answer : buffer.write passage octets device = (result, after, written))
    (done : result.outcome = .done) (rests : device.Rests) :
    ∃ passed, device.Takes passed written ∧ passed ++ after.held = buffer.held ++ octets := by
  fun_induction write passage octets buffer device generalizing result with
  | case1 octets buffer device failure stuck =>
    cases answer
    cases done
  | case2 octets buffer device _ fits =>
    cases answer
    exact ⟨[], rests.takes_nil, rfl⟩
  | case3 octets buffer device _ tooLong direct reached accepted answered panic outcome
  | case4 octets buffer device _ tooLong direct reached accepted answered failure outcome
  | case5 octets buffer device _ tooLong direct reached accepted answered outcome none =>
    cases answer
    cases done
  | case6 octets buffer device _ tooLong direct reached accepted answered outcome some later
      ending rest inductionHypothesis =>
    cases answer
    have begun := Device.takes_take_of_done answered outcome
    obtain ⟨passed, takes, total⟩ := inductionHypothesis rest done begun.rests
    refine ⟨_, begun.append takes, ?_⟩
    rw [List.append_assoc, total, direct.2, List.nil_append, List.nil_append,
      List.take_append_drop]
  | case7 octets buffer device _ tooLong indirect emptied accepted flushed later ending rest
      inductionHypothesis =>
    cases answer
    have begun := takes_of_flush_done flushed rests
    obtain ⟨passed, takes, total⟩ := inductionHypothesis rest done begun.rests
    refine ⟨_, begun.append takes, ?_⟩
    rw [List.append_assoc, total, held_of_flush_done flushed, List.nil_append, hold,
      List.append_assoc, List.take_append_drop]
  | case8 octets buffer device _ tooLong indirect outcome left accepted stopped flushed =>
    cases answer
    exact absurd done stopped

end Buffer

namespace Endpoint

/-- What the flush of an endpoint makes of its device, once nothing is held. -/
def flushed : Endpoint → Device → Device
  | .device number, written => (written.flush number).2
  | .buffered _, written => written

theorem flushed_flushed (endpoint : Endpoint) (written : Device) :
    endpoint.flushed (endpoint.flushed written) = endpoint.flushed written := by
  cases endpoint with
  | device number => exact written.flush_flush number
  | buffered number => rfl

theorem rests_flushed (endpoint : Endpoint) {written : Device} (rests : written.Rests) :
    (endpoint.flushed written).Rests := by
  cases endpoint with
  | device number => exact rests.flush number
  | buffered number => exact rests

theorem flushed_of_not_log (endpoint : Endpoint) {written : Device}
    (unlogged : ∀ log, written.kind ≠ .lineLog log) : endpoint.flushed written = written := by
  cases endpoint with
  | device number => exact Device.flush_of_not_log unlogged number
  | buffered number => rfl

end Endpoint

namespace Sink

variable {ι : Type} [DecidableEq ι]

/-- What a member of the sink is given when these octets are written, one after the
other. -/
def given (sink : Sink ι) (member : ι) (chunks : List Bytes) : Bytes :=
  chunks.flatMap fun octets => (List.replicate (sink.members.count member) octets).flatten

theorem given_cons (sink : Sink ι) (member : ι) (octets : Bytes) (chunks : List Bytes) :
    sink.given member (octets :: chunks) =
      (List.replicate (sink.members.count member) octets).flatten ++ sink.given member chunks :=
  List.flatMap_cons

theorem given_of_nodup {sink : Sink ι} (distinct : sink.members.Nodup) {member : ι}
    (membership : member ∈ sink.members) (chunks : List Bytes) :
    sink.given member chunks = chunks.flatten := by
  have once := List.nodup_iff_count_eq_one.mp distinct member membership
  simp [given, once, List.flatMap_def]

end Sink

namespace Bank

variable {bank after : Bank} {endpoint other : Endpoint} {number : Nat} {device : Device}
  {held octets : Bytes}

/-- The endpoint ends in this device, and these octets are held in front of it. -/
structure Feeds (bank : Bank) (endpoint : Endpoint) (number : Nat) (device : Device)
    (held : Bytes) : Prop where
  place : bank.deviceNumber endpoint = some number
  found : bank.devices[number]? = some device
  held : bank.held endpoint = held

/-- What a write or a flush of an endpoint can change. -/
inductive Touches (bank : Bank) : Endpoint → Bank → Prop
  | nothing (endpoint : Endpoint) : Touches bank endpoint bank
  | device (number : Nat) (after : Device) :
      Touches bank (.device number) (bank.updateDevice number after)
  | buffered {number : Nat} {buffer left : Buffer} (front : bank.buffers[number]? = some buffer)
      (place : left.device = buffer.device) (after : Device) :
      Touches bank (.buffered number)
        ((bank.updateDevice buffer.device after).updateBuffer number left)

theorem write_touches (bank : Bank) (endpoint : Endpoint) (passage : Passage) (octets : Bytes) :
    bank.Touches endpoint (bank.write endpoint passage octets).2 := by
  cases endpoint with
  | device number =>
    unfold write writeDevice
    dsimp only
    split
    · exact .nothing _
    · exact .device number _
  | buffered number =>
    unfold write
    dsimp only
    split
    · exact .nothing _
    next buffer front =>
      split
      · exact .nothing _
      · exact .buffered front (buffer.write_device passage octets _) _

theorem flush_touches (bank : Bank) (endpoint : Endpoint) :
    bank.Touches endpoint (bank.flush endpoint).2 := by
  cases endpoint with
  | device number =>
    unfold flush
    dsimp only
    split
    · exact .nothing _
    · exact .device number _
  | buffered number =>
    unfold flush
    dsimp only
    split
    · exact .nothing _
    next buffer front =>
      split
      · exact .nothing _
      · exact .buffered front (buffer.flush_device _) _

theorem Touches.deviceNumber (touches : bank.Touches endpoint after) :
    after.deviceNumber = bank.deviceNumber := by
  cases touches with
  | nothing => rfl
  | device number device => exact bank.deviceNumber_updateDevice number device
  | buffered front place device =>
    exact (deviceNumber_updateBuffer (by exact front) place).trans
      (bank.deviceNumber_updateDevice _ device)

theorem Feeds.updateDevice (feeds : bank.Feeds endpoint number device held) (written : Device) :
    (bank.updateDevice number written).Feeds endpoint number written held where
  place := by
    rw [deviceNumber_updateDevice]
    exact feeds.place
  found := by
    obtain ⟨bound, -⟩ := List.getElem?_eq_some_iff.mp feeds.found
    exact List.getElem?_set_self bound
  held := by
    rw [← feeds.held]
    cases endpoint <;> rfl

theorem Feeds.updateDevice_of_ne (feeds : bank.Feeds endpoint number device held) {place : Nat}
    (different : place ≠ number) (written : Device) :
    (bank.updateDevice place written).Feeds endpoint number device held where
  place := by
    rw [deviceNumber_updateDevice]
    exact feeds.place
  found := by
    rw [Bank.updateDevice, List.getElem?_set_ne different]
    exact feeds.found
  held := by
    rw [← feeds.held]
    cases endpoint <;> rfl

/-- What happens at an endpoint with another device does not matter. -/
theorem Feeds.of_touches (feeds : bank.Feeds endpoint number device held)
    (touches : bank.Touches other after) (elsewhere : bank.deviceNumber other ≠ some number) :
    after.Feeds endpoint number device held := by
  have still : after.deviceNumber endpoint = some number := by
    rw [touches.deviceNumber]
    exact feeds.place
  cases touches with
  | nothing => exact feeds
  | device place written =>
    apply feeds.updateDevice_of_ne
    rintro rfl
    exact elsewhere rfl
  | @buffered slot buffer left front place written =>
    have apart : buffer.device ≠ number := by
      rintro rfl
      exact elsewhere (by simp [Bank.deviceNumber, front])
    have moved := feeds.updateDevice_of_ne apart written
    refine ⟨still, moved.found, ?_⟩
    cases endpoint with
    | device own => exact moved.held
    | buffered own =>
      have different : slot ≠ own := by
        rintro rfl
        exact elsewhere feeds.place
      rw [← moved.held]
      simp [Bank.held, Bank.updateBuffer, List.getElem?_set_ne different]

/-- The buffer of an endpoint that has one. -/
theorem Feeds.exists_buffer {slot : Nat}
    (feeds : bank.Feeds (.buffered slot) number device held) :
    ∃ buffer, bank.buffers[slot]? = some buffer ∧ buffer.device = number ∧ buffer.held = held := by
  obtain ⟨buffer, front, place⟩ := Option.map_eq_some_iff.mp feeds.place
  refine ⟨buffer, front, place, ?_⟩
  simpa [Bank.held, front] using feeds.held

theorem Feeds.updateBuffer {slot : Nat} (feeds : bank.Feeds (.buffered slot) number device held)
    {left : Buffer} (place : left.device = number) :
    (bank.updateBuffer slot left).Feeds (.buffered slot) number device left.held := by
  obtain ⟨buffer, front, -⟩ := feeds.exists_buffer
  obtain ⟨bound, -⟩ := List.getElem?_eq_some_iff.mp front
  have placed : (bank.updateBuffer slot left).buffers[slot]? = some left :=
    List.getElem?_set_self bound
  refine ⟨?_, feeds.found, ?_⟩
  · simp only [Bank.deviceNumber, placed, Option.map_some, place]
  · simp only [Bank.held, placed, Option.map_some, Option.getD_some]

/-- A write that is taken whole. -/
theorem Feeds.write (feeds : bank.Feeds endpoint number device held) (rests : device.Rests)
    {passage : Passage}
    (takes : bank.write endpoint passage octets = (⟨octets.length, .done⟩, after)) :
    ∃ passed written left, device.Takes passed written ∧ passed ++ left = held ++ octets ∧
      after.Feeds endpoint number written left := by
  cases endpoint with
  | device own =>
    cases feeds.place
    cases feeds.held
    simp only [Bank.write, writeDevice, feeds.found, Prod.mk.injEq] at takes
    obtain ⟨whole, rfl⟩ := takes
    refine ⟨octets, _, [], Prod.ext whole rfl, by simp [Bank.held], feeds.updateDevice _⟩
  | buffered slot =>
    obtain ⟨buffer, front, rfl, rfl⟩ := feeds.exists_buffer
    simp only [Bank.write, front, feeds.found] at takes
    rcases answer : buffer.write passage octets device with ⟨result, left, written⟩
    rw [answer] at takes
    cases takes
    obtain ⟨passed, taken, total⟩ := Buffer.takes_of_write_done answer rfl rests
    have place := buffer.write_device passage octets device
    rw [answer] at place
    exact ⟨passed, written, left.held, taken, total,
      (feeds.updateDevice written).updateBuffer place⟩

/-- A flush that succeeds. -/
theorem Feeds.flush (feeds : bank.Feeds endpoint number device held) (rests : device.Rests)
    {events : List Event} (flushed : bank.flush endpoint = (⟨.done, events⟩, after)) :
    ∃ written, device.Takes held written ∧
      after.Feeds endpoint number (endpoint.flushed written) [] := by
  cases endpoint with
  | device own =>
    cases feeds.place
    cases feeds.held
    simp only [Bank.flush, feeds.found, Prod.mk.injEq] at flushed
    obtain ⟨-, rfl⟩ := flushed
    exact ⟨device, rests.takes_nil, feeds.updateDevice _⟩
  | buffered slot =>
    obtain ⟨buffer, front, rfl, rfl⟩ := feeds.exists_buffer
    simp only [Bank.flush, front, feeds.found] at flushed
    rcases answer : buffer.flush device with ⟨outcome, left, written⟩
    rw [answer] at flushed
    cases flushed
    have place := buffer.flush_device device
    rw [answer] at place
    have settled := (feeds.updateDevice written).updateBuffer place
    rw [Buffer.held_of_flush_done answer] at settled
    exact ⟨written, Buffer.takes_of_flush_done answer rests, settled⟩

/-- No other endpoint among these ends in the device. -/
def Alone (bank : Bank) (endpoints : List Endpoint) (endpoint : Endpoint) (number : Nat) : Prop :=
  ∀ other ∈ endpoints, bank.deviceNumber other = some number → other = endpoint

instance (bank : Bank) (endpoints : List Endpoint) (endpoint : Endpoint) (number : Nat) :
    Decidable (bank.Alone endpoints endpoint number) :=
  inferInstanceAs (Decidable (∀ other ∈ endpoints, _ → _))

variable {endpoints : List Endpoint}

theorem Alone.of_cons {first : Endpoint} (alone : bank.Alone (first :: endpoints) endpoint number)
    (kept : after.deviceNumber = bank.deviceNumber) : after.Alone endpoints endpoint number := by
  intro other membership place
  rw [kept] at place
  exact alone other (List.mem_cons_of_mem _ membership) place

theorem Alone.elsewhere {first : Endpoint} (alone : bank.Alone (first :: endpoints) endpoint number)
    (different : first ≠ endpoint) : bank.deviceNumber first ≠ some number :=
  fun place => different (alone first List.mem_cons_self place)

theorem deviceNumber_of_allTake (taken : Sink.AllTake Bank.write octets endpoints bank after) :
    after.deviceNumber = bank.deviceNumber := by
  induction taken with
  | nil => rfl
  | @cons first _ bank _ _ takes _ inductionHypothesis =>
    have touches := bank.write_touches first .direct octets
    rw [takes] at touches
    exact inductionHypothesis.trans touches.deviceNumber

/-- The endpoint is given the octets in each of its places. -/
theorem Feeds.allTake (feeds : bank.Feeds endpoint number device held) (rests : device.Rests)
    (alone : bank.Alone endpoints endpoint number)
    (taken : Sink.AllTake Bank.write octets endpoints bank after) :
    ∃ passed written left, device.Takes passed written ∧
      passed ++ left = held ++ (List.replicate (endpoints.count endpoint) octets).flatten ∧
      after.Feeds endpoint number written left := by
  induction taken generalizing device held with
  | nil => exact ⟨[], device, held, rests.takes_nil, by simp, feeds⟩
  | @cons first rest bank middle after takes _ inductionHypothesis =>
    have touches := bank.write_touches first .direct octets
    rw [takes] at touches
    have others := alone.of_cons touches.deviceNumber
    by_cases same : first = endpoint
    · subst same
      obtain ⟨passed, written, left, begun, total, middleFeeds⟩ := feeds.write rests takes
      obtain ⟨more, final, last, continued, sum, afterFeeds⟩ :=
        inductionHypothesis middleFeeds begun.rests others
      refine ⟨passed ++ more, final, last, begun.append continued, ?_, afterFeeds⟩
      rw [List.append_assoc, sum, ← List.append_assoc, total, List.count_cons_self,
        List.replicate_succ, List.flatten_cons, List.append_assoc]
    · rw [List.count_cons_of_ne same]
      exact inductionHypothesis (feeds.of_touches touches (alone.elsewhere same)) rests others

/-- Further flushes leave a device alone that is flushed already. -/
theorem Feeds.allFlush_of_flushed (feeds : bank.Feeds endpoint number device [])
    (rests : device.Rests) (settled : endpoint.flushed device = device)
    (alone : bank.Alone endpoints endpoint number) {answers : List Flushed}
    (flushed : Sink.AllFlush Bank.flush endpoints bank answers after)
    (success : ∀ answer ∈ answers, answer.outcome = .done) :
    after.Feeds endpoint number device [] := by
  induction flushed with
  | nil => exact feeds
  | @cons first rest bank middle after answer answers answered _ _ inductionHypothesis =>
    have touches := bank.flush_touches first
    rw [answered] at touches
    have others := alone.of_cons touches.deviceNumber
    have later := fun answer membership => success answer (List.mem_cons_of_mem _ membership)
    by_cases same : first = endpoint
    · subst same
      rcases answer with ⟨outcome, events⟩
      cases success _ List.mem_cons_self
      obtain ⟨written, takes, middleFeeds⟩ := feeds.flush rests answered
      rw [takes.unique rests.takes_nil, settled] at middleFeeds
      exact inductionHypothesis middleFeeds others later
    · exact inductionHypothesis (feeds.of_touches touches (alone.elsewhere same)) others later

/-- A flush of all endpoints hands over what is held. -/
theorem Feeds.allFlush (feeds : bank.Feeds endpoint number device held) (rests : device.Rests)
    (alone : bank.Alone endpoints endpoint number) (membership : endpoint ∈ endpoints)
    {answers : List Flushed} (flushed : Sink.AllFlush Bank.flush endpoints bank answers after)
    (success : ∀ answer ∈ answers, answer.outcome = .done) :
    ∃ written, device.Takes held written ∧
      after.Feeds endpoint number (endpoint.flushed written) [] := by
  induction flushed with
  | nil => cases membership
  | @cons first rest bank middle after answer answers answered _ remaining inductionHypothesis =>
    have touches := bank.flush_touches first
    rw [answered] at touches
    have others := alone.of_cons touches.deviceNumber
    have later := fun answer membership => success answer (List.mem_cons_of_mem _ membership)
    by_cases same : first = endpoint
    · subst same
      rcases answer with ⟨outcome, events⟩
      cases success _ List.mem_cons_self
      obtain ⟨written, takes, middleFeeds⟩ := feeds.flush rests answered
      exact ⟨written, takes, middleFeeds.allFlush_of_flushed (first.rests_flushed takes.rests)
        (first.flushed_flushed written) others remaining later⟩
    · have behind := List.mem_of_ne_of_mem (Ne.symm same) membership
      exact inductionHypothesis (feeds.of_touches touches (alone.elsewhere same)) others behind
        later

/-- After a delivery the device has taken what was held and what was written, once for
each place of its endpoint. -/
theorem Feeds.delivers {sink : Sink Endpoint} {chunks : List Bytes}
    (feeds : bank.Feeds endpoint number device held) (rests : device.Rests)
    (alone : bank.Alone sink.members endpoint number) (membership : endpoint ∈ sink.members)
    (delivers : sink.Delivers Bank.write Bank.flush chunks bank after) :
    ∃ written, device.Takes (held ++ sink.given endpoint chunks) written ∧
      after.Feeds endpoint number (endpoint.flushed written) [] := by
  induction delivers generalizing device held with
  | flush flushed =>
    obtain ⟨answers, all, success⟩ := Sink.flushTo_eq_done_iff.mp ⟨_, flushed⟩
    simpa [Sink.given] using feeds.allFlush rests alone membership all success
  | @write _ _ _ middle _ written _ inductionHypothesis =>
    have taken := Sink.writeTo_eq_whole_iff.mp written
    obtain ⟨passed, reached, left, begun, total, middleFeeds⟩ := feeds.allTake rests alone taken
    have still : middle.Alone sink.members endpoint number := by
      intro other place
      rw [deviceNumber_of_allTake taken]
      exact alone other place
    obtain ⟨final, continued, afterFeeds⟩ := inductionHypothesis middleFeeds begun.rests still
    refine ⟨final, ?_, afterFeeds⟩
    have whole := begun.append continued
    rwa [← List.append_assoc, total, List.append_assoc, ← Sink.given_cons] at whole

end Bank

namespace Sink

/-- Joining sinks flattens them, and the members of a tee are served in order. Where
nothing fails, each member takes all that is written, once for each of its places; and so
does the device behind it, unless the device is shared with another member. -/
theorem tee_laws {ι S : Type} (write : ι → Passage → Bytes → S → Written × S)
    (flush : ι → S → Flushed × S) :
    (∀ branches : List (Tree ι), (Tree.join branches).build =
      some (match Tree.leavesAll branches with
        | [] => .discard
        | [member] => .single member
        | members => .tee members)) ∧
    (∀ first second third : Tree ι, (Tree.join [first, .join [second, third]]).build =
      (Tree.join [.join [first, second], third]).build) ∧
    (∀ unit ∈ [Tree.absent, Tree.discard], ∀ tree : Tree ι,
      (Tree.join [unit, tree]).build = some (tree.build.getD .discard) ∧
        (Tree.join [tree, unit]).build = some (tree.build.getD .discard)) ∧
    (∀ members passage octets state result,
      (tee members).writeTo write passage octets state = result ↔
        Writes write octets members state result) ∧
    (∀ members state result, (tee members).flushTo flush state = result ↔
      Flushes flush members state result) ∧
    (∀ (sink : Sink ι) chunks state after, sink.Delivers write flush chunks state after →
      sink.Delivers (noting write) (keepingNotes flush) chunks (state, [])
        (after, chunks.flatMap fun octets => sink.members.map fun member => (member, octets))) ∧
    (∀ (sink : Sink Endpoint) chunks bank after,
      sink.Delivers Bank.write Bank.flush chunks bank after →
      ∀ endpoint ∈ sink.members, ∀ number device held,
        bank.Feeds endpoint number device held → device.Rests →
        bank.Alone sink.members endpoint number →
        (∃ written, device.Takes (held ++ sink.given endpoint chunks) written ∧
          after.Feeds endpoint number (endpoint.flushed written) []) ∧
        ((∀ log, device.kind ≠ .lineLog log) →
          after.devices[number]? = some (device.accept (held ++ sink.given endpoint chunks))) ∧
        (sink.members.Nodup → sink.given endpoint chunks = chunks.flatten)) := by
  refine ⟨?_, Tree.build_join_assoc, ?_, ?_, ?_, ?_, ?_⟩
  · intro branches
    rw [Tree.build_join]
    rcases Tree.leavesAll branches with _ | ⟨first, _ | ⟨second, rest⟩⟩ <;> rfl
  · intro unit among tree
    refine Tree.build_join_unit ?_ tree
    simp only [List.mem_cons, List.not_mem_nil, or_false] at among
    rcases among with rfl | rfl <;> rfl
  · intro members passage octets state result
    exact writeAll_eq_iff
  · intro members state result
    exact flushAll_eq_iff
  · intro sink chunks state after delivers
    simpa only [List.nil_append] using delivers.noting []
  · intro sink chunks bank after delivers endpoint membership number device held feeds rests alone
    obtain ⟨written, takes, settled⟩ := feeds.delivers rests alone membership delivers
    refine ⟨⟨written, takes, settled⟩, ?_, ?_⟩
    · intro unlogged
      obtain ⟨-, rfl⟩ := (Device.takes_iff_of_not_log unlogged).mp takes
      have found := settled.found
      rwa [endpoint.flushed_of_not_log (by exact unlogged)] at found
    · intro distinct
      exact given_of_nodup distinct membership chunks

/-- A device in memory, and one behind a buffer. -/
def memoryBesideBuffer (received held arrived : Bytes) : Bank :=
  ⟨[⟨.memory, received⟩, ⟨.plain none, arrived⟩], [⟨1, held, none⟩]⟩

/-- A tee of tees for the two of them. -/
def nested : Tree Endpoint :=
  .join [.absent, .join [.single (.device 0), .discard], .single (.buffered 0)]

/-- Both devices receive what is written to the tee in two pieces. -/
theorem tee_laws_nested :
    ∃ sink after, nested.build = some sink ∧
      sink.Delivers Bank.write Bank.flush [text "ab", text "c"] (memoryBesideBuffer [] [] [])
        after ∧
      after.devices[0]? = some ⟨.memory, text "abc"⟩ ∧
      after.devices[1]? = some ⟨.plain none, text "abc"⟩ := by
  obtain ⟨flattens, -, -, -, -, -, arrives⟩ := tee_laws Bank.write Bank.flush
  let sink : Sink Endpoint := tee [.device 0, .buffered 0]
  let after := memoryBesideBuffer (text "abc") [] (text "abc")
  have emptied : sink.flushTo Bank.flush (memoryBesideBuffer (text "abc") (text "abc") []) =
      (⟨.done, []⟩, after) := by decide +kernel
  have second : sink.Delivers Bank.write Bank.flush [text "c"]
      (memoryBesideBuffer (text "ab") (text "ab") []) after :=
    .write (by decide +kernel) (.flush emptied)
  have delivers : sink.Delivers Bank.write Bank.flush [text "ab", text "c"]
      (memoryBesideBuffer [] [] []) after :=
    .write (by decide +kernel) second
  refine ⟨sink, after, flattens _, delivers, ?_, ?_⟩
  · have direct := arrives sink _ _ _ delivers (.device 0) (by decide) 0 ⟨.memory, []⟩ []
      ⟨rfl, rfl, rfl⟩ (by simp [Device.Rests]) (by decide)
    exact direct.2.1 (by simp)
  · have buffered := arrives sink _ _ _ delivers (.buffered 0) (by decide) 1 ⟨.plain none, []⟩ []
      ⟨rfl, rfl, rfl⟩ (by simp [Device.Rests]) (by decide)
    exact buffered.2.1 (by simp)

/-- A member with two places beside one with a single place. -/
def doubled : Tree Endpoint :=
  .join [.single (.device 0), .single (.device 0), .single (.device 1)]

/-- A buffer in front of a device that panics when it is written to, and a device that is
told about flushes. -/
def explodingBesideFlushing (held : Bytes) : Bank :=
  ⟨[⟨.plain (some ⟨0, .panic⟩), []⟩, ⟨.flushing none none, held⟩], [⟨0, held, none⟩]⟩

/-- A member receives everything once for each of its places; and where a flush panics, the
members behind are not flushed. -/
theorem tee_not_even :
    (∃ sink after, doubled.build = some sink ∧
      sink.Delivers Bank.write Bank.flush [text "x"]
        ⟨[Device.fresh .memory, Device.fresh .memory], []⟩ after ∧
      after.received = [text "xx", text "x"]) ∧
    (∃ panic after, (tee [.buffered 0, .device 1]).writeTo Bank.write .direct (text "a")
        (explodingBesideFlushing []) = (⟨1, .done⟩, explodingBesideFlushing (text "a")) ∧
      (tee [.buffered 0, .device 1]).flushTo Bank.flush (explodingBesideFlushing (text "a")) =
        (⟨.panicked panic, []⟩, after) ∧
      ((explodingBesideFlushing (text "a")).flush (.device 1)).1 = ⟨.done, [.flushed 1]⟩) := by
  constructor
  · let sink : Sink Endpoint := tee [.device 0, .device 0, .device 1]
    let after : Bank := ⟨[⟨.memory, text "xx"⟩, ⟨.memory, text "x"⟩], []⟩
    have emptied : sink.flushTo Bank.flush after = (⟨.done, []⟩, after) := by decide +kernel
    exact ⟨sink, after, rfl, .write (by decide +kernel) (.flush emptied), rfl⟩
  · refine ⟨.value (text "writer exploded"), explodingBesideFlushing (text "a"), ?_, ?_, ?_⟩
    all_goals decide +kernel

end Sink

end LineForth
