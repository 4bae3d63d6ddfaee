import LineForth.Logger
import Mathlib.Logic.Relation

/-!
# The exit code of a log

An act sets the exit code of its log, or it leaves the code alone. An error that is logged
sets it to 1, and the line of any other message that cannot be written sets it to 2. The
last act that sets the code decides. So a failed write is never forgotten for a success,
but an error that is logged with it, or after it, takes its place. The code is 0 in the end
if no error was logged and every line could be written.
-/

set_option autoImplicit false

namespace LineForth

namespace Devices

variable {δ : Type} [Devices δ]

inductive Next : δ → δ → Prop
  | write (number : Nat) (octets : Bytes) (devices : δ) :
      Next devices (Devices.write number octets devices).2

/-- Whatever is written to the devices, they do not panic. -/
def Calm (start : δ) : Prop :=
  ∀ devices, Relation.ReflTransGen Next start devices → ∀ number octets panic,
    (Devices.write number octets devices).1.outcome ≠ .panicked panic

theorem Calm.onward {start later : δ} (calm : Calm start)
    (path : Relation.ReflTransGen Next start later) : Calm later := by
  intro devices further
  exact calm devices (path.trans further)

end Devices

namespace Logger

variable {δ : Type} [Devices δ] {devices : δ}

theorem write_devices (logger : Logger) (octets : Bytes) (devices : δ) :
    Relation.ReflTransGen Devices.Next devices (logger.write octets devices).2 := by
  unfold write
  split
  · exact .refl
  · split
    · exact .refl
    · exact .single (.write _ _ _)

theorem write_calm (calm : Devices.Calm devices) (logger : Logger) (octets : Bytes)
    (panic : Panic) : (logger.write octets devices).1 ≠ .panicked panic := by
  unfold write
  split
  · simp
  · split
    · simp
    next number _ _ =>
      have returns := calm devices .refl number octets
      simp only [Buffer.verdict]
      split
      · split <;> simp
      · exact returns panic

theorem print_devices (level message : Bytes) (logger : Logger) (devices : δ) :
    (logger.print level message devices).2.2 =
      (logger.write (logger.line level message) devices).2 := by
  unfold print
  dsimp only
  rcases logger.write (logger.line level message) devices with ⟨outcome, after⟩
  cases outcome <;> rfl

theorem error_devices (message : Bytes) (logger : Logger) (devices : δ) :
    (logger.error message devices).2.2 =
      (logger.write (logger.line errorLevel message) devices).2 := by
  rw [← print_devices]
  unfold error
  rcases logger.print errorLevel message devices with ⟨outcome, after, written⟩
  cases outcome <;> rfl

end Logger

namespace Log

namespace Act

/-- The level and the message of the line that the act logs, if it logs one. -/
def message? : Act → Option (Bytes × Bytes)
  | print level message => some (level, message)
  | error message => some (Logger.errorLevel, message)
  | errorIf (.failed failure) => some (Logger.errorLevel, failure.detail)
  | errorIf _ => none
  | bypass _ => none

/-- Whether the act logs an error. -/
def logsError : Act → Bool
  | print _ _ => false
  | error _ => true
  | errorIf (.failed _) => true
  | errorIf _ => false
  | bypass _ => false

end Act

def exitCode {δ : Type} (log : Log δ) : Nat := log.logger.exitCode

variable {δ : Type} [Devices δ] {log : Log δ} {act : Act} {acts : List Act}

theorem actAll_cons (log : Log δ) (act : Act) (rest : List Act) :
    log.actAll (act :: rest) = (log.act act).actAll rest := rfl

/-- How the write of the line ends that the act logs. -/
def verdict (log : Log δ) (act : Act) : Outcome :=
  match act.message? with
  | none => .done
  | some (level, message) => (log.logger.write (log.logger.line level message) log.devices).1

/-- The line that the act logs cannot be written. -/
def Fails (log : Log δ) (act : Act) : Prop := ∃ failure, log.verdict act = .failed failure

/-- The exit code that the act sets. After a panic nothing is set. -/
def mark? (log : Log δ) (act : Act) : Option Nat :=
  match log.verdict act with
  | .panicked _ => none
  | .failed _ => some (if act.logsError then 1 else 2)
  | .done => if act.logsError then some 1 else none

theorem exitCode_act_print (log : Log δ) (level message : Bytes) :
    (log.act (.print level message)).exitCode =
      (log.mark? (.print level message)).getD log.exitCode := by
  simp only [act, exitCode, mark?, verdict, Act.message?, Act.logsError, Logger.print]
  rcases log.logger.write (log.logger.line level message) log.devices with ⟨outcome, after⟩
  cases outcome <;> rfl

theorem exitCode_act_error (log : Log δ) (message : Bytes) :
    (log.act (.error message)).exitCode = (log.mark? (.error message)).getD log.exitCode := by
  simp only [act, exitCode, mark?, verdict, Act.message?, Act.logsError, Logger.error,
    Logger.print]
  rcases log.logger.write (log.logger.line Logger.errorLevel message) log.devices with
    ⟨outcome, after⟩
  cases outcome <;> rfl

/-- What one act does to the exit code. -/
theorem exitCode_act (log : Log δ) (act : Act) :
    (log.act act).exitCode = (log.mark? act).getD log.exitCode := by
  cases act with
  | print level message => exact log.exitCode_act_print level message
  | error message => exact log.exitCode_act_error message
  | bypass octets => rfl
  | errorIf outcome =>
    cases outcome with
    | done => rfl
    | failed failure => exact log.exitCode_act_error failure.detail
    | panicked panic => rfl

theorem mark?_ne_zero (log : Log δ) (act : Act) : log.mark? act ≠ some 0 := by
  unfold mark?
  split
  · simp
  · split <;> simp
  · split <;> simp

theorem mark?_of_fails (fails : log.Fails act) :
    log.mark? act = some (if act.logsError then 1 else 2) := by
  obtain ⟨failure, failed⟩ := fails
  simp only [mark?, failed]

/-- An act that logs no error sets no other exit code than 2. -/
theorem exitCode_act_eq_two (silent : act.logsError = false)
    (marked : log.Fails act ∨ log.exitCode = 2) : (log.act act).exitCode = 2 := by
  rw [exitCode_act]
  rcases marked with fails | two
  · rw [mark?_of_fails fails, silent]
    rfl
  · unfold mark?
    rw [silent, two]
    split <;> rfl

theorem exitCode_act_ne_zero (marked : log.Fails act ∨ log.exitCode ≠ 0) :
    (log.act act).exitCode ≠ 0 := by
  rw [exitCode_act]
  rcases marked with fails | nonzero
  · rw [mark?_of_fails fails]
    split <;> simp
  · cases mark : log.mark? act with
    | none => exact nonzero
    | some code =>
      rintro rfl
      exact log.mark?_ne_zero act mark

theorem exitCode_actAll_ne_zero (nonzero : log.exitCode ≠ 0) (acts : List Act) :
    (log.actAll acts).exitCode ≠ 0 := by
  induction acts generalizing log with
  | nil => exact nonzero
  | cons act rest inductionHypothesis =>
    rw [actAll_cons]
    exact inductionHypothesis (exitCode_act_ne_zero (.inr nonzero))

theorem exitCode_actAll_eq_two (two : log.exitCode = 2)
    (silent : ∀ act ∈ acts, act.logsError = false) : (log.actAll acts).exitCode = 2 := by
  induction acts generalizing log with
  | nil => exact two
  | cons act rest inductionHypothesis =>
    obtain ⟨first, later⟩ := List.forall_mem_cons.mp silent
    rw [actAll_cons]
    exact inductionHypothesis (exitCode_act_eq_two first (.inr two)) later

/-- Once a line could not be written, the exit code is never 0 again, whatever is logged.
It is 2, unless an error is logged with that line or later. -/
theorem failed_write_retained (fails : log.Fails act) (later : List Act) :
    (log.actAll (act :: later)).exitCode ≠ 0 ∧
      ((∀ other ∈ act :: later, other.logsError = false) →
        (log.actAll (act :: later)).exitCode = 2) := by
  rw [actAll_cons]
  constructor
  · exact exitCode_actAll_ne_zero (exitCode_act_ne_zero (.inl fails)) later
  · intro silent
    obtain ⟨first, rest⟩ := List.forall_mem_cons.mp silent
    exact exitCode_actAll_eq_two (exitCode_act_eq_two first (.inl fails)) rest

/-- What an act writes, it writes to the devices of the log. -/
theorem act_devices (log : Log δ) (act : Act) :
    Relation.ReflTransGen Devices.Next log.devices (log.act act).devices := by
  have error (message : Bytes) :
      Relation.ReflTransGen Devices.Next log.devices (log.act (.error message)).devices := by
    have written := log.logger.write_devices (log.logger.line Logger.errorLevel message) log.devices
    rw [← Logger.error_devices] at written
    exact written
  cases act with
  | print level message =>
    have written := log.logger.write_devices (log.logger.line level message) log.devices
    rw [← Logger.print_devices] at written
    exact written
  | error message => exact error message
  | bypass octets => exact log.logger.write_devices octets log.devices
  | errorIf outcome =>
    cases outcome with
    | done => exact .refl
    | failed failure => exact error failure.detail
    | panicked panic => exact .refl

theorem verdict_calm (calm : Devices.Calm log.devices) (act : Act) (panic : Panic) :
    log.verdict act ≠ .panicked panic := by
  unfold verdict
  split
  · simp
  · exact log.logger.write_calm calm _ panic

/-- On devices that do not panic, an act leaves the exit code at 0 if it logs no error and
its line, if there is one, is written. -/
theorem exitCode_act_eq_zero_iff (calm : Devices.Calm log.devices) :
    (log.act act).exitCode = 0 ↔
      log.exitCode = 0 ∧ act.logsError = false ∧ ¬ log.Fails act := by
  rw [exitCode_act]
  unfold mark? Fails
  have returns := verdict_calm calm act
  cases verdict : log.verdict act with
  | panicked panic => exact absurd verdict (returns panic)
  | failed failure => cases act.logsError <;> simp
  | done => cases act.logsError <;> simp

/-- No line that these acts log fails to be written. -/
def NoneFails : Log δ → List Act → Prop
  | _, [] => True
  | log, act :: rest => ¬ log.Fails act ∧ NoneFails (log.act act) rest

theorem exitCode_actAll_eq_zero_iff (calm : Devices.Calm log.devices) :
    (log.actAll acts).exitCode = 0 ↔
      log.exitCode = 0 ∧ (∀ act ∈ acts, act.logsError = false) ∧ log.NoneFails acts := by
  induction acts generalizing log with
  | nil => simp [actAll, NoneFails]
  | cons act rest inductionHypothesis =>
    rw [actAll_cons, inductionHypothesis (calm.onward (log.act_devices act)),
      exitCode_act_eq_zero_iff calm, List.forall_mem_cons, NoneFails]
    constructor
    · rintro ⟨⟨zero, first, written⟩, later, others⟩
      exact ⟨zero, ⟨first, later⟩, written, others⟩
    · rintro ⟨zero, ⟨first, later⟩, written, others⟩
      exact ⟨⟨zero, first, written⟩, later, others⟩

/-- A log on a device that takes nothing. -/
def refused : Log Bank :=
  ⟨{ Logger.initial with output := some 0 },
    ⟨[Device.fresh (.plain (some ⟨0, .fail⟩))], []⟩⟩

theorem failed_write_retained_refused :
    (refused.actAll [.print (text "INFO") (text "a"), .print [] (text "b"),
      .errorIf .done]).exitCode = 2 := by
  have fails : refused.Fails (.print (text "INFO") (text "a")) :=
    ⟨.other (text "write failed"), by decide⟩
  apply (failed_write_retained fails [.print [] (text "b"), .errorIf .done]).2
  decide

/-- The line could not be written, and then an error is logged: the exit code does not
tell of the write any more. -/
theorem error_hides_failed_write :
    refused.Fails (.print (text "INFO") (text "a")) ∧
      (refused.act (.print (text "INFO") (text "a"))).exitCode = 2 ∧
      (refused.actAll [.print (text "INFO") (text "a"), .error (text "b")]).exitCode = 1 := by
  refine ⟨⟨.other (text "write failed"), ?_⟩, ?_, ?_⟩
  all_goals decide

end Log

end LineForth
