import LineForth.Proofs.Custody
import LineForth.Proofs.Sessions

/-!
# Closing once

A session evaluates lines, runs, takes new inputs and closes what it has, in any order. Its
steps keep the custody of the inputs. So over any session nothing is closed twice, and a
close that returns leaves nothing open.
-/

set_option autoImplicit false

namespace LineForth

/-- What the settings hand over. -/
def SettingTree.closables (settings : SettingTree) : List Closable :=
  settings.flatten.flatMap Setting.closables

namespace Step

/-- What a step hands over. -/
def closables : Step → List Closable
  | configure settings => settings.closables
  | _ => []

/-- If the step changes the settings, it went through with that. -/
def GoesThrough : Step → Outcome → Prop
  | configure _, outcome => outcome = .done
  | _, _ => True

instance (next : Step) (outcome : Outcome) : Decidable (next.GoesThrough outcome) :=
  match next with
  | configure _ => inferInstanceAs (Decidable (outcome = .done))
  | eval _ | run _ _ | close | push _ | word _ _ | constant _ _ | state | dump _ => .isTrue trivial

end Step

def Report.closings (report : Report) : List Closable := Event.closings report.events

/-- A step that ended in a certain way. -/
def Ledger.note (ledger : Ledger) : Step → Outcome → Ledger
  | .configure settings, _ => ledger.supplyAll settings.flatten
  | .close, .panicked _ => ledger
  | .close, _ => ledger.retire
  | _, _ => ledger

def Ledger.noteAll (ledger : Ledger) (entries : List (Step × Outcome)) : Ledger :=
  entries.foldl (fun current entry => current.note entry.1 entry.2) ledger

theorem Ledger.note_close (ledger : Ledger) {outcome : Outcome}
    (returns : ∀ panic, outcome ≠ .panicked panic) :
    ledger.note .close outcome = ledger.retire := by
  cases outcome with
  | panicked panic => exact absurd rfl (returns panic)
  | done => rfl
  | failed failure => rfl

theorem Ledger.flatten_groups_note (ledger : Ledger) (next : Step) (outcome : Outcome) :
    (ledger.note next outcome).groups.flatten = ledger.groups.flatten ++ next.closables := by
  cases next with
  | configure settings => exact ledger.flatten_groups_supplyAll settings.flatten
  | close =>
    cases outcome <;>
      simp only [note, groups_retire, Step.closables, List.append_nil]
  | eval | run | push | word | constant | state | dump => exact (List.append_nil _).symm

namespace Interpreter

theorem closesNothing_apply (setting : Setting) (interpreter : OnConsole) :
    interpreter.machine.ClosesNothing (interpreter.apply setting).2.machine := by
  cases setting with
  | output target =>
    have flushed := Machine.ClosesNothing.framing.flush interpreter.machine
    simp only [apply, replaceOutput]
    split
    next panic m same =>
      rw [same] at flushed
      exact flushed
    next outcome m _ same =>
      rw [same] at flushed
      exact flushed
  | input stream =>
    simp only [apply, addStream]
    split <;> exact Machine.ClosesNothing.framing.refl _
  | maxDepth limit =>
    simp only [apply, withMachine, Machine.limited]
    split <;> exact Machine.ClosesNothing.framing.refl _
  | tee | lines | echo | trace | lineErrors => exact Machine.ClosesNothing.framing.refl _

/-- Settings that all go through hand over what they have. -/
theorem custody_applyAll {closed : List Closable} {ledger : Ledger} {settings : List Setting}
    {interpreter : OnConsole} (custody : Custody closed ledger interpreter.sources)
    (done : (interpreter.applyAll settings).1 = .done) :
    Custody closed (ledger.supplyAll settings) (interpreter.applyAll settings).2.sources ∧
      interpreter.machine.ClosesNothing (interpreter.applyAll settings).2.machine := by
  induction settings generalizing interpreter ledger with
  | nil => exact ⟨custody, Machine.ClosesNothing.framing.refl _⟩
  | cons setting rest inductionHypothesis =>
    have supplied := custody.supply setting interpreter.machine
    have silent := closesNothing_apply setting interpreter
    rw [applyAll] at done ⊢
    split at done
    next after same =>
      rw [same] at supplied silent
      obtain ⟨later, kept⟩ := inductionHypothesis supplied done
      exact ⟨later, Machine.ClosesNothing.framing.trans silent kept⟩
    next stopped => exact (stopped _ (Prod.ext done rfl)).elim

end Interpreter

namespace Session

/-- The settings are the same when their devices are numbered, as far as sources go. -/
theorem numberDevices_sources (settings : List Setting) (state : State) (ledger : Ledger) :
    ledger.supplyAll (numberDevices settings state).1 = ledger.supplyAll settings ∧
      (numberDevices settings state).2.sources = state.sources ∧
      (numberDevices settings state).2.machine.journal = state.machine.journal := by
  induction settings generalizing state ledger with
  | nil => exact ⟨rfl, rfl, rfl⟩
  | cons setting rest inductionHypothesis =>
    cases setting <;> exact inductionHypothesis _ _

theorem custody_configure {closed : List Closable} {ledger : Ledger} {settings : SettingTree}
    {state : State} (custody : Custody closed ledger state.sources)
    (done : (configure settings state).1 = .done) :
    Custody closed (ledger.supplyAll settings.flatten) (configure settings state).2.sources ∧
      state.machine.ClosesNothing (configure settings state).2.machine := by
  rw [configure_eq] at done ⊢
  obtain ⟨supplied, sources, journal⟩ := numberDevices_sources settings.flatten state ledger
  rw [← sources] at custody
  obtain ⟨after, silent⟩ := Interpreter.custody_applyAll custody done
  rw [supplied] at after
  exact ⟨after, silent.trans (congrArg Journal.closings journal)⟩

/-- A close returns, unless the flush panics. Then all is closed, the last source first. -/
theorem close_cases (state : State) :
    (∃ panic, state.close = (.panicked panic, { state with machine := state.machine.flush.2 })) ∨
      (∀ panic, state.close.1 ≠ .panicked panic) ∧ state.close.2.sources = [] ∧
        state.close.2.machine.journal.closings =
          state.machine.journal.closings ++ state.sources.reverse.flatMap Source.closables ∧
        state.close.1 = state.machine.flush.1.orElse
          (.ofFailure? (state.sources.reverse.flatMap Source.closeFailures).head?) := by
  have silent := Machine.ClosesNothing.framing.flush state.machine
  obtain ⟨closings, outcome⟩ := Interpreter.close_closeSources state.sources.reverse
  unfold Interpreter.close
  split
  next panic machine flushed =>
    rw [flushed]
    exact .inl ⟨panic, rfl⟩
  next flushed machine calm same =>
    rw [same] at silent ⊢
    refine .inr ⟨?_, rfl, ?_, ?_⟩
    · dsimp only
      rw [outcome]
      exact Outcome.orElse_ofFailure?_ne_panicked calm _
    · rw [← closings]
      exact (Journal.closings_record _ _).trans (congrArg (· ++ _) silent)
    · rw [← outcome]

/-- One step of a session. -/
theorem custody_perform {closed : List Closable} {ledger : Ledger} {state : State}
    (custody : Custody closed ledger state.sources) {next : Step}
    (through : next.GoesThrough (perform next state).1.1) :
    ∃ front,
      (perform next state).2.machine.journal.closings = state.machine.journal.closings ++ front ∧
      Custody (closed ++ front) (ledger.note next (perform next state).1.1)
        (perform next state).2.sources := by
  -- All steps but two close nothing.
  have still {after : Machine Console} {sources : List Source} {ledger : Ledger}
      (silent : state.machine.ClosesNothing after) (custody : Custody closed ledger sources) :
      ∃ front, after.journal.closings = state.machine.journal.closings ++ front ∧
        Custody (closed ++ front) ledger sources := by
    refine ⟨[], ?_, ?_⟩
    · rw [List.append_nil]
      exact silent
    · rw [List.append_nil]
      exact custody
  cases next with
  | eval line => exact still (Machine.ClosesNothing.framing.eval line state.machine) custody
  | run interrupt later =>
    obtain ⟨front, sheds, closings⟩ := Interpreter.exists_closings_runSources
      (.answering interrupt later) state.sources state.machine
    exact ⟨front, closings, custody.sheds sheds⟩
  | close =>
    simp only [perform]
    rcases close_cases state with ⟨panic, stopped⟩ | ⟨returns, sources, closings, -⟩
    · rw [stopped]
      exact still (Machine.ClosesNothing.framing.flush state.machine) custody
    · refine ⟨_, closings, ?_⟩
      rw [Ledger.note_close ledger returns, sources]
      exact custody.retire
  | configure settings =>
    obtain ⟨supplied, silent⟩ := custody_configure custody through
    exact still silent supplied
  | push | word | constant | state | dump =>
    exact still (Machine.ClosesNothing.framing.refl _) custody

/-- The steps of a script, each with its outcome. -/
def transcript (script : List Step) (state : State) : List (Step × Outcome) :=
  script.zip ((steps script state).map Report.outcome)

/-- All the steps of a session. -/
theorem custody_steps {closed : List Closable} {ledger : Ledger} {script : List Step}
    {state : State} (custody : Custody closed ledger state.sources)
    (blank : state.machine.journal.closings = [])
    (through : ∀ entry ∈ transcript script state, entry.1.GoesThrough entry.2) :
    Custody (closed ++ (steps script state).flatMap Report.closings)
        (ledger.noteAll (transcript script state)) (after script state).sources ∧
      (after script state).machine.journal.closings = [] := by
  induction script generalizing closed ledger state with
  | nil =>
    refine ⟨?_, blank⟩
    rw [steps, List.flatMap_nil, List.append_nil]
    exact custody
  | cons next rest inductionHypothesis =>
    obtain ⟨first, later⟩ := List.forall_mem_cons.mp through
    obtain ⟨front, closings, performed⟩ := custody_perform custody first
    have reported : (step next state).1.closings = front := by
      rw [blank, List.nil_append] at closings
      exact closings
    rw [← reported] at performed
    obtain ⟨custody, blank⟩ := inductionHypothesis
      (show Custody _ _ (step next state).2.sources from performed) rfl later
    refine ⟨?_, blank⟩
    rw [steps, List.flatMap_cons, ← List.append_assoc]
    exact custody

/-- What is handed to a session by its first settings and in the course of a script. -/
def supplied (settings : SettingTree) (script : List Step) : List Closable :=
  settings.closables ++ script.flatMap Step.closables

/-- The same, grouped by the sources that it is handed to. -/
def ledger (settings : SettingTree) (script : List Step) : Ledger :=
  (Ledger.empty.supplyAll settings.flatten).noteAll (transcript script (start settings))

theorem flatten_groups_ledger (settings : SettingTree) (script : List Step) :
    (ledger settings script).groups.flatten = supplied settings script := by
  have noted (script : List Step) (state : State) (ledger : Ledger) :
      (ledger.noteAll (transcript script state)).groups.flatten =
        ledger.groups.flatten ++ script.flatMap Step.closables := by
    induction script generalizing state ledger with
    | nil => exact (List.append_nil _).symm
    | cons next rest inductionHypothesis =>
      have later := inductionHypothesis (step next state).2
        (ledger.note next (step next state).1.outcome)
      rw [Ledger.flatten_groups_note, List.append_assoc] at later
      exact later
  rw [ledger, noted, Ledger.flatten_groups_supplyAll]
  rfl

theorem custody_run {settings : SettingTree} {script : List Step}
    (opened : (configure settings Interpreter.initial).1 = .done)
    (through : ∀ entry ∈ transcript script (start settings), entry.1.GoesThrough entry.2) :
    Custody ((run settings script).flatMap Report.closings) (ledger settings script)
        (after script (start settings)).sources ∧
      (after script (start settings)).machine.journal.closings = [] := by
  obtain ⟨custody, silent⟩ := custody_configure Custody.empty opened
  exact custody_steps custody silent through

/-- Over any session nothing is closed twice, and what shares a source is closed in the
order in which it was handed over. A close that returns closes all that is left, the last
source first, so all that was handed over until then is closed. It reports the failure of
the flush or else the first failure met while closing. As this holds of every script, it
holds of every close in the course of a session. What is closed is known by its handle, so
inputs may share a name, and a run may be canceled before any line. -/
theorem closes_once {settings : SettingTree} {script : List Step}
    (opened : (configure settings Interpreter.initial).1 = .done)
    (through : ∀ entry ∈ transcript script (start settings), entry.1.GoesThrough entry.2)
    (distinct : (supplied settings script).Nodup) :
    let closed := (run settings script).flatMap Report.closings
    let state := after script (start settings)
    let report := (step .close state).1
    closed.Nodup ∧
      (∀ group ∈ (ledger settings script).groups, closed.filter (· ∈ group) <+: group) ∧
      ((∀ panic, report.outcome ≠ .panicked panic) →
        (closed ++ report.closings).Perm (supplied settings script) ∧
          report.closings = state.sources.reverse.flatMap Source.closables ∧
          report.outcome = state.machine.flush.1.orElse
            (.ofFailure? (state.sources.reverse.flatMap Source.closeFailures).head?)) := by
  intro closed state report
  obtain ⟨custody, blank⟩ := custody_run opened through
  have whole := flatten_groups_ledger settings script
  rw [← whole] at distinct
  obtain ⟨once, ordered⟩ := custody.nodup_ordered distinct
  refine ⟨once, ordered, ?_⟩
  intro returns
  rcases close_cases state with ⟨panic, stopped⟩ | ⟨-, -, closings, outcome⟩
  · exact absurd (congrArg Prod.fst stopped) (returns panic)
  · have reported : report.closings = state.sources.reverse.flatMap Source.closables := by
      exact closings.trans (by rw [blank, List.nil_append])
    have all := custody.retire.whole
    rw [Ledger.groups_retire, List.flatMap_nil, List.append_nil] at all
    refine ⟨?_, reported, outcome⟩
    rw [reported, ← whole]
    exact all

/-- A stream of the given text that can be closed. -/
def closing (name octets : Bytes) (failure : Option Failure) (handle : Nat) : SettingTree :=
  .one (.input ⟨name, octets, 2, .failure .endOfInput, .closes failure handle⟩)

/-- Two streams of one name that share a feed, and a list. -/
def threeInputs : SettingTree :=
  .group [closing (text "a") (text "1\nexit\n2") none 0,
    closing (text "a") (text "3") (some (.other (text "b"))) 1,
    .one (.lines ⟨text "c", [text "4 exit", text "exit"], 0, .endOfInput, true, 0, none, 2⟩)]

/-- Runs that stop early, the first of them within a stream, inputs that come late, and two
closes in a row. -/
def lateInputs : List Step :=
  [.run none (.answering (some .canceled) .silent), .run none,
    .configure (closing (text "d") (text "5") none 3), .run none, .run (some .canceled),
    .close, .close,
    .configure (.one (.lines
      ⟨text "e", [], 0, .endOfInput, true, 0, some (.other (text "e")), 4⟩)),
    .configure (closing (text "f") [] none 5), .run none,
    .configure (closing (text "g") (text "6") (some (.other (text "g"))) 6),
    .configure (closing (text "g") (text "7") (some (.other (text "h"))) 7)]

theorem closes_once_lateInputs :
    let reports := run threeInputs lateInputs
    let closed := reports.flatMap Report.closings
    let report := (step .close (after lateInputs (start threeInputs))).1
    let shared : List Closable := [.stream 5, .stream 6, .stream 7]
    (reports.take 3).map Report.outcome = [.failed .canceled, .done, .done] ∧
      closed = [.stream 0, .stream 1, .stream 3, .list 2, .stream 5] ∧
      closed.Nodup ∧ closed.filter (· ∈ shared) <+: shared ∧
      (closed ++ report.closings).Perm (supplied threeInputs lateInputs) ∧
      report.closings = [.stream 6, .stream 7, .list 4] ∧
      report.outcome = .failed (.other (text "g")) := by
  have opened : (configure threeInputs Interpreter.initial).1 = .done := by decide +kernel
  have through : ∀ entry ∈ transcript lateInputs (start threeInputs),
      entry.1.GoesThrough entry.2 := by decide +kernel
  have distinct : (supplied threeInputs lateInputs).Nodup := by decide +kernel
  obtain ⟨once, ordered, closes⟩ := closes_once opened through distinct
  have outcome : (step .close (after lateInputs (start threeInputs))).1.outcome =
      .failed (.other (text "g")) := by decide +kernel
  obtain ⟨all, closings, reported⟩ := closes (by simp [outcome])
  exact ⟨by decide +kernel, by decide +kernel, once, ordered _ (by decide +kernel), all,
    closings.trans (by decide +kernel), reported.trans (by decide +kernel)⟩

end Session

end LineForth
