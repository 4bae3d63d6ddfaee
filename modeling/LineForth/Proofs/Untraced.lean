import LineForth.Proofs.Grouping
import LineForth.Proofs.Projection

/-!
# Sessions without their trace

Nothing in a session depends on whether it is traced. A machine without its trace goes
through the same steps as the machine itself, so tracing is a map in the sense of
`Machine.Projects`. The settings are all that is left to compare: a session in which no
setting turns the trace on makes the same reports, the trace lines apart.
-/

set_option autoImplicit false

namespace LineForth

namespace Entry

def isTrace : Entry → Bool
  | trace _ => true
  | _ => false

end Entry

namespace Journal

def withoutTrace (journal : Journal) : Journal := journal.filter fun entry => !entry.isTrace

theorem withoutTrace_record (journal : Journal) (events : List Event) :
    (journal.record events).withoutTrace = journal.withoutTrace.record events := by
  have kept : ((events.map Entry.event).reverse).filter (fun entry => !entry.isTrace) =
      (events.map Entry.event).reverse := by
    apply List.filter_eq_self.mpr
    intro entry membership
    simp only [List.mem_reverse, List.mem_map] at membership
    obtain ⟨event, -, rfl⟩ := membership
    rfl
  simp only [withoutTrace, record, List.filter_append, kept]

theorem lineErrors_withoutTrace (journal : Journal) :
    journal.withoutTrace.lineErrors = journal.lineErrors := by
  simp only [lineErrors, withoutTrace, ← List.filter_reverse, List.filterMap_filter]
  congr 1
  funext entry
  cases entry <;> rfl

theorem events_withoutTrace (journal : Journal) :
    journal.withoutTrace.events = journal.events := by
  simp only [events, withoutTrace, ← List.filter_reverse, List.filterMap_filter]
  congr 1
  funext entry
  cases entry <;> rfl

end Journal

namespace Machine

variable {σ : Type}

/-- The machine as if it had never been traced. -/
def untraced (m : Machine σ) : Machine σ :=
  { m with tracer := Tracer.silent, journal := m.journal.withoutTrace }

theorem untraced_trace (m : Machine σ) (mark message : Bytes) :
    (m.trace mark message).untraced = m.untraced := by
  rw [trace_eq]
  cases (m.tracer.log mark message).1 <;> rfl

theorem projects_untraced [Output σ] : Projects (untraced : Machine σ → Machine σ) where
  stack _ := rfl
  words _ := rfl
  constants _ := rfl
  depth _ := rfl
  maxDepth _ := rfl
  echo _ := rfl
  withStack _ _ := rfl
  withWords _ _ := rfl
  withConstants _ _ := rfl
  enter _ := rfl
  leave _ := rfl
  trace m mark message := by
    rw [untraced_trace]
    rfl
  record m events := by
    simp only [record, untraced, Journal.withoutTrace_record]
  noteLine m location failure := by
    unfold noteLine
    split
    all_goals
      split
      all_goals first | rfl | contradiction
  write _ _ _ := rfl
  flush m := by
    simp only [flush, through, untraced, Journal.withoutTrace_record]

end Machine

namespace Setting

/-- The setting turns the trace on. -/
def isTrace : Setting → Bool
  | trace => true
  | _ => false

def withoutTrace (settings : List Setting) : List Setting :=
  settings.filter fun setting => !setting.isTrace

theorem withoutTrace_cons_of_trace {setting : Setting} (traces : setting.isTrace = true)
    (rest : List Setting) : withoutTrace (setting :: rest) = withoutTrace rest := by
  simp [withoutTrace, traces]

theorem withoutTrace_cons_of_other {setting : Setting} (other : setting.isTrace = false)
    (rest : List Setting) : withoutTrace (setting :: rest) = setting :: withoutTrace rest := by
  simp [withoutTrace, other]

end Setting

namespace SettingTree

mutual

def untraced : SettingTree → SettingTree
  | nothing => nothing
  | one setting => if setting.isTrace then nothing else one setting
  | group members => group (untracedAll members)

def untracedAll : List SettingTree → List SettingTree
  | [] => []
  | member :: rest => untraced member :: untracedAll rest

end

mutual

theorem flatten_untraced : (tree : SettingTree) →
    tree.untraced.flatten = Setting.withoutTrace tree.flatten
  | nothing => rfl
  | one setting => by
    cases traces : setting.isTrace with
    | true => simp [untraced, flatten, traces, Setting.withoutTrace]
    | false => simp [untraced, flatten, traces, Setting.withoutTrace]
  | group members => by
    simp only [untraced, flatten]
    exact flattenAll_untracedAll members

theorem flattenAll_untracedAll : (members : List SettingTree) →
    flattenAll (untracedAll members) = Setting.withoutTrace (flattenAll members)
  | [] => rfl
  | member :: rest => by
    rw [untracedAll, flattenAll, flattenAll, flatten_untraced member, flattenAll_untracedAll rest]
    exact (List.filter_append _ _).symm

end

end SettingTree

def Step.untraced : Step → Step
  | configure settings => configure settings.untraced
  | step => step

def Report.untraced (report : Report) : Report := { report with traceLines := none }

namespace Interpreter

variable {σ : Type}

def untraced (interpreter : Interpreter σ) : Interpreter σ :=
  interpreter.mapMachine Machine.untraced

theorem untraced_addStream (interpreter : Interpreter σ) (stream : Stream) :
    interpreter.untraced.addStream stream = (interpreter.addStream stream).untraced := by
  unfold addStream
  dsimp only [untraced, mapMachine]
  split
  all_goals rfl

theorem untraced_eval [Output σ] (line : Bytes) (interpreter : Interpreter σ) :
    interpreter.untraced.eval line =
      ((interpreter.eval line).1, (interpreter.eval line).2.untraced) := by
  have same : interpreter.machine.untraced.eval line =
      Machine.through Machine.untraced (interpreter.machine.eval line) :=
    Machine.repeats_iff_through.mp (Machine.projects_untraced.parallel.eval line rfl)
  simp only [eval, untraced, mapMachine, same, Machine.through]

theorem untraced_close [Output σ] (interpreter : Interpreter σ) :
    interpreter.untraced.close = (interpreter.close.1, interpreter.close.2.untraced) := by
  have projects : Machine.Projects (Machine.untraced : Machine σ → Machine σ) :=
    Machine.projects_untraced
  unfold close
  dsimp only [untraced, mapMachine]
  rw [projects.flush]
  rcases interpreter.machine.flush with ⟨_ | _ | _, m⟩
  all_goals simp only [Machine.through, projects.record]

section Settings

theorem untraced_replaceOutput (target : Target) (interpreter : OnConsole) :
    interpreter.untraced.replaceOutput target =
      ((interpreter.replaceOutput target).1, (interpreter.replaceOutput target).2.untraced) := by
  unfold replaceOutput
  dsimp only [untraced, mapMachine]
  rw [Machine.projects_untraced.flush]
  rcases interpreter.machine.flush with ⟨_ | _ | _, m⟩
  all_goals rfl

/-- A setting that turns the trace on does not show once the trace is left out. -/
theorem untraced_apply_trace {setting : Setting} (traces : setting.isTrace = true)
    (interpreter : OnConsole) :
    (interpreter.apply setting).1 = .done ∧
      (interpreter.apply setting).2.untraced = interpreter.untraced := by
  cases setting with
  | trace => exact ⟨rfl, rfl⟩
  | output | tee | input | lines | maxDepth | echo | lineErrors => cases traces

theorem untraced_apply {setting : Setting} (other : setting.isTrace = false)
    (interpreter : OnConsole) :
    interpreter.untraced.apply setting =
      ((interpreter.apply setting).1, (interpreter.apply setting).2.untraced) := by
  cases setting with
  | output target => exact interpreter.untraced_replaceOutput target
  | tee target => rfl
  | input stream => exact congrArg (Outcome.done, ·) (interpreter.untraced_addStream stream)
  | lines list => rfl
  | maxDepth limit =>
    simp only [apply, withMachine, Machine.limited]
    split
    all_goals rfl
  | echo enabled => rfl
  | trace => cases other
  | lineErrors => rfl

theorem untraced_applyAll (settings : List Setting) (interpreter : OnConsole) :
    interpreter.untraced.applyAll (Setting.withoutTrace settings) =
      ((interpreter.applyAll settings).1, (interpreter.applyAll settings).2.untraced) := by
  induction settings generalizing interpreter with
  | nil => rfl
  | cons setting rest inductionHypothesis =>
    cases traces : setting.isTrace with
    | true =>
      obtain ⟨done, same⟩ := untraced_apply_trace traces interpreter
      rcases applied : interpreter.apply setting with ⟨outcome, after⟩
      rw [applied] at done same
      cases done
      rw [Setting.withoutTrace_cons_of_trace traces, ← same]
      simp only [applyAll, applied]
      exact inductionHypothesis after
    | false =>
      have applied := untraced_apply traces interpreter
      rw [Setting.withoutTrace_cons_of_other traces]
      simp only [applyAll, applied]
      rcases interpreter.apply setting with ⟨_ | _ | _, after⟩
      · exact inductionHypothesis after
      all_goals rfl

end Settings

end Interpreter

namespace Session

theorem untraced_numberDevices (settings : List Setting) (state : State) :
    numberDevices (Setting.withoutTrace settings) state.untraced =
      (Setting.withoutTrace (numberDevices settings state).1,
        (numberDevices settings state).2.untraced) := by
  induction settings generalizing state with
  | nil => rfl
  | cons setting rest inductionHypothesis =>
    -- The first setting is numbered alike on both sides; only the rest needs the induction.
    have further (known : Setting) (numbered : State) :=
      congrArg (fun found : List Setting × State => (known :: found.1, found.2))
        (inductionHypothesis numbered)
    cases setting with
    | output target =>
      exact further (.output (numberTarget target state).1) (numberTarget target state).2
    | tee target =>
      exact further (.tee (numberTarget target state).1) (numberTarget target state).2
    | trace => exact inductionHypothesis state
    | input stream => exact further (.input stream) state
    | lines list => exact further (.lines list) state
    | maxDepth limit => exact further (.maxDepth limit) state
    | echo enabled => exact further (.echo enabled) state
    | lineErrors => exact further .lineErrors state

theorem untraced_configure (settings : SettingTree) (state : State) :
    configure settings.untraced state.untraced =
      ((configure settings state).1, (configure settings state).2.untraced) := by
  simp only [configure_eq, SettingTree.flatten_untraced, untraced_numberDevices]
  exact Interpreter.untraced_applyAll _ _

theorem untraced_perform (next : Step) (state : State) :
    perform next.untraced state.untraced =
      ((perform next state).1, (perform next state).2.untraced) := by
  cases next with
  | eval line => simp only [perform, Step.untraced, state.untraced_eval line]
  | run interrupt later =>
    have ran : state.untraced.run (.answering interrupt later) =
        ((state.run (.answering interrupt later)).1,
          (state.run (.answering interrupt later)).2.untraced) :=
      Interpreter.run_mapMachine Machine.projects_untraced (.answering interrupt later) state
    simp only [perform, Step.untraced, ran]
  | close => simp only [perform, Step.untraced, state.untraced_close]
  | configure settings => simp only [perform, Step.untraced, untraced_configure settings state]
  | push | word | constant | state | dump => rfl

theorem untraced_step (next : Step) (state : State) :
    step next.untraced state.untraced =
      ((step next state).1.untraced, (step next state).2.untraced) := by
  have performed := untraced_perform next state
  unfold step
  rw [performed]
  simp only [Report.untraced, Interpreter.untraced, Interpreter.mapMachine, Machine.untraced,
    Journal.lineErrors_withoutTrace, Journal.events_withoutTrace]
  rfl

theorem untraced_steps (script : List Step) (state : State) :
    steps (script.map Step.untraced) state.untraced = (steps script state).map Report.untraced := by
  induction script generalizing state with
  | nil => rfl
  | cons next rest inductionHypothesis =>
    simp only [List.map_cons, steps, untraced_step]
    exact congrArg _ (inductionHypothesis _)

theorem untraced_start (settings : SettingTree) :
    start settings.untraced = (start settings).untraced :=
  congrArg Prod.snd (untraced_configure settings Interpreter.initial)

/-- A session reports the same with and without a trace, the trace lines apart. -/
theorem untraced_run (settings : SettingTree) (script : List Step) :
    run settings.untraced (script.map Step.untraced) =
      (run settings script).map Report.untraced := by
  rw [run, untraced_start]
  exact untraced_steps script (start settings)

end Session

end LineForth
