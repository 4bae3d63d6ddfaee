import LineForth.Proofs.Delivery
import LineForth.Proofs.Grouping

/-!
# Sessions on a limited device

A session that writes to one device is compared with the same session written into
memory. However the session goes, after every step the device has received what its limit
admits of the octets in memory: nothing is lost, repeated, reordered or held back.
-/

set_option autoImplicit false

namespace LineForth

variable {limit : Option Limit} {capped : Capped limit}

/-- The step does not change the settings. -/
def Step.KeepsSettings : Step → Prop
  | configure _ => False
  | _ => True

namespace Session

open Machine (Abreast Delivers)

/-- The state that a session has reached after some steps. -/
def after (script : List Step) (state : State) : State :=
  script.foldl (fun current next => (step next current).2) state

theorem perform_output {next : Step} (keeps : next.KeepsSettings) (state : State) :
    Relation.ReflTransGen Output.Next state.machine.output
      (perform next state).2.machine.output := by
  cases next with
  | eval line => exact Machine.eval_output line state.machine
  | run interrupt later =>
    exact (Machine.Kept.output state.machine.output).runSources (.answering interrupt later)
      state.sources .refl
  | close => exact (Machine.Kept.output state.machine.output).close .refl
  | configure settings => exact absurd keeps id
  | push | word | constant | state | dump => exact .refl

/-- The sources and the machine of a state. -/
def parts (state : State) : List Source × Machine Console := (state.sources, state.machine)

theorem delivers_perform {m m' : Machine Console} (abreast : Abreast capped [] m m')
    (sources : List Source) {next : Step} (keeps : next.KeepsSettings) :
    Delivers capped (parts (perform next ⟨m, sources⟩).2)
      (parts (perform next ⟨m', sources⟩).2) := by
  cases next with
  | eval line => exact (abreast.eval line).map fun _ => sources
  | run interrupt later =>
    exact (Interpreter.delivers_run abreast (.answering interrupt later) sources).map Prod.snd
  | close => exact (Interpreter.delivers_close abreast sources).map Prod.snd
  | configure settings => exact absurd keeps id
  | state => exact .inr ⟨rfl, abreast⟩
  | dump => exact .inr ⟨rfl, abreast⟩
  | push cells =>
    exact .inr ⟨rfl, ⟨congrArg (cells.reverse ++ ·) abreast.stack, abreast.words,
      abreast.constants⟩, abreast.depth, abreast.maxDepth, abreast.echo, abreast.linked⟩
  | word name body =>
    exact .inr ⟨rfl, ⟨abreast.stack, congrArg (·.define name body) abreast.words,
      abreast.constants⟩, abreast.depth, abreast.maxDepth, abreast.echo, abreast.linked⟩
  | constant name value =>
    exact .inr ⟨rfl, ⟨abreast.stack, abreast.words,
      congrArg (·.define name value) abreast.constants⟩, abreast.depth, abreast.maxDepth,
      abreast.echo, abreast.linked⟩

/-- One step of two sessions. -/
theorem delivers_step {state state' : State}
    (delivers : Delivers capped (parts state) (parts state')) {next : Step}
    (keeps : next.KeepsSettings) :
    Delivers capped (parts (step next state).2) (parts (step next state').2) := by
  rcases delivers with broken | ⟨same, abreast⟩
  · exact .inl (broken.onward (perform_output keeps state) (perform_output keeps state'))
  · rcases state with ⟨m, sources⟩
    rcases state' with ⟨m', sources'⟩
    cases same
    rcases delivers_perform abreast sources keeps with broken | ⟨same, settled⟩
    · exact .inl broken
    · exact .inr ⟨same, settled.journal [] []⟩

/-- All the steps of two sessions. -/
theorem delivers_after {script : List Step} (keeps : ∀ next ∈ script, next.KeepsSettings)
    {state state' : State} (delivers : Delivers capped (parts state) (parts state')) :
    Delivers capped (parts (after script state)) (parts (after script state')) := by
  induction script generalizing state state' with
  | nil => exact delivers
  | cons next rest inductionHypothesis =>
    obtain ⟨first, later⟩ := List.forall_mem_cons.mp keeps
    exact inductionHypothesis later (delivers_step delivers first)

end Session

/-- The setting leaves the output as it is. -/
def Setting.KeepsOutput : Setting → Prop
  | output _ => False
  | tee _ => False
  | _ => True

namespace Interpreter

/-- The same interpreter on another console. -/
def onto (interpreter : OnConsole) (console : Console) : OnConsole :=
  interpreter.withConsole fun _ => console

theorem apply_onto {setting : Setting} (keeps : setting.KeepsOutput) (interpreter : OnConsole)
    (console : Console) :
    (interpreter.apply setting).1 = .done ∧
      (interpreter.onto console).apply setting =
        (.done, (interpreter.apply setting).2.onto console) := by
  cases setting with
  | output target => exact absurd keeps id
  | tee target => exact absurd keeps id
  | input stream =>
    refine ⟨rfl, ?_⟩
    simp only [apply, addStream, onto, withConsole, withMachine]
    split
    all_goals rfl
  | maxDepth bound =>
    refine ⟨rfl, ?_⟩
    simp only [apply, onto, withConsole, withMachine, Machine.limited]
    split
    all_goals rfl
  | lines | echo | trace | lineErrors => exact ⟨rfl, rfl⟩

/-- Settings that leave the output alone come to the same on every console. -/
theorem applyAll_onto {settings : List Setting} (keeps : ∀ setting ∈ settings, setting.KeepsOutput)
    (interpreter : OnConsole) (console : Console) (rest : List Setting) :
    (interpreter.onto console).applyAll (settings ++ rest) =
      ((interpreter.applyAll settings).2.onto console).applyAll rest := by
  induction settings generalizing interpreter with
  | nil => rfl
  | cons setting others inductionHypothesis =>
    obtain ⟨first, later⟩ := List.forall_mem_cons.mp keeps
    obtain ⟨done, same⟩ := apply_onto first interpreter console
    have applied : interpreter.apply setting = (.done, (interpreter.apply setting).2) :=
      Prod.ext done rfl
    simp only [List.cons_append, applyAll, same]
    rw [applied]
    exact inductionHypothesis later _

end Interpreter

namespace Session

open Machine (Delivers)

theorem numberDevices_of_keepsOutput {settings : List Setting}
    (keeps : ∀ setting ∈ settings, setting.KeepsOutput) (rest : List Setting) (state : State) :
    numberDevices (settings ++ rest) state =
      (settings ++ (numberDevices rest state).1, (numberDevices rest state).2) := by
  induction settings with
  | nil => rfl
  | cons setting others inductionHypothesis =>
    obtain ⟨first, later⟩ := List.forall_mem_cons.mp keeps
    simp only [List.cons_append, numberDevices]
    cases setting with
    | output target => exact absurd first id
    | tee target => exact absurd first id
    | input | lines | maxDepth | echo | trace | lineErrors =>
      simp only [numberSetting, inductionHypothesis later]

/-- A session whose only output is a new device of the given kind. -/
def opening (kind : DeviceKind) (before after : SettingTree) : State :=
  start (.group [before, .one (.output (.fresh (Device.fresh kind))), after])

/-- What a session starts with, its console apart, does not depend on the device. -/
theorem exists_opening_eq {before after : SettingTree}
    (keepsBefore : ∀ setting ∈ before.flatten, setting.KeepsOutput)
    (keepsAfter : ∀ setting ∈ after.flatten, setting.KeepsOutput) :
    ∃ state : State, ∀ kind,
      opening kind before after = state.onto (Console.only (Device.fresh kind)) := by
  refine ⟨((Interpreter.initial.applyAll before.flatten).2.applyAll after.flatten).2, ?_⟩
  intro kind
  have flattened : (SettingTree.group
      [before, .one (.output (.fresh (Device.fresh kind))), after]).flatten =
      before.flatten ++ Setting.output (.fresh (Device.fresh kind)) :: (after.flatten ++ []) := by
    simp [SettingTree.flatten, SettingTree.flattenAll]
  have numbered : numberDevices
      (.output (.fresh (Device.fresh kind)) :: (after.flatten ++ [])) Interpreter.initial =
      (.output (.numbered 0) :: (after.flatten ++ []),
        Interpreter.initial.onto ⟨⟨[Device.fresh kind], []⟩, .discard⟩) := by
    simp only [numberDevices, numberDevices_of_keepsOutput keepsAfter]
    rfl
  have replaced (state : State) :
      (state.onto ⟨⟨[Device.fresh kind], []⟩, .discard⟩).apply (.output (.numbered 0)) =
        (.done, state.onto (Console.only (Device.fresh kind))) := by
    cases kind <;> rfl
  simp only [opening, start, configure_eq, flattened, numberDevices_of_keepsOutput keepsBefore,
    numbered, Interpreter.applyAll_onto keepsBefore, Interpreter.applyAll, replaced,
    Interpreter.applyAll_onto keepsAfter]

theorem delivers_onto (capped : Capped limit) (state : State) {console : Console}
    (carries : capped.carries [] [] console) :
    Delivers capped (parts (state.onto (Console.only (Device.fresh .memory))))
      (parts (state.onto console)) :=
  .inr ⟨rfl, ⟨rfl, rfl, rfl⟩, rfl, rfl, rfl, [], rfl, carries⟩

/-- What a session writes to a plain or a flushing device arrives there once and in order,
up to the limit of the device, and at the end of every step nothing of it is held back.
The same session with a device in memory shows what is written in all. As this holds of
every script, it holds after each step of a session. -/
theorem received_after {before after : SettingTree}
    (keepsBefore : ∀ setting ∈ before.flatten, setting.KeepsOutput)
    (keepsAfter : ∀ setting ∈ after.flatten, setting.KeepsOutput) {script : List Step}
    (keeps : ∀ next ∈ script, next.KeepsSettings) (fails : Limit.Fails limit)
    {kind : DeviceKind} (limited : kind = .plain limit ∨ kind = .flushing limit none) :
    ∃ octets,
      (Session.after script (opening .memory before after)).machine.output.bank.received =
        [octets] ∧
      (Session.after script (opening kind before after)).machine.output.bank.received =
        [Limit.admits limit octets] := by
  obtain ⟨state, opened⟩ := exists_opening_eq keepsBefore keepsAfter
  have within : Limit.Within limit [] := fun _ _ => Nat.zero_le _
  obtain ⟨capped, carries⟩ : ∃ capped : Capped limit,
      capped.carries [] [] (Console.only (Device.fresh kind)) := by
    rcases limited with rfl | rfl
    · exact ⟨.behind fails, Buffer.onDevice 0, Device.fresh (.plain limit), rfl, rfl, rfl, .inl rfl,
        within, rfl, rfl⟩
    · exact ⟨.direct fails, Device.fresh (.flushing limit none), rfl, .inr rfl, within, rfl, rfl⟩
  rw [opened, opened]
  rcases delivers_after keeps (delivers_onto capped state carries) with broken | ⟨-, settled⟩
  · exact broken.received
  · exact settled.linked.received

/-- A source of two lines, the second of which ends the run. -/
def greeting : SettingTree :=
  .one (.lines ⟨text "greeting", [text "hi hi", text "exit"], 0, .endOfInput, false, 0, none, 0⟩)

def talking : List Step :=
  [.word (text "hi") [text ".\"", text "hello\""], .eval (text "hi 1 0 / ."), .push [7],
    .eval (text "."), .run none, .close]

theorem received_after_talking :
    (after talking (opening .memory .nothing greeting)).machine.output.bank.received =
        [text "hello\n> [7]\nhello\nhello\nBye!\n"] ∧
      (after talking (opening (.plain (some ⟨8, .panic⟩)) .nothing
        greeting)).machine.output.bank.received = [text "hello\n> "] ∧
      (after talking (opening (.flushing (some ⟨20, .fail⟩) none) .nothing
        greeting)).machine.output.bank.received = [text "hello\n> [7]\nhello\nhe"] := by
  have written : (after talking (opening .memory .nothing greeting)).machine.output.bank.received =
      [text "hello\n> [7]\nhello\nhello\nBye!\n"] := by decide +kernel
  have silent : ∀ setting ∈ SettingTree.nothing.flatten, setting.KeepsOutput := by
    simp [SettingTree.flatten]
  have sourced : ∀ setting ∈ greeting.flatten, setting.KeepsOutput := by
    simp [greeting, SettingTree.flatten, Setting.KeepsOutput]
  have keeps : ∀ next ∈ talking, next.KeepsSettings := by
    simp [talking, Step.KeepsSettings]
  refine ⟨written, ?_, ?_⟩
  · have fails : Limit.Fails (some ⟨8, .panic⟩) := by simp [Limit.Fails]
    obtain ⟨octets, first, second⟩ := received_after silent sourced keeps fails (.inl rfl)
    rw [written] at first
    cases first
    exact second.trans (by decide +kernel)
  · have fails : Limit.Fails (some ⟨20, .fail⟩) := by simp [Limit.Fails]
    obtain ⟨octets, first, second⟩ := received_after silent sourced keeps fails (.inr rfl)
    rw [written] at first
    cases first
    exact second.trans (by decide +kernel)

end Session

end LineForth
