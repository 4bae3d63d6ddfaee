import LineForth.Interpreter
import LineForth.Output.Console

/-!
# Settings

Settings configure an interpreter, before its first line or between lines. They
may be grouped to any depth; a group means its members in order. A group is
combined from its members: absent ones are left out, and those of a group take
the place of the group.
-/

set_option autoImplicit false

namespace LineForth

inductive Setting where
  /-- Replace the output. -/
  | output (target : Target)
  /-- Add to the output. -/
  | tee (target : Target)
  | input (stream : Stream)
  | lines (list : LineList)
  | maxDepth (limit : Int)
  | echo (enabled : Bool)
  | trace
  | lineErrors
  deriving DecidableEq, Repr

inductive SettingTree where
  | nothing
  | one (setting : Setting)
  | group (members : List SettingTree)

namespace SettingTree

/-- What a tree adds to a group that it is combined into. -/
def members : SettingTree → List SettingTree
  | nothing => []
  | one setting => [one setting]
  | group members => members

def combine (trees : List SettingTree) : SettingTree := group (trees.flatMap members)

mutual

/-- The tree as it is made, from the innermost groups outwards. -/
def build : SettingTree → SettingTree
  | nothing => nothing
  | one setting => one setting
  | group members => combine (buildAll members)

def buildAll : List SettingTree → List SettingTree
  | [] => []
  | member :: rest => build member :: buildAll rest

end

mutual

/-- The settings of a tree in order. -/
def flatten : SettingTree → List Setting
  | nothing => []
  | one setting => [setting]
  | group members => flattenAll members

def flattenAll : List SettingTree → List Setting
  | [] => []
  | member :: rest => flatten member ++ flattenAll rest

end

end SettingTree

namespace Machine

variable {σ : Type}

/-- Limits the active calls. A limit that is not positive is ignored. -/
def limited (m : Machine σ) (limit : Int) : Machine σ :=
  if 0 < limit then { m with maxDepth := limit.toNat } else m

/-- Turns the trace on. -/
def traced (m : Machine σ) : Machine σ :=
  { m with tracer := { m.tracer with active := true, margins := [] } }

end Machine

namespace Interpreter

abbrev OnConsole := Interpreter Console

def initial : OnConsole := ⟨Machine.initial Console.silent, []⟩

def withMachine (interpreter : OnConsole) (change : Machine Console → Machine Console) :
    OnConsole :=
  { interpreter with machine := change interpreter.machine }

def withConsole (interpreter : OnConsole) (change : Console → Console) : OnConsole :=
  interpreter.withMachine fun m => { m with output := change m.output }

/-- Flushes the old output and replaces it; a failure of that flush is dropped. -/
def replaceOutput (target : Target) (interpreter : OnConsole) : Outcome × OnConsole :=
  match interpreter.machine.flush with
  | (.panicked panic, m) => (.panicked panic, { interpreter with machine := m })
  | (_, m) =>
    let flushed : OnConsole := { interpreter with machine := m }
    (.done, flushed.withConsole fun console =>
      let (sink, bank) := console.bank.attach target
      ⟨bank, sink⟩)

def addOutput (target : Target) (interpreter : OnConsole) : OnConsole :=
  interpreter.withConsole fun console =>
    let (sink, bank) := console.bank.attach target
    ⟨bank, Sink.join [some console.sink, some sink]⟩

def apply (setting : Setting) (interpreter : OnConsole) : Outcome × OnConsole :=
  match setting with
  | .output target => interpreter.replaceOutput target
  | .tee target => (.done, interpreter.addOutput target)
  | .input stream => (.done, interpreter.addStream stream)
  | .lines list => (.done, interpreter.addList list)
  | .maxDepth limit => (.done, interpreter.withMachine fun m => m.limited limit)
  | .echo enabled => (.done, interpreter.withMachine fun m => { m with echo := enabled })
  | .trace => (.done, interpreter.withMachine Machine.traced)
  | .lineErrors => (.done, interpreter.withMachine fun m => { m with reportsLines := true })

/-- Applies settings in order, up to the first that ends in a panic. -/
def applyAll : List Setting → OnConsole → Outcome × OnConsole
  | [], interpreter => (.done, interpreter)
  | setting :: rest, interpreter =>
    match interpreter.apply setting with
    | (.done, after) => applyAll rest after
    | stopped => stopped

/-- An absent setting cannot be applied. -/
def absentSetting : Panic :=
  .failure (.trap (text "invalid memory address or nil pointer dereference"))

mutual

/-- Applies a tree as it stands. -/
def applyTree : SettingTree → OnConsole → Outcome × OnConsole
  | .nothing, interpreter => (.panicked absentSetting, interpreter)
  | .one setting, interpreter => interpreter.apply setting
  | .group members, interpreter => applyMembers members interpreter

def applyMembers : List SettingTree → OnConsole → Outcome × OnConsole
  | [], interpreter => (.done, interpreter)
  | member :: rest, interpreter =>
    match applyTree member interpreter with
    | (.done, after) => applyMembers rest after
    | stopped => stopped

end

/-- Makes the tree and applies it, as the only member of a group. -/
def configure (tree : SettingTree) (interpreter : OnConsole) : Outcome × OnConsole :=
  interpreter.applyTree (SettingTree.combine [tree.build])

end Interpreter

end LineForth
