import LineForth.Session

/-!
# Groups of settings

A group is combined from its members when it is made, so that a made group consists of single
settings, in the order in which the tree has them. A tree of settings therefore comes to what
its settings come to one by one, however they are grouped and wherever a setting is absent.
-/

set_option autoImplicit false

namespace LineForth

namespace SettingTree

mutual

theorem members_build : (tree : SettingTree) → tree.build.members = tree.flatten.map one
  | nothing => rfl
  | one _ => rfl
  | group members => flatMap_members_buildAll members

theorem flatMap_members_buildAll : (trees : List SettingTree) →
    (buildAll trees).flatMap members = (flattenAll trees).map one
  | [] => rfl
  | tree :: rest => by
    rw [buildAll, flattenAll, List.flatMap_cons, List.map_append, members_build tree,
      flatMap_members_buildAll rest]

end

end SettingTree

namespace Interpreter

theorem applyMembers_map_one (settings : List Setting) (interpreter : OnConsole) :
    interpreter.applyMembers (settings.map .one) = interpreter.applyAll settings := by
  induction settings generalizing interpreter with
  | nil => rfl
  | cons setting rest inductionHypothesis =>
    rw [List.map_cons, applyMembers, applyTree, applyAll]
    split
    next after applied => exact inductionHypothesis after
    next => rfl

/-- A tree of settings comes to its settings, one after the other. -/
theorem configure_eq_applyAll (tree : SettingTree) (interpreter : OnConsole) :
    interpreter.configure tree = interpreter.applyAll tree.flatten := by
  have made : SettingTree.combine [tree.build] = .group (tree.flatten.map .one) := by
    rw [SettingTree.combine, List.flatMap_singleton, SettingTree.members_build]
  rw [configure, made, applyTree, applyMembers_map_one]

end Interpreter

namespace Session

/-- Numbers the fresh devices of a list of settings. -/
def numberDevices : List Setting → State → List Setting × State
  | [], state => ([], state)
  | setting :: rest, state =>
    let (known, numbered) := numberSetting setting state
    let (others, last) := numberDevices rest numbered
    (known :: others, last)

theorem numberDevices_append (first second : List Setting) (state : State) :
    numberDevices (first ++ second) state =
      ((numberDevices first state).1 ++ (numberDevices second (numberDevices first state).2).1,
        (numberDevices second (numberDevices first state).2).2) := by
  induction first generalizing state with
  | nil => rfl
  | cons setting rest inductionHypothesis =>
    simp only [List.cons_append, numberDevices, inductionHypothesis]

mutual

/-- The devices of a tree are numbered like those of the list of its settings. -/
theorem numberTree_flatten : (tree : SettingTree) → (state : State) →
    numberDevices tree.flatten state =
      ((numberTree tree state).1.flatten, (numberTree tree state).2)
  | .nothing, _ => rfl
  | .one _, _ => rfl
  | .group members, state => numberMembers_flattenAll members state

theorem numberMembers_flattenAll : (members : List SettingTree) → (state : State) →
    numberDevices (SettingTree.flattenAll members) state =
      (SettingTree.flattenAll (numberMembers members state).1, (numberMembers members state).2)
  | [], _ => rfl
  | member :: rest, state => by
    simp only [SettingTree.flattenAll, numberDevices_append, numberTree_flatten member,
      numberMembers_flattenAll rest, numberMembers]

end

theorem configure_eq (settings : SettingTree) (state : State) :
    configure settings state =
      (numberDevices settings.flatten state).2.applyAll
        (numberDevices settings.flatten state).1 := by
  rw [numberTree_flatten]
  exact Interpreter.configure_eq_applyAll _ _

end Session

end LineForth
