import LineForth.Input.Feed

/-!
# Line sources

A source hands out lines: either from a feed of streams, or from a fixed list of
lines that ends with a failure of its own.
-/

set_option autoImplicit false

namespace LineForth

structure LineList where
  name : Bytes
  lines : List Bytes
  /-- The number of lines handed out. -/
  taken : Nat
  /-- Reported whenever there is no line left. -/
  ending : Failure
  /-- Whether the list can say where its last line came from. -/
  located : Bool
  /-- The number of the line whose reading interrupts the run, counted from 1;
  0 for none. -/
  interruptAt : Nat
  closeFailure : Option Failure
  /-- By which it is known when it is closed. -/
  handle : Nat := 0
  deriving DecidableEq, Repr

inductive Source where
  | feed (feed : Feed)
  | list (list : LineList)
  deriving DecidableEq, Repr

namespace LineList

def readLine (list : LineList) : Except Failure Bytes × LineList :=
  match list.lines with
  | [] => (.error list.ending, list)
  | line :: rest => (.ok line, { list with lines := rest, taken := list.taken + 1 })

theorem length_readLine {list after : LineList} {line : Bytes}
    (result : list.readLine = (.ok line, after)) : after.lines.length < list.lines.length := by
  unfold readLine at result
  split at result
  · simp at result
  next found rest lines =>
    simp only [Prod.mk.injEq] at result
    simp [← result.2, lines]

end LineList

namespace Source

def readLine : Source → Except Failure Bytes × List Event × Source
  | .feed streams =>
    let (result, events, after) := streams.readLine
    (result, events, .feed after)
  | .list given =>
    let (result, after) := given.readLine
    (result, [], .list after)

/-- Whether reading the line handed out last interrupts the run. -/
def interrupts : Source → Bool
  | .feed _ => false
  | .list given => 0 < given.interruptAt && given.taken = given.interruptAt

/-- The place of the line handed out last. -/
def location? : Source → Option Location
  | .feed streams => some streams.last
  | .list given => if given.located then some ⟨given.name, given.taken⟩ else none

def close : Source → Outcome × List Event
  | .feed streams =>
    let (outcome, events, _) := streams.close
    (outcome, events)
  | .list given =>
    (Outcome.ofFailure? given.closeFailure, [.closedAfter given.name given.taken given.handle])

/-- A bound on the lines that are still to come. -/
def size : Source → Nat
  | .feed streams => streams.size
  | .list given => given.lines.length

theorem size_readLine {source after : Source} {line : Bytes} {events : List Event}
    (result : source.readLine = (.ok line, events, after)) : after.size < source.size := by
  cases source with
  | feed streams =>
    simp only [readLine, Prod.mk.injEq] at result
    rw [← result.2.2]
    exact Feed.size_readLine (Prod.ext result.1 (Prod.ext rfl rfl))
  | list given =>
    simp only [readLine, Prod.mk.injEq] at result
    rw [← result.2.2]
    exact LineList.length_readLine (Prod.ext result.1 rfl)

end Source

end LineForth
