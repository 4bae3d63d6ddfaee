import LineForth.Output.Basic

/-!
# Sinks

A sink is where the octets of one output go: nowhere, to one member, or to
several members in order. Joining sinks flattens them, so a member of a tee is
never itself a tee, and a tee has at least two members.
-/

set_option autoImplicit false

namespace LineForth

inductive Sink (ι : Type) where
  | discard
  | single (member : ι)
  | tee (members : List ι)
  deriving DecidableEq, Repr

namespace Sink

variable {ι : Type}

def members : Sink ι → List ι
  | discard => []
  | single member => [member]
  | tee members => members

def ofMembers : List ι → Sink ι
  | [] => discard
  | [member] => single member
  | members => tee members

/-- Joins sinks in order; an absent sink adds nothing. -/
def join (sinks : List (Option (Sink ι))) : Sink ι :=
  ofMembers (sinks.flatMap fun sink =>
    match sink with
    | some sink => sink.members
    | none => [])

section Members

variable {S : Type} (write : ι → Passage → Bytes → S → Written × S) (flush : ι → S → Flushed × S)

/-- Hands the octets to each member, up to the first that fails or takes too
few. -/
def writeAll (octets : Bytes) : List ι → S → Written × S
  | [], state => (⟨octets.length, .done⟩, state)
  | member :: rest, state =>
    match write member .direct octets state with
    | (⟨taken, .done⟩, after) =>
      if taken = octets.length then writeAll octets rest after
      else (⟨taken, .failed .shortWrite⟩, after)
    | stopped => stopped

/-- Flushes every member, also after a failure, and reports the first failure.
Only a panic keeps later members from being flushed. -/
def flushAll : List ι → S → Flushed × S
  | [], state => (⟨.done, []⟩, state)
  | member :: rest, state =>
    match flush member state with
    | (⟨.panicked panic, events⟩, after) => (⟨.panicked panic, events⟩, after)
    | (⟨outcome, events⟩, after) =>
      let (later, result) := flushAll rest after
      (⟨outcome.orElse later.outcome, events ++ later.events⟩, result)

def writeTo (sink : Sink ι) (passage : Passage) (octets : Bytes) (state : S) : Written × S :=
  match sink with
  | discard => (⟨octets.length, .done⟩, state)
  | single member => write member passage octets state
  | tee members => writeAll write octets members state

def flushTo (sink : Sink ι) (state : S) : Flushed × S :=
  match sink with
  | discard => (⟨.done, []⟩, state)
  | single member => flush member state
  | tee members => flushAll flush members state

end Members

end Sink

end LineForth
