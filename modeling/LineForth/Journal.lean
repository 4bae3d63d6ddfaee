import LineForth.Text.Decimal

/-!
# The journal of a session

Trace lines, reports about failed lines and events at the outer edge of a
session are kept in one list, so that their order across the three kinds is
known.
-/

set_option autoImplicit false

namespace LineForth

inductive Event where
  /-- A device was told to flush. -/
  | flushed (device : Nat)
  | closed (name : Bytes) (handle : Nat)
  | closedAfter (name : Bytes) (lines handle : Nat)
  deriving DecidableEq, Repr

inductive Entry where
  | trace (line : Bytes)
  | lineError (line : Bytes)
  | event (event : Event)
  deriving DecidableEq, Repr

/-- Entries, newest first. -/
abbrev Journal := List Entry

namespace Event

def describe : Event → Bytes
  | flushed device => text "flush writer " ++ decimalNat device
  | closed name _ => text "close " ++ name
  | closedAfter name lines _ => text "close " ++ name ++ text " after " ++ decimalNat lines

end Event

namespace Journal

def record (journal : Journal) (events : List Event) : Journal :=
  (events.map Entry.event).reverse ++ journal

def traceLines (journal : Journal) : List Bytes :=
  journal.reverse.filterMap fun entry =>
    match entry with
    | .trace line => some line
    | _ => none

def lineErrors (journal : Journal) : List Bytes :=
  journal.reverse.filterMap fun entry =>
    match entry with
    | .lineError line => some line
    | _ => none

def events (journal : Journal) : List Event :=
  journal.reverse.filterMap fun entry =>
    match entry with
    | .event event => some event
    | _ => none

end Journal

end LineForth
