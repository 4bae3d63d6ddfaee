import LineForth.Output.Basic

/-!
# Logging by lines

Octets are gathered until a newline completes a line, which is then logged
without its newline. A flush logs what is left over, if there is anything.
-/

set_option autoImplicit false

namespace LineForth

structure LineLog where
  /-- The octets behind the last newline. -/
  held : Bytes
  deriving DecidableEq, Repr

namespace LineLog

def empty : LineLog := ⟨[]⟩

/-- The next line to log, and the octets behind it. Octets that no newline ends
are a line only if `all` of them are to be logged. -/
def turn? (all : Bool) (octets : Bytes) : Option (Bytes × Bytes) :=
  match Bytes.cutLine? octets with
  | some (line, rest) => some (line.dropLast, rest)
  | none => if all && !octets.isEmpty then some (octets, []) else none

theorem length_turn? {all : Bool} {octets line rest : Bytes}
    (turn : turn? all octets = some (line, rest)) : rest.length < octets.length := by
  unfold turn? at turn
  split at turn
  next found left cut =>
    cases turn
    have positive := List.length_pos_iff.mpr (Bytes.ne_nil_of_cutLine? cut)
    rw [← Bytes.append_of_cutLine? cut, List.length_append]
    omega
  next =>
    split at turn
    next present =>
      cases turn
      have nonempty : octets ≠ [] := by
        rintro rfl
        simp at present
      exact List.length_pos_iff.mpr nonempty
    next => cases turn

/-- Logs line after line, for as long as there is one, and keeps the rest. -/
def logLines (all : Bool) (octets : Bytes) : List Bytes × Bytes :=
  match _turn : turn? all octets with
  | none => ([], octets)
  | some (line, rest) =>
    let (lines, left) := logLines all rest
    (line :: lines, left)
termination_by octets.length
decreasing_by exact length_turn? _turn

/-- Takes octets and logs the lines that they complete. -/
def write (log : LineLog) (octets : Bytes) : Written × List Bytes × LineLog :=
  let (lines, left) := logLines false (log.held ++ octets)
  (⟨octets.length, .done⟩, lines, ⟨left⟩)

def flush (log : LineLog) : Outcome × List Bytes × LineLog :=
  let (lines, left) := logLines true log.held
  (.done, lines, ⟨left⟩)

def close (log : LineLog) : Outcome × List Bytes × LineLog := log.flush

end LineLog

end LineForth
