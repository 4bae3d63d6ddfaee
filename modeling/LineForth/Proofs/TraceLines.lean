import LineForth.Proofs.Frame
import LineForth.Proofs.Lockstep

/-!
# The lines of a trace

A trace line is what was noted, behind two spaces for each call that was active then. For
this the margins of the tracer must be those of the active calls, which is an invariant of
the machine. `Logs` says what a step adds to the trace; steps are put together by `trans`.
-/

set_option autoImplicit false

namespace LineForth

/-- The kinds of trace lines. -/
inductive Mark where
  /-- A line of input. -/
  | input
  /-- A word or a constant has been defined. -/
  | definition
  /-- A token has been evaluated. -/
  | success
  /-- A line has failed. -/
  | failure
  deriving DecidableEq, Repr

def Mark.bytes : Mark → Bytes
  | input => text ">"
  | definition => text ":"
  | success => text "#"
  | failure => text "!"

theorem Mark.length_bytes (mark : Mark) : mark.bytes.length = 1 := by
  cases mark <;> rfl

/-- What is noted, and the words whose calls are active then, the innermost first. -/
structure Note where
  active : List Token
  mark : Mark
  message : Bytes
  deriving DecidableEq, Repr

def Note.line (note : Note) : Bytes :=
  List.replicate (2 * note.active.length) Bytes.space ++ note.mark.bytes ++
    Bytes.space :: note.message

namespace Template

theorem renderFrom_spaces (count : Nat) (rest : Bytes) (arguments : List Argument) :
    renderFrom .literal (List.replicate count Bytes.space ++ rest) arguments =
      List.replicate count Bytes.space ++ renderFrom .literal rest arguments := by
  induction count with
  | zero => rfl
  | succ count inductionHypothesis =>
    have literal : Bytes.space ≠ percent := by decide
    rw [List.replicate_succ, List.cons_append, renderFrom, if_neg literal, inductionHypothesis,
      List.cons_append]

theorem renderFrom_pair (mark message : Bytes) :
    renderFrom .literal (text "%v %v") [.bytes mark, .bytes message] =
      mark ++ Bytes.space :: message := by
  have template : text "%v %v" = [percent, 0x76, Bytes.space, percent, 0x76] := by decide
  have verb (rest : Bytes) : Utf8.front 0x76 rest = (.character 'v', 0) := rfl
  have flagless : flag? noFlags 0x76 = none := rfl
  have plain : (0x76 : UInt8) ≠ percent := by decide
  have literal : Bytes.space ≠ percent := by decide
  simp [template, renderFrom, verb, flagless, plain, literal, Glyph.char, directive, leftOver]

end Template

namespace Machine

variable {σ : Type}

/-- The depth and the margins of the trace are those of the active calls. All marks are one
octet wide, so none is ever padded. -/
structure Aligned (active : List Token) (m : Machine σ) : Prop where
  depth : m.depth = active.length
  margins : m.tracer.active = true →
    m.tracer.margins = List.replicate active.length Machine.margin
  markWidth : m.tracer.markWidth ≤ 1

namespace Aligned

variable {active : List Token} {m : Machine σ}

theorem line_eq (aligned : Aligned active m) (listening : m.tracer.active = true) (mark : Mark)
    (message : Bytes) :
    m.tracer.line mark.bytes message = Note.line ⟨active, mark, message⟩ := by
  have unpadded : Tracer.pad m.tracer.markWidth mark.bytes = mark.bytes := by
    have none : m.tracer.markWidth - mark.bytes.length = 0 := by
      rw [mark.length_bytes]
      exact Nat.sub_eq_zero_of_le aligned.markWidth
    unfold Tracer.pad
    split
    next => rfl
    next glyph _ _ =>
      rw [none]
      rfl
  have margin : Machine.margin = List.replicate 2 Bytes.space := by decide
  have spaces : m.tracer.margins.reverse.flatten =
      List.replicate (2 * active.length) Bytes.space := by
    rw [aligned.margins listening, List.reverse_replicate, margin,
      List.flatten_replicate_replicate, Nat.mul_comm]
  rw [Tracer.line, unpadded, spaces, Template.render, Template.renderFrom_spaces,
    Template.renderFrom_pair, Note.line, List.append_assoc]

theorem of_same {after : Machine σ} (aligned : Aligned active m) (depth : after.depth = m.depth)
    (tracer : after.tracer = m.tracer) : Aligned active after := by
  refine ⟨depth.trans aligned.depth, ?_, ?_⟩
  · rw [tracer]
    exact aligned.margins
  · rw [tracer]
    exact aligned.markWidth

theorem enter (aligned : Aligned active m) (word : Token) : Aligned (word :: active) m.enter := by
  refine ⟨congrArg (· + 1) aligned.depth, ?_, ?_⟩
  · intro listening
    by_cases active : m.tracer.active = true
    · simp [Machine.enter, active, Tracer.enter, aligned.margins active, List.replicate_succ]
    · simp [Machine.enter, active] at listening
  · by_cases active : m.tracer.active = true
    · simpa [Machine.enter, active, Tracer.enter] using aligned.markWidth
    · simpa [Machine.enter, active] using aligned.markWidth

theorem leave {word : Token} (aligned : Aligned (word :: active) m) : Aligned active m.leave := by
  refine ⟨congrArg (· - 1) aligned.depth, ?_, ?_⟩
  · intro listening
    by_cases active : m.tracer.active = true
    · simp [Machine.leave, active, Tracer.leave, aligned.margins active, List.replicate_succ]
    · simp [Machine.leave, active] at listening
  · by_cases active : m.tracer.active = true
    · simpa [Machine.leave, active, Tracer.leave] using aligned.markWidth
    · simpa [Machine.leave, active] using aligned.markWidth

end Aligned

theorem tracer_active_enter (m : Machine σ) : m.enter.tracer.active = m.tracer.active := by
  unfold enter
  dsimp only
  split <;> rfl

theorem tracer_active_leave (m : Machine σ) : m.leave.tracer.active = m.tracer.active := by
  unfold leave
  dsimp only
  split <;> rfl

/-- A step leads from one machine to another, with the same calls active, and notes this on
the way. -/
structure Logs (active : List Token) (notes : List Note) (before after : Machine σ) : Prop where
  aligned : Aligned active after
  listening : after.tracer.active = before.tracer.active
  lines : after.journal.traceLines = before.journal.traceLines ++
    if before.tracer.active then notes.map Note.line else []

namespace Logs

variable {active : List Token} {notes more : List Note} {before middle after m : Machine σ}

/-- A step that does not touch the trace. -/
theorem of_same (aligned : Aligned active before) (depth : after.depth = before.depth)
    (tracer : after.tracer = before.tracer)
    (lines : after.journal.traceLines = before.journal.traceLines) :
    Logs active [] before after := by
  refine ⟨aligned.of_same depth tracer, by rw [tracer], ?_⟩
  simp [lines]

theorem refl (aligned : Aligned active m) : Logs active [] m m := .of_same aligned rfl rfl rfl

theorem trans (first : Logs active notes before middle) (second : Logs active more middle after) :
    Logs active (notes ++ more) before after := by
  refine ⟨second.aligned, second.listening.trans first.listening, ?_⟩
  rw [second.lines, first.lines, first.listening, List.append_assoc]
  split
  · rw [List.map_append]
  · rfl

theorem trace (aligned : Aligned active m) (mark : Mark) (message : Bytes) :
    Logs active [⟨active, mark, message⟩] m (m.trace mark.bytes message) := by
  have settings := SameSettings.trace m mark.bytes message
  rw [trace_eq] at settings ⊢
  refine ⟨⟨settings.depth.trans aligned.depth, ?_, ?_⟩, settings.active, ?_⟩
  · intro listening
    rw [settings.margins]
    exact aligned.margins (settings.active ▸ listening)
  · by_cases listening : m.tracer.active = true
    · simp only [Tracer.log, listening, if_true, mark.length_bytes]
      exact Nat.max_le.mpr ⟨aligned.markWidth, Nat.le_refl 1⟩
    · simpa [Tracer.log, listening] using aligned.markWidth
  · by_cases listening : m.tracer.active = true
    · simp [Tracer.log, listening, Journal.traceLines, aligned.line_eq listening]
    · simp [Tracer.log, listening]

/-- What the body of a word notes, its call notes. -/
theorem call {word : Token} (inside : Logs (word :: active) notes m.enter after) :
    Logs active notes m after.leave := by
  have listening := m.tracer_active_enter
  refine ⟨inside.aligned.leave, ?_, ?_⟩
  · rw [tracer_active_leave, inside.listening, listening]
  · have lines := inside.lines
    rw [listening] at lines
    exact lines

theorem record (aligned : Aligned active m) (events : List Event) :
    Logs active [] m (m.record events) := by
  refine .of_same aligned rfl rfl ?_
  simp [Machine.record, Journal.record, Journal.traceLines, List.filterMap_map]

variable [Output σ]

theorem write (aligned : Aligned active m) (passage : Passage) (octets : Bytes) :
    Logs active [] m (m.write passage octets).2 :=
  .of_same aligned rfl rfl rfl

theorem flush (aligned : Aligned active m) : Logs active [] m m.flush.2 := by
  have written : Logs active [] m { m with output := (Output.flush m.output).2 } :=
    .of_same aligned rfl rfl rfl
  exact written.trans (record written.aligned _)

end Logs

/-- The message about a definition that the instruction makes. -/
def announcement? (m : Machine σ) : Instruction → Option Bytes
  | .define name body =>
    match m.words.lookup? name with
    | none => some (text "define " ++ name ++ text " " ++ Bytes.quoteList body)
    | some before =>
      some (text "redefine " ++ name ++ text " " ++ Bytes.quoteList body ++
        text " (was " ++ Bytes.quoteList before ++ text ")")
  | .constant name =>
    match m.stack, m.constants.lookup? name with
    | [], _ => none
    | value :: _, none =>
      some (text "define constant " ++ name ++ text " = " ++ decimal value.toInt)
    | value :: _, some before =>
      some (text "redefine constant " ++ name ++ text " = " ++ decimal value.toInt ++
        text " (was " ++ decimal before.toInt ++ text ")")
  | _ => none

/-- What an instruction that calls no word notes before it has succeeded. -/
def announcements (active : List Token) (announcement : Option Bytes) : List Note :=
  (announcement.map fun message => ⟨active, .definition, message⟩).toList

theorem Logs.perform [Output σ] {active : List Token} {m : Machine σ} (aligned : Aligned active m)
    {instruction : Instruction} (callsNothing : m.CallsNothing instruction)
    (call : Call σ) :
    Logs active (announcements active (m.announcement? instruction)) m
      (m.perform call instruction).2 := by
  cases instruction with
  | define name body =>
    have defined : Logs active [] m { m with words := m.words.define name body } :=
      .of_same aligned rfl rfl rfl
    simp only [Machine.perform, defineWord, announcement?]
    cases m.words.lookup? name with
    | none => exact defined.trans (.trace defined.aligned .definition _)
    | some before => exact defined.trans (.trace defined.aligned .definition _)
  | constant name =>
    simp only [Machine.perform, bindConstant, announcement?]
    cases cells : m.stack with
    | nil => exact .of_same aligned rfl rfl rfl
    | cons value rest =>
      have bound : Logs active [] m
          { m with stack := rest, constants := m.constants.define name value } :=
        .of_same aligned rfl rfl rfl
      simp only [Stack.pop, defineConstant]
      cases m.constants.lookup? name with
      | none => exact bound.trans (.trace bound.aligned .definition _)
      | some before => exact bound.trans (.trace bound.aligned .definition _)
  | print => exact .write aligned _ _
  | words => exact .write aligned _ _
  | say line => exact .write aligned _ _
  | refer token =>
    have undefined := callsNothing token rfl
    simp only [Machine.perform, refer]
    split
    next body meaning =>
      rw [meaning_eq_word_iff, undefined] at meaning
      cases meaning
    all_goals exact .of_same aligned rfl rfl rfl

end Machine

end LineForth
