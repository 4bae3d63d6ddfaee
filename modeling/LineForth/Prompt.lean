import LineForth.Command.Directory
import LineForth.Text.Blank

/-!
# Prompted input with history

Lines are asked for with a prompt. How a line is typed and which lines are remembered is
the affair of a line editor: a line that is not blank is handed to it for its history,
which is read from a file at the start and written back to it at the end. An editor on
redirected input takes the lines as they come.
-/

set_option autoImplicit false

namespace LineForth

/-- What asking for a line comes to. -/
inductive Reply where
  | line (line : Bytes)
  /-- The line was given up while it was typed. -/
  | aborted
  | failed (failure : Failure)
  deriving DecidableEq, Repr

class LineEditor (ε : Type) where
  readHistory : Bytes → ε → ε
  ask : (prompt : Bytes) → ε → Reply × ε
  appendHistory : Bytes → ε → ε
  /-- The history as it is written to a file. -/
  history : ε → Bytes
  /-- The failure of closing, if there is one. -/
  close : ε → Option Failure

structure Prompt (ε : Type) where
  text : Bytes
  /-- The file that keeps the history; empty for none. -/
  historyFile : Bytes
  editor : ε
  deriving DecidableEq, Repr

namespace Prompt

section Editor

variable {ε : Type} [LineEditor ε]

/-- A history file that cannot be opened is passed over. -/
def opened (promptText historyFile : Bytes) (editor : ε) (directory : Directory) : Prompt ε :=
  let started :=
    if historyFile.isEmpty then editor
    else
      match directory.find historyFile with
      | .ok (.file _ content) => LineEditor.readHistory content editor
      | _ => editor
  ⟨promptText, historyFile, started⟩

/-- A line that was given up counts as an empty one. -/
def readLine (prompt : Prompt ε) : Except Failure Bytes × Prompt ε :=
  match LineEditor.ask prompt.text prompt.editor with
  | (.aborted, after) => (.ok [], { prompt with editor := after })
  | (.failed failure, after) => (.error failure, { prompt with editor := after })
  | (.line line, after) =>
    let remembering := if line.isBlank then after else LineEditor.appendHistory line after
    (.ok line, { prompt with editor := remembering })

/-- Reads at most `count` lines and stops behind the end of the input. -/
def readLines : (count : Nat) → Prompt ε → List (Except Failure Bytes) × Prompt ε
  | 0, prompt => ([], prompt)
  | count + 1, prompt =>
    match prompt.readLine with
    | (.error .endOfInput, after) => ([.error .endOfInput], after)
    | (result, after) =>
      let (results, last) := readLines count after
      (result :: results, last)

/-- Saves the history, if there is a file for it, and closes the editor. The first failure
is reported. -/
def close (prompt : Prompt ε) (directory : Directory) : Except Failure Unit × Directory :=
  let (saved, after) :=
    if prompt.historyFile.isEmpty then (.ok (), directory)
    else directory.createFile prompt.historyFile (LineEditor.history prompt.editor)
  match saved, LineEditor.close prompt.editor with
  | .ok _, some failure => (.error failure, after)
  | _, _ => (saved, after)

end Editor

end Prompt

/-- Lines, oldest first. -/
abbrev History := List Bytes

namespace History

def limit : Nat := 1000

/-- Adds a line, and drops the oldest one beyond the limit. -/
def append (history : History) (line : Bytes) : History :=
  let longer := history ++ [line]
  if limit < longer.length then longer.drop 1 else longer

/-- Adds a line unless it repeats the last one. -/
def remember (history : History) (line : Bytes) : History :=
  if history.getLast? = some line then history else history.append line

def render (history : History) : Bytes := history.flatMap fun line => line ++ [Bytes.newline]

end History

/-- A line, or a piece of one that is too long for the window. -/
structure LinePiece where
  octets : Bytes
  complete : Bool
  rest : Bytes
  deriving DecidableEq, Repr

namespace LinePiece

def window : Nat := 4096

/-- The line without its newline, and without the carriage return before it. -/
def dropEnding (line : Bytes) : Bytes :=
  let body := line.dropLast
  if body.getLast? = some Bytes.carriageReturn then body.dropLast else body

/-- Reads the next piece. A carriage return at the end of a full window is left
for the next piece, because a newline may follow it. -/
def next? (octets : Bytes) : Option LinePiece :=
  if octets.isEmpty then none
  else
    match Bytes.cutLine? (octets.take window) with
    | some (line, rest) => some ⟨dropEnding line, true, rest ++ octets.drop window⟩
    | none =>
      if octets.length < window then some ⟨octets, true, []⟩
      else if (octets.take window).getLast? = some Bytes.carriageReturn then
        some ⟨octets.take (window - 1), false, octets.drop (window - 1)⟩
      else some ⟨octets.take window, false, octets.drop window⟩

theorem length_next? {octets : Bytes} {piece : LinePiece} (found : next? octets = some piece) :
    piece.rest.length < octets.length := by
  unfold next? at found
  split at found
  · simp at found
  next nonempty =>
    have positive : 0 < octets.length := by
      cases octets with
      | nil => simp at nonempty
      | cons => simp
    split at found
    next line rest cut =>
      simp only [Option.some.injEq] at found
      have whole := congrArg List.length (Bytes.append_of_cutLine? cut)
      have longer := List.length_pos_iff.mpr (Bytes.ne_nil_of_cutLine? cut)
      simp only [List.length_append, List.length_take] at whole
      simp only [← found, List.length_append, List.length_drop]
      omega
    next cut =>
      split at found
      · simp only [Option.some.injEq] at found
        simpa [← found] using positive
      · unfold window at *
        split at found <;>
          (simp only [Option.some.injEq] at found
           simp only [← found, List.length_drop]
           omega)

end LinePiece

namespace History

/-- Reads a history file up to the first line that is too long or not well-formed
UTF-8. -/
def load (history : History) (octets : Bytes) : History :=
  match _found : LinePiece.next? octets with
  | none => history
  | some piece =>
    if piece.complete && Utf8.isValid piece.octets then
      load (history.append piece.octets) piece.rest
    else history
termination_by octets.length
decreasing_by exact LinePiece.length_next? _found

end History

/-- An editor on input that is not typed, and that is not edited. -/
structure Redirected where
  history : History
  /-- Input not read yet. -/
  input : Bytes
  /-- What has been printed. -/
  printed : Bytes
  deriving DecidableEq, Repr

namespace Redirected

/-- A prompt may not hold control or format characters. -/
def isValid (prompt : Bytes) : Bool :=
  (Utf8.glyphs prompt).all fun glyph => !isFormat glyph.char

def ask (prompt : Bytes) (editor : Redirected) : Reply × Redirected :=
  if isValid prompt then
    let printed := { editor with printed := editor.printed ++ prompt }
    match LinePiece.next? editor.input with
    | none => (.failed .endOfInput, printed)
    | some piece => (.line piece.octets, { printed with input := piece.rest })
  else (.failed (.other (text "invalid prompt")), editor)

instance : LineEditor Redirected where
  readHistory content editor := { editor with history := editor.history.load content }
  ask := ask
  appendHistory line editor := { editor with history := editor.history.remember line }
  history editor := editor.history.render
  close _ := none

end Redirected

namespace Prompt

def start (promptText historyFile input : Bytes) (directory : Directory) : Prompt Redirected :=
  opened promptText historyFile ⟨[], input, []⟩ directory

def printed (prompt : Prompt Redirected) : Bytes := prompt.editor.printed

end Prompt

end LineForth
