import LineForth.Proofs.Courses
import LineForth.Proofs.Text.Readings

/-!
# The layout of dumps

A dump has one section for the words and one for the constants, each with a row for every name.
Whatever the course of the interpreter was, the names of a section are those of the log of
definitions, in the order of their first definitions and each with its latest one. The width of
the names is measured in octets and a row is filled up by characters. As no text has more
characters than octets, every name fits; as a space continues no character, the value behind it
is read for itself. So the values of a section line up, also for names that are no proper text.
-/

set_option autoImplicit false

namespace LineForth

namespace Utf8

theorem glyphs_space (more : Bytes) :
    glyphs (Bytes.space :: more) = .character ' ' :: glyphs more := by
  rw [glyphs_cons]
  rfl

theorem glyphs_spaces (count : Nat) (more : Bytes) :
    glyphs (List.replicate count Bytes.space ++ more) =
      List.replicate count (.character ' ') ++ glyphs more := by
  induction count with
  | zero => rfl
  | succ count inductionHypothesis =>
    rw [List.replicate_succ, List.cons_append, glyphs_space, inductionHypothesis,
      List.replicate_succ, List.cons_append]

/-- What stands before spaces is read for itself. -/
theorem glyphs_append_spaces (before : Bytes) (count : Nat) (more : Bytes) :
    glyphs (before ++ (List.replicate (count + 1) Bytes.space ++ more)) =
      glyphs before ++ (List.replicate (count + 1) (.character ' ') ++ glyphs more) := by
  have boundary : Boundary Bytes.space := .inl (by decide)
  rw [← glyphs_spaces, List.replicate_succ, List.cons_append, glyphs_append boundary]

end Utf8

namespace Dump

/-- A row up to its value. -/
def front (name : Bytes) (gap : Nat) : Bytes :=
  text "  " ++ (name ++ List.replicate (gap + 1) Bytes.space)

theorem glyphs_front_append (name : Bytes) (gap : Nat) (more : Bytes) :
    Utf8.glyphs (front name gap ++ more) =
      .character ' ' :: .character ' ' ::
        (Utf8.glyphs name ++ (List.replicate (gap + 1) (.character ' ') ++ Utf8.glyphs more)) := by
  have margin : text "  " = [Bytes.space, Bytes.space] := by decide
  rw [front, margin, List.append_assoc, List.append_assoc, List.cons_append, List.singleton_append,
    Utf8.glyphs_space, Utf8.glyphs_space, Utf8.glyphs_append_spaces]

theorem glyphs_front (name : Bytes) (gap : Nat) :
    Utf8.glyphs (front name gap) =
      .character ' ' :: .character ' ' ::
        (Utf8.glyphs name ++ List.replicate (gap + 1) (.character ' ')) := by
  have read := glyphs_front_append name gap []
  rw [List.append_nil] at read
  rw [read]
  simp [Utf8.glyphs, Utf8.glyphsAfter]

/-- The row shows a name and its value, which starts behind so many characters. -/
def Shows (offset : Nat) (name value row : Bytes) : Prop :=
  ∃ gap, row = front name gap ++ (value ++ [Bytes.newline]) ∧
    Utf8.count (front name gap) = offset ∧
    Utf8.glyphs row = Utf8.glyphs (front name gap) ++ Utf8.glyphs (value ++ [Bytes.newline])

theorem row_eq {width : Nat} (wide : width ≤ widestColumn) (name value : Bytes) :
    row width name value =
      front name (width - Utf8.count name) ++ (value ++ [Bytes.newline]) := by
  have blank : text " " = [Bytes.space] := by decide
  simp only [row, pad, if_pos wide, front, blank, List.replicate_succ', List.append_assoc]

theorem shows_row {width : Nat} (wide : width ≤ widestColumn) {name : Bytes}
    (fits : name.length ≤ width) (value : Bytes) :
    Shows (width + 3) name value (row width name value) := by
  have narrow := (Utf8.count_le_length name).trans fits
  refine ⟨width - Utf8.count name, row_eq wide name value, ?_, ?_⟩
  · rw [Utf8.count, glyphs_front]
    simp only [List.length_cons, List.length_append, List.length_replicate]
    rw [← Utf8.count]
    omega
  · rw [row_eq wide, glyphs_front_append, glyphs_front]
    simp only [List.cons_append, List.append_assoc]

theorem columnWidth_le_iff {names : List Bytes} {bound : Nat} :
    columnWidth names ≤ bound ↔ ∀ name ∈ names, name.length ≤ bound := by
  have widest (width : Nat) : (names.map List.length).foldl Nat.max width ≤ bound ↔
      width ≤ bound ∧ ∀ name ∈ names, name.length ≤ bound := by
    induction names generalizing width with
    | nil => simp
    | cons name rest inductionHypothesis =>
      rw [List.map_cons, List.foldl_cons, inductionHypothesis, List.forall_mem_cons, ← and_assoc]
      exact and_congr_left' Nat.max_le
  rw [columnWidth, widest]
  exact and_iff_right (Nat.zero_le _)

/-- The lines of a section. Without a name there is none; otherwise each name has its row behind
the heading, in order, and all values start behind the same number of characters. -/
inductive Tabulates (title : Bytes) (value? : Bytes → Option Bytes) :
    (names lines : List Bytes) → Prop
  | empty : Tabulates title value? [] []
  | rows {names rows : List Bytes} (offset : Nat) (named : names ≠ [])
      (shown : List.Forall₂
        (fun name row => ∃ value, value? name = some value ∧ Shows offset name value row)
        names rows) :
      Tabulates title value? names (heading title :: rows)

end Dump

namespace Table

variable {α : Type} {table : Table α} {log : Log α}

/-- The section of a table is that of its log. -/
theorem Holds.tabulates (holds : table.Holds log)
    (short : ∀ name ∈ table.names, name.length ≤ Dump.widestColumn) (title : Bytes)
    (render : α → Bytes) (unknown : α) :
    Dump.Tabulates title (fun name => (log.latest? name).map render) log.names
      (Dump.block title table.names fun name => render ((table.lookup? name).getD unknown)) := by
  rw [← holds.names, Dump.block]
  split
  next empty =>
    rw [List.isEmpty_iff.mp empty]
    exact .empty
  next named =>
    refine .rows (Dump.columnWidth table.names + 3) (by simpa using named) ?_
    rw [List.forall₂_map_right_iff, List.forall₂_same]
    intro name membership
    obtain ⟨value, found⟩ := Option.isSome_iff_exists.mp (mem_names_iff.mp membership)
    refine ⟨render value, ?_, ?_⟩
    · rw [← holds.lookup?, found, Option.map_some]
    · rw [found, Option.getD_some]
      exact Dump.shows_row (Dump.columnWidth_le_iff.mpr short)
        (Dump.columnWidth_le_iff.mp (Nat.le_refl _) _ membership) _

end Table

namespace Course

open Interpreter (OnConsole)

/-- The dump of an interpreter after any course has a section for the words exactly if a word
was defined, and likewise for the constants. A section has one row for each name that was
defined, in the order of the first definitions, with what the name was last defined as, and
the values of a section all start behind the same number of characters. This is so however
bodies are rendered. -/
theorem dump_tabulates {annals : Annals} {state : OnConsole} (course : Course annals state)
    (render : List Token → Bytes)
    (short : ∀ name ∈ state.machine.words.names ++ state.machine.constants.names,
      name.length ≤ 1000000) :
    let words := Definition.words annals.definitions
    let constants := Definition.constants annals.definitions
    words.names.Nodup ∧ constants.names.Nodup ∧
    ∃ wordLines constantLines,
      state.machine.dumpLines render =
        [Dump.heading (text "Interp Dump"),
          text "  depth: " ++ decimalNat state.machine.depth ++ text "/" ++
            decimalNat state.machine.maxDepth ++ [Bytes.newline],
          text "  stack: " ++ state.machine.stack.render ++ [Bytes.newline]] ++
        wordLines ++ constantLines ∧
      state.machine.dump render = (state.machine.dumpLines render).flatten ∧
      Dump.Tabulates (text "Words") (fun name => (words.latest? name).map render)
        words.names wordLines ∧
      Dump.Tabulates (text "Constants")
        (fun name => (constants.latest? name).map fun value => decimal value.toInt)
        constants.names constantLines := by
  obtain ⟨words, constants⟩ := course.records
  rw [List.forall_mem_append] at short
  refine ⟨?_, ?_, _, _, rfl, rfl, ?_, ?_⟩
  · rw [← words.names]
    exact state.machine.words.nodup_names
  · rw [← constants.names]
    exact state.machine.constants.nodup_names
  · exact words.tabulates short.1 _ _ _
  · exact constants.tabulates short.2 _ _ _

/-- A name of two octets that is one character, and a name that is no text. -/
def oddNames : OnConsole :=
  let accented := (Session.perform (.word [0xC3, 0xA9] [text "1"]) Interpreter.initial).2
  (Session.perform (.word [0xFF] [text "8", text "constant", text "n"]) accented).2

/-- The last token calls a word that defines the constant again. -/
def oddLine : Bytes := text ": sq dup * ; 7 constant n " ++ [0xFF]

def oddDefinitions : List Definition :=
  [.word [0xC3, 0xA9] [text "1"], .word [0xFF] [text "8", text "constant", text "n"],
    .word (text "sq") [text "dup", text "*"], .constant (text "n") 7, .constant (text "n") 8]

theorem dump_tabulates_oddNames :
    Course ⟨[], [], oddDefinitions⟩ (oddNames.eval oddLine).2 ∧
      ∃ wordLines constantLines,
        (oddNames.eval oddLine).2.machine.dumpLines Dump.renderBody =
          [text "# Interp Dump\n", text "  depth: 0/1024\n", text "  stack: []\n"] ++
            wordLines ++ constantLines ∧
        Dump.Tabulates (text "Words")
          (fun name => ((Definition.words oddDefinitions).latest? name).map Dump.renderBody)
          [[0xC3, 0xA9], [0xFF], text "sq"] wordLines ∧
        Dump.Tabulates (text "Constants")
          (fun name => ((Definition.constants oddDefinitions).latest? name).map
            fun value => decimal value.toInt)
          [text "n"] constantLines := by
  have line : oddNames.machine.definitions oddLine = oddDefinitions.drop 2 := by decide +kernel
  have annals : (⟨[], [], oddDefinitions⟩ : Annals) =
      Annals.define ⟨[], [], oddDefinitions.take 2⟩ (oddNames.machine.definitions oddLine) := by
    rw [line]
    rfl
  have course : Course ⟨[], [], oddDefinitions⟩ (oddNames.eval oddLine).2 := by
    rw [annals]
    exact ((start.word _ _).word _ _).eval oddLine
  have short : ∀ name ∈ (oddNames.eval oddLine).2.machine.words.names ++
      (oddNames.eval oddLine).2.machine.constants.names, name.length ≤ 1000000 := by
    decide +kernel
  obtain ⟨-, -, wordLines, constantLines, lines, -, words, constants⟩ :=
    dump_tabulates course Dump.renderBody short
  have top : [Dump.heading (text "Interp Dump"),
      text "  depth: " ++ decimalNat (oddNames.eval oddLine).2.machine.depth ++ text "/" ++
        decimalNat (oddNames.eval oddLine).2.machine.maxDepth ++ [Bytes.newline],
      text "  stack: " ++ (oddNames.eval oddLine).2.machine.stack.render ++ [Bytes.newline]] =
      [text "# Interp Dump\n", text "  depth: 0/1024\n", text "  stack: []\n"] := by
    decide +kernel
  exact ⟨course, wordLines, constantLines, top ▸ lines, words, constants⟩

end Course

end LineForth
