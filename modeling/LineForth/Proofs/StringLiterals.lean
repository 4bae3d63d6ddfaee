import LineForth.Proofs.Constructs
import LineForth.Proofs.LineByLine
import LineForth.Proofs.Storage
import LineForth.Proofs.Text.Trimming

/-!
# String literals

A text without quotes stands between an opening token and a quote. It is torn into tokens
like the rest of the line and put together again, with a space for each one that was cut at.
So it is put out as it stands, but for a space at its very end: the token behind that space
is the quote alone, and it adds nothing. White space inside the text is kept as long as
none of it is trimmed, that is, as long as each piece between spaces is left by trimming.
-/

set_option autoImplicit false

namespace LineForth

namespace Bytes

def doubleQuote : UInt8 := 0x22

/-- Without the space at the end, if there is one there. -/
def withoutEndSpace (octets : Bytes) : Bytes :=
  if octets.getLast? = some space then octets.dropLast else octets

theorem join_concat {pieces : List Bytes} (nonempty : pieces ≠ []) (separator last : Bytes) :
    join separator (pieces ++ [last]) = join separator pieces ++ separator ++ last := by
  induction pieces with
  | nil => exact absurd rfl nonempty
  | cons piece rest inductionHypothesis =>
    cases rest with
    | nil => rfl
    | cons next others =>
      have later := inductionHypothesis (by simp)
      simp only [List.cons_append, join] at later ⊢
      rw [later]
      simp

theorem suffix_join (separator : Bytes) (pieces : List Bytes) (last : Bytes) :
    last <:+ join separator (pieces ++ [last]) := by
  cases pieces with
  | nil => exact List.suffix_refl last
  | cons piece others =>
    rw [join_concat (by simp)]
    exact List.suffix_append _ _

theorem infix_join (separator : Bytes) {pieces : List Bytes} {piece : Bytes}
    (membership : piece ∈ pieces) : piece <:+: join separator pieces := by
  induction pieces with
  | nil => cases membership
  | cons first rest inductionHypothesis =>
    cases rest with
    | nil =>
      rw [List.mem_singleton.mp membership]
      exact List.infix_refl first
    | cons next others =>
      simp only [join, List.append_assoc]
      rcases List.mem_cons.mp membership with rfl | later
      · exact (List.prefix_append piece _).isInfix
      · have behind := (inductionHypothesis later).trans (List.suffix_append separator _).isInfix
        exact behind.trans (List.suffix_append first _).isInfix

theorem infix_of_mem_fields {separator : UInt8} {octets piece : Bytes}
    (membership : piece ∈ fields separator octets) : piece <:+: octets := by
  have inside := infix_join [separator] membership
  rwa [join_fields] at inside

/-- What is put behind the last separator belongs to the last piece. -/
theorem exists_fields_append {separator : UInt8} {ending : Bytes} (absent : separator ∉ ending)
    (octets : Bytes) :
    ∃ pieces last, fields separator octets = pieces ++ [last] ∧
      fields separator (octets ++ ending) = pieces ++ [last ++ ending] := by
  induction octets with
  | nil => exact ⟨[], [], rfl, fields_of_not_mem absent⟩
  | cons octet rest inductionHypothesis =>
    obtain ⟨pieces, last, before, after⟩ := inductionHypothesis
    by_cases same : octet = separator
    · refine ⟨[] :: pieces, last, ?_, ?_⟩
      · simp only [fields, if_pos same, before, List.cons_append]
      · simp only [fields, List.cons_append, if_pos same, after]
    · cases pieces with
      | nil =>
        refine ⟨[], octet :: last, ?_, ?_⟩
        · simp only [fields, if_neg same, before, List.nil_append]
        · simp only [fields, List.cons_append, if_neg same, after, List.nil_append]
      | cons piece others =>
        refine ⟨(octet :: piece) :: others, last, ?_, ?_⟩
        · simp only [fields, if_neg same, before, List.cons_append]
        · simp only [fields, List.cons_append, if_neg same, after]

theorem trimStart_of_trim {octets : Bytes} (trimmed : octets.trim = octets) :
    octets.trimStart = octets := by
  have shorter := (trimStart_suffix_self octets).length_le
  have longer := (trimEnd_prefix_self octets.trimStart).length_le
  rw [show octets.trimStart.trimEnd = octets from trimmed] at longer
  exact (trimStart_suffix_self octets).eq_of_length (Nat.le_antisymm shorter longer)

/-- An octet that shows may be put behind a byte string without making it one to be
trimmed. -/
theorem trim_concat {octets : Bytes} (trimmed : octets.trim = octets) {octet : UInt8}
    (graphic : Graphic octet) : trim (octets ++ [octet]) = octets ++ [octet] := by
  have hidden : ∀ sequence ∈ Blank.encodings, octet ∉ sequence := by
    intro sequence membership inside
    have unseen : ∀ sequence ∈ Blank.encodings, ∀ octet ∈ sequence, ¬ Graphic octet := by
      decide +kernel
    exact unseen sequence membership octet inside graphic
  have front := Blank.leading_strip Blank.encodings 0 octets
  rw [show Blank.strip Blank.encodings 0 octets = octets from trimStart_of_trim trimmed,
    Blank.leading_eq_zero_iff Blank.solid_encodings] at front
  have start : trimStart (octets ++ [octet]) = octets ++ [octet] := by
    apply Blank.strip_of_leading
    rw [Blank.leading_eq_zero_iff Blank.solid_encodings]
    intro sequence membership stands
    rcases List.prefix_concat_iff.mp stands with whole | shorter
    · exact hidden sequence membership (by simp [whole])
    · exact front sequence membership shorter
  have ends : trimEnd (octets ++ [octet]) = octets ++ [octet] := by
    unfold trimEnd
    rw [Blank.strip_of_leading, List.reverse_reverse]
    rw [Blank.leading_eq_zero_iff (by simpa using Blank.solid_encodings)]
    intro reversed membership stands
    obtain ⟨sequence, listed, rfl⟩ := List.mem_map.mp membership
    rw [List.reverse_append] at stands
    cases cells : sequence.reverse with
    | nil =>
      rw [List.reverse_eq_nil_iff] at cells
      exact Blank.solid_encodings (cells ▸ listed)
    | cons last others =>
      rw [cells] at stands
      obtain ⟨rfl, -⟩ := List.cons_prefix_cons.mp stands
      exact hidden sequence listed (List.mem_reverse.mp (by simp [cells]))
  rw [trim, start, ends]

end Bytes

/-- A line that is a string literal. -/
def literalLine (shown : Bytes) : Bytes :=
  Token.quotation ++ Bytes.space :: (shown ++ [Bytes.doubleQuote])

namespace Pending

/-- The pieces of a text and the quote behind its last piece make up the text again. -/
theorem closeString_pieces {shown : Bytes} {pieces : List Bytes} {last : Bytes}
    (split : Bytes.fields Bytes.space shown = pieces ++ [last]) :
    closeString pieces.reverse (last ++ [Bytes.doubleQuote]) = shown.withoutEndSpace := by
  have joined := Bytes.join_fields Bytes.space shown
  rw [split] at joined
  have unspaced : Bytes.space ∉ last :=
    Bytes.separator_not_mem_of_mem_fields (by rw [split]; simp)
  cases last with
  | nil =>
    have closing : ([] ++ [Bytes.doubleQuote] : Bytes) = Token.quoteMark := by decide
    rw [closeString, if_pos closing, List.reverse_reverse]
    cases pieces with
    | nil =>
      cases joined
      rfl
    | cons piece others =>
      rw [Bytes.join_concat (by simp), List.append_nil] at joined
      rw [Bytes.withoutEndSpace, ← joined]
      simp
  | cons octet rest =>
    have solid : octet :: rest ++ [Bytes.doubleQuote] ≠ Token.quoteMark := by
      intro same
      have shorter := congrArg List.length same
      simp [Token.quoteMark, text] at shorter
    rw [closeString, if_neg solid, List.dropLast_concat, List.reverse_cons, List.reverse_reverse,
      joined, Bytes.withoutEndSpace, if_neg]
    intro spaced
    obtain ⟨front, whole⟩ := Bytes.suffix_join [Bytes.space] pieces (octet :: rest)
    rw [joined] at whole
    rw [← whole, List.getLast?_append_of_ne_nil _ (by simp)] at spaced
    exact unspaced (List.mem_of_getLast? spaced)

end Pending

section Text

variable {shown : Bytes} (unquoted : Bytes.doubleQuote ∉ shown)
  (fixed : ∀ piece ∈ Bytes.fields Bytes.space shown, piece.trim = piece)

theorem endsWith_quoteMark (octets : Bytes) :
    Bytes.endsWith octets Token.quoteMark = true ↔ octets.getLast? = some Bytes.doubleQuote := by
  have mark : Token.quoteMark = [Bytes.doubleQuote] := by decide
  rw [mark, Bytes.endsWith, List.isSuffixOf_iff_suffix, List.singleton_suffix_iff_getLast?_eq_some]

include fixed in
theorem exists_tokenize_literalLine :
    ∃ pieces last, Bytes.fields Bytes.space shown = pieces ++ [last] ∧
      tokenize (literalLine shown) =
        Token.quotation :: (pieces ++ [last ++ [Bytes.doubleQuote]]) := by
  have opened : tokenize Token.quotation = [Token.quotation] := by decide +kernel
  have unspaced : Bytes.space ∉ [Bytes.doubleQuote] := by decide
  obtain ⟨pieces, last, split, closed⟩ := Bytes.exists_fields_append unspaced shown
  refine ⟨pieces, last, split, ?_⟩
  rw [split] at fixed
  have kept : pieces.map Bytes.trim = pieces := by
    rw [List.map_congr_left fun piece membership => fixed piece (by simp [membership])]
    exact List.map_id' pieces
  have graphic : Bytes.Graphic Bytes.doubleQuote := by decide
  have quoted := Bytes.trim_concat (fixed last (by simp)) graphic
  rw [literalLine, tokenize_append, opened, tokenize, closed, List.map_append, kept,
    List.map_singleton, quoted, List.singleton_append]

include unquoted in
theorem not_endsWith_quoteMark {piece : Bytes}
    (membership : piece ∈ Bytes.fields Bytes.space shown) :
    Bytes.endsWith piece Token.quoteMark = false := by
  rw [Bool.eq_false_iff, ne_eq, endsWith_quoteMark]
  intro ends
  exact unquoted ((Bytes.infix_of_mem_fields membership).mem (List.mem_of_getLast? ends))

/-- A string goes on up to a token that ends in a quote. -/
theorem Program.begins_string {pieces : List Token}
    (unclosed : ∀ piece ∈ pieces, Bytes.endsWith piece Token.quoteMark = false) {closing : Token}
    (closes : Bytes.endsWith closing Token.quoteMark = true) (reversed rest : List Token) :
    Begins (.string reversed) (pieces ++ closing :: rest)
      (.say (Pending.closeString (pieces.reverse ++ reversed) closing)) rest := by
  induction pieces generalizing reversed with
  | nil =>
    apply Begins.of_complete
    rw [Pending.feed, if_pos closes]
    rfl
  | cons piece others inductionHypothesis =>
    rw [List.forall_mem_cons] at unclosed
    have further : (Pending.string reversed).feed piece =
        .pending (.string (piece :: reversed)) := by
      simp [Pending.feed, unclosed.1]
    have later := inductionHypothesis unclosed.2 (piece :: reversed)
    rw [List.reverse_cons, List.append_assoc]
    exact later.of_pending further

include unquoted fixed in
/-- The literal is read into one instruction, and the tokens behind it are read as if it were
not there. -/
theorem ofTokens_literalLine (rest : List Token) :
    Program.ofTokens (tokenize (literalLine shown) ++ rest) =
      ⟨.say shown.withoutEndSpace :: (Program.ofTokens rest).instructions,
        (Program.ofTokens rest).ending⟩ := by
  obtain ⟨pieces, last, split, tokens⟩ := exists_tokenize_literalLine fixed
  have unclosed : ∀ piece ∈ pieces, Bytes.endsWith piece Token.quoteMark = false := by
    intro piece membership
    exact not_endsWith_quoteMark unquoted (by simp [split, membership])
  have closes : Bytes.endsWith (last ++ [Bytes.doubleQuote]) Token.quoteMark = true := by
    rw [endsWith_quoteMark, List.getLast?_concat]
  have begins := (Program.begins_string unclosed closes [] rest).of_pending Pending.feed_quotation
  rw [List.append_nil, Pending.closeString_pieces split] at begins
  rw [tokens, List.cons_append, List.append_assoc, List.singleton_append]
  exact begins.2

end Text

namespace Machine

variable {σ ν : Type} [Output σ] {reliable : Reliable σ ν} {m : Machine σ}

theorem Agrees.trans {m' m'' : Machine σ} (first : Agrees reliable m m')
    (second : Agrees reliable m' m'') : Agrees reliable m m'' :=
  ⟨first.toAlike.trans second.toAlike, second.maxDepth.trans first.maxDepth,
    second.echo.trans first.echo⟩

/-- What the tokens of a line come to decides what the line comes to, up to likeness. -/
theorem eval_agrees_conclude (intact : reliable.intact m.output) {line : Bytes}
    (result : Outcome × Machine σ) (outcome : (m.evalTokens (tokenize line)).1 = result.1)
    (alike : Alike reliable result.2 (m.evalTokens (tokenize line)).2)
    (settings : SameSettings m result.2) :
    (m.eval line).1 = (conclude result).1 ∧
      Agrees reliable (conclude result).2 (m.eval line).2 := by
  obtain ⟨same, evaluated⟩ := evalLine_alike (.refl intact) rfl line
  have kept : (m.evalLine line).2.echo = result.2.echo := by
    rw [(SameSettings.framing.evalLine line m).echo, settings.echo]
  obtain ⟨expected, actual, concluded⟩ := (alike.trans evaluated).conclude kept result.1
  have whole : (result.1, (m.evalLine line).2) = m.evalLine line :=
    Prod.ext (outcome.symm.trans same.symm) rfl
  rw [whole] at actual concluded
  have left := settings.trans (SameSettings.lineFraming.conclude result)
  have right := SameSettings.eval line m
  exact ⟨actual.trans expected.symm, concluded, right.maxDepth.trans left.maxDepth.symm,
    right.echo.trans left.echo.symm⟩

/-- A line without a failure ends in the echo of the stack. -/
theorem conclude_done (intact : reliable.intact m.output) :
    (conclude (.done, m)).1 = .done ∧ Agrees reliable m.echoStack.2 (conclude (.done, m)).2 := by
  obtain ⟨done, -, echoed⟩ := (Alike.refl intact).echoStack rfl
  have echoes : conclude (.done, m) = finish (m.echoStack.1, m.echoStack.2) := rfl
  rw [echoes, done, finish_of_intact (by simp) echoed.intact]
  exact ⟨rfl, .flush echoed.intact, rfl, rfl⟩

section Literal

variable {shown : Bytes} (unquoted : Bytes.doubleQuote ∉ shown)
  (fixed : ∀ piece ∈ Bytes.fields Bytes.space shown, piece.trim = piece)

include unquoted fixed in
/-- A literal is put out, and the tokens behind it are evaluated after that. -/
theorem execute_literalLine {call : Call σ} (done : (m.say shown.withoutEndSpace).1 = .done)
    (rest : List Token) :
    m.execute call (tokenize (literalLine shown) ++ rest) =
      ((m.say shown.withoutEndSpace).2.traceRule (text "string") Token.quotation).execute call
        rest := by
  have performed : (m.perform call (.say shown.withoutEndSpace)).1 = .done := done
  rw [execute, ofTokens_literalLine unquoted fixed, performAll_cons_of_done performed]
  rfl

include unquoted fixed in
theorem evalTokens_literalLine (done : (m.say shown.withoutEndSpace).1 = .done)
    (rest : List Token) :
    m.evalTokens (tokenize (literalLine shown) ++ rest) =
      ((m.say shown.withoutEndSpace).2.traceRule (text "string") Token.quotation).evalTokens
        rest := by
  have depth : (m.say shown.withoutEndSpace).2.depth = m.depth := rfl
  have maxDepth : (m.say shown.withoutEndSpace).2.maxDepth = m.maxDepth := rfl
  unfold evalTokens
  rw [execute_literalLine unquoted fixed done, traceRule, trace_maxDepth, trace_depth, depth,
    maxDepth]

end Literal

section Said

variable {said : Machine σ} {line : Bytes} (intact : reliable.intact m.output)
  (still : reliable.intact said.output) (settings : SameSettings m said)

include intact still settings

/-- A line is done when its tokens have only put something out. -/
theorem eval_of_evalTokens_said {rule : Bytes} {token : Token}
    (tokens : m.evalTokens (tokenize line) = (.done, said.traceRule rule token)) :
    (m.eval line).1 = .done ∧ Agrees reliable said.echoStack.2 (m.eval line).2 := by
  have traced : Alike reliable said (said.traceRule rule token) :=
    (Alike.refl still).trace_right _ _
  obtain ⟨done, echoed⟩ := conclude_done still
  obtain ⟨outcome, evaluated⟩ := eval_agrees_conclude intact (.done, said) (by rw [tokens])
    (by rw [tokens]; exact traced) settings
  exact ⟨outcome.trans done, echoed.trans evaluated⟩

/-- A line goes on like another one when its first tokens have only put something out. -/
theorem eval_of_evalTokens_eq {rule : Bytes} {token : Token} {rest : Bytes}
    (tokens : m.evalTokens (tokenize line) =
      (said.traceRule rule token).evalTokens (tokenize rest)) :
    (m.eval line).1 = (said.eval rest).1 ∧ Agrees reliable (said.eval rest).2 (m.eval line).2 := by
  have traced : Alike reliable (said.traceRule rule token) said :=
    ((Alike.refl still).trace_right _ _).symm
  obtain ⟨outcome, evaluated⟩ := evalLine_alike traced (by simp [traceRule]) rest
  have kept := settings.trans (SameSettings.framing.evalLine rest said)
  rw [← tokens] at outcome evaluated
  exact eval_agrees_conclude intact (said.evalLine rest) outcome.symm evaluated.symm kept

end Said

/-- On an output that never fails, a text without quotes that has no white space to be trimmed
is put out as a line, without the space at its end if it has one. Nothing else is changed, and
what follows the literal on its line is evaluated as if it were alone there. Only the trace
can tell the difference. -/
theorem eval_literalLine (reliable : Reliable σ ν) {m : Machine σ}
    (intact : reliable.intact m.output) {shown : Bytes} (unquoted : Bytes.doubleQuote ∉ shown)
    (fixed : ∀ piece ∈ Bytes.fields Bytes.space shown, piece.trim = piece) (rest : Bytes) :
    ∃ said : Machine σ,
      said = { m with output := (Output.write .staged
        (shown.withoutEndSpace ++ [Bytes.newline]) m.output).2 } ∧
      reliable.view said.output =
        reliable.extend (shown.withoutEndSpace ++ [Bytes.newline]) (reliable.view m.output) ∧
      m.evalTokens (tokenize (literalLine shown)) =
        (.done, said.traceRule (text "string") Token.quotation) ∧
      m.evalTokens (tokenize (literalLine shown ++ Bytes.space :: rest)) =
        (said.traceRule (text "string") Token.quotation).evalTokens (tokenize rest) ∧
      (m.eval (literalLine shown)).1 = .done ∧
      Agrees reliable said.echoStack.2 (m.eval (literalLine shown)).2 ∧
      (m.eval (literalLine shown ++ Bytes.space :: rest)).1 = (said.eval rest).1 ∧
      Agrees reliable (said.eval rest).2
        (m.eval (literalLine shown ++ Bytes.space :: rest)).2 := by
  have done : (m.say shown.withoutEndSpace).1 = .done := reliable.write_done _ _ intact
  have alone := evalTokens_literalLine unquoted fixed done []
  have joined := evalTokens_literalLine unquoted fixed done (tokenize rest)
  rw [List.append_nil] at alone
  rw [← tokenize_append] at joined
  have changed : (m.say shown.withoutEndSpace).2 = { m with output := (Output.write .staged
      (shown.withoutEndSpace ++ [Bytes.newline]) m.output).2 } := rfl
  have view : reliable.view (m.say shown.withoutEndSpace).2.output = _ :=
    reliable.view_write .staged (shown.withoutEndSpace ++ [Bytes.newline]) intact
  have still : reliable.intact (m.say shown.withoutEndSpace).2.output :=
    reliable.write_intact _ _ intact
  have settings : SameSettings m (m.say shown.withoutEndSpace).2 := ⟨rfl, rfl, rfl, rfl, rfl, rfl⟩
  generalize (m.say shown.withoutEndSpace).2 = said at *
  refine ⟨said, changed, view, alone, joined, ?_⟩
  obtain ⟨outcome, evaluated⟩ := eval_of_evalTokens_said intact still settings alone
  exact ⟨outcome, evaluated, eval_of_evalTokens_eq intact still settings joined⟩

/-- Spaces in front and between, a tabulator and a space at the end. -/
theorem eval_literalLine_twoDevices :
    Bytes.doubleQuote ∉ text "  a\tb   c " ∧
      (∀ piece ∈ Bytes.fields Bytes.space (text "  a\tb   c "), piece.trim = piece) ∧
      ∃ said : Machine Console,
        said = { initial twoDevices with output := (Output.write .staged
          (text "  a\tb   c\n") twoDevices).2 } ∧
        Console.reliable.view said.output = [text "  a\tb   c\n", text "  a\tb   c\n"] ∧
        ((initial twoDevices).eval (text ".\"   a\tb   c \"")).1 = .done ∧
        Agrees Console.reliable said.echoStack.2
          ((initial twoDevices).eval (text ".\"   a\tb   c \"")).2 ∧
        ((initial twoDevices).eval (text ".\"   a\tb   c \" 1 drop drop")).1 =
          (said.eval (text "1 drop drop")).1 ∧
        Agrees Console.reliable (said.eval (text "1 drop drop")).2
          ((initial twoDevices).eval (text ".\"   a\tb   c \" 1 drop drop")).2 := by
  have unquoted : Bytes.doubleQuote ∉ text "  a\tb   c " := by decide +kernel
  have fixed : ∀ piece ∈ Bytes.fields Bytes.space (text "  a\tb   c "), piece.trim = piece := by
    decide +kernel
  have alone : literalLine (text "  a\tb   c ") = text ".\"   a\tb   c \"" := by decide +kernel
  have joined : literalLine (text "  a\tb   c ") ++ Bytes.space :: text "1 drop drop" =
      text ".\"   a\tb   c \" 1 drop drop" := by decide +kernel
  obtain ⟨said, changed, view, -, -, literal⟩ := eval_literalLine Console.reliable
    (show Console.reliable.intact (initial twoDevices).output from twoDevices_dependable) unquoted
    fixed (text "1 drop drop")
  have shown : (text "  a\tb   c ").withoutEndSpace ++ [Bytes.newline] = text "  a\tb   c\n" := by
    decide +kernel
  rw [joined, alone] at literal
  rw [shown] at changed view
  refine ⟨unquoted, fixed, said, changed, view.trans ?_, literal⟩
  decide +kernel

end Machine

end LineForth
