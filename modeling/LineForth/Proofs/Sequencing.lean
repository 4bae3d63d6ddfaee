import LineForth.Proofs.Frame

/-!
# Evaluation of joined tokens

A program is read from its tokens alone, so reading stops caring about the first
half of its tokens once that half has been read to its end. It follows that
tokens which succeed can be evaluated before the others, and that tokens which
fail go on failing in front of any others. The one exception is a construct that
is still open when the first half runs out: the second half may close it.
-/

set_option autoImplicit false

namespace LineForth

namespace Bytes

theorem fields_append (separator : UInt8) (first second : Bytes) :
    fields separator (first ++ separator :: second) =
      fields separator first ++ fields separator second := by
  induction first with
  | nil => simp [fields]
  | cons octet rest inductionHypothesis =>
    by_cases same : octet = separator
    · simp [fields, same, inductionHypothesis]
    · simp only [List.cons_append, fields, if_neg same, inductionHypothesis]
      cases pieces : fields separator rest with
      | nil => exact absurd pieces (fields_ne_nil separator rest)
      | cons piece others => rfl

end Bytes

theorem tokenize_append (first second : Bytes) :
    tokenize (first ++ Bytes.space :: second) = tokenize first ++ tokenize second := by
  simp [tokenize, Bytes.fields_append]

namespace Outcome

/-- The tokens ran out inside a construct. -/
def Unfinished (outcome : Outcome) : Prop :=
  outcome = .failed .unterminatedDefinition ∨ outcome = .failed .unterminatedString ∨
    outcome = .failed .missingConstantName

end Outcome

namespace Pending

theorem eq_idle_of_ending_done {state : Pending} (done : state.ending = .done) : state = idle := by
  cases state with
  | idle => rfl
  | definition => simp [ending] at done
  | body name reversed => simp [ending] at done
  | constantName => simp [ending] at done
  | string reversed => simp [ending] at done

theorem ending_done_or_unfinished (state : Pending) :
    state.ending = .done ∨ state.ending.Unfinished := by
  cases state <;> simp [ending, Outcome.Unfinished]

theorem start_of_ordinary {token : Token} (nonblank : token ≠ [])
    (ordinary : token ∉ Token.special) : start token = .complete (.refer token) := by
  simp only [Token.special, List.mem_cons, List.not_mem_nil, or_false, not_or] at ordinary
  obtain ⟨colon, dot, words, constant, quotation⟩ := ordinary
  simp [start, nonblank, colon, dot, words, constant, quotation]

end Pending

namespace Program

/-- A token that opens no construct is an instruction of its own. -/
theorem ofTokens_cons_of_ordinary {token : Token} (nonblank : token ≠ [])
    (ordinary : token ∉ Token.special) (rest : List Token) :
    ofTokens (token :: rest) =
      ⟨.refer token :: (ofTokens rest).instructions, (ofTokens rest).ending⟩ := by
  simp only [ofTokens, readFrom, Pending.feed, Pending.start_of_ordinary nonblank ordinary]

theorem readFrom_append_of_done {state : Pending} {first : List Token}
    (done : (readFrom state first).ending = .done) (second : List Token) :
    readFrom state (first ++ second) =
      ⟨(readFrom state first).instructions ++ (ofTokens second).instructions,
        (ofTokens second).ending⟩ := by
  induction first generalizing state with
  | nil =>
    have idle := Pending.eq_idle_of_ending_done done
    simp [idle, readFrom, ofTokens]
  | cons token rest inductionHypothesis =>
    simp only [List.cons_append, readFrom] at done ⊢
    cases fed : state.feed token with
    | pending next =>
      rw [fed] at done
      exact inductionHypothesis done
    | complete instruction =>
      rw [fed] at done
      simp [inductionHypothesis done]
    | invalid failure => simp [fed] at done

/-- A token that cannot stand where it stands is not helped by later tokens. -/
theorem readFrom_append_of_invalid {state : Pending} {first : List Token}
    (failed : (readFrom state first).ending ≠ .done)
    (closed : ¬ (readFrom state first).ending.Unfinished) (second : List Token) :
    readFrom state (first ++ second) = readFrom state first := by
  induction first generalizing state with
  | nil =>
    rcases state.ending_done_or_unfinished with done | unfinished
    · exact absurd done failed
    · exact absurd unfinished closed
  | cons token rest inductionHypothesis =>
    simp only [List.cons_append, readFrom] at failed closed ⊢
    cases fed : state.feed token with
    | pending next =>
      rw [fed] at failed closed
      exact inductionHypothesis failed closed
    | complete instruction =>
      rw [fed] at failed closed
      simp [inductionHypothesis failed closed]
    | invalid failure => rfl

theorem instructions_readFrom_append (state : Pending) (first second : List Token) :
    (readFrom state first).instructions <+: (readFrom state (first ++ second)).instructions := by
  induction first generalizing state with
  | nil => exact List.nil_prefix
  | cons token rest inductionHypothesis =>
    simp only [List.cons_append, readFrom]
    cases state.feed token with
    | pending next => exact inductionHypothesis next
    | complete instruction =>
      exact List.cons_prefix_cons.mpr ⟨rfl, inductionHypothesis .idle⟩
    | invalid failure => exact List.nil_prefix

theorem ofTokens_append_of_done {first : List Token} (done : (ofTokens first).ending = .done)
    (second : List Token) :
    ofTokens (first ++ second) =
      ⟨(ofTokens first).instructions ++ (ofTokens second).instructions,
        (ofTokens second).ending⟩ :=
  readFrom_append_of_done done second

theorem ofTokens_append_of_invalid {first : List Token} (failed : (ofTokens first).ending ≠ .done)
    (closed : ¬ (ofTokens first).ending.Unfinished) (second : List Token) :
    ofTokens (first ++ second) = ofTokens first :=
  readFrom_append_of_invalid failed closed second

theorem instructions_ofTokens_append (first second : List Token) :
    (ofTokens first).instructions <+: (ofTokens (first ++ second)).instructions :=
  instructions_readFrom_append .idle first second

end Program

namespace Machine

variable {σ : Type} [Output σ] {call : Call σ} {m : Machine σ}

section Instructions

variable {first : List Instruction} (second : List Instruction) (ending : Outcome)

theorem performAll_append_of_done (done : (performAll call .done first m).1 = .done) :
    performAll call ending (first ++ second) m =
      performAll call ending second (performAll call .done first m).2 := by
  induction first generalizing m with
  | nil => rfl
  | cons instruction rest inductionHypothesis =>
    by_cases performed : (perform call instruction m).1 = .done
    · rw [performAll_cons_of_done performed] at done ⊢
      rw [List.cons_append, performAll_cons_of_done performed]
      exact inductionHypothesis done
    · rw [performAll_cons_of_ne_done performed] at done
      exact absurd done performed

theorem performAll_append_of_ne_done (stopped : (performAll call .done first m).1 ≠ .done) :
    performAll call ending (first ++ second) m = performAll call .done first m := by
  induction first generalizing m with
  | nil => exact absurd rfl stopped
  | cons instruction rest inductionHypothesis =>
    by_cases performed : (perform call instruction m).1 = .done
    · rw [performAll_cons_of_done performed] at stopped ⊢
      rw [List.cons_append, performAll_cons_of_done performed]
      exact inductionHypothesis stopped
    · rw [List.cons_append, performAll_cons_of_ne_done performed,
        performAll_cons_of_ne_done performed]

/-- The ending counts once every instruction has succeeded, and only then. -/
theorem performAll_ending_of_done (done : (performAll call .done first m).1 = .done) :
    performAll call ending first m = (ending, (performAll call .done first m).2) := by
  simpa [performAll] using performAll_append_of_done [] ending done

theorem performAll_ending_of_ne_done (stopped : (performAll call .done first m).1 ≠ .done) :
    performAll call ending first m = performAll call .done first m := by
  simpa using performAll_append_of_ne_done [] ending stopped

end Instructions

section Tokens

variable {first : List Token}

/-- Tokens that succeed may be evaluated on their own, before those behind them. -/
theorem execute_append_of_done (done : (execute call first m).1 = .done) (second : List Token) :
    execute call (first ++ second) m = execute call second (execute call first m).2 := by
  simp only [execute] at done ⊢
  by_cases performed : (performAll call .done (Program.ofTokens first).instructions m).1 = .done
  · rw [performAll_ending_of_done _ performed] at done ⊢
    rw [Program.ofTokens_append_of_done done, performAll_append_of_done _ _ performed]
  · rw [performAll_ending_of_ne_done _ performed] at done
    exact absurd done performed

/-- Tokens that fail are not repaired by those behind them, unless they end
inside a construct. -/
theorem execute_append_of_failed (failed : (execute call first m).1 ≠ .done)
    (closed : ¬ (execute call first m).1.Unfinished) (second : List Token) :
    execute call (first ++ second) m = execute call first m := by
  simp only [execute] at failed closed ⊢
  by_cases performed : (performAll call .done (Program.ofTokens first).instructions m).1 = .done
  · -- Every instruction succeeded, so it is the reading that came to a stop.
    rw [performAll_ending_of_done _ performed] at failed closed
    rw [Program.ofTokens_append_of_invalid failed closed]
  · obtain ⟨more, longer⟩ := Program.instructions_ofTokens_append first second
    rw [performAll_ending_of_ne_done _ performed, ← longer,
      performAll_append_of_ne_done _ _ performed]

theorem evalTokens_append_of_done (done : (m.evalTokens first).1 = .done)
    (second : List Token) :
    m.evalTokens (first ++ second) = (m.evalTokens first).2.evalTokens second := by
  have kept := SameSettings.evalTokens first m
  unfold evalTokens at kept done ⊢
  rw [execute_append_of_done done, kept.maxDepth, kept.depth]

theorem evalTokens_append_of_failed (failed : (m.evalTokens first).1 ≠ .done)
    (closed : ¬ (m.evalTokens first).1.Unfinished) (second : List Token) :
    m.evalTokens (first ++ second) = m.evalTokens first :=
  execute_append_of_failed failed closed second

end Tokens

end Machine

end LineForth
