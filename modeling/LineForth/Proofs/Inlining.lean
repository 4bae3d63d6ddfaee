import LineForth.Proofs.NestingLimit
import LineForth.Proofs.Sequencing
import LineForth.Proofs.Storage

/-!
# Words and their bodies

Where a word can be called, its body can stand in its place: the tokens behind it find the
same machine, the trace apart, and they end in the same way. The body of a call that succeeds
is complete, so nothing behind it becomes part of it. In the place of the word it runs with
one call less that is active; as no call was refused under the word, none is refused there.
-/

set_option autoImplicit false

namespace LineForth

namespace Machine

variable {σ : Type}

/-- Machines that the same tokens take the same way, if the second may make so many calls
more than the first. -/
structure Matches (surplus : Nat) (m m' : Machine σ) : Prop extends Same m m' where
  output : m'.output = m.output
  depth : surplus = 0 → m'.depth = m.depth

namespace Matches

variable {surplus : Nat} {m m' : Machine σ}

theorem trace (matching : Matches surplus m m') (mark message mark' message' : Bytes) :
    Matches surplus (m.trace mark message) (m'.trace mark' message') := by
  refine ⟨matching.toSame.trace _ _ _ _, ?_, ?_⟩
  · simpa using matching.output
  · simpa using matching.depth

variable [Output σ]

theorem step (matching : Matches surplus m m') {levels levels' : Nat} {instruction : Instruction}
    (callsNothing : m.CallsNothing instruction) :
    (m'.perform (call levels') instruction).1 = (m.perform (call levels) instruction).1 ∧
      Matches surplus (m.perform (call levels) instruction).2
        (m'.perform (call levels') instruction).2 := by
  have depth : surplus = 0 → (m'.perform (call levels') instruction).2.depth =
      (m.perform (call levels) instruction).2.depth := by
    intro even
    have kept := SameSettings.framing.perform (SameSettings.framing.call levels) instruction m
    have kept' := SameSettings.framing.perform (SameSettings.framing.call levels') instruction m'
    rw [kept.depth, kept'.depth, matching.depth even]
  rcases matching.toSame.perform (call levels) (call levels') callsNothing with
    ⟨passage, octets, first, second⟩ | ⟨outcome, same, kept, kept'⟩
  · rw [first, second] at depth ⊢
    simp only [write, matching.output] at depth ⊢
    exact ⟨trivial, ⟨matching.stack, matching.words, matching.constants⟩, rfl, depth⟩
  · exact ⟨outcome, same, by rw [kept, kept', matching.output], depth⟩

/-- With calls to spare on the side of the second run, the first is excused once a call is
refused. -/
theorem lockstep (surplus : Nat) :
    Lockstep (fun _ _ => True) (fun levels levels' => levels' = levels + surplus)
      (fun (first : Outcome × Machine σ) (_ : Outcome × Machine σ) =>
        surplus ≠ 0 ∧ first.1.HitsLimit)
      (Matches surplus) where
  onward_first excuse onward := by
    cases onward with
    | further outcome path => exact absurd excuse.2 id
    | returned word outcome m => exact ⟨excuse.1, excuse.2.blame word⟩
  onward_second excuse _ := excuse
  lookup word matching _ := by rw [matching.words]
  step _ matching _ callsNothing := .inr (matching.step callsNothing)
  traced _ _ matching := matching.trace _ _ _ _
  enter matching := by
    refine ⟨⟨matching.stack, matching.words, matching.constants⟩, matching.output, ?_⟩
    intro even
    exact congrArg (· + 1) (matching.depth even)
  leave matching := by
    refine ⟨⟨matching.stack, matching.words, matching.constants⟩, matching.output, ?_⟩
    intro even
    exact congrArg (· - 1) (matching.depth even)
  nested pair := by omega
  refused := by
    rintro m m' levels _ word body matching rfl exhausted
    obtain rfl : levels = 0 := by omega
    by_cases even : surplus = 0
    · subst even
      refine .inr ⟨?_, matching⟩
      simp only [call, matching.depth rfl]
    · exact .inl ⟨even, word, m.depth, List.mem_singleton_self _⟩

end Matches

variable [Output σ] {m : Machine σ} {word : Token} {body : List Token}

/-- A word that succeeds has called its body. -/
theorem evalTokens_word (defined : m.words.lookup? word = some body) (nonblank : word ≠ [])
    (ordinary : word ∉ Token.special) (done : (m.evalTokens [word]).1 = .done) :
    ∃ levels, m.maxDepth - m.depth = levels + 1 ∧
      (m.enter.execute (call levels) body).1 = .done ∧
      (m.evalTokens [word]).2 =
        (m.enter.execute (call levels) body).2.leave.traceRule (m.ruleName (.refer word)) word := by
  have performed : m.perform (call (m.maxDepth - m.depth)) (.refer word) =
      call (m.maxDepth - m.depth) word body m := perform_refer_of_defined defined
  have evaluated : m.evalTokens [word] =
      m.performAll (call (m.maxDepth - m.depth)) .done [.refer word] := by
    simp only [evalTokens, execute, Program.ofTokens_name nonblank ordinary]
  rw [evaluated] at done ⊢
  have called := perform_done_of_performAll done
  rw [performAll_cons_of_done called]
  rw [performed] at called ⊢
  cases allowed : m.maxDepth - m.depth with
  | zero =>
    rw [allowed] at called
    cases called
  | succ levels =>
    rw [allowed] at called
    exact ⟨levels, rfl, execute_done_of_call called, rfl⟩

/-- The body of a word that succeeds does in its place what the word does. -/
theorem matches_evalTokens_body (defined : m.words.lookup? word = some body) (nonblank : word ≠ [])
    (ordinary : word ∉ Token.special) (done : (m.evalTokens [word]).1 = .done) :
    (m.evalTokens body).1 = .done ∧
      Matches 0 (m.evalTokens [word]).2 (m.evalTokens body).2 := by
  obtain ⟨levels, allowed, inside, left⟩ := evalTokens_word defined nonblank ordinary done
  have entered : Matches 1 m.enter m := ⟨⟨rfl, rfl, rfl⟩, rfl, fun one => absurd one (by decide)⟩
  have permits : Moment.Permits (fun _ _ => True)
      ⟨[word], levels, Program.ofTokens body, m.enter⟩ := fun _ _ _ _ _ => trivial
  have compared : InStep _ _ (m.enter.execute (call levels) body)
      (m.execute (call (levels + 1)) body) :=
    (Matches.lockstep 1).performAll rfl entered permits
  have inlined : m.evalTokens body = m.execute (call (levels + 1)) body := by
    rw [evalTokens, allowed]
  have depth : (m.evalTokens body).2.depth = (m.evalTokens [word]).2.depth := by
    rw [(SameSettings.evalTokens body m).depth, (SameSettings.evalTokens [word] m).depth]
  rcases compared with ⟨-, hits⟩ | ⟨outcome, matching⟩
  · rw [inside] at hits
    exact absurd hits id
  · rw [← inlined] at outcome matching
    refine ⟨outcome.trans inside, ⟨?_, ?_, ?_⟩, ?_, fun _ => depth⟩
    all_goals rw [left]
    · simpa [traceRule, leave] using matching.stack
    · simpa [traceRule, leave] using matching.words
    · simpa [traceRule, leave] using matching.constants
    · simpa [traceRule, leave] using matching.output

/-- Where a word succeeds, its body may stand in its place: the tokens behind it end in the
same way and leave the same stack, words, constants and output. -/
theorem evalTokens_inline (defined : m.words.lookup? word = some body) (nonblank : word ≠ [])
    (ordinary : word ∉ Token.special) (done : (m.evalTokens [word]).1 = .done)
    (post : List Token) :
    (m.evalTokens (body ++ post)).1 = (m.evalTokens ([word] ++ post)).1 ∧
      (m.evalTokens (body ++ post)).2.stack = (m.evalTokens ([word] ++ post)).2.stack ∧
      (m.evalTokens (body ++ post)).2.words = (m.evalTokens ([word] ++ post)).2.words ∧
      (m.evalTokens (body ++ post)).2.constants = (m.evalTokens ([word] ++ post)).2.constants ∧
      (m.evalTokens (body ++ post)).2.output = (m.evalTokens ([word] ++ post)).2.output := by
  obtain ⟨inlined, matching⟩ := matches_evalTokens_body defined nonblank ordinary done
  have called := SameSettings.evalTokens [word] m
  have settings := SameSettings.evalTokens body m
  have levels : (m.evalTokens body).2.maxDepth - (m.evalTokens body).2.depth =
      (m.evalTokens [word]).2.maxDepth - (m.evalTokens [word]).2.depth + 0 := by
    rw [settings.maxDepth, settings.depth, called.maxDepth, called.depth, Nat.add_zero]
  rw [evalTokens_append_of_done done, evalTokens_append_of_done inlined]
  rcases (Matches.lockstep 0).evalTokens post levels matching (fun _ _ _ _ _ => trivial) with
    ⟨even, -⟩ | ⟨outcome, after⟩
  · exact absurd rfl even
  · exact ⟨outcome, after.stack, after.words, after.constants, after.output⟩

theorem evalTokens_inline_redefining :
    (redefining.evalTokens [text "w"]).1 = .done ∧
      (redefining.evalTokens (tokenize (text ": v 7 ; v" ++ text " v . x"))).1 =
        (redefining.evalTokens (tokenize (text "w v . x"))).1 ∧
      (redefining.evalTokens (tokenize (text ": v 7 ; v" ++ text " v . x"))).2.output =
        (redefining.evalTokens (tokenize (text "w v . x"))).2.output := by
  have defined : redefining.words.lookup? (text "w") = some (tokenize (text ": v 7 ; v")) := by
    decide +kernel
  have done : (redefining.evalTokens [text "w"]).1 = .done := by decide +kernel
  have inlined : tokenize (text ": v 7 ; v" ++ text " v . x") =
      tokenize (text ": v 7 ; v") ++ tokenize (text "v . x") := by decide +kernel
  have called : tokenize (text "w v . x") = [text "w"] ++ tokenize (text "v . x") := by
    decide +kernel
  obtain ⟨outcome, -, -, -, output⟩ := evalTokens_inline defined (by decide +kernel)
    (by decide +kernel) done (tokenize (text "v . x"))
  rw [inlined, called]
  exact ⟨done, outcome, output⟩

end Machine

end LineForth
