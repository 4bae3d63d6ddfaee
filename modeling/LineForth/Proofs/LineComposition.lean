import LineForth.Proofs.Output.Reliable
import LineForth.Proofs.Sequencing
import LineForth.Proofs.Simulation

/-!
# Joining lines

On an output that never fails, two lines may be joined by a space if the first of
them succeeds: the joined line does what the two do one after the other. A line
that fails may be followed by anything on the same line, unless it failed because
it ended inside a construct. Only the trace can tell the difference, and the
moments at which the output is flushed.
-/

set_option autoImplicit false

namespace LineForth

namespace Outcome

theorem eq_done_of_recover {outcome : Outcome} {name : Bytes}
    (done : outcome.recover name = .done) : outcome = .done := by
  cases outcome with
  | done => rfl
  | failed failure => exact done
  | panicked panic => simp [recover] at done

end Outcome

namespace Machine

variable {σ ν : Type} [Output σ]

/-- Machines that go on alike, as far as the output is looked at. -/
structure Alike (reliable : Reliable σ ν) (m m' : Machine σ) : Prop where
  stack : m'.stack = m.stack
  words : m'.words = m.words
  constants : m'.constants = m.constants
  depth : m'.depth = m.depth
  intact : reliable.intact m.output
  intact' : reliable.intact m'.output
  view : reliable.view m'.output = reliable.view m.output

namespace Alike

variable {reliable : Reliable σ ν} {m m' m'' : Machine σ}

theorem refl (intact : reliable.intact m.output) : Alike reliable m m :=
  ⟨rfl, rfl, rfl, rfl, intact, intact, rfl⟩

theorem symm (alike : Alike reliable m m') : Alike reliable m' m :=
  ⟨alike.stack.symm, alike.words.symm, alike.constants.symm, alike.depth.symm, alike.intact',
    alike.intact, alike.view.symm⟩

theorem trans (first : Alike reliable m m') (second : Alike reliable m' m'') :
    Alike reliable m m'' :=
  ⟨second.stack.trans first.stack, second.words.trans first.words,
    second.constants.trans first.constants, second.depth.trans first.depth, first.intact,
    second.intact', second.view.trans first.view⟩

theorem trace_right (alike : Alike reliable m m') (mark message : Bytes) :
    Alike reliable m (m'.trace mark message) := by
  refine ⟨?_, ?_, ?_, ?_, alike.intact, ?_, ?_⟩
  · simpa using alike.stack
  · simpa using alike.words
  · simpa using alike.constants
  · simpa using alike.depth
  · simpa using alike.intact'
  · simpa using alike.view

theorem trace (alike : Alike reliable m m') (mark message mark' message' : Bytes) :
    Alike reliable (m.trace mark message) (m'.trace mark' message') :=
  ((alike.trace_right mark' message').symm.trace_right mark message).symm

theorem write (alike : Alike reliable m m') (passage : Passage) (octets : Bytes) :
    Follows (fun _ => False) (Alike reliable) (m.write passage octets)
      (m'.write passage octets) := by
  refine .inr ⟨?_, alike.stack, alike.words, alike.constants, alike.depth, ?_, ?_, ?_⟩
  · exact (reliable.write_done passage octets alike.intact').trans
      (reliable.write_done passage octets alike.intact).symm
  · exact reliable.write_intact passage octets alike.intact
  · exact reliable.write_intact passage octets alike.intact'
  · calc reliable.view (m'.write passage octets).2.output
        = reliable.extend octets (reliable.view m'.output) :=
          reliable.view_write passage octets alike.intact'
      _ = reliable.extend octets (reliable.view m.output) := by rw [alike.view]
      _ = reliable.view (m.write passage octets).2.output :=
          (reliable.view_write passage octets alike.intact).symm

/-- A flush moves octets on, but it shows nothing new. -/
theorem flush (intact : reliable.intact m.output) : Alike reliable m m.flush.2 :=
  ⟨rfl, rfl, rfl, rfl, intact, reliable.flush_intact intact, reliable.view_flush intact⟩

theorem defineWord (alike : Alike reliable m m') (name : Token) (body : List Token) :
    Alike reliable (m.defineWord name body) (m'.defineWord name body) := by
  obtain ⟨message, same⟩ := m.exists_defineWord_eq name body
  obtain ⟨message', same'⟩ := m'.exists_defineWord_eq name body
  rw [same, same']
  apply trace
  exact ⟨alike.stack, by simp only [alike.words], alike.constants, alike.depth, alike.intact,
    alike.intact', alike.view⟩

theorem bindConstant (alike : Alike reliable m m') (name : Token) :
    Follows (fun _ => False) (Alike reliable) (m.bindConstant name) (m'.bindConstant name) := by
  unfold Machine.bindConstant
  rw [alike.stack]
  split
  next value rest _ =>
    obtain ⟨message, same⟩ := { m with stack := rest }.exists_defineConstant_eq name value
    obtain ⟨message', same'⟩ := { m' with stack := rest }.exists_defineConstant_eq name value
    refine .inr ⟨rfl, ?_⟩
    rw [same, same']
    apply trace
    exact ⟨rfl, alike.words, by simp only [alike.constants], alike.depth, alike.intact,
      alike.intact', alike.view⟩
  next failure rest _ =>
    exact .inr ⟨rfl, rfl, alike.words, alike.constants, alike.depth, alike.intact,
      alike.intact', alike.view⟩

theorem simulation (reliable : Reliable σ ν) :
    Simulation (fun _ => False) (Alike reliable) where
  success := id
  blame _ := id
  meaning token alike := by
    unfold Machine.meaning
    rw [alike.words, alike.constants]
  depth alike := alike.depth
  traceRule rule token alike := alike.trace _ _ _ _
  enter alike :=
    ⟨alike.stack, alike.words, alike.constants, by simp [Machine.enter, alike.depth],
      alike.intact, alike.intact', alike.view⟩
  leave alike :=
    ⟨alike.stack, alike.words, alike.constants, by simp [Machine.leave, alike.depth],
      alike.intact, alike.intact', alike.view⟩
  push value alike :=
    ⟨by simp [Machine.push, alike.stack], alike.words, alike.constants, alike.depth,
      alike.intact, alike.intact', alike.view⟩
  operate operator alike := by
    refine .inr ⟨?_, ?_, alike.words, alike.constants, alike.depth, alike.intact,
      alike.intact', alike.view⟩
    · simp only [Machine.operate, alike.stack]
    · simp only [Machine.operate, alike.stack]
  define name body alike := alike.defineWord name body
  bind name alike := alike.bindConstant name
  print alike := by
    unfold Machine.printStack
    rw [alike.stack]
    exact alike.write _ _
  list alike := by
    unfold Machine.listWords
    rw [alike.words]
    exact alike.write _ _
  say line alike := alike.write _ _

theorem performAll (alike : Alike reliable m m') (levels : Nat) (ending : Outcome)
    (instructions : List Instruction) :
    (m'.performAll (call levels) ending instructions).1 =
        (m.performAll (call levels) ending instructions).1 ∧
      Alike reliable (m.performAll (call levels) ending instructions).2
        (m'.performAll (call levels) ending instructions).2 := by
  rcases (simulation reliable).performAll_same levels ending instructions alike with
    impossible | follows
  · exact impossible.elim
  · exact follows

theorem execute (alike : Alike reliable m m') (levels : Nat) (tokens : List Token) :
    (m'.execute (call levels) tokens).1 = (m.execute (call levels) tokens).1 ∧
      Alike reliable (m.execute (call levels) tokens).2 (m'.execute (call levels) tokens).2 :=
  alike.performAll levels _ _

end Alike

variable {reliable : Reliable σ ν} {m : Machine σ}

theorem evalLine_intact (intact : reliable.intact m.output) (line : Bytes) :
    reliable.intact (m.evalLine line).2.output := by
  have traced := (Alike.refl intact).trace_right (text ">") (text "eval " ++ line.quote)
  exact (traced.execute _ (tokenize line)).2.intact'

/-- Without echo and without failures of the output, a line comes to its tokens
and a flush. -/
theorem eval_eq_of_reliable (quiet : m.echo = false) (intact : reliable.intact m.output)
    (line : Bytes) :
    m.eval line =
      ((m.evalLine line).1.recover (text "eval"), (m.evalLine line).2.flush.2) := by
  have kept : SameSettings m (m.evalLine line).2 :=
    SameSettings.framing.evalLine line m
  have silent : (m.evalLine line).2.echo = false := kept.echo.trans quiet
  have flushed : (m.evalLine line).2.flush.1 = .done :=
    reliable.flush_done (evalLine_intact intact line)
  rw [eval_eq_conclude]
  rcases result : m.evalLine line with ⟨outcome, after⟩
  rw [result] at silent flushed
  dsimp only at silent flushed
  cases outcome with
  | done => simp [conclude, Outcome.recover, echoStack, silent, finish, flushed, Outcome.orElse]
  | failed failure => simp [conclude, Outcome.recover, finish, flushed, Outcome.orElse]
  | panicked panic => simp [conclude, Outcome.recover, finish, flushed, Outcome.orElse]

/-- How a line goes depends on the machine only up to likeness. -/
theorem evalLine_alike {m' : Machine σ} (alike : Alike reliable m m')
    (limit : m'.maxDepth = m.maxDepth) (line : Bytes) :
    (m'.evalLine line).1 = (m.evalTokens (tokenize line)).1 ∧
      Alike reliable (m.evalTokens (tokenize line)).2 (m'.evalLine line).2 := by
  unfold evalLine evalTokens
  rw [trace_maxDepth, trace_depth, limit, alike.depth]
  exact (alike.trace_right _ _).execute _ _

/-- A line that succeeds can be joined with any other. -/
theorem eval_append_of_done (quiet : m.echo = false) (intact : reliable.intact m.output)
    {first : Bytes} (done : (m.eval first).1 = .done) (second : Bytes) :
    (m.eval (first ++ Bytes.space :: second)).1 = ((m.eval first).2.eval second).1 ∧
      Alike reliable ((m.eval first).2.eval second).2
        (m.eval (first ++ Bytes.space :: second)).2 := by
  have kept := SameSettings.eval first m
  obtain ⟨firstOutcome, firstAlike⟩ := evalLine_alike (.refl intact) rfl first
  obtain ⟨joinedOutcome, joinedAlike⟩ :=
    evalLine_alike (.refl intact) rfl (first ++ Bytes.space :: second)
  rw [eval_eq_of_reliable quiet intact] at kept done ⊢
  have succeeded : (m.evalTokens (tokenize first)).1 = .done :=
    firstOutcome.symm.trans (Outcome.eq_done_of_recover done)
  have between : Alike reliable (m.evalTokens (tokenize first)).2
      (m.evalLine first).2.flush.2 := firstAlike.trans (.flush firstAlike.intact')
  have limit : (m.evalLine first).2.flush.2.maxDepth =
      (m.evalTokens (tokenize first)).2.maxDepth :=
    kept.maxDepth.trans (SameSettings.evalTokens _ m).maxDepth.symm
  obtain ⟨secondOutcome, secondAlike⟩ := evalLine_alike between limit second
  rw [tokenize_append, evalTokens_append_of_done succeeded] at joinedOutcome joinedAlike
  rw [eval_eq_of_reliable quiet intact, eval_eq_of_reliable (kept.echo.trans quiet) between.intact']
  refine ⟨by rw [joinedOutcome, secondOutcome], ?_⟩
  exact (Alike.flush secondAlike.intact').symm.trans
    ((secondAlike.symm.trans joinedAlike).trans (.flush joinedAlike.intact'))

/-- A line that fails outside of a construct is not repaired by what follows. -/
theorem eval_append_of_failed (quiet : m.echo = false) (intact : reliable.intact m.output)
    {first : Bytes} {failure : Failure} (failed : (m.eval first).1 = .failed failure)
    (closed : ¬ (Outcome.failed failure).Unfinished) (second : Bytes) :
    (m.eval (first ++ Bytes.space :: second)).1 = .failed failure ∧
      Alike reliable (m.eval first).2 (m.eval (first ++ Bytes.space :: second)).2 := by
  obtain ⟨firstOutcome, firstAlike⟩ := evalLine_alike (.refl intact) rfl first
  obtain ⟨joinedOutcome, joinedAlike⟩ :=
    evalLine_alike (.refl intact) rfl (first ++ Bytes.space :: second)
  rw [eval_eq_of_reliable quiet intact] at failed ⊢
  rw [firstOutcome] at failed
  have stopped : (m.evalTokens (tokenize first)).1 ≠ .done := by
    intro done
    simp [done, Outcome.recover] at failed
  have apart : ¬ (m.evalTokens (tokenize first)).1.Unfinished := by
    intro unfinished
    rcases unfinished with same | same | same
    all_goals
      rw [same] at failed
      cases failed
      simp [Outcome.Unfinished] at closed
  rw [tokenize_append, evalTokens_append_of_failed stopped apart] at joinedOutcome joinedAlike
  rw [eval_eq_of_reliable quiet intact]
  refine ⟨by rw [joinedOutcome, failed], ?_⟩
  exact (Alike.flush firstAlike.intact').symm.trans
    ((firstAlike.symm.trans joinedAlike).trans (.flush joinedAlike.intact'))

/-- On a quiet machine with a reliable output, lines compose: what a joined line
does is decided by its first part alone if that part fails, and otherwise by both
parts in turn. By `Recorded.reliable`, this holds for every output that never fails
and all the octets that were written to it. -/
theorem eval_append (reliable : Reliable σ ν) (quiet : m.echo = false)
    (intact : reliable.intact m.output) (first second : Bytes) :
    ((m.eval first).1 = .done →
      (m.eval (first ++ Bytes.space :: second)).1 = ((m.eval first).2.eval second).1 ∧
        Alike reliable ((m.eval first).2.eval second).2
          (m.eval (first ++ Bytes.space :: second)).2) ∧
    (∀ failure, (m.eval first).1 = .failed failure → ¬ (Outcome.failed failure).Unfinished →
      (m.eval (first ++ Bytes.space :: second)).1 = .failed failure ∧
        Alike reliable (m.eval first).2 (m.eval (first ++ Bytes.space :: second)).2) := by
  constructor
  · intro done
    exact eval_append_of_done quiet intact done second
  · intro failure failed closed
    exact eval_append_of_failed quiet intact failed closed second

/-- A device in memory and, behind a buffer, a plain one. -/
def twoDevices : Console :=
  ⟨⟨[Device.fresh .memory, Device.fresh (.plain none)], [Buffer.onDevice 1]⟩,
    .tee [.device 0, .buffered 0]⟩

theorem twoDevices_dependable : twoDevices.Dependable where
  serves endpoint membership := by
    have members : endpoint = .device 0 ∨ endpoint = .buffered 0 := by
      simpa [twoDevices, Sink.members] using membership
    rcases members with rfl | rfl
    · exact ⟨_, rfl, trivial⟩
    · exact ⟨_, rfl, rfl, _, rfl, rfl⟩
  distinct := by decide

theorem eval_append_twoDevices :
    ((initial twoDevices).eval (text ": sq dup * ; 5 sq")).1 = .done ∧
      ((initial twoDevices).eval
          (text ": sq dup * ; 5 sq" ++ Bytes.space :: text ".\" is\" . 0 /")).1 =
        (((initial twoDevices).eval (text ": sq dup * ; 5 sq")).2.eval
          (text ".\" is\" . 0 /")).1 ∧
      Alike Console.reliable
        (((initial twoDevices).eval (text ": sq dup * ; 5 sq")).2.eval (text ".\" is\" . 0 /")).2
        ((initial twoDevices).eval
          (text ": sq dup * ; 5 sq" ++ Bytes.space :: text ".\" is\" . 0 /")).2 ∧
      ((initial (Recorded.mk twoDevices [])).eval (text ".\" a\" 1 drop drop")).1 =
        .failed (.emptyStack (text "argument for drop")) ∧
      ((initial (Recorded.mk twoDevices [])).eval
          (text ".\" a\" 1 drop drop" ++ Bytes.space :: text "2 ;")).2.output.octets =
        ((initial (Recorded.mk twoDevices [])).eval
          (text ".\" a\" 1 drop drop")).2.output.octets := by
  have done : ((initial twoDevices).eval (text ": sq dup * ; 5 sq")).1 = .done := by
    decide +kernel
  have failed : ((initial (Recorded.mk twoDevices [])).eval (text ".\" a\" 1 drop drop")).1 =
      .failed (.emptyStack (text "argument for drop")) := by decide +kernel
  have closed : ¬ (Outcome.failed (.emptyStack (text "argument for drop"))).Unfinished := by
    simp [Outcome.Unfinished]
  have intact : Console.reliable.intact (initial twoDevices).output := twoDevices_dependable
  have recorded : (Recorded.reliable Console.reliable.toUnfailing).intact
      (initial (Recorded.mk twoDevices [])).output := twoDevices_dependable
  have joined := (eval_append Console.reliable rfl intact
    (text ": sq dup * ; 5 sq") (text ".\" is\" . 0 /")).1 done
  have stopped := (eval_append (Recorded.reliable Console.reliable.toUnfailing) rfl recorded
    (text ".\" a\" 1 drop drop") (text "2 ;")).2 _ failed closed
  exact ⟨done, joined.1, joined.2, failed, stopped.2.view⟩

end Machine

end LineForth
