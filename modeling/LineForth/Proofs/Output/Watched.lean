import LineForth.Proofs.Calm
import LineForth.Proofs.Projection
import LineForth.Recovery

/-!
# Outputs that are watched

A watched output notes the failures that it returns, and is the same output otherwise. An
evaluation that succeeds has been refused nothing on its way, so a line leaves the notes as
they are unless it fails. Failures are persistent if an output that has failed once lets no
write and flush after it pass for good.
-/

set_option autoImplicit false

namespace LineForth

namespace Outcome

theorem failure?_done : done.failure? = none := rfl

theorem failure?_panicked (panic : Panic) : (panicked panic).failure? = none := rfl

theorem done_orElse (later : Outcome) : done.orElse later = later := by
  cases later <;> rfl

theorem done_of_orElse {earlier later : Outcome} (done : earlier.orElse later = .done) :
    earlier = .done ∧ later = .done := by
  cases earlier <;> cases later <;> simp [orElse] at done ⊢

end Outcome

namespace Output

variable {σ : Type} [Output σ]

/-- A write or a flush that succeeds. -/
inductive Succeeds : σ → σ → Prop
  | write {passage : Passage} {octets : Bytes} {output : σ}
      (done : (Output.write passage octets output).1.outcome = .done) :
      Succeeds output (Output.write passage octets output).2
  | flush {output : σ} (done : (Output.flush output).1.outcome = .done) :
      Succeeds output (Output.flush output).2

/-- Whatever happens to the output, no write of some octets succeeds together with the flush
after it. -/
def Refuses (output : σ) : Prop :=
  ∀ later, Relation.ReflTransGen Next output later → ∀ passage octets, octets ≠ [] →
    (Output.write passage octets later).1.outcome = .done →
    (Output.flush (Output.write passage octets later).2).1.outcome ≠ .done

theorem Refuses.next {output later : σ} (refuses : Refuses output) (next : Next output later) :
    Refuses later := by
  intro last path
  exact refuses last (.head next path)

/-- From here on the output never panics, and a failure of it is for good. -/
structure Persistent (start : σ) : Prop where
  write_calm : ∀ {output}, Relation.ReflTransGen Next start output → ∀ passage octets panic,
    (Output.write passage octets output).1.outcome ≠ .panicked panic
  flush_calm : ∀ {output}, Relation.ReflTransGen Next start output → ∀ panic,
    (Output.flush output).1.outcome ≠ .panicked panic
  write_lasts : ∀ {output}, Relation.ReflTransGen Next start output → ∀ passage octets failure,
    (Output.write passage octets output).1.outcome = .failed failure →
    Refuses (Output.write passage octets output).2
  flush_lasts : ∀ {output}, Relation.ReflTransGen Next start output → ∀ failure,
    (Output.flush output).1.outcome = .failed failure → Refuses (Output.flush output).2

theorem Persistent.calm {start : σ} (persistent : Persistent start) : Calm start :=
  ⟨persistent.write_calm, persistent.flush_calm⟩

end Output

namespace Machine

variable {σ : Type} [Output σ]

theorem perform_succeeds {call : Call σ}
    (calls : ∀ name body {m}, (call name body m).1 = .done →
      Relation.ReflTransGen Output.Succeeds m.output (call name body m).2.output)
    {instruction : Instruction} {m : Machine σ} (done : (m.perform call instruction).1 = .done) :
    Relation.ReflTransGen Output.Succeeds m.output (m.perform call instruction).2.output := by
  rcases m.calls_or_callsNothing instruction with ⟨word, body, rfl, defined⟩ | callsNothing
  · rw [perform_refer_of_defined defined] at done ⊢
    exact calls word body done
  · have same : Same m m := ⟨rfl, rfl, rfl⟩
    rcases same.perform call call callsNothing with ⟨passage, octets, writes, -⟩ | ⟨-, -, kept, -⟩
    · rw [writes] at done ⊢
      exact .single (.write done)
    · rw [kept]

theorem performAll_succeeds {call : Call σ}
    (calls : ∀ name body {m}, (call name body m).1 = .done →
      Relation.ReflTransGen Output.Succeeds m.output (call name body m).2.output)
    {ending : Outcome} {instructions : List Instruction} {m : Machine σ}
    (done : (m.performAll call ending instructions).1 = .done) :
    Relation.ReflTransGen Output.Succeeds m.output
      (m.performAll call ending instructions).2.output := by
  induction instructions generalizing m with
  | nil => exact .refl
  | cons instruction rest inductionHypothesis =>
    by_cases first : (m.perform call instruction).1 = .done
    · rw [performAll_cons_of_done first] at done ⊢
      have later := inductionHypothesis done
      rw [traceRule, trace_output] at later
      exact (perform_succeeds calls first).trans later
    · rw [performAll_cons_of_ne_done first] at done
      exact absurd done first

theorem call_succeeds (levels : Nat) (name : Token) (body : List Token) {m : Machine σ}
    (done : (call levels name body m).1 = .done) :
    Relation.ReflTransGen Output.Succeeds m.output (call levels name body m).2.output := by
  induction levels generalizing name body m with
  | zero => cases done
  | succ levels inductionHypothesis =>
    exact performAll_succeeds inductionHypothesis (execute_done_of_call done)

theorem finish_succeeds {result : Outcome × Machine σ} (done : (finish result).1 = .done) :
    result.1 = .done ∧ Output.Succeeds result.2.output (finish result).2.output := by
  rcases result with ⟨outcome, m⟩
  cases outcome with
  | done => exact ⟨rfl, .flush (Outcome.done_of_orElse done).2⟩
  | failed failure => cases (Outcome.done_of_orElse done).1
  | panicked panic => cases done

/-- A line that succeeds has been refused nothing. -/
theorem eval_succeeds {line : Bytes} {m : Machine σ} (done : (m.eval line).1 = .done) :
    Relation.ReflTransGen Output.Succeeds m.output (m.eval line).2.output := by
  have tokens := evalLine_done_of_eval done
  have evaluated := performAll_succeeds (call_succeeds _) tokens
  rw [trace_output] at evaluated
  rw [eval_eq_conclude] at done ⊢
  have concluded : conclude (m.evalLine line) = finish (m.evalLine line).2.echoStack := by
    simp only [conclude, tokens, Outcome.recover]
  rw [concluded] at done ⊢
  obtain ⟨echoed, flushed⟩ := finish_succeeds done
  refine .tail (evaluated.trans ?_) flushed
  unfold echoStack at echoed ⊢
  split
  next echo =>
    rw [if_pos echo] at echoed
    exact .single (.write echoed)
  next => exact .refl

end Machine

/-- An output, and the failures that it has returned. -/
structure Watched (σ : Type) where
  output : σ
  failures : List Failure

namespace Watched

variable {σ : Type} [Output σ]

instance : Output (Watched σ) where
  write passage octets watched :=
    let (written, output) := Output.write passage octets watched.output
    (written, ⟨output, watched.failures ++ written.outcome.failure?.toList⟩)
  flush watched :=
    let (flushed, output) := Output.flush watched.output
    (flushed, ⟨output, watched.failures ++ flushed.outcome.failure?.toList⟩)

def watch (output : σ) : Watched σ := ⟨output, []⟩

/-- Watching changes nothing. -/
theorem projects : Output.Projects (Watched.output : Watched σ → σ) :=
  ⟨fun _ _ _ => rfl, fun _ => rfl⟩

theorem write_eq (passage : Passage) (octets : Bytes) (watched : Watched σ) :
    Output.write passage octets watched =
      ((Output.write passage octets watched.output).1,
        ⟨(Output.write passage octets watched.output).2, watched.failures ++
          (Output.write passage octets watched.output).1.outcome.failure?.toList⟩) := rfl

theorem flush_eq (watched : Watched σ) :
    Output.flush watched =
      ((Output.flush watched.output).1,
        ⟨(Output.flush watched.output).2, watched.failures ++
          (Output.flush watched.output).1.outcome.failure?.toList⟩) := rfl

/-- What succeeds leaves the notes as they are. -/
theorem failures_of_succeeds {watched later : Watched σ}
    (path : Relation.ReflTransGen Output.Succeeds watched later) :
    later.failures = watched.failures := by
  induction path with
  | refl => rfl
  | tail _ step inductionHypothesis =>
    rw [← inductionHypothesis]
    cases step with
    | write done =>
      rw [write_eq] at done ⊢
      dsimp only at done ⊢
      rw [done, Outcome.failure?_done, Option.toList_none, List.append_nil]
    | flush done =>
      rw [flush_eq] at done ⊢
      dsimp only at done ⊢
      rw [done, Outcome.failure?_done, Option.toList_none, List.append_nil]

/-- What does not panic succeeds, or its failure is noted. -/
theorem note_cases {outcome : Outcome} (calm : ∀ panic, outcome ≠ .panicked panic)
    (failures : List Failure) :
    (outcome = .done ∧ failures ++ outcome.failure?.toList = failures) ∨
      ∃ failure, outcome = .failed failure ∧ failure ∈ failures ++ outcome.failure?.toList := by
  cases outcome with
  | done => exact .inl ⟨rfl, List.append_nil _⟩
  | failed failure =>
    exact .inr ⟨failure, rfl, List.mem_append_right _ (by simp [Outcome.failure?])⟩
  | panicked panic => exact absurd rfl (calm panic)

/-- The output was reached from `start`, and lets nothing pass if it has failed. -/
structure Sound (start : σ) (watched : Watched σ) : Prop where
  path : Relation.ReflTransGen Output.Next start watched.output
  refuses : watched.failures ≠ [] → Output.Refuses watched.output

namespace Sound

variable {start : σ} {watched later : Watched σ}

/-- One write or flush more, of which a failure is noted and is for good. -/
theorem step (sound : Sound start watched) {output : σ} {outcome : Outcome}
    (next : Output.Next watched.output output)
    (lasts : ∀ failure, outcome = .failed failure → Output.Refuses output) :
    Sound start ⟨output, watched.failures ++ outcome.failure?.toList⟩ := by
  refine ⟨sound.path.tail next, ?_⟩
  intro failed
  cases outcome with
  | failed failure => exact lasts failure rfl
  | done =>
    rw [Outcome.failure?_done, Option.toList_none, List.append_nil] at failed
    exact (sound.refuses failed).next next
  | panicked panic =>
    rw [Outcome.failure?_panicked, Option.toList_none, List.append_nil] at failed
    exact (sound.refuses failed).next next

theorem next (persistent : Output.Persistent start) (sound : Sound start watched)
    (next : Output.Next watched later) : Sound start later := by
  cases next with
  | write passage octets =>
    exact sound.step (.write passage octets _) (persistent.write_lasts sound.path passage octets)
  | flush => exact sound.step (.flush _) (persistent.flush_lasts sound.path)

theorem onward (persistent : Output.Persistent start) (sound : Sound start watched)
    (path : Relation.ReflTransGen Output.Next watched later) : Sound start later := by
  induction path with
  | refl => exact sound
  | tail _ next inductionHypothesis => exact inductionHypothesis.next persistent next

/-- A watched output panics no more than the output itself. -/
theorem calm (persistent : Output.Persistent start) (sound : Sound start watched) :
    Output.Calm watched :=
  ⟨fun path => persistent.write_calm (sound.onward persistent path).path,
    fun path => persistent.flush_calm (sound.onward persistent path).path⟩

theorem watch (output : σ) : Sound output (.watch output) :=
  ⟨.refl, fun failed => absurd rfl failed⟩

end Sound

end Watched

end LineForth
