import LineForth.Output.Sink
import LineForth.Proofs.Output.Watched

/-!
# Joined sinks and their members

Sinks are joined, and what was joined may be joined again. The sink that comes of it
depends on the members alone, in the order in which they stand: neither the nesting nor
what is absent or discards everything leaves a trace.

The members of a tee are served in order. A write goes as far as the first member that
does not take all of it. A flush reports the first failure, but goes on after it; only a
panic ends it early.
-/

set_option autoImplicit false

namespace LineForth

namespace Outcome

theorem orElse_assoc (first second third : Outcome) :
    (first.orElse second).orElse third = first.orElse (second.orElse third) := by
  cases first <;> cases second <;> cases third <;> rfl

theorem orElse_done (earlier : Outcome) : earlier.orElse .done = earlier := by
  cases earlier <;> rfl

theorem orElse_panicked (earlier : Outcome) (panic : Panic) :
    earlier.orElse (.panicked panic) = .panicked panic := by
  cases earlier <;> rfl

theorem orElse_of_ne_done {earlier later : Outcome} (unsuccessful : earlier ≠ .done)
    (returns : ∀ panic, later ≠ .panicked panic) : earlier.orElse later = earlier := by
  unfold orElse
  split
  · exact absurd rfl (returns _)
  · exact absurd rfl unsuccessful
  · rfl

end Outcome

namespace Sink

variable {ι : Type}

/-- A sink that is joined from others, as it is written down. -/
inductive Tree (ι : Type) where
  | absent
  | discard
  | single (member : ι)
  | join (branches : List (Tree ι))

namespace Tree

mutual

/-- The sink that a tree stands for, if it stands for one. -/
def build : Tree ι → Option (Sink ι)
  | absent => none
  | discard => some .discard
  | single member => some (.single member)
  | join branches => some (Sink.join (buildAll branches))

def buildAll : List (Tree ι) → List (Option (Sink ι))
  | [] => []
  | tree :: rest => build tree :: buildAll rest

end

mutual

/-- The members that are named in a tree, in order. -/
def leaves : Tree ι → List ι
  | absent => []
  | discard => []
  | single member => [member]
  | join branches => leavesAll branches

def leavesAll : List (Tree ι) → List ι
  | [] => []
  | tree :: rest => leaves tree ++ leavesAll rest

end

end Tree

theorem members_ofMembers (members : List ι) : (ofMembers members).members = members := by
  rcases members with _ | ⟨first, _ | ⟨second, rest⟩⟩ <;> rfl

theorem join_eq (sinks : List (Option (Sink ι))) :
    join sinks = ofMembers (sinks.flatMap fun sink => sink.elim [] members) := by
  unfold join
  congr 2
  funext sink
  cases sink <;> rfl

namespace Tree

mutual

theorem members_build (tree : Tree ι) : tree.build.elim [] members = tree.leaves := by
  cases tree with
  | absent => rfl
  | discard => rfl
  | single member => rfl
  | join branches =>
    rw [build, Option.elim_some, join_eq, members_ofMembers, members_buildAll, leaves]

theorem members_buildAll (branches : List (Tree ι)) :
    (buildAll branches).flatMap (fun sink => sink.elim [] members) = leavesAll branches := by
  cases branches with
  | nil => rfl
  | cons tree rest =>
    rw [buildAll, List.flatMap_cons, members_build, members_buildAll, leavesAll]

end

/-- Only the leaves of a tree count. -/
theorem build_join (branches : List (Tree ι)) :
    (join branches).build = some (ofMembers (leavesAll branches)) := by
  rw [build, join_eq, members_buildAll]

/-- What is absent counts as a sink that discards everything. -/
theorem getD_build (tree : Tree ι) : tree.build.getD .discard = ofMembers tree.leaves := by
  cases tree with
  | absent => rfl
  | discard => rfl
  | single member => rfl
  | join branches => rw [build_join, Option.getD_some, leaves]

theorem build_join_assoc (first second third : Tree ι) :
    (join [first, join [second, third]]).build = (join [join [first, second], third]).build := by
  simp only [build_join, leavesAll, leaves, List.append_nil, List.append_assoc]

/-- What has no leaves adds nothing, on either side. -/
theorem build_join_unit {unit : Tree ι} (bare : unit.leaves = []) (tree : Tree ι) :
    (join [unit, tree]).build = some (tree.build.getD .discard) ∧
      (join [tree, unit]).build = some (tree.build.getD .discard) := by
  simp only [build_join, getD_build, leavesAll, bare, List.append_nil, List.nil_append, and_self]

end Tree

section Members

variable {S : Type} (write : ι → Passage → Bytes → S → Written × S) (flush : ι → S → Flushed × S)

/-- The members take all the octets, one member after the other. -/
inductive AllTake (octets : Bytes) : List ι → S → S → Prop
  | nil (state : S) : AllTake octets [] state state
  | cons {member : ι} {rest : List ι} {state middle after : S}
      (takes : write member .direct octets state = (⟨octets.length, .done⟩, middle))
      (later : AllTake octets rest middle after) : AllTake octets (member :: rest) state after

/-- What a write to the members comes to. -/
inductive Writes (octets : Bytes) (members : List ι) (state : S) : Written × S → Prop
  | all {after : S} (taken : AllTake write octets members state after) :
      Writes octets members state (⟨octets.length, .done⟩, after)
  /-- A member does not take all the octets; the rest of the members is not reached. -/
  | stopped {front rest : List ι} {member : ι} {middle after : S} {written : Written}
      (split : members = front ++ member :: rest)
      (earlier : AllTake write octets front state middle)
      (answer : write member .direct octets middle = (written, after))
      (incomplete : written ≠ ⟨octets.length, .done⟩) :
      Writes octets members state
        (⟨written.taken,
          if written.outcome = .done then .failed .shortWrite else written.outcome⟩, after)

/-- The members are flushed one after the other, and no flush panics. -/
inductive AllFlush : List ι → S → List Flushed → S → Prop
  | nil (state : S) : AllFlush [] state [] state
  | cons {member : ι} {rest : List ι} {state middle after : S} {answer : Flushed}
      {answers : List Flushed} (flushed : flush member state = (answer, middle))
      (returns : ∀ panic, answer.outcome ≠ .panicked panic)
      (later : AllFlush rest middle answers after) :
      AllFlush (member :: rest) state (answer :: answers) after

/-- The first outcome that is no success. -/
def firstFailure (answers : List Flushed) : Outcome :=
  ((answers.map Flushed.outcome).find? (· ≠ .done)).getD .done

/-- What a flush of the members comes to. -/
inductive Flushes (members : List ι) (state : S) : Flushed × S → Prop
  | all {answers : List Flushed} {after : S}
      (flushed : AllFlush flush members state answers after) :
      Flushes members state (⟨firstFailure answers, answers.flatMap Flushed.events⟩, after)
  /-- A member panics; the rest of the members is not reached. -/
  | panicked {front rest : List ι} {member : ι} {answers : List Flushed} {middle after : S}
      {panic : Panic} {events : List Event} (split : members = front ++ member :: rest)
      (earlier : AllFlush flush front state answers middle)
      (raised : flush member middle = (⟨.panicked panic, events⟩, after)) :
      Flushes members state
        (⟨.panicked panic, answers.flatMap Flushed.events ++ events⟩, after)

variable {write flush} {octets : Bytes} {members front rest : List ι} {state middle after : S}
  {answers : List Flushed}

theorem writeAll_cons_of_takes {member : ι}
    (takes : write member .direct octets state = (⟨octets.length, .done⟩, middle)) :
    writeAll write octets (member :: rest) state = writeAll write octets rest middle := by
  simp only [writeAll, takes, if_true]

theorem writeAll_cons_of_incomplete {member : ι} {written : Written}
    (answer : write member .direct octets state = (written, after))
    (incomplete : written ≠ ⟨octets.length, .done⟩) :
    writeAll write octets (member :: rest) state =
      (⟨written.taken,
        if written.outcome = .done then .failed .shortWrite else written.outcome⟩, after) := by
  rcases written with ⟨taken, outcome⟩
  simp only [writeAll, answer]
  cases outcome with
  | done =>
    have short : taken ≠ octets.length := fun whole => incomplete (by rw [whole])
    simp [short]
  | failed failure => simp
  | panicked panic => simp

theorem AllTake.writeAll_append (taken : AllTake write octets front state middle)
    (rest : List ι) :
    writeAll write octets (front ++ rest) state = writeAll write octets rest middle := by
  induction taken with
  | nil => rfl
  | cons takes _ inductionHypothesis =>
    rw [List.cons_append, writeAll_cons_of_takes takes]
    exact inductionHypothesis

/-- A member that takes all the octets leaves the result to the others. -/
theorem Writes.cons {member : ι} {result : Written × S}
    (takes : write member .direct octets state = (⟨octets.length, .done⟩, middle))
    (writes : Writes write octets rest middle result) :
    Writes write octets (member :: rest) state result := by
  cases writes with
  | all taken => exact .all (.cons takes taken)
  | stopped split earlier answer incomplete =>
    exact .stopped (by rw [split, List.cons_append]) (.cons takes earlier) answer incomplete

theorem writes_writeAll (octets : Bytes) (members : List ι) (state : S) :
    Writes write octets members state (writeAll write octets members state) := by
  induction members generalizing state with
  | nil => exact .all (.nil state)
  | cons member rest inductionHypothesis =>
    rcases answer : write member .direct octets state with ⟨written, middle⟩
    by_cases whole : written = ⟨octets.length, .done⟩
    · subst whole
      rw [writeAll_cons_of_takes answer]
      exact .cons answer (inductionHypothesis middle)
    · rw [writeAll_cons_of_incomplete answer whole]
      exact .stopped (List.nil_append _).symm (.nil state) answer whole

theorem writeAll_eq_iff {result : Written × S} :
    writeAll write octets members state = result ↔ Writes write octets members state result := by
  constructor
  · rintro rfl
    exact writes_writeAll octets members state
  · intro writes
    cases writes with
    | all taken => simpa only [List.append_nil, writeAll] using taken.writeAll_append []
    | stopped split earlier answer incomplete =>
      rw [split, earlier.writeAll_append, writeAll_cons_of_incomplete answer incomplete]

theorem firstFailure_cons (answer : Flushed) {answers : List Flushed}
    (returns : ∀ panic, firstFailure answers ≠ .panicked panic) :
    firstFailure (answer :: answers) = answer.outcome.orElse (firstFailure answers) := by
  by_cases done : answer.outcome = .done
  · rw [done, Outcome.done_orElse]
    simp [firstFailure, done]
  · rw [Outcome.orElse_of_ne_done done returns]
    simp [firstFailure, done]

theorem firstFailure_eq_done_iff :
    firstFailure answers = .done ↔ ∀ answer ∈ answers, answer.outcome = .done := by
  unfold firstFailure
  cases found : (answers.map Flushed.outcome).find? (· ≠ .done) with
  | none => simpa using found
  | some outcome =>
    have unsuccessful := List.find?_some found
    have membership := List.mem_of_find?_eq_some found
    obtain ⟨answer, place, rfl⟩ := List.mem_map.mp membership
    simp only [ne_eq, decide_eq_true_eq] at unsuccessful
    exact ⟨fun done => absurd done unsuccessful, fun all => absurd (all answer place) unsuccessful⟩

theorem AllFlush.firstFailure_ne_panicked (flushed : AllFlush flush members state answers after)
    (panic : Panic) : firstFailure answers ≠ .panicked panic := by
  induction flushed with
  | nil => simp [firstFailure]
  | cons _ returns _ inductionHypothesis =>
    unfold firstFailure
    rw [List.map_cons, List.find?_cons]
    split
    · exact returns panic
    · exact inductionHypothesis

theorem flushAll_cons_of_returns {member : ι} {answer : Flushed}
    (flushed : flush member state = (answer, middle))
    (returns : ∀ panic, answer.outcome ≠ .panicked panic) :
    flushAll flush (member :: rest) state =
      (⟨answer.outcome.orElse (flushAll flush rest middle).1.outcome,
        answer.events ++ (flushAll flush rest middle).1.events⟩,
        (flushAll flush rest middle).2) := by
  rcases answer with ⟨outcome, events⟩
  cases outcome with
  | done => simp only [flushAll, flushed]
  | failed failure => simp only [flushAll, flushed]
  | panicked panic => exact absurd rfl (returns panic)

theorem flushAll_cons_of_panicked {member : ι} {panic : Panic} {events : List Event}
    (raised : flush member state = (⟨.panicked panic, events⟩, after)) :
    flushAll flush (member :: rest) state = (⟨.panicked panic, events⟩, after) := by
  simp only [flushAll, raised]

theorem AllFlush.flushAll_append (flushed : AllFlush flush front state answers middle)
    (rest : List ι) :
    flushAll flush (front ++ rest) state =
      (⟨(firstFailure answers).orElse (flushAll flush rest middle).1.outcome,
        answers.flatMap Flushed.events ++ (flushAll flush rest middle).1.events⟩,
        (flushAll flush rest middle).2) := by
  induction flushed with
  | nil => simp [firstFailure, Outcome.done_orElse]
  | cons answered returns later inductionHypothesis =>
    rw [List.cons_append, flushAll_cons_of_returns answered returns, inductionHypothesis,
      firstFailure_cons _ later.firstFailure_ne_panicked, Outcome.orElse_assoc,
      List.flatMap_cons, List.append_assoc]

theorem Flushes.cons {member : ι} {answer result : Flushed}
    (flushed : flush member state = (answer, middle))
    (returns : ∀ panic, answer.outcome ≠ .panicked panic)
    (flushes : Flushes flush rest middle (result, after)) :
    Flushes flush (member :: rest) state
      (⟨answer.outcome.orElse result.outcome, answer.events ++ result.events⟩, after) := by
  cases flushes with
  | all later =>
    rw [← firstFailure_cons answer later.firstFailure_ne_panicked]
    exact .all (.cons flushed returns later)
  | panicked split earlier raised =>
    rw [← List.append_assoc]
    exact .panicked (by rw [split, List.cons_append]) (.cons flushed returns earlier) raised

theorem flushes_flushAll (members : List ι) (state : S) :
    Flushes flush members state (flushAll flush members state) := by
  induction members generalizing state with
  | nil => exact .all (.nil state)
  | cons member rest inductionHypothesis =>
    rcases flushed : flush member state with ⟨⟨outcome, events⟩, middle⟩
    cases outcome with
    | panicked panic =>
      rw [flushAll_cons_of_panicked flushed]
      exact .panicked (List.nil_append _).symm (.nil state) flushed
    | done | failed =>
      rw [flushAll_cons_of_returns flushed (by simp)]
      exact .cons flushed (by simp) (inductionHypothesis middle)

theorem flushAll_eq_iff {result : Flushed × S} :
    flushAll flush members state = result ↔ Flushes flush members state result := by
  constructor
  · rintro rfl
    exact flushes_flushAll members state
  · intro flushes
    cases flushes with
    | all flushed =>
      simpa only [List.append_nil, flushAll, Outcome.orElse_done] using flushed.flushAll_append []
    | panicked split earlier raised =>
      rw [split, earlier.flushAll_append, flushAll_cons_of_panicked raised,
        Outcome.orElse_panicked]

theorem Writes.allTake
    (writes : Writes write octets members state (⟨octets.length, .done⟩, after)) :
    AllTake write octets members state after := by
  generalize result : (Written.mk octets.length Outcome.done, after) = whole at writes
  cases writes with
  | all taken =>
    cases result
    exact taken
  | @stopped _ _ _ _ _ written split earlier answer incomplete =>
    obtain ⟨same, -⟩ := Prod.mk.inj result
    obtain ⟨-, done⟩ := Written.mk.inj same
    by_cases short : written.outcome = .done
    · rw [if_pos short] at done
      cases done
    · rw [if_neg short] at done
      exact absurd done.symm short

theorem Flushes.allFlush {events : List Event}
    (flushes : Flushes flush members state (⟨.done, events⟩, after)) :
    ∃ answers, AllFlush flush members state answers after ∧
      ∀ answer ∈ answers, answer.outcome = .done := by
  generalize result : (Flushed.mk Outcome.done events, after) = done at flushes
  cases flushes with
  | @all answers _ flushed =>
    obtain ⟨same, rfl⟩ := Prod.mk.inj result
    obtain ⟨success, -⟩ := Flushed.mk.inj same
    exact ⟨answers, flushed, firstFailure_eq_done_iff.mp success.symm⟩
  | panicked split earlier raised => cases result

/-- A write is taken whole exactly if each member takes it whole. -/
theorem writeTo_eq_whole_iff {sink : Sink ι} :
    sink.writeTo write .direct octets state = (⟨octets.length, .done⟩, after) ↔
      AllTake write octets sink.members state after := by
  cases sink with
  | discard =>
    constructor
    · rintro ⟨⟩
      exact .nil state
    · rintro ⟨⟩
      rfl
  | single member =>
    constructor
    · intro takes
      exact .cons takes (.nil after)
    · rintro (_ | ⟨takes, ⟨⟩⟩)
      exact takes
  | tee members => exact writeAll_eq_iff.trans ⟨Writes.allTake, .all⟩

/-- A flush succeeds exactly if the flush of each member does. -/
theorem flushTo_eq_done_iff {sink : Sink ι} :
    (∃ events, sink.flushTo flush state = (⟨.done, events⟩, after)) ↔
      ∃ answers, AllFlush flush sink.members state answers after ∧
        ∀ answer ∈ answers, answer.outcome = .done := by
  cases sink with
  | discard =>
    constructor
    · rintro ⟨_, ⟨⟩⟩
      exact ⟨[], .nil state, by simp⟩
    · rintro ⟨_, ⟨⟩, -⟩
      exact ⟨[], rfl⟩
  | single member =>
    constructor
    · rintro ⟨events, flushed⟩
      exact ⟨[⟨.done, events⟩], .cons flushed (by simp) (.nil after), by simp⟩
    · rintro ⟨_, _ | ⟨flushed, -, ⟨⟩⟩, success⟩
      rename_i answer
      refine ⟨answer.events, ?_⟩
      rw [← success answer (List.mem_singleton_self _)]
      exact flushed
  | tee members =>
    constructor
    · rintro ⟨events, flushed⟩
      exact (flushAll_eq_iff.mp flushed).allFlush
    · rintro ⟨answers, flushed, success⟩
      refine ⟨answers.flatMap Flushed.events, flushAll_eq_iff.mpr ?_⟩
      rw [← firstFailure_eq_done_iff.mpr success]
      exact .all flushed

end Members

section Deliveries

variable {S : Type} (write : ι → Passage → Bytes → S → Written × S) (flush : ι → S → Flushed × S)

/-- Writes, one after the other, each of which is taken whole, and a flush that
succeeds. -/
inductive Delivers (sink : Sink ι) : List Bytes → S → S → Prop
  | flush {state after : S} {events : List Event}
      (flushed : sink.flushTo flush state = (⟨.done, events⟩, after)) :
      Delivers sink [] state after
  | write {octets : Bytes} {rest : List Bytes} {state middle after : S}
      (written : sink.writeTo write .direct octets state = (⟨octets.length, .done⟩, middle))
      (later : Delivers sink rest middle after) : Delivers sink (octets :: rest) state after

/-- A member that notes down what it takes. -/
def noting (member : ι) (passage : Passage) (octets : Bytes) (state : S × List (ι × Bytes)) :
    Written × S × List (ι × Bytes) :=
  let (written, after) := write member passage octets state.1
  (written, after, state.2 ++ [(member, octets.take written.taken)])

def keepingNotes (member : ι) (state : S × List (ι × Bytes)) : Flushed × S × List (ι × Bytes) :=
  let (flushed, after) := flush member state.1
  (flushed, after, state.2)

variable {write flush} {octets : Bytes} {members : List ι} {state after : S}

theorem AllTake.noting (taken : AllTake write octets members state after)
    (notes : List (ι × Bytes)) :
    AllTake (noting write) octets members (state, notes)
      (after, notes ++ members.map fun member => (member, octets)) := by
  induction taken generalizing notes with
  | nil state => simpa using AllTake.nil (state, notes)
  | @cons member rest state middle after takes _ inductionHypothesis =>
    have noted : Sink.noting write member .direct octets (state, notes) =
        (⟨octets.length, .done⟩, middle, notes ++ [(member, octets)]) := by
      simp [Sink.noting, takes]
    have later := inductionHypothesis (notes ++ [(member, octets)])
    rw [List.append_assoc] at later
    exact .cons noted later

theorem AllFlush.keepingNotes {answers : List Flushed}
    (flushed : AllFlush flush members state answers after) (notes : List (ι × Bytes)) :
    AllFlush (keepingNotes flush) members (state, notes) answers (after, notes) := by
  induction flushed with
  | nil state => exact .nil (state, notes)
  | cons answered returns _ inductionHypothesis =>
    exact .cons (by simp [Sink.keepingNotes, answered]) returns inductionHypothesis

/-- Where all goes well, each member in each of its places takes every octet, in order. -/
theorem Delivers.noting {sink : Sink ι} {chunks : List Bytes}
    (delivers : Delivers write flush sink chunks state after) (notes : List (ι × Bytes)) :
    Delivers (noting write) (keepingNotes flush) sink chunks (state, notes)
      (after, notes ++ chunks.flatMap fun octets =>
        sink.members.map fun member => (member, octets)) := by
  induction delivers generalizing notes with
  | flush flushed =>
    obtain ⟨answers, all, success⟩ := flushTo_eq_done_iff.mp ⟨_, flushed⟩
    obtain ⟨events, noted⟩ := flushTo_eq_done_iff.mpr ⟨answers, all.keepingNotes notes, success⟩
    rw [List.flatMap_nil, List.append_nil]
    exact .flush noted
  | write written _ inductionHypothesis =>
    have taken := (writeTo_eq_whole_iff.mp written).noting notes
    refine .write (writeTo_eq_whole_iff.mpr taken) ?_
    rw [List.flatMap_cons, ← List.append_assoc]
    exact inductionHypothesis _

end Deliveries

end Sink

end LineForth
