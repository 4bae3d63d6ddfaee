import LineForth.Output.LineLog
import LineForth.Proofs.Input.Lines
import LineForth.Proofs.Tokens

/-!
# What a log of lines logs

A log that is written to and flushed again and again logs the pieces between the newlines of
what was written between two flushes. Into which writes the octets were cut plays no part: what
has been logged since the last flush are the pieces that a newline ends, and what is held is
what stands behind the last newline. So every octet that is no newline is logged once and in
order, or it is still held. Each turn of the loop that logs the lines shortens the octets, so
the loop comes to its end whatever they are.
-/

set_option autoImplicit false

namespace LineForth

namespace Bytes

/-- Cuts at the first newline, as often as there is one. -/
theorem cut_induction {P : Bytes → Prop} (uncut : ∀ octets, newline ∉ octets → P octets)
    (cut : ∀ first rest, newline ∉ first → P rest → P (first ++ newline :: rest))
    (octets : Bytes) : P octets := by
  cases found : cutLine? octets with
  | none => exact uncut octets (cutLine?_eq_none_iff.mp found)
  | some parts =>
    obtain ⟨line, rest⟩ := parts
    obtain ⟨first, absent, rfl⟩ := exists_of_cutLine? found
    have whole := append_of_cutLine? found
    rw [List.append_assoc, List.singleton_append] at whole
    have shorter : rest.length < octets.length := by
      rw [← whole, List.length_append, List.length_cons]
      omega
    rw [← whole]
    exact cut first rest absent (cut_induction uncut cut rest)
termination_by octets.length

theorem cutLine?_append_newline {first : Bytes} (absent : newline ∉ first) (rest : Bytes) :
    cutLine? (first ++ newline :: rest) = some (first ++ [newline], rest) := by
  rw [cutLine?_append_of_none (cutLine?_eq_none_iff.mpr absent)]
  simp [cutLine?]

/-- The pieces that a newline ends, without it. -/
def terminated (octets : Bytes) : List Bytes := (fields newline octets).dropLast

/-- What stands behind the last newline. -/
def unterminated (octets : Bytes) : Bytes :=
  (fields newline octets).getLast (fields_ne_nil newline octets)

theorem fields_eq (octets : Bytes) :
    fields newline octets = octets.terminated ++ [octets.unterminated] :=
  (List.dropLast_concat_getLast (fields_ne_nil newline octets)).symm

theorem of_fields_eq {octets last : Bytes} {pieces : List Bytes}
    (same : fields newline octets = pieces ++ [last]) :
    octets.terminated = pieces ∧ octets.unterminated = last := by
  rw [fields_eq] at same
  exact List.append_inj' same rfl |>.imp id (by simp)

theorem newline_not_mem_unterminated (octets : Bytes) : newline ∉ octets.unterminated :=
  separator_not_mem_of_mem_fields (List.getLast_mem _)

theorem terminated_of_not_mem {octets : Bytes} (absent : newline ∉ octets) :
    octets.terminated = [] ∧ octets.unterminated = octets :=
  of_fields_eq (fields_of_not_mem absent)

theorem terminated_cons {first : Bytes} (absent : newline ∉ first) (rest : Bytes) :
    terminated (first ++ newline :: rest) = first :: rest.terminated ∧
      unterminated (first ++ newline :: rest) = rest.unterminated := by
  apply of_fields_eq
  rw [fields_append, fields_of_not_mem absent, fields_eq rest, List.singleton_append,
    List.cons_append]

/-- More octets continue the piece that no newline has ended yet. -/
theorem fields_append_octets (earlier octets : Bytes) :
    fields newline (earlier ++ octets) =
      earlier.terminated ++ fields newline (earlier.unterminated ++ octets) := by
  induction earlier using cut_induction with
  | uncut earlier absent =>
    obtain ⟨none, whole⟩ := terminated_of_not_mem absent
    rw [none, whole, List.nil_append]
  | cut first rest absent inductionHypothesis =>
    obtain ⟨pieces, last⟩ := terminated_cons absent rest
    rw [List.append_assoc, List.cons_append, fields_append, fields_of_not_mem absent,
      inductionHypothesis, pieces, last, List.singleton_append, List.cons_append]

theorem terminated_append (earlier octets : Bytes) :
    terminated (earlier ++ octets) =
        earlier.terminated ++ terminated (earlier.unterminated ++ octets) ∧
      unterminated (earlier ++ octets) = unterminated (earlier.unterminated ++ octets) := by
  apply of_fields_eq
  rw [fields_append_octets, fields_eq (earlier.unterminated ++ octets), List.append_assoc]

/-- The pieces hold every octet but the newlines. -/
theorem flatten_fields (octets : Bytes) :
    (fields newline octets).flatten = octets.filter fun octet => octet ≠ newline := by
  induction octets using cut_induction with
  | uncut octets absent => 
    rw [fields_of_not_mem absent, filter_ne_of_not_mem absent, List.flatten_singleton]
  | cut first rest absent inductionHypothesis =>
    rw [fields_append, fields_of_not_mem absent, List.singleton_append, List.flatten_cons,
      inductionHypothesis, List.filter_append, filter_ne_of_not_mem absent,
      List.filter_cons_of_neg (by simp)]

theorem withoutEmptyEnd_concat (pieces : List Bytes) (last : Bytes) :
    withoutEmptyEnd (pieces ++ [last]) = pieces ++ withoutEmptyEnd [last] := by
  induction pieces with
  | nil => rfl
  | cons piece rest inductionHypothesis =>
    rw [List.cons_append, withoutEmptyEnd_cons piece (by simp), inductionHypothesis,
      List.cons_append]

theorem flatten_withoutEmptyEnd (octets : Bytes) :
    (withoutEmptyEnd (fields newline octets)).flatten =
      octets.filter fun octet => octet ≠ newline := by
  rw [← flatten_fields, fields_eq, withoutEmptyEnd_concat, List.flatten_append,
    List.flatten_append]
  congr 1
  simp only [withoutEmptyEnd]
  split
  next empty => simp [List.isEmpty_iff.mp empty]
  next => rfl

end Bytes

namespace LineLog

theorem turn?_of_newline (all : Bool) {first : Bytes} (absent : Bytes.newline ∉ first)
    (rest : Bytes) : turn? all (first ++ Bytes.newline :: rest) = some (first, rest) := by
  simp only [turn?, Bytes.cutLine?_append_newline absent, List.dropLast_concat]

theorem turn?_of_not_mem (all : Bool) {octets : Bytes} (absent : Bytes.newline ∉ octets) :
    turn? all octets = if all && !octets.isEmpty then some (octets, []) else none := by
  simp only [turn?, Bytes.cutLine?_eq_none_iff.mpr absent]

theorem logLines_of_none {all : Bool} {octets : Bytes} (finished : turn? all octets = none) :
    logLines all octets = ([], octets) := by
  rw [logLines]
  split
  next => rfl
  next line rest turn =>
    rw [finished] at turn
    cases turn

theorem logLines_of_some {all : Bool} {octets line rest : Bytes}
    (turn : turn? all octets = some (line, rest)) :
    logLines all octets = (line :: (logLines all rest).1, (logLines all rest).2) := by
  rw [logLines]
  split
  next finished =>
    rw [turn] at finished
    cases finished
  next line' rest' turn' =>
    rw [turn] at turn'
    cases turn'
    rfl

/-- Without a flush, only the pieces that a newline ends are logged. -/
theorem logLines_false (octets : Bytes) :
    logLines false octets = (octets.terminated, octets.unterminated) := by
  induction octets using Bytes.cut_induction with
  | uncut octets absent =>
    obtain ⟨none, whole⟩ := Bytes.terminated_of_not_mem absent
    rw [logLines_of_none (turn?_of_not_mem false absent), none, whole]
  | cut first rest absent inductionHypothesis =>
    obtain ⟨pieces, last⟩ := Bytes.terminated_cons absent rest
    rw [logLines_of_some (turn?_of_newline false absent rest), inductionHypothesis, pieces, last]

/-- A flush logs all pieces, the last one only if there is something in it. -/
theorem logLines_true (octets : Bytes) :
    logLines true octets = (Bytes.withoutEmptyEnd (Bytes.fields Bytes.newline octets), []) := by
  induction octets using Bytes.cut_induction with
  | uncut octets absent =>
    have turn := turn?_of_not_mem true absent
    have finished : logLines true [] = ([], []) := logLines_of_none rfl
    rw [Bytes.fields_of_not_mem absent]
    cases octets with
    | nil => exact finished
    | cons octet rest => rw [logLines_of_some turn, finished, Bytes.withoutEmptyEnd]; rfl
  | cut first rest absent inductionHypothesis =>
    rw [logLines_of_some (turn?_of_newline true absent rest), inductionHypothesis,
      Bytes.fields_append, Bytes.fields_of_not_mem absent, List.singleton_append,
      Bytes.withoutEmptyEnd_cons first (Bytes.fields_ne_nil _ _)]

section Loop

/-- Finitely many turns of the loop, with the lines that they log. -/
inductive Turns (all : Bool) : Bytes → List Bytes → Bytes → Prop
  | none (octets : Bytes) : Turns all octets [] octets
  | next {octets line rest left : Bytes} {lines : List Bytes}
      (turn : turn? all octets = some (line, rest)) (later : Turns all rest lines left) :
      Turns all octets (line :: lines) left

variable {all : Bool} {octets left : Bytes} {lines : List Bytes}

theorem Turns.length_le (turns : Turns all octets lines left) :
    lines.length + left.length ≤ octets.length := by
  induction turns with
  | none octets => simp
  | next turn _ inductionHypothesis =>
    have shorter := length_turn? turn
    rw [List.length_cons]
    omega

theorem turns_logLines (all : Bool) (octets : Bytes) :
    Turns all octets (logLines all octets).1 (logLines all octets).2 ∧
      turn? all (logLines all octets).2 = none := by
  fun_induction logLines all octets with
  | case1 octets finished => exact ⟨.none octets, finished⟩
  | case2 octets line rest turn lines left logged inductionHypothesis =>
    rw [logged] at inductionHypothesis
    exact ⟨.next turn inductionHypothesis.1, inductionHypothesis.2⟩

end Loop

/-- What can be asked of a log. -/
inductive Act where
  | write (octets : Bytes)
  | flush
  | close

/-- The octets that an act hands over. -/
def Act.octets : Act → Bytes
  | write octets => octets
  | flush => []
  | close => []

/-- The lines that an act logs, and the log behind it. -/
def act (log : LineLog) : Act → List Bytes × LineLog
  | .write octets => (log.write octets).2
  | .flush => log.flush.2
  | .close => log.close.2

def actAll (log : LineLog) : List Act → List Bytes × LineLog
  | [] => ([], log)
  | first :: rest =>
    let (lines, after) := log.act first
    let (later, last) := after.actAll rest
    (lines ++ later, last)

/-- The octets between consecutive flushes, the first of which continue those that were
`started`, and the octets behind the last flush. -/
def segmentsFrom (started : Bytes) : List Act → List Bytes × Bytes
  | [] => ([], started)
  | .write octets :: rest => segmentsFrom (started ++ octets) rest
  | .flush :: rest | .close :: rest =>
    let (flushed, pending) := segmentsFrom [] rest
    (started :: flushed, pending)

def segments (acts : List Act) : List Bytes × Bytes := segmentsFrom [] acts

/-- What a segment logs by the time that it is flushed. -/
def segmentLines (segment : Bytes) : List Bytes :=
  Bytes.withoutEmptyEnd (Bytes.fields Bytes.newline segment)

theorem write_unterminated (started octets : Bytes) :
    ∃ lines, (⟨started.unterminated⟩ : LineLog).write octets =
        (⟨octets.length, .done⟩, lines, ⟨(started ++ octets).unterminated⟩) ∧
      (started ++ octets).terminated = started.terminated ++ lines := by
  obtain ⟨pieces, last⟩ := Bytes.terminated_append started octets
  refine ⟨_, ?_, pieces⟩
  rw [last]
  simp only [write, logLines_false]

theorem flush_unterminated (started : Bytes) :
    ∃ lines, (⟨started.unterminated⟩ : LineLog).flush = (.done, lines, empty) ∧
      segmentLines started = started.terminated ++ lines := by
  have absent := Bytes.newline_not_mem_unterminated started
  refine ⟨Bytes.withoutEmptyEnd [started.unterminated], ?_, ?_⟩
  · simp only [flush, logLines_true, Bytes.fields_of_not_mem absent, empty]
  · rw [segmentLines, Bytes.fields_eq, Bytes.withoutEmptyEnd_concat]

/-- A log that holds what stands behind the last newline of `started`, and has logged what
stands in front of it, goes on as if `started` had just been written. -/
theorem actAll_unterminated (acts : List Act) (started : Bytes) :
    started.terminated ++ (actAll ⟨started.unterminated⟩ acts).1 =
        (segmentsFrom started acts).1.flatMap segmentLines ++
          (segmentsFrom started acts).2.terminated ∧
      (actAll ⟨started.unterminated⟩ acts).2 = ⟨(segmentsFrom started acts).2.unterminated⟩ := by
  induction acts generalizing started with
  | nil => simp [actAll, segmentsFrom]
  | cons first rest inductionHypothesis =>
    cases first with
    | write octets =>
      obtain ⟨lines, written, pieces⟩ := write_unterminated started octets
      simp only [actAll, act, written, segmentsFrom]
      rw [← List.append_assoc, ← pieces]
      exact inductionHypothesis (started ++ octets)
    | flush | close =>
      obtain ⟨lines, flushed, pieces⟩ := flush_unterminated started
      obtain ⟨later, held⟩ := inductionHypothesis []
      simp only [actAll, act, close, flushed, segmentsFrom, List.flatMap_cons]
      refine ⟨?_, held⟩
      rw [← List.append_assoc, ← pieces, List.append_assoc]
      exact congrArg (segmentLines started ++ ·) later

theorem octets_segmentsFrom (acts : List Act) (started : Bytes) :
    (segmentsFrom started acts).1.flatten ++ (segmentsFrom started acts).2 =
      started ++ acts.flatMap Act.octets := by
  induction acts generalizing started with
  | nil => simp [segmentsFrom]
  | cons first rest inductionHypothesis =>
    cases first with
    | write octets =>
      rw [segmentsFrom, inductionHypothesis, List.flatMap_cons, List.append_assoc, Act.octets]
    | flush | close =>
      simp only [segmentsFrom, List.flatten_cons, List.append_assoc, inductionHypothesis,
        List.flatMap_cons, Act.octets, List.nil_append]

/-- The pieces of segments hold all their octets but the newlines. -/
theorem flatten_segmentLines (flushed : List Bytes) (pending : Bytes) :
    (flushed.flatMap segmentLines ++ pending.terminated).flatten ++ pending.unterminated =
      (flushed.flatten ++ pending).filter fun octet => octet ≠ Bytes.newline := by
  induction flushed with
  | nil =>
    have whole := Bytes.flatten_fields pending
    rw [Bytes.fields_eq, List.flatten_concat] at whole
    exact whole
  | cons segment rest inductionHypothesis =>
    rw [List.flatMap_cons, List.append_assoc, List.flatten_append, List.append_assoc,
      inductionHypothesis, segmentLines, Bytes.flatten_withoutEmptyEnd, List.flatten_cons,
      List.append_assoc, ← List.filter_append]

/-- Every write takes all its octets. What a log has logged and what it holds depends on the
segments between the flushes alone: it has logged the pieces of the flushed segments and those
pieces of the last segment that a newline ends, and it holds what stands behind that newline.
So the octets that were written, but for the newlines, are those of the lines and then those
that are held, in their order. The loop that logs the lines takes no more turns than there are
octets, and then there is no turn left to take. -/
theorem actAll_segments (acts : List Act) :
    (∀ (log : LineLog) (octets : Bytes), (log.write octets).1 = ⟨octets.length, .done⟩) ∧
      empty.actAll acts =
        ((segments acts).1.flatMap segmentLines ++ (segments acts).2.terminated,
          ⟨(segments acts).2.unterminated⟩) ∧
      (empty.actAll acts).1.flatten ++ (empty.actAll acts).2.held =
        (acts.flatMap Act.octets).filter (fun octet => octet ≠ Bytes.newline) ∧
      ∀ all octets, ∃ lines left, logLines all octets = (lines, left) ∧
        Turns all octets lines left ∧ turn? all left = none ∧ lines.length ≤ octets.length := by
  obtain ⟨logged, held⟩ := actAll_unterminated acts []
  have same : empty.actAll acts =
      ((segments acts).1.flatMap segmentLines ++ (segments acts).2.terminated,
        ⟨(segments acts).2.unterminated⟩) := Prod.ext logged held
  have octets := octets_segmentsFrom acts []
  refine ⟨fun _ _ => rfl, same, ?_, ?_⟩
  · rw [same, flatten_segmentLines, segments, octets, List.nil_append]
  · intro all octets
    obtain ⟨turns, finished⟩ := turns_logLines all octets
    have bound := turns.length_le
    exact ⟨_, _, rfl, turns, finished, by omega⟩

end LineLog

end LineForth
