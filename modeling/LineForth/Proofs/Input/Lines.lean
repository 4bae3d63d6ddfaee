import LineForth.Input.Stream
import LineForth.Proofs.Sequencing

/-!
# The lines of a text

A text is cut at its newlines. What stands behind the last newline is a line only if
there is something, and carriage returns at the end of a line do not belong to it. A
reader hands out the lines of what is still to come, whatever the pieces are in which
its stream gives the octets, and then reports the ending of the stream.
-/

set_option autoImplicit false

namespace LineForth

namespace Bytes

/-- All pieces, except that an empty last one is dropped. -/
def withoutEmptyEnd : List Bytes → List Bytes
  | [] => []
  | [last] => if last.isEmpty then [] else [last]
  | piece :: rest => piece :: withoutEmptyEnd rest

def lines (octets : Bytes) : List Bytes :=
  (withoutEmptyEnd (fields newline octets)).map chomp

theorem withoutEmptyEnd_cons (piece : Bytes) {rest : List Bytes} (nonempty : rest ≠ []) :
    withoutEmptyEnd (piece :: rest) = piece :: withoutEmptyEnd rest := by
  cases rest with
  | nil => exact absurd rfl nonempty
  | cons next others => rfl

theorem fields_of_not_mem {separator : UInt8} {octets : Bytes} (absent : separator ∉ octets) :
    fields separator octets = [octets] := by
  induction octets with
  | nil => rfl
  | cons octet rest inductionHypothesis =>
    rw [List.mem_cons, not_or] at absent
    have different : octet ≠ separator := fun same => absent.1 same.symm
    simp only [fields, if_neg different, inductionHypothesis absent.2]

theorem lines_nil : lines [] = [] := rfl

theorem lines_of_not_mem {octets : Bytes} (absent : newline ∉ octets) (nonempty : octets ≠ []) :
    lines octets = [octets.chomp] := by
  have solid : octets.isEmpty = false := by simpa using nonempty
  simp [lines, fields_of_not_mem absent, withoutEmptyEnd, solid]

theorem lines_append {first : Bytes} (absent : newline ∉ first) (rest : Bytes) :
    lines (first ++ newline :: rest) = first.chomp :: lines rest := by
  simp only [lines, fields_append, fields_of_not_mem absent, List.singleton_append]
  rw [withoutEmptyEnd_cons first (fields_ne_nil newline rest), List.map_cons]

theorem chomp_append_newline (octets : Bytes) : (octets ++ [newline]).chomp = octets.chomp := by
  simp [chomp, dropEndWhile]

section CutLine

theorem cutLine?_eq_none_iff {octets : Bytes} : cutLine? octets = none ↔ newline ∉ octets := by
  induction octets with
  | nil => simp [cutLine?]
  | cons octet rest inductionHypothesis =>
    by_cases same : octet = newline
    · simp [cutLine?, same]
    · simp [cutLine?, same, inductionHypothesis, Ne.symm same]

theorem exists_of_cutLine? {octets line rest : Bytes} (cut : cutLine? octets = some (line, rest)) :
    ∃ first, newline ∉ first ∧ line = first ++ [newline] := by
  induction octets generalizing line with
  | nil => simp [cutLine?] at cut
  | cons octet others inductionHypothesis =>
    by_cases same : octet = newline
    · simp only [cutLine?, if_pos same, Option.some.injEq, Prod.mk.injEq] at cut
      exact ⟨[], by simp, by simp [← cut.1, same]⟩
    · simp only [cutLine?, if_neg same] at cut
      obtain ⟨⟨front, back⟩, inner, joined⟩ := Option.map_eq_some_iff.mp cut
      simp only [Prod.mk.injEq] at joined
      obtain ⟨first, absent, ends⟩ := inductionHypothesis (joined.2 ▸ inner)
      refine ⟨octet :: first, ?_, by simp [← joined.1, ends]⟩
      simp [absent, Ne.symm same]

theorem cutLine?_append_of_some {first line rest : Bytes} (cut : cutLine? first = some (line, rest))
    (second : Bytes) : cutLine? (first ++ second) = some (line, rest ++ second) := by
  induction first generalizing line with
  | nil => simp [cutLine?] at cut
  | cons octet others inductionHypothesis =>
    simp only [List.cons_append, cutLine?] at cut ⊢
    split at cut
    next same =>
      simp only [Option.some.injEq, Prod.mk.injEq] at cut
      simp [same, ← cut.1, ← cut.2]
    next different =>
      obtain ⟨⟨front, back⟩, inner, joined⟩ := Option.map_eq_some_iff.mp cut
      simp only [Prod.mk.injEq] at joined
      obtain ⟨rfl, rfl⟩ := joined
      simp [different, inductionHypothesis inner]

theorem cutLine?_append_of_none {first : Bytes} (uncut : cutLine? first = none)
    (second : Bytes) :
    cutLine? (first ++ second) =
      (cutLine? second).map fun (line, rest) => (first ++ line, rest) := by
  induction first with
  | nil => simp
  | cons octet others inductionHypothesis =>
    simp only [List.cons_append, cutLine?] at uncut ⊢
    split at uncut
    next => cases uncut
    next different =>
      rw [Option.map_eq_none_iff] at uncut
      simp only [if_neg different, inductionHypothesis uncut, Option.map_map]
      rfl

theorem lines_of_cutLine? {octets line rest : Bytes} (cut : cutLine? octets = some (line, rest)) :
    lines octets = line.chomp :: lines rest := by
  obtain ⟨first, absent, rfl⟩ := exists_of_cutLine? cut
  have whole := append_of_cutLine? cut
  rw [List.append_assoc, List.singleton_append] at whole
  rw [← whole, lines_append absent, chomp_append_newline]

end CutLine

end Bytes

namespace StreamEnding

/-- What a reader reports once the octets are gone. -/
def report : StreamEnding → Failure
  | failure reported => reported
  | stall => Stream.noProgress

end StreamEnding

namespace Stream

theorem read_ending (stream : Stream) : stream.read.2.ending = stream.ending := by
  unfold read
  split
  · rfl
  split
  · split <;> rfl
  · rfl

theorem fetch_ending (tries : Nat) (stream : Stream) :
    (stream.fetch tries).2.ending = stream.ending := by
  induction tries generalizing stream with
  | zero => rfl
  | succ tries inductionHypothesis =>
    have kept := stream.read_ending
    rcases found : stream.read with ⟨piece, after⟩
    rw [found] at kept
    rw [fetch, found]
    cases piece with
    | octets octets => exact kept
    | nothing => exact (inductionHypothesis after).trans kept
    | failed failure => exact kept

/-- The next answer is the ending, without a lull before it. -/
def AtEnd (stream : Stream) : Prop := stream.pending = [] ∧ stream.chunk.lull = 0

/-- Where the octets are gone, the ending is reported however often it is asked for. -/
theorem AtEnd.fetch_succ {stream : Stream} (atEnd : stream.AtEnd) (tries : Nat) :
    stream.fetch (tries + 1) = (.error stream.ending.report, stream) := by
  obtain ⟨gone, prompt⟩ := atEnd
  cases ending : stream.ending with
  | failure reported => simp [fetch, read, gone, prompt, ending, StreamEnding.report]
  | stall =>
    have silent : stream.read = (.nothing, stream) := by simp [read, gone, prompt, ending]
    induction tries with
    | zero =>
      rw [fetch, silent]
      rfl
    | succ tries inductionHypothesis =>
      rw [fetch, silent]
      exact inductionHypothesis

/-- A lull is over before a reader gives up. -/
theorem atEnd_of_fetch_error {tries : Nat} {stream after : Stream} {failure : Failure}
    (enough : stream.chunk.lull < tries) (fetched : stream.fetch tries = (.error failure, after)) :
    after.AtEnd ∧ failure = stream.ending.report := by
  induction tries generalizing stream with
  | zero => omega
  | succ tries inductionHypothesis =>
    by_cases lull : 0 < stream.chunk.lull
    · have shorter : stream.chunk.waited.lull < tries := by
        rw [Chunking.lull_waited]
        omega
      rw [fetch, read, if_pos lull] at fetched
      have later := inductionHypothesis shorter fetched
      exact later
    · cases pending : stream.pending with
      | cons octet rest => simp [fetch, read, lull, pending] at fetched
      | nil =>
        have atEnd : stream.AtEnd := ⟨pending, by omega⟩
        rw [atEnd.fetch_succ] at fetched
        cases fetched
        exact ⟨atEnd, rfl⟩

/-- Fetching fails only where the octets are gone, and then it reports the ending. -/
theorem report_of_fetch_error {stream after : Stream} {failure : Failure}
    (fetched : stream.fetch patience = (.error failure, after)) :
    stream.pending = [] ∧ after.AtEnd ∧ failure = stream.ending.report := by
  obtain ⟨atEnd, same⟩ := atEnd_of_fetch_error stream.chunk.lull_lt fetched
  exact ⟨(fetch_error fetched).symm.trans atEnd.1, atEnd, same⟩

end Stream

namespace Reader

variable {stream : Stream} {ahead : Bytes} {reader after : Reader} {line : Bytes}
  {failure : Failure}

theorem of_gather_complete (gathered : gather stream ahead = .complete line after) :
    Bytes.cutLine? (ahead ++ stream.pending) = some (line, after.octets) ∧
      after.stream.ending = stream.ending := by
  fun_induction gather stream ahead generalizing line with
  | case1 stream ahead found rest cut =>
    simp only [Gathered.complete.injEq] at gathered
    obtain ⟨rfl, rfl⟩ := gathered
    exact ⟨Bytes.cutLine?_append_of_some cut _, rfl⟩
  | case2 => simp at gathered
  | case3 stream ahead uncut piece left fetched inductionHypothesis =>
    cases inner : gather left piece with
    | broken rest failure last => simp [inner, Gathered.before] at gathered
    | complete rest last =>
      rw [inner] at gathered
      simp only [Gathered.before, Gathered.complete.injEq] at gathered
      obtain ⟨rfl, rfl⟩ := gathered
      obtain ⟨cut, ending⟩ := inductionHypothesis inner
      have kept := stream.fetch_ending Stream.patience
      rw [fetched] at kept
      rw [← (Stream.fetch_ok fetched).2, Bytes.cutLine?_append_of_none uncut, cut]
      exact ⟨rfl, ending.trans kept⟩

theorem of_gather_broken {octets : Bytes}
    (gathered : gather stream ahead = .broken octets failure after) :
    octets = ahead ++ stream.pending ∧ Bytes.newline ∉ octets ∧ after.octets = [] ∧
      failure = stream.ending.report ∧ after.stream.ending = stream.ending := by
  fun_induction gather stream ahead generalizing octets with
  | case1 => simp at gathered
  | case2 stream ahead uncut reported left fetched =>
    simp only [Gathered.broken.injEq] at gathered
    obtain ⟨rfl, rfl, rfl⟩ := gathered
    obtain ⟨gone, atEnd, same⟩ := Stream.report_of_fetch_error fetched
    have kept := stream.fetch_ending Stream.patience
    rw [fetched] at kept
    exact ⟨by simp [gone], Bytes.cutLine?_eq_none_iff.mp uncut, atEnd.1, same, kept⟩
  | case3 stream ahead uncut piece left fetched inductionHypothesis =>
    cases inner : gather left piece with
    | complete rest last => simp [inner, Gathered.before] at gathered
    | broken rest reported last =>
      rw [inner] at gathered
      simp only [Gathered.before, Gathered.broken.injEq] at gathered
      obtain ⟨rfl, rfl, rfl⟩ := gathered
      obtain ⟨whole, absent, gone, same, ending⟩ := inductionHypothesis inner
      have kept := stream.fetch_ending Stream.patience
      rw [fetched] at kept
      have joined : ahead ++ rest = ahead ++ stream.pending := by
        rw [whole, (Stream.fetch_ok fetched).2]
      refine ⟨joined, ?_, gone, same.trans (by rw [kept]), ending.trans kept⟩
      rw [List.mem_append, not_or]
      exact ⟨Bytes.cutLine?_eq_none_iff.mp uncut, absent⟩

/-- A reader hands out the first of the lines that are still to come. -/
theorem lines_of_line_ok (read : reader.line = (.ok line, after)) :
    reader.octets.lines = line.chomp :: after.octets.lines ∧
      after.stream.ending = reader.stream.ending := by
  unfold Reader.line at read
  split at read
  next found left gathered =>
    cases read
    obtain ⟨cut, ending⟩ := of_gather_complete gathered
    exact ⟨Bytes.lines_of_cutLine? cut, ending⟩
  next => cases read
  next found reported left nonempty gathered =>
    cases read
    obtain ⟨whole, absent, gone, -, ending⟩ := of_gather_broken gathered
    refine ⟨?_, ending⟩
    rw [gone, Bytes.lines_nil, octets, ← whole]
    exact Bytes.lines_of_not_mem absent (fun empty => nonempty (empty ▸ rfl))

/-- A reader reports the ending of its stream when no octet is left. -/
theorem of_line_error (read : reader.line = (.error failure, after)) :
    reader.octets = [] ∧ after.octets = [] ∧ failure = reader.stream.ending.report ∧
      after.stream.ending = reader.stream.ending := by
  unfold Reader.line at read
  split at read
  next => cases read
  next reported left gathered =>
    cases read
    obtain ⟨whole, -, gone, same, ending⟩ := of_gather_broken gathered
    exact ⟨whole.symm, gone, same, ending⟩
  next => cases read

end Reader

end LineForth
