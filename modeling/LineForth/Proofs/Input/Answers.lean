import LineForth.Proofs.Input.Closables

/-!
# Feeds call by call

A feed is asked for lines again and again. Its answers are the lines of its streams, stream
by stream, each line with its place. A stream that has ended is closed, and from then on
the feed answers as if the queue had started behind it. A stream that fails is never left:
its failure is the answer to every further call, and the streams behind it stay as they
are. In none of this does it matter in which pieces the streams give their octets.
-/

set_option autoImplicit false

namespace LineForth

namespace Bytes

/-- The text, cut after each newline. -/
def pieces : Bytes → List Bytes
  | [] => []
  | octet :: rest =>
    if octet = newline then [octet] :: pieces rest
    else
      match pieces rest with
      | [] => [[octet]]
      | first :: others => (octet :: first) :: others

theorem pieces_of_not_mem {octets : Bytes} (absent : newline ∉ octets) (nonempty : octets ≠ []) :
    octets.pieces = [octets] := by
  induction octets with
  | nil => exact absurd rfl nonempty
  | cons octet rest inductionHypothesis =>
    rw [List.mem_cons, not_or] at absent
    have different : octet ≠ newline := fun same => absent.1 same.symm
    cases rest with
    | nil => simp [pieces, different]
    | cons next others =>
      rw [pieces, if_neg different, inductionHypothesis absent.2 (by simp)]

theorem pieces_append {first : Bytes} (absent : newline ∉ first) (rest : Bytes) :
    pieces (first ++ newline :: rest) = (first ++ [newline]) :: pieces rest := by
  induction first with
  | nil => simp [pieces]
  | cons octet others inductionHypothesis =>
    rw [List.mem_cons, not_or] at absent
    have different : octet ≠ newline := fun same => absent.1 same.symm
    rw [List.cons_append, pieces, if_neg different, inductionHypothesis absent.2]
    rfl

/-- The lines of a text are its pieces without the carriage returns and newlines at their
ends. -/
theorem lines_eq_pieces (octets : Bytes) : octets.lines = octets.pieces.map chomp := by
  cases cut : cutLine? octets with
  | none =>
    rw [cutLine?_eq_none_iff] at cut
    by_cases empty : octets = []
    · rw [empty]
      rfl
    · rw [lines_of_not_mem cut empty, pieces_of_not_mem cut empty, List.map_singleton]
  | some found =>
    obtain ⟨line, rest⟩ := found
    have shorter : rest.length < octets.length := by
      have whole := append_of_cutLine? cut
      have positive := List.length_pos_iff.mpr (ne_nil_of_cutLine? cut)
      rw [← whole, List.length_append]
      omega
    obtain ⟨first, absent, rfl⟩ := exists_of_cutLine? cut
    have whole := append_of_cutLine? cut
    rw [List.append_assoc, List.singleton_append] at whole
    rw [← whole, lines_append absent, pieces_append absent, lines_eq_pieces rest, List.map_cons,
      chomp_append_newline]
termination_by octets.length

end Bytes

namespace Stream

/-- The stream ends with the bare end of the input. -/
def EndsPlainly (stream : Stream) : Prop := stream.ending.report = .endOfInput

instance (stream : Stream) : Decidable stream.EndsPlainly :=
  inferInstanceAs (Decidable (stream.ending.report = .endOfInput))

/-- The number of lines of the stream. -/
def lineCount (stream : Stream) : Nat := stream.pending.pieces.length

theorem length_lines (stream : Stream) : stream.pending.lines.length = stream.lineCount := by
  rw [Bytes.lines_eq_pieces, List.length_map, lineCount]

/-- The place of the line last handed out when this many lines of the stream have been. -/
def placeAfter (stream : Stream) (taken : Nat) (before : Location) : Location :=
  if taken = 0 then before else ⟨stream.name, taken⟩

section Queue

/-- The number of lines of the streams together. -/
def lineTotal : List Stream → Nat
  | [] => 0
  | stream :: rest => stream.lineCount + lineTotal rest

theorem lineTotal_append (front rest : List Stream) :
    lineTotal (front ++ rest) = lineTotal front + lineTotal rest := by
  induction front with
  | nil => rw [List.nil_append, lineTotal, Nat.zero_add]
  | cons stream front inductionHypothesis =>
    rw [List.cons_append, lineTotal, lineTotal, inductionHypothesis, Nat.add_assoc]

/-- The place of the last line of the streams; streams without a line leave the place as it
was. -/
def lastPlace (streams : List Stream) (before : Location) : Location :=
  streams.foldl (fun place stream => stream.placeAfter stream.lineCount place) before

/-- What is closed when the streams are closed one after the other. -/
def closingEvents (streams : List Stream) : List Event := streams.flatMap (·.close.2)

end Queue

theorem Continues.close {stream after : Stream} (continues : stream.Continues after) :
    after.close = stream.close := by
  obtain ⟨_, _, rfl⟩ := continues
  rfl

end Stream

namespace Reader

/-- The reader has taken this many lines from the stream. -/
structure Takes (stream : Stream) (taken : Nat) (reader : Reader) : Prop where
  continues : stream.Continues reader.stream
  lines : reader.octets.lines = stream.pending.lines.drop taken

namespace Takes

variable {stream : Stream} {taken : Nat} {reader : Reader}

theorem onStream (stream : Stream) : Takes stream 0 (Reader.onStream stream) :=
  ⟨.refl stream, rfl⟩

theorem line_of_getElem? (takes : Takes stream taken reader) {line : Bytes}
    (next : stream.pending.lines[taken]? = some line) :
    ∃ found after, reader.line = (.ok found, after) ∧ found.chomp = line ∧
      Takes stream (taken + 1) after := by
  have continues := takes.continues.trans reader.continues_line
  obtain ⟨inside, same⟩ := List.getElem?_eq_some_iff.mp next
  have ahead : reader.octets.lines = line :: stream.pending.lines.drop (taken + 1) := by
    rw [takes.lines, List.drop_eq_getElem_cons inside, same]
  rcases read : reader.line with ⟨failure | found, after⟩
  · obtain ⟨gone, -⟩ := of_line_error read
    rw [gone, Bytes.lines_nil] at ahead
    cases ahead
  · obtain ⟨first, -⟩ := lines_of_line_ok read
    rw [read] at continues
    rw [first, List.cons.injEq] at ahead
    exact ⟨found, after, rfl, ahead.1, continues, ahead.2⟩

theorem line_of_le (takes : Takes stream taken reader) (exhausted : stream.lineCount ≤ taken) :
    ∃ after, reader.line = (.error stream.ending.report, after) ∧ Takes stream taken after := by
  have continues := takes.continues.trans reader.continues_line
  have none : reader.octets.lines = [] := by
    rw [takes.lines]
    exact List.drop_eq_nil_of_le (stream.length_lines ▸ exhausted)
  rcases read : reader.line with ⟨failure | found, after⟩
  · obtain ⟨gone, still, same, -⟩ := of_line_error read
    rw [read] at continues
    obtain ⟨_, _, unread⟩ := takes.continues
    rw [unread] at same
    refine ⟨after, by rw [same], continues, ?_⟩
    rw [still, ← takes.lines, gone]
  · obtain ⟨first, -⟩ := lines_of_line_ok read
    rw [first] at none
    cases none

end Takes

end Reader

namespace Feed

/-- What a feed gives back: a line or a failure, what has been closed, and itself. -/
abbrev Answer := Except Failure Bytes × List Event × Feed

/-- The answer, with what was closed before it. -/
def behind (events : List Event) (answer : Answer) : Answer :=
  (answer.1, events ++ answer.2.1, answer.2.2)

theorem behind_nil (answer : Answer) : behind [] answer = answer := rfl

theorem behind_behind (first second : List Event) (answer : Answer) :
    behind first (behind second answer) = behind (first ++ second) answer := by
  simp only [behind, List.append_assoc]

/-- The answer to the call behind some earlier ones, with all that was closed by these
calls. -/
def answer : (earlier : Nat) → Feed → Answer
  | 0, feed => feed.readLine
  | earlier + 1, feed => behind feed.readLine.2.1 (feed.readLine.2.2.answer earlier)

theorem answer_of_readLine {feed other : Feed} {events : List Event}
    (same : feed.readLine = behind events other.readLine) (earlier : Nat) :
    feed.answer earlier = behind events (other.answer earlier) := by
  cases earlier with
  | zero => exact same
  | succ earlier =>
    simp only [answer, same, behind_behind]
    rfl

variable {stream : Stream} {taken : Nat} {reader : Reader}

section Call

variable (queue : List Stream) (last place : Location)

theorem readLine_of_line (takes : reader.Takes stream taken) {line : Bytes}
    (next : stream.pending.lines[taken]? = some line) :
    ∃ after : Reader, after.Takes stream (taken + 1) ∧
      readLine ⟨queue, some reader, last, ⟨stream.name, taken⟩⟩ =
        (.ok line, [], ⟨queue, some after, ⟨stream.name, taken + 1⟩,
          ⟨stream.name, taken + 1⟩⟩) := by
  obtain ⟨found, after, read, rfl, further⟩ := takes.line_of_getElem? next
  refine ⟨after, further, ?_⟩
  unfold readLine readFrom
  simp only [read]
  rfl

/-- A stream that has ended is closed, and the call goes to the streams behind it. -/
theorem readLine_of_ended (takes : reader.Takes stream taken) (exhausted : stream.lineCount ≤ taken)
    (plain : stream.EndsPlainly) :
    readLine ⟨queue, some reader, last, place⟩ =
      behind stream.close.2 (readLine ⟨queue, none, last, place⟩) := by
  obtain ⟨after, read, further⟩ := takes.line_of_le exhausted
  rw [plain] at read
  have closed := further.continues.close
  cases queue with
  | nil => simp [readLine, readFrom, read, closed, behind]
  | cons next rest =>
    unfold readLine
    dsimp only
    rw [readFrom]
    simp only [read, closed]
    rfl

theorem readLine_of_failing (takes : reader.Takes stream taken)
    (exhausted : stream.lineCount ≤ taken) (failing : ¬ stream.EndsPlainly) :
    ∃ after : Reader, after.Takes stream taken ∧
      readLine ⟨queue, some reader, last, place⟩ =
        (.error (.context place.render stream.ending.report), [],
          ⟨queue, some after, last, place⟩) := by
  obtain ⟨after, read, further⟩ := takes.line_of_le exhausted
  refine ⟨after, further, ?_⟩
  unfold readLine readFrom
  simp only [read]
  split
  next same => cases same
  next left same => exact absurd (Except.error.inj (Prod.mk.inj same).1) failing
  next failure left other same =>
    cases same
    rfl

end Call

/-- A stream hands out its lines one by one; the calls behind them find it where they
left it. -/
theorem exists_answer_within (queue : List Stream) (last : Location)
    (inside : taken ≤ stream.lineCount) :
    ∃ reader : Reader, reader.Takes stream taken ∧ ∀ earlier,
      answer (taken + earlier)
          ⟨queue, some (Reader.onStream stream), last, Location.start stream.name⟩ =
        answer earlier ⟨queue, some reader, stream.placeAfter taken last,
          ⟨stream.name, taken⟩⟩ := by
  induction taken with
  | zero =>
    refine ⟨Reader.onStream stream, .onStream stream, ?_⟩
    intro earlier
    rw [Nat.zero_add]
    rfl
  | succ taken inductionHypothesis =>
    obtain ⟨reader, takes, reached⟩ := inductionHypothesis (Nat.le_of_succ_le inside)
    obtain ⟨after, further, read⟩ := readLine_of_line queue (stream.placeAfter taken last) takes
      (List.getElem?_eq_getElem (stream.length_lines ▸ inside))
    refine ⟨after, further, ?_⟩
    intro earlier
    rw [Nat.add_right_comm, Nat.add_assoc, reached, answer, read]
    rfl

/-- A failing stream answers every further call with its failure. -/
theorem exists_answer_failing (queue : List Stream) (last place : Location)
    (takes : reader.Takes stream taken) (exhausted : stream.lineCount ≤ taken)
    (failing : ¬ stream.EndsPlainly) (earlier : Nat) :
    ∃ after : Reader, answer earlier ⟨queue, some reader, last, place⟩ =
      (.error (.context place.render stream.ending.report), [],
        ⟨queue, some after, last, place⟩) := by
  induction earlier generalizing reader with
  | zero =>
    obtain ⟨after, -, read⟩ := readLine_of_failing queue last place takes exhausted failing
    exact ⟨after, read⟩
  | succ earlier inductionHypothesis =>
    obtain ⟨after, further, read⟩ := readLine_of_failing queue last place takes exhausted failing
    obtain ⟨later, same⟩ := inductionHypothesis further
    refine ⟨later, ?_⟩
    rw [answer, read, same]
    rfl

section Queue

/-- A queue is begun with its first stream. -/
theorem answer_cons (stream : Stream) (queue : List Stream) (last place : Location)
    (earlier : Nat) :
    answer earlier ⟨stream :: queue, none, last, place⟩ =
      answer earlier ⟨queue, some (Reader.onStream stream), last, Location.start stream.name⟩ := by
  rw [← behind_nil (answer earlier ⟨queue, _, _, _⟩)]
  exact answer_of_readLine rfl earlier

/-- Behind the lines of a stream that ends, the calls go to the streams behind it. -/
theorem answer_of_plain (plain : stream.EndsPlainly) (queue : List Stream)
    (last place : Location) (earlier : Nat) :
    answer (stream.lineCount + earlier) ⟨stream :: queue, none, last, place⟩ =
      behind stream.close.2 (answer earlier ⟨queue, none,
        stream.placeAfter stream.lineCount last, ⟨stream.name, stream.lineCount⟩⟩) := by
  obtain ⟨reader, takes, reached⟩ := exists_answer_within queue last (Nat.le_refl stream.lineCount)
  rw [answer_cons, reached]
  exact answer_of_readLine
    (readLine_of_ended queue _ _ takes (Nat.le_refl _) plain) earlier

/-- Behind the lines of streams that end, all of them are closed in their order. -/
theorem exists_answer_of_front {front : List Stream} (plain : ∀ stream ∈ front, stream.EndsPlainly)
    (queue : List Stream) (last place : Location) :
    ∃ reached, ∀ earlier,
      answer (Stream.lineTotal front + earlier) ⟨front ++ queue, none, last, place⟩ =
        behind (Stream.closingEvents front)
          (answer earlier ⟨queue, none, Stream.lastPlace front last, reached⟩) := by
  induction front generalizing last place with
  | nil =>
    refine ⟨place, ?_⟩
    intro earlier
    rw [Stream.lineTotal, Nat.zero_add]
    rfl
  | cons stream front inductionHypothesis =>
    rw [List.forall_mem_cons] at plain
    obtain ⟨reached, same⟩ := inductionHypothesis plain.2
      (stream.placeAfter stream.lineCount last) ⟨stream.name, stream.lineCount⟩
    refine ⟨reached, ?_⟩
    intro earlier
    rw [Stream.lineTotal, Nat.add_assoc, List.cons_append, answer_of_plain plain.1, same,
      behind_behind]
    rfl

theorem answer_nil (last place : Location) (earlier : Nat) :
    answer earlier ⟨[], none, last, place⟩ = (.error .endOfInput, [], ⟨[], none, last, place⟩) := by
  induction earlier with
  | zero => rfl
  | succ earlier inductionHypothesis =>
    rw [answer]
    exact inductionHypothesis

theorem answer_ofQueue_of_ended {front : List Stream}
    (plain : ∀ stream ∈ front, stream.EndsPlainly) (earlier : Nat) :
    ∃ place, answer (Stream.lineTotal front + earlier) (ofQueue front) =
      (.error .endOfInput, Stream.closingEvents front,
        ⟨[], none, Stream.lastPlace front ⟨[], 0⟩, place⟩) := by
  obtain ⟨reached, same⟩ := exists_answer_of_front plain [] ⟨[], 0⟩ ⟨[], 0⟩
  refine ⟨reached, ?_⟩
  rw [List.append_nil] at same
  rw [ofQueue, same, answer_nil, behind, List.append_nil]

theorem answer_ofQueue_of_piece {front : List Stream}
    (plain : ∀ stream ∈ front, stream.EndsPlainly) (rest : List Stream) {index : Nat}
    {piece : Bytes} (found : stream.pending.pieces[index]? = some piece) :
    ∃ reader, answer (Stream.lineTotal front + index) (ofQueue (front ++ stream :: rest)) =
      (.ok piece.chomp, Stream.closingEvents front,
        ⟨rest, some reader, ⟨stream.name, index + 1⟩, ⟨stream.name, index + 1⟩⟩) := by
  obtain ⟨_, same⟩ := exists_answer_of_front plain (stream :: rest) ⟨[], 0⟩ ⟨[], 0⟩
  have line : stream.pending.lines[index]? = some piece.chomp := by
    rw [Bytes.lines_eq_pieces, List.getElem?_map, found]
    rfl
  have inside : index ≤ stream.lineCount := Nat.le_of_lt (List.getElem?_eq_some_iff.mp found).1
  obtain ⟨_, takes, left⟩ := exists_answer_within rest (Stream.lastPlace front ⟨[], 0⟩) inside
  obtain ⟨after, -, read⟩ := readLine_of_line rest
    (stream.placeAfter index (Stream.lastPlace front ⟨[], 0⟩)) takes line
  have reached := left 0
  rw [Nat.add_zero] at reached
  refine ⟨after, ?_⟩
  rw [ofQueue, same, answer_cons, reached, answer, read, behind, List.append_nil]

theorem answer_ofQueue_of_failing {front : List Stream}
    (plain : ∀ stream ∈ front, stream.EndsPlainly) (rest : List Stream)
    (failing : ¬ stream.EndsPlainly) (earlier : Nat) :
    ∃ reader,
      answer (Stream.lineTotal (front ++ [stream]) + earlier) (ofQueue (front ++ stream :: rest)) =
        (.error (.context (Location.render ⟨stream.name, stream.lineCount⟩) stream.ending.report),
          Stream.closingEvents front,
          ⟨rest, some reader, Stream.lastPlace (front ++ [stream]) ⟨[], 0⟩,
            ⟨stream.name, stream.lineCount⟩⟩) := by
  obtain ⟨_, same⟩ := exists_answer_of_front plain (stream :: rest) ⟨[], 0⟩ ⟨[], 0⟩
  obtain ⟨_, takes, left⟩ := exists_answer_within rest (Stream.lastPlace front ⟨[], 0⟩)
    (Nat.le_refl stream.lineCount)
  obtain ⟨after, read⟩ := exists_answer_failing rest
    (stream.placeAfter stream.lineCount (Stream.lastPlace front ⟨[], 0⟩))
    ⟨stream.name, stream.lineCount⟩ takes (Nat.le_refl _) failing earlier
  have total : Stream.lineTotal (front ++ [stream]) =
      Stream.lineTotal front + stream.lineCount := Stream.lineTotal_append front [stream]
  have place : Stream.lastPlace (front ++ [stream]) ⟨[], 0⟩ =
      stream.placeAfter stream.lineCount (Stream.lastPlace front ⟨[], 0⟩) := by
    simp [Stream.lastPlace]
  refine ⟨after, ?_⟩
  rw [total, Nat.add_assoc, ofQueue, same, answer_cons, left, read, place, behind, List.append_nil]

end Queue

/-- The answers of a queue, in the order of the calls: the pieces of each stream, without
the carriage returns and newlines at their ends, and each with its place; where all streams
have ended, the end of the input and nothing else; where a stream fails, its failure at the
place of its last line and nothing else. Each stream that has ended is closed before the
first line behind it, and what stands behind a failing stream is left as it is. The sizes
in which the streams give their octets do not matter. -/
theorem answer_ofQueue (front : List Stream) (plain : ∀ stream ∈ front, stream.EndsPlainly) :
    (∀ earlier, ∃ feed : Feed,
      answer (Stream.lineTotal front + earlier) (ofQueue front) =
        (.error .endOfInput, Stream.closingEvents front, feed) ∧
      feed.last = Stream.lastPlace front ⟨[], 0⟩ ∧ feed.unclosed = []) ∧
    ∀ (stream : Stream) (rest : List Stream),
      (∀ (index : Nat) (piece : Bytes), stream.pending.pieces[index]? = some piece →
        ∃ feed : Feed,
          answer (Stream.lineTotal front + index) (ofQueue (front ++ stream :: rest)) =
            (.ok piece.chomp, Stream.closingEvents front, feed) ∧
          feed.last = ⟨stream.name, index + 1⟩ ∧ feed.queue = rest) ∧
      (¬ stream.EndsPlainly → ∀ earlier, ∃ feed : Feed,
        answer (Stream.lineTotal (front ++ [stream]) + earlier)
            (ofQueue (front ++ stream :: rest)) =
          (.error (.context (Location.render ⟨stream.name, stream.lineCount⟩)
            stream.ending.report), Stream.closingEvents front, feed) ∧
        feed.last = Stream.lastPlace (front ++ [stream]) ⟨[], 0⟩ ∧ feed.queue = rest) := by
  refine ⟨?_, ?_⟩
  · intro earlier
    obtain ⟨_, same⟩ := answer_ofQueue_of_ended plain earlier
    exact ⟨_, same, rfl, rfl⟩
  · intro stream rest
    refine ⟨?_, ?_⟩
    · intro index piece found
      obtain ⟨_, same⟩ := answer_ofQueue_of_piece plain rest found
      exact ⟨_, same, rfl, rfl⟩
    · intro failing earlier
      obtain ⟨_, same⟩ := answer_ofQueue_of_failing plain rest failing earlier
      exact ⟨_, same, rfl, rfl⟩

section Mixed

/-- Two streams that end. The first gives its octets piece by piece, with a cut between a
carriage return and its newline and with nothing in between as often as a reader bears it, and
its last line has no newline; the second is empty. -/
def twoEnding : List Stream :=
  [⟨text "a", text "1\r\n\r\n23", ⟨[2, 1], 3, [0, 99, 1]⟩, .failure .endOfInput, .closes none⟩,
    ⟨text "b", [], 0, .failure .endOfInput, .closes none 1⟩]

/-- A stream that gives nothing any more behind its line. -/
def stalling : Stream := ⟨text "c", text "4\n", 1, .stall, .never⟩

/-- A stream behind the stalling one. -/
def unread : Stream := ⟨text "d", text "5\n", 0, .failure .endOfInput, .closes none 2⟩

theorem answer_ofQueue_twoEnding :
    (∀ stream ∈ twoEnding, stream.EndsPlainly) ∧
      (∃ feed : Feed, answer 3 (ofQueue (twoEnding ++ [stalling, unread])) =
        (.ok (text "4"), [.closed (text "a") 0, .closed (text "b") 1], feed) ∧
        feed.last = ⟨text "c", 1⟩ ∧ feed.queue = [unread]) ∧
      ∃ feed : Feed, answer 9 (ofQueue (twoEnding ++ [stalling, unread])) =
        (.error (.context (text "c:1") Stream.noProgress),
          [.closed (text "a") 0, .closed (text "b") 1], feed) ∧
        feed.last = ⟨text "c", 1⟩ ∧ feed.queue = [unread] := by
  have plain : ∀ stream ∈ twoEnding, stream.EndsPlainly := by decide +kernel
  have found : stalling.pending.pieces[0]? = some (text "4\n") := by decide +kernel
  have failing : ¬ stalling.EndsPlainly := by decide +kernel
  have closed : Stream.closingEvents twoEnding = [.closed (text "a") 0, .closed (text "b") 1] := rfl
  obtain ⟨-, behind⟩ := answer_ofQueue twoEnding plain
  obtain ⟨lines, failures⟩ := behind stalling [unread]
  have line := lines 0 _ found
  have failure := failures failing 5
  have place : Location.render ⟨text "c", 1⟩ = text "c:1" := by decide +kernel
  rw [closed] at line failure
  exact ⟨plain, line, place ▸ failure⟩

end Mixed

end Feed

end LineForth
