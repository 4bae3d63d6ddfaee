import LineForth.Proofs.Input.Deliveries

/-!
# The ends of sources

A source that has reported a failure reports it again, however often it is asked, and it stays
as it is. So the end of the input repeats as well, whether it is the end of a list, of the
last stream of a feed, or an end that a stream has wrapped into a failure of its own.
-/

set_option autoImplicit false

namespace LineForth

variable {failure : Failure} {events : List Event}

/-- A reader that found no octet finds none when it is asked again. -/
theorem Reader.gather_of_broken {stream : Stream} {ahead : Bytes} {after : Reader}
    (gathered : gather stream ahead = .broken [] failure after) :
    gather after.stream after.ahead = .broken [] failure after := by
  fun_induction gather stream ahead with
  | case1 => cases gathered
  | case2 stream ahead uncut reported left fetched =>
    cases gathered
    obtain ⟨-, atEnd, same⟩ := Stream.report_of_fetch_error fetched
    have kept := stream.fetch_ending Stream.patience
    rw [fetched] at kept
    have again : left.fetch Stream.patience = (.error failure, left) := by
      rw [same, ← kept]
      exact atEnd.fetch_succ _
    unfold gather
    split
    next found rest cut =>
      rw [uncut] at cut
      cases cut
    next =>
      split
      next repeated left' fetched' =>
        rw [again] at fetched'
        cases fetched'
        rfl
      next piece left' fetched' =>
        rw [again] at fetched'
        cases fetched'
  | case3 stream ahead uncut piece left fetched inductionHypothesis =>
    rcases later : gather left piece with ⟨line, last⟩ | ⟨octets, reported, last⟩
    · simp [later, Gathered.before] at gathered
    · simp only [later, Gathered.before, Gathered.broken.injEq, List.append_eq_nil_iff] at gathered
      obtain ⟨⟨-, rfl⟩, rfl, rfl⟩ := gathered
      exact inductionHypothesis later

theorem Reader.line_of_error {reader after : Reader}
    (read : reader.line = (.error failure, after)) : after.line = (.error failure, after) := by
  unfold Reader.line at read
  split at read
  next => cases read
  next reported left gathered =>
    cases read
    rw [Reader.line, gather_of_broken gathered]
  next => cases read

namespace Feed

variable {last place : Location} {reader : Reader}

theorem readLine_of_readFrom_error {queue : List Stream} {after : Feed}
    (read : readFrom last reader place queue = (.error failure, events, after)) :
    after.readLine = (.error failure, [], after) := by
  fun_induction readFrom last reader place queue generalizing events with
  | case1 => cases read
  | case2 =>
    cases read
    rfl
  | case3 reader place left stream rest found result noted feed later inductionHypothesis =>
    cases read
    exact inductionHypothesis later
  | case4 reader place queue reported left other found =>
    cases read
    -- The reader is asked once more, and it fails in the same way.
    unfold readLine readFrom
    simp only [Reader.line_of_error found]

theorem readLine_of_error {feed after : Feed}
    (read : feed.readLine = (.error failure, events, after)) :
    after.readLine = (.error failure, [], after) := by
  unfold readLine at read
  split at read
  next => exact readLine_of_readFrom_error read
  next ended empty =>
    cases read
    rw [readLine, ended, empty]
  next => exact readLine_of_readFrom_error read

end Feed

/-- A source that has reported a failure goes on reporting it, and nothing else happens. -/
theorem Source.readLine_of_error {source after : Source}
    (read : source.readLine = (.error failure, events, after)) :
    after.readLine = (.error failure, [], after) := by
  cases source with
  | list given =>
    obtain ⟨name, lines, taken, ending, located, interruptAt, closeFailure, handle⟩ := given
    cases lines with
    | nil =>
      cases read
      rfl
    | cons line rest => cases read
  | feed streams =>
    rcases found : streams.readLine with ⟨result, noted, left⟩
    simp only [Source.readLine, found] at read
    cases read
    rw [Source.readLine, Feed.readLine_of_error found]

/-- The source has reported the end of its input, and it does so again. -/
def Source.Spent (source : Source) : Prop :=
  ∃ failure, failure.isEndOfInput = true ∧ source.readLine = (.error failure, [], source)

end LineForth
