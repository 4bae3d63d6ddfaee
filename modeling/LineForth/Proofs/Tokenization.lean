import LineForth.Proofs.Storage
import LineForth.Proofs.Text.Trimming

/-!
# From a line to its tokens and back

A line has one token more than it has spaces. The tokens have neither spaces nor white space
at their ends, and joined by single spaces they give themselves again, as do all byte strings
of this kind. A cursor hands them out from left to right. It may be asked for the next token,
or for the next one that is not blank; either way it answers with the first token left that is
asked for, and it goes past the ones before.
-/

set_option autoImplicit false

namespace LineForth

namespace Cursor

/-- The ways of asking a cursor. -/
inductive Move where
  | next
  | name
  deriving DecidableEq, Repr

/-- The tokens that are asked for. -/
def Move.takes : Move → Token → Bool
  | next, _ => true
  | name, token => !token.isEmpty

def move (cursor : Cursor) : Move → Option Token × Cursor
  | .next => cursor.next
  | .name => cursor.name

/-- Asks again and again. The answers come with the cursor behind them. -/
def walk : List Move → Cursor → List (Option Token) × Cursor
  | [], cursor => ([], cursor)
  | asked :: moves, cursor =>
    let (answer, after) := cursor.move asked
    let (answers, last) := walk moves after
    (answer :: answers, last)

/-- The answer and the cursor behind it. -/
inductive Answers (asked : Move) (cursor : Cursor) : Option Token → Cursor → Prop
  | found {skipped : List Token} {token : Token} {rest : List Token}
      (passed : ∀ token ∈ skipped, asked.takes token = false) (taken : asked.takes token = true)
      (remaining : cursor.remaining = skipped ++ token :: rest) :
      Answers asked cursor (some token) ⟨cursor.index + skipped.length + 1, rest⟩
  | nothing (passed : ∀ token ∈ cursor.remaining, asked.takes token = false) :
      Answers asked cursor none ⟨cursor.index + cursor.remaining.length, []⟩

theorem answers_nameFrom (index : Nat) (tokens : List Token) :
    Answers .name ⟨index, tokens⟩ (nameFrom index tokens).1 (nameFrom index tokens).2 := by
  induction tokens generalizing index with
  | nil => exact .nothing (by simp)
  | cons token rest inductionHypothesis =>
    by_cases blank : token.isEmpty = true
    · have unasked : Move.name.takes token = false := by simp [Move.takes, blank]
      rw [nameFrom, if_pos blank]
      -- The blank token is one more that is passed.
      have later := inductionHypothesis (index + 1)
      generalize nameFrom (index + 1) rest = result at later
      obtain ⟨answer, after⟩ := result
      cases later with
      | @found skipped name others passed taken remaining =>
        have place : index + 1 + skipped.length + 1 = index + (token :: skipped).length + 1 := by
          rw [List.length_cons]
          omega
        dsimp only at remaining ⊢
        rw [place]
        exact .found (List.forall_mem_cons.mpr ⟨unasked, passed⟩) taken (by simp [remaining])
      | nothing passed =>
        have place : index + 1 + rest.length = index + (token :: rest).length := by
          rw [List.length_cons]
          omega
        dsimp only
        rw [place]
        exact .nothing (List.forall_mem_cons.mpr ⟨unasked, passed⟩)
    · rw [nameFrom, if_neg blank]
      exact .found (List.forall_mem_nil _) (by simp [Move.takes, blank]) rfl

theorem answers_move (cursor : Cursor) (asked : Move) :
    Answers asked cursor (cursor.move asked).1 (cursor.move asked).2 := by
  cases asked with
  | name => exact answers_nameFrom cursor.index cursor.remaining
  | next =>
    obtain ⟨index, remaining⟩ := cursor
    cases remaining with
    | nil => exact .nothing (by simp)
    | cons token rest => exact .found (List.forall_mem_nil _) rfl rfl

/-- The cursor has its place among the tokens. -/
structure StandsIn (tokens : List Token) (cursor : Cursor) : Prop where
  remaining : cursor.remaining = tokens.drop cursor.index
  bounded : cursor.index ≤ tokens.length

section Answers

variable {tokens : List Token} {asked : Move} {cursor after : Cursor} {answer : Option Token}

theorem Answers.index_le (answers : Answers asked cursor answer after) :
    cursor.index ≤ after.index := by
  cases answers with
  | found passed taken remaining => exact Nat.le_add_right_of_le (Nat.le_add_right _ _)
  | nothing passed => exact Nat.le_add_right _ _

theorem Answers.eq_none_iff (answers : Answers asked cursor answer after) :
    answer = none ↔ ∀ token ∈ cursor.remaining, asked.takes token = false := by
  cases answers with
  | @found skipped token rest passed taken remaining =>
    refine ⟨nofun, ?_⟩
    intro unasked
    have other := unasked token (by simp [remaining])
    rw [taken] at other
    cases other
  | nothing passed => exact ⟨fun _ => passed, fun _ => rfl⟩

theorem StandsIn.answers (stands : StandsIn tokens cursor)
    (answers : Answers asked cursor answer after) : StandsIn tokens after := by
  have left := congrArg List.length stands.remaining
  rw [List.length_drop] at left
  have bounded := stands.bounded
  cases answers with
  | @found skipped token rest passed taken remaining =>
    have split := stands.remaining.symm.trans remaining
    rw [remaining, List.length_append, List.length_cons] at left
    refine ⟨?_, by dsimp only; omega⟩
    dsimp only
    rw [Nat.add_assoc, ← List.drop_drop, split]
    simp
  | nothing passed =>
    refine ⟨?_, by dsimp only; omega⟩
    dsimp only
    rw [List.drop_eq_nil_of_le (by omega)]

/-- The token handed out stands right before the cursor. -/
theorem StandsIn.getElem?_of_answers {token : Token} (stands : StandsIn tokens cursor)
    (answers : Answers asked cursor (some token) after) :
    ∃ place, cursor.index ≤ place ∧ after.index = place + 1 ∧ tokens[place]? = some token := by
  cases answers with
  | @found skipped _ rest passed taken remaining =>
    refine ⟨cursor.index + skipped.length, Nat.le_add_right _ _, rfl, ?_⟩
    rw [← List.getElem?_drop, ← stands.remaining, remaining]
    simp

end Answers

theorem index_le_walk (moves : List Move) (cursor : Cursor) :
    cursor.index ≤ (cursor.walk moves).2.index := by
  induction moves generalizing cursor with
  | nil => exact Nat.le_refl _
  | cons asked moves inductionHypothesis =>
    exact (answers_move cursor asked).index_le.trans (inductionHypothesis _)

theorem StandsIn.walk {tokens : List Token} {cursor : Cursor} (stands : StandsIn tokens cursor)
    (moves : List Move) : StandsIn tokens (cursor.walk moves).2 := by
  induction moves generalizing cursor with
  | nil => exact stands
  | cons asked moves inductionHypothesis =>
    exact inductionHypothesis (stands.answers (answers_move cursor asked))

/-- The tokens handed out stand in places that go up, behind the first cursor and before the
last one. -/
theorem StandsIn.exists_places {tokens : List Token} {cursor : Cursor}
    (stands : StandsIn tokens cursor) (moves : List Move) :
    ∃ places : List Nat, places.Pairwise (· < ·) ∧
      (∀ place ∈ places, cursor.index ≤ place ∧ place < (cursor.walk moves).2.index) ∧
      places.map (fun place => tokens[place]?) =
        ((cursor.walk moves).1.filterMap id).map some := by
  induction moves generalizing cursor with
  | nil => exact ⟨[], .nil, by simp, rfl⟩
  | cons asked moves inductionHypothesis =>
    have answers := answers_move cursor asked
    have next := stands.answers answers
    obtain ⟨places, increasing, between, same⟩ := inductionHypothesis next
    have forward := answers.index_le
    rcases moved : cursor.move asked with ⟨_ | token, after⟩
    · rw [moved] at between same forward
      refine ⟨places, increasing, ?_, by simpa [Cursor.walk, moved] using same⟩
      intro place membership
      have inside := between place membership
      simp only [Cursor.walk, moved]
      exact ⟨forward.trans inside.1, inside.2⟩
    · rw [moved] at answers between same next
      obtain ⟨place, behind, before, there⟩ := stands.getElem?_of_answers answers
      dsimp only at behind before between same
      have reached := index_le_walk moves after
      refine ⟨place :: places, List.pairwise_cons.mpr ⟨?_, increasing⟩, ?_, ?_⟩
      · intro other membership
        have inside := between other membership
        omega
      · simp only [Cursor.walk, moved, List.forall_mem_cons]
        refine ⟨⟨behind, by omega⟩, ?_⟩
        intro other membership
        have inside := between other membership
        exact ⟨by omega, inside.2⟩
      · simpa [Cursor.walk, moved, there] using same

end Cursor

/-- A line is cut into as many tokens as its spaces leave, without spaces and without white
space at their ends, which is all that trimming takes away. Joined by single spaces, tokens of
this kind are cut apart again. However a cursor is asked, it hands out tokens from left to
right, each of them once, and it misses none that is asked for. -/
theorem tokenize_round_trip (line : Bytes) :
    (tokenize line).length = line.count Bytes.space + 1 ∧
    (∀ token ∈ tokenize line, Bytes.space ∉ token ∧ Bytes.trim token = token) ∧
    (∀ octets : Bytes, Utf8.glyphs octets.trim = Glyph.trimmed (Utf8.glyphs octets)) ∧
    tokenize (Bytes.join [Bytes.space] (tokenize line)) = tokenize line ∧
    (∀ tokens : List Token, tokens ≠ [] →
      (∀ token ∈ tokens, Bytes.space ∉ token ∧ Bytes.trim token = token) →
      tokenize (Bytes.join [Bytes.space] tokens) = tokens) ∧
    ∀ (tokens : List Token) (moves : List Cursor.Move),
      let (answers, cursor) := (Cursor.ofTokens tokens).walk moves
      (∃ places : List Nat, places.Pairwise (· < ·) ∧ (∀ place ∈ places, place < cursor.index) ∧
        places.map (fun place => tokens[place]?) = (answers.filterMap id).map some) ∧
      cursor.remaining = tokens.drop cursor.index ∧ cursor.index ≤ tokens.length ∧
      ∀ asked : Cursor.Move,
        let (answer, after) := cursor.move asked
        cursor.index ≤ after.index ∧ after.index ≤ tokens.length ∧
          Cursor.Answers asked cursor answer after ∧
          (answer = none ↔ ∀ token ∈ cursor.remaining, asked.takes token = false) := by
  refine ⟨?_, ?_, Bytes.glyphs_trim, ?_, ?_, ?_⟩
  · rw [tokenize, List.length_map, Bytes.length_fields]
  · intro token membership
    have cut := cut_of_mem_tokenize membership
    exact ⟨cut.unspaced, cut.trimmed⟩
  · apply tokenize_join
    · rw [tokenize, ne_eq, List.map_eq_nil_iff]
      exact Bytes.fields_ne_nil _ _
    · intro token membership
      exact cut_of_mem_tokenize membership
  · intro tokens nonempty cut
    apply tokenize_join nonempty
    intro token membership
    obtain ⟨unspaced, trimmed⟩ := cut token membership
    exact ⟨unspaced, trimmed⟩
  · intro tokens moves
    have start : Cursor.StandsIn tokens (Cursor.ofTokens tokens) := ⟨rfl, Nat.zero_le _⟩
    have stands := start.walk moves
    obtain ⟨places, increasing, between, same⟩ := start.exists_places moves
    refine ⟨⟨places, increasing, ?_, same⟩, stands.remaining, stands.bounded, ?_⟩
    · intro place membership
      exact (between place membership).2
    · intro asked
      have answers := Cursor.answers_move ((Cursor.ofTokens tokens).walk moves).2 asked
      exact ⟨answers.index_le, (stands.answers answers).bounded, answers, answers.eq_none_iff⟩

/-- White space of two octets is trimmed. Its second octet alone is not, and neither are the
first two octets of a space of three. -/
theorem tokenize_round_trip_truncated :
    let line : Bytes := [0xC2, 0xA0, 0x61, 0x20, 0x20, 0xA0, 0x20, 0xE2, 0x80]
    let tokens : List Token := [[0x61], [], [0xA0], [0xE2, 0x80]]
    tokenize line = tokens ∧ (tokenize line).length = 4 ∧
      tokenize (Bytes.join [Bytes.space] tokens) = tokens ∧
      (Cursor.ofTokens tokens).walk [.name, .name, .name, .next] =
        ([some [0x61], some [0xA0], some [0xE2, 0x80], none], ⟨4, []⟩) ∧
      ∃ places : List Nat, places.Pairwise (· < ·) ∧ (∀ place ∈ places, place < 4) ∧
        places.map (fun place => tokens[place]?) =
          [some [0x61], some [0xA0], some [0xE2, 0x80]] := by
  intro line tokens
  have cut : tokenize line = tokens := by decide +kernel
  have walked : (Cursor.ofTokens tokens).walk [.name, .name, .name, .next] =
      ([some [0x61], some [0xA0], some [0xE2, 0x80], none], ⟨4, []⟩) := by decide +kernel
  obtain ⟨length, -, -, -, joined, asked⟩ := tokenize_round_trip line
  have fixed : ∀ token ∈ tokens, Bytes.space ∉ token ∧ Bytes.trim token = token := by
    decide +kernel
  have handed := asked tokens [.name, .name, .name, .next]
  rw [walked] at handed
  exact ⟨cut, length, joined tokens (by decide) fixed, walked, handed.1⟩

end LineForth
