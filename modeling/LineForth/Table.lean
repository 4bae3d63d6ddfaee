import LineForth.Text.Bytes

/-!
# Tables of named entries

A table numbers its names from 1, in the order in which they first came up, and keeps the
entries in a list of their own, each at the place that the number of its name says. Defining
a name again overwrites the entry at its place. That the numbers, the names and the entries
belong together is kept by every operation, so an entry is never looked for at a place that
is not there.
-/

set_option autoImplicit false

namespace LineForth

/-- Names in the order in which they first came up, with a map from names to numbers. -/
structure Symbols where
  strings : List Bytes
  /-- What was added last stands first. -/
  ids : List (Bytes × Nat)
  deriving DecidableEq, Repr

namespace Symbols

variable {symbols : Symbols} {name : Bytes}

def empty : Symbols := ⟨[], []⟩

/-- The number of a name; an unknown name has 0. -/
def symbol (symbols : Symbols) (name : Bytes) : Nat := (symbols.ids.lookup name).getD 0

/-- Numbers a name, unless it has a number, and says whether it had one. -/
def symbolicate (symbols : Symbols) (name : Bytes) : (Nat × Bool) × Symbols :=
  match symbols.ids.lookup name with
  | some id => ((id, true), symbols)
  | none =>
    let id := symbols.strings.length + 1
    ((id, false), ⟨symbols.strings ++ [name], (name, id) :: symbols.ids⟩)

/-- The map gives each name its place, counted from 1, and no name stands at two places. -/
structure Numbered (symbols : Symbols) : Prop where
  ids : symbols.ids = (symbols.strings.zipIdx 1).reverse
  distinct : symbols.strings.Nodup

theorem numbered_empty : empty.Numbered := ⟨rfl, List.nodup_nil⟩

theorem new_or_place (symbols : Symbols) (name : Bytes) :
    name ∉ symbols.strings ∨ ∃ index : Nat, symbols.strings[index]? = some name := by
  by_cases known : name ∈ symbols.strings
  · exact .inr (List.mem_iff_getElem?.mp known)
  · exact .inl known

namespace Numbered

theorem lookup_of_new (numbered : symbols.Numbered) (new : name ∉ symbols.strings) :
    symbols.ids.lookup name = none := by
  rw [List.lookup_eq_none_iff, numbered.ids]
  rintro ⟨other, id⟩ listed
  have known : other ∈ symbols.strings :=
    List.fst_mem_of_mem_zipIdx (List.mem_reverse.mp listed)
  simpa using fun same : name = other => new (same ▸ known)

/-- The map says of a name what its place is. -/
theorem lookup_of_place (numbered : symbols.Numbered) {index : Nat}
    (place : symbols.strings[index]? = some name) :
    symbols.ids.lookup name = some (index + 1) := by
  cases found : symbols.ids.lookup name with
  | none =>
    rw [List.lookup_eq_none_iff, numbered.ids] at found
    have listed : (name, index + 1) ∈ (symbols.strings.zipIdx 1).reverse := by
      rw [List.mem_reverse, List.mem_zipIdx_iff_le_and_getElem?_sub]
      exact ⟨Nat.le_add_left 1 index, place⟩
    simpa using found _ listed
  | some id =>
    obtain ⟨front, rest, split, -⟩ := List.lookup_eq_some_iff.mp found
    have listed : (name, id) ∈ symbols.ids := by simp [split]
    rw [numbered.ids, List.mem_reverse, List.mem_zipIdx_iff_le_and_getElem?_sub] at listed
    obtain ⟨positive, same⟩ := listed
    obtain ⟨bound, -⟩ := List.getElem?_eq_some_iff.mp place
    have equal : index = id - 1 :=
      (List.getElem?_inj bound numbered.distinct).mp (place.trans same.symm)
    rw [equal, Nat.sub_add_cancel positive]

theorem symbolicate_of_place (numbered : symbols.Numbered) {index : Nat}
    (place : symbols.strings[index]? = some name) :
    symbols.symbolicate name = ((index + 1, true), symbols) := by
  simp [Symbols.symbolicate, numbered.lookup_of_place place]

/-- A new name gets the number behind all others. -/
theorem symbolicate_of_new (numbered : symbols.Numbered) (new : name ∉ symbols.strings) :
    symbols.symbolicate name = ((symbols.strings.length + 1, false),
      ⟨symbols.strings ++ [name], (name, symbols.strings.length + 1) :: symbols.ids⟩) := by
  simp [Symbols.symbolicate, numbered.lookup_of_new new]

theorem symbolicate (numbered : symbols.Numbered) (name : Bytes) :
    (symbols.symbolicate name).2.Numbered := by
  rcases symbols.new_or_place name with new | ⟨index, place⟩
  · rw [numbered.symbolicate_of_new new]
    constructor
    · rw [numbered.ids, List.zipIdx_append, List.reverse_append, Nat.add_comm]
      rfl
    · simpa [List.nodup_append, numbered.distinct] using
        fun other known => (ne_of_mem_of_not_mem known new)
  · rw [numbered.symbolicate_of_place place]
    exact numbered

end Numbered

end Symbols

/-- The names with their numbers, and the entries in the order of the numbers. An operation
has no result if it looks for an entry at a place that is not there. -/
structure Bindings (α : Type) where
  symbols : Symbols
  payloads : List α
  deriving DecidableEq, Repr

namespace Bindings

variable {α : Type} {bindings : Bindings α} {name : Bytes}

def empty : Bindings α := ⟨.empty, []⟩

/-- The names with their entries, in the order of the names. -/
def entries (bindings : Bindings α) : List (Bytes × α) :=
  bindings.symbols.strings.zip bindings.payloads

/-- What a name is bound to, if it has a number. -/
def lookup? (bindings : Bindings α) (name : Bytes) : Option (Option α) :=
  match bindings.symbols.symbol name with
  | 0 => some none
  | index + 1 => bindings.payloads[index]?.map some

/-- Binds a name. Its entry is overwritten, or appended if the entries do not reach up to the
place of the name. Gives back the entry that was overwritten, and whether the name had a
number. -/
def define? (bindings : Bindings α) (name : Bytes) (entry : α) :
    Option ((Option α × Bool) × Bindings α) :=
  match bindings.symbols.symbolicate name with
  | ((0, _), _) => none
  | ((index + 1, redefined), symbols) =>
    match bindings.payloads[index]? with
    | some previous =>
      some ((some previous, redefined), ⟨symbols, bindings.payloads.set index entry⟩)
    | none => some ((none, redefined), ⟨symbols, bindings.payloads ++ [entry]⟩)

/-- There is one entry for each name. -/
structure Aligned (bindings : Bindings α) : Prop where
  symbols : bindings.symbols.Numbered
  length : bindings.payloads.length = bindings.symbols.strings.length

theorem aligned_empty : (empty : Bindings α).Aligned := ⟨Symbols.numbered_empty, rfl⟩

namespace Aligned

section Place

variable (aligned : bindings.Aligned) {index : Nat}
  (place : bindings.symbols.strings[index]? = some name)

include aligned place

theorem exists_payload : ∃ payload, bindings.payloads[index]? = some payload := by
  obtain ⟨bound, -⟩ := List.getElem?_eq_some_iff.mp place
  rw [← aligned.length] at bound
  exact ⟨_, List.getElem?_eq_getElem bound⟩

theorem lookup?_of_place : bindings.lookup? name = some bindings.payloads[index]? := by
  obtain ⟨payload, there⟩ := aligned.exists_payload place
  simp [lookup?, Symbols.symbol, aligned.symbols.lookup_of_place place, there]

theorem define?_of_place (entry : α) :
    bindings.define? name entry = some ((bindings.payloads[index]?, true),
      ⟨bindings.symbols, bindings.payloads.set index entry⟩) := by
  obtain ⟨payload, there⟩ := aligned.exists_payload place
  simp [define?, aligned.symbols.symbolicate_of_place place, there]

end Place

section New

variable (aligned : bindings.Aligned) (new : name ∉ bindings.symbols.strings)

include aligned new

theorem lookup?_of_new : bindings.lookup? name = some none := by
  simp [lookup?, Symbols.symbol, aligned.symbols.lookup_of_new new]

theorem define?_of_new (entry : α) :
    bindings.define? name entry = some ((none, false),
      ⟨(bindings.symbols.symbolicate name).2, bindings.payloads ++ [entry]⟩) := by
  have behind : bindings.payloads[bindings.symbols.strings.length]? = none :=
    List.getElem?_eq_none (Nat.le_of_eq aligned.length)
  simp [define?, aligned.symbols.symbolicate_of_new new, behind]

end New

variable (aligned : bindings.Aligned)

include aligned

theorem isSome_lookup? (name : Bytes) : (bindings.lookup? name).isSome := by
  rcases bindings.symbols.new_or_place name with new | ⟨index, place⟩
  · rw [aligned.lookup?_of_new new, Option.isSome_some]
  · rw [aligned.lookup?_of_place place, Option.isSome_some]

theorem define? (name : Bytes) (entry : α) :
    ∃ answer after, bindings.define? name entry = some (answer, after) ∧ after.Aligned := by
  rcases bindings.symbols.new_or_place name with new | ⟨index, place⟩
  · refine ⟨_, _, aligned.define?_of_new new entry, aligned.symbols.symbolicate name, ?_⟩
    simp [aligned.symbols.symbolicate_of_new new, aligned.length]
  · refine ⟨_, _, aligned.define?_of_place place entry, aligned.symbols, ?_⟩
    simp [aligned.length]

theorem isSome_define? (name : Bytes) (entry : α) : (bindings.define? name entry).isSome := by
  obtain ⟨answer, after, result, -⟩ := aligned.define? name entry
  rw [result, Option.isSome_some]

theorem of_define? {entry : α} {defined : (Option α × Bool) × Bindings α}
    (result : bindings.define? name entry = some defined) : defined.2.Aligned := by
  obtain ⟨answer, after, same, kept⟩ := aligned.define? name entry
  rw [result] at same
  cases same
  exact kept

end Aligned

end Bindings

structure Table (α : Type) where
  bindings : Bindings α
  aligned : bindings.Aligned
  deriving DecidableEq

namespace Table

variable {α : Type}

def empty : Table α := ⟨.empty, Bindings.aligned_empty⟩

def lookup? (table : Table α) (name : Bytes) : Option α :=
  (table.bindings.lookup? name).get (table.aligned.isSome_lookup? name)

def contains (table : Table α) (name : Bytes) : Bool := (table.lookup? name).isSome

def names (table : Table α) : List Bytes := table.bindings.symbols.strings

def entries (table : Table α) : List (Bytes × α) := table.bindings.entries

@[simp] theorem entries_empty : (empty : Table α).entries = [] := rfl

/-- Defines a name, and gives back the entry that it had. -/
def exchange (table : Table α) (name : Bytes) (entry : α) : Option α × Table α :=
  let found := table.aligned.isSome_define? name entry
  let defined := (table.bindings.define? name entry).get found
  (defined.1.1, ⟨defined.2, table.aligned.of_define? (Option.some_get found).symm⟩)

def define (table : Table α) (name : Bytes) (entry : α) : Table α := (table.exchange name entry).2

/-- The table once all these definitions are made, in their order. -/
def defineAll (table : Table α) (definitions : List (Bytes × α)) : Table α :=
  definitions.foldl (fun defined entry => defined.define entry.1 entry.2) table

/-- The place of a name, counted from 1; an unknown name has 0. -/
def id (table : Table α) (name : Bytes) : Nat := table.bindings.symbols.symbol name

end Table

end LineForth
