import LineForth.Builtin

/-!
# Stack effects

An operator takes a fixed number of operands off the stack and leaves its results in their
place, whatever lies below. `Effect` lists operands and results as a manual would, from the
bottom to the top and with integers for arithmetic: a result is the cell that is left when
the integer wraps around. If operands are missing, the operator takes what there is and
names the first one that it does not find. `Contract` puts these cases together, and an
operator does to a stack exactly what its contract says.
-/

set_option autoImplicit false

namespace LineForth

namespace Builtin

/-- The number of operands. -/
def arity : Builtin → Nat
  | clearStack => 0
  | negate | abs | invert | dup | drop => 1
  | rot => 3
  | _ => 2

/-- The name of the operand that lies below `above` others. An only operand has no number. -/
def operand (operator : Builtin) (above : Nat) : Bytes :=
  (if operator.arity = 1 then text "argument for "
    else match above with
      | 0 => text "first argument for "
      | 1 => text "second argument for "
      | _ => text "third argument for ") ++ operator.name

/-- The operands of an operator and its results, both from the bottom to the top. -/
inductive Effect : Builtin → List Cell → List Cell → Prop
  | add (y x : Cell) : Effect add [y, x] [Int32.ofInt (y.toInt + x.toInt)]
  | subtract (y x : Cell) : Effect subtract [y, x] [Int32.ofInt (y.toInt - x.toInt)]
  | multiply (y x : Cell) : Effect multiply [y, x] [Int32.ofInt (y.toInt * x.toInt)]
  | divide (y : Cell) {x : Cell} (nonzero : x ≠ 0) :
      Effect divide [y, x] [Int32.ofInt (y.toInt.tdiv x.toInt)]
  | modulus (y : Cell) {x : Cell} (nonzero : x ≠ 0) :
      Effect modulus [y, x] [Int32.ofInt (y.toInt.tmod x.toInt)]
  | negate (a : Cell) : Effect negate [a] [Int32.ofInt (-a.toInt)]
  | abs (a : Cell) : Effect abs [a] [Int32.ofInt a.toInt.natAbs]
  | max (b a : Cell) : Effect max [b, a] [Int32.ofInt (Max.max b.toInt a.toInt)]
  | min (b a : Cell) : Effect min [b, a] [Int32.ofInt (Min.min b.toInt a.toInt)]
  | dup (a : Cell) : Effect dup [a] [a, a]
  | swap (b a : Cell) : Effect swap [b, a] [a, b]
  | rot (c b a : Cell) : Effect rot [c, b, a] [b, a, c]
  | drop (a : Cell) : Effect drop [a] []
  | nip (b a : Cell) : Effect nip [b, a] [a]
  | tuck (b a : Cell) : Effect tuck [b, a] [a, b, a]
  | copyOver (b a : Cell) : Effect copyOver [b, a] [b, a, b]
  | equal (b a : Cell) : Effect equal [b, a] [if b.toInt = a.toInt then -1 else 0]
  | notEqual (b a : Cell) : Effect notEqual [b, a] [if b.toInt ≠ a.toInt then -1 else 0]
  | greater (b a : Cell) : Effect greater [b, a] [if b.toInt > a.toInt then -1 else 0]
  | less (b a : Cell) : Effect less [b, a] [if b.toInt < a.toInt then -1 else 0]
  | atLeast (b a : Cell) : Effect atLeast [b, a] [if b.toInt ≥ a.toInt then -1 else 0]
  | atMost (b a : Cell) : Effect atMost [b, a] [if b.toInt ≤ a.toInt then -1 else 0]
  | invert (a : Cell) : Effect invert [a] [if a.toInt = 0 then -1 else 0]

/-- What may become of a stack under an operator. Both stacks are read from the bottom to
the top. -/
inductive Contract : Builtin → List Cell → Outcome → List Cell → Prop
  /-- The operands that there are have been taken. -/
  | missing {operator : Builtin} {stack : List Cell} (short : stack.length < operator.arity) :
      Contract operator stack (.failed (.emptyStack (operator.operand stack.length))) []
  | effect {operator : Builtin} {operands results : List Cell} (base : List Cell)
      (effect : Effect operator operands results) :
      Contract operator (base ++ operands) .done (base ++ results)
  | divideByZero {operator : Builtin} (divides : operator = divide ∨ operator = modulus)
      (base : List Cell) (y : Cell) :
      Contract operator (base ++ [y, 0]) (.failed .divideByZero) base
  | clear (stack : List Cell) : Contract clearStack stack .done []

section Arithmetic

variable (y x : Cell)

theorem ofInt_tdiv_toInt : Int32.ofInt (y.toInt.tdiv x.toInt) = y / x := by
  rw [Int32.ofInt_tdiv (Int32.minValue_le_toInt y) (Int32.toInt_le y)
    (Int32.minValue_le_toInt x) (Int32.toInt_le x), Int32.ofInt_toInt, Int32.ofInt_toInt]

theorem ofInt_tmod_toInt : Int32.ofInt (y.toInt.tmod x.toInt) = y % x := by
  rw [← Int32.toInt_mod, Int32.ofInt_toInt]

theorem ofInt_natAbs_toInt (a : Cell) :
    Int32.ofInt a.toInt.natAbs = if a < 0 then -a else a := by
  have negative : a < 0 ↔ a.toInt < 0 := Int32.lt_iff_toInt_lt
  split
  next below =>
    have same : (a.toInt.natAbs : Int) = -a.toInt := by
      have := negative.mp below
      omega
    rw [same, Int32.ofInt_neg, Int32.ofInt_toInt]
  next above =>
    have same : (a.toInt.natAbs : Int) = a.toInt := by
      rw [negative] at above
      omega
    rw [same, Int32.ofInt_toInt]

theorem ofInt_max_toInt : Int32.ofInt (Max.max y.toInt x.toInt) = if x > y then x else y := by
  have greater : x > y ↔ y.toInt < x.toInt := Int32.lt_iff_toInt_lt
  split
  next above => rw [Int.max_eq_right (Int.le_of_lt (greater.mp above)), Int32.ofInt_toInt]
  next below =>
    rw [greater, Int.not_lt] at below
    rw [Int.max_eq_left below, Int32.ofInt_toInt]

theorem ofInt_min_toInt : Int32.ofInt (Min.min y.toInt x.toInt) = if x < y then x else y := by
  have less : x < y ↔ x.toInt < y.toInt := Int32.lt_iff_toInt_lt
  split
  next below => rw [Int.min_eq_right (Int.le_of_lt (less.mp below)), Int32.ofInt_toInt]
  next above =>
    rw [less, Int.not_lt] at above
    rw [Int.min_eq_left above, Int32.ofInt_toInt]

end Arithmetic

/-- Truth is shown by all bits. -/
theorem ite_eq_truth {P Q : Prop} [Decidable P] [Decidable Q] (same : P ↔ Q) :
    (if P then -1 else 0 : Cell) = truth (decide Q) := by
  simp only [truth, same, decide_eq_true_eq]

variable {operator : Builtin} {operands results : List Cell}

theorem arity_le_three (operator : Builtin) : operator.arity ≤ 3 := by
  cases operator <;> decide

/-- Operands are taken one by one, the top one first, until there are none. -/
theorem run_of_short (stack : Stack) (short : stack.length < operator.arity) :
    operator.run stack = .error (.emptyStack (operator.operand stack.length)) [] := by
  match stack with
  | [] =>
    cases operator with
    | clearStack => exact absurd short (Nat.lt_irrefl 0)
    | _ => rfl
  | [a] =>
    cases operator with
    | clearStack => exact absurd short (Nat.not_lt_zero 1)
    | negate | abs | invert | dup | drop => exact absurd short (Nat.lt_irrefl 1)
    | _ => rfl
  | [a, b] =>
    cases operator with
    | rot => rfl
    | _ => simp [arity] at short
  | a :: b :: c :: rest =>
    have few := operator.arity_le_three
    simp only [List.length_cons] at short
    omega

theorem division_of_ne_zero (result : Cell → Cell → Cell) {x : Cell} (nonzero : x ≠ 0) (y : Cell)
    (base : Stack) :
    division operator result (x :: y :: base) = .ok () (result x y :: base) := by
  simp only [division, popFirst, popSecond, Stack.pop, Stack.push, bind, EStateM.bind,
    if_neg nonzero]

/-- The one result of an operator is known up to an equation between cells. -/
theorem run_of_result {stack base : Stack} {cell result : Cell}
    (ran : operator.run stack = .ok () (cell :: base)) (same : result = cell) :
    operator.run stack = .ok () (result :: base) := by
  rw [same, ran]

/-- The cells below the operands stay where they are. -/
theorem Effect.run (effect : Effect operator operands results) (base : Stack) :
    operator.run (operands.reverse ++ base) = .ok () (results.reverse ++ base) := by
  cases effect with
  | add y x =>
    apply run_of_result rfl
    rw [Int32.ofInt_add, Int32.ofInt_toInt, Int32.ofInt_toInt, Int32.add_comm]
  | subtract y x =>
    apply run_of_result rfl
    rw [Int32.ofInt_sub, Int32.ofInt_toInt, Int32.ofInt_toInt]
  | multiply y x =>
    apply run_of_result rfl
    rw [Int32.ofInt_mul, Int32.ofInt_toInt, Int32.ofInt_toInt, Int32.mul_comm]
  | @divide y x nonzero =>
    exact run_of_result (division_of_ne_zero _ nonzero y base) (ofInt_tdiv_toInt y x)
  | @modulus y x nonzero =>
    exact run_of_result (division_of_ne_zero _ nonzero y base) (ofInt_tmod_toInt y x)
  | negate a =>
    apply run_of_result rfl
    rw [Int32.ofInt_neg, Int32.ofInt_toInt]
  | abs a => exact run_of_result rfl (ofInt_natAbs_toInt a)
  | max b a => exact run_of_result rfl (ofInt_max_toInt b a)
  | min b a => exact run_of_result rfl (ofInt_min_toInt b a)
  | equal b a => exact run_of_result rfl (ite_eq_truth Int32.toInt_inj)
  | notEqual b a => exact run_of_result rfl (ite_eq_truth (not_congr Int32.toInt_inj))
  | greater b a => exact run_of_result rfl (ite_eq_truth Int32.lt_iff_toInt_lt.symm)
  | less b a => exact run_of_result rfl (ite_eq_truth Int32.lt_iff_toInt_lt.symm)
  | atLeast b a => exact run_of_result rfl (ite_eq_truth Int32.le_iff_toInt_le.symm)
  | atMost b a => exact run_of_result rfl (ite_eq_truth Int32.le_iff_toInt_le.symm)
  | invert a => exact run_of_result rfl (ite_eq_truth (Int32.toInt_inj (y := 0)))
  | dup | swap | rot | drop | nip | tuck | copyOver => rfl

/-- Every operator has an effect on as many operands as it takes, unless it divides by
zero. -/
theorem exists_effect (keeps : operator ≠ clearStack) (enough : operands.length = operator.arity) :
    (∃ results, Effect operator operands results) ∨
      ((operator = divide ∨ operator = modulus) ∧ ∃ y, operands = [y, 0]) := by
  cases operator with
  | clearStack => exact absurd rfl keeps
  | negate | abs | invert | dup | drop =>
    match operands, enough with
    | [a], _ => exact .inl ⟨_, by constructor⟩
  | rot =>
    match operands, enough with
    | [c, b, a], _ => exact .inl ⟨_, .rot c b a⟩
  | divide | modulus =>
    match operands, enough with
    | [y, x], _ =>
      by_cases zero : x = 0
      · subst zero
        exact .inr ⟨by simp, y, rfl⟩
      · exact .inl ⟨_, by constructor; exact zero⟩
  | _ =>
    match operands, enough with
    | [b, a], _ => exact .inl ⟨_, by constructor⟩

/-- A contract never leaves open what becomes of a stack. -/
theorem exists_contract (operator : Builtin) (stack : List Cell) :
    ∃ outcome left, Contract operator stack outcome left := by
  by_cases clears : operator = clearStack
  · subst clears
    exact ⟨_, _, .clear stack⟩
  · by_cases short : stack.length < operator.arity
    · exact ⟨_, _, .missing short⟩
    · -- The operands are the topmost cells.
      obtain ⟨base, operands, rfl, enough⟩ :
          ∃ base operands, stack = base ++ operands ∧ operands.length = operator.arity := by
        refine ⟨stack.take (stack.length - operator.arity),
          stack.drop (stack.length - operator.arity), by simp, ?_⟩
        rw [List.length_drop]
        omega
      rcases exists_effect clears enough with ⟨results, effect⟩ | ⟨divides, y, rfl⟩
      · exact ⟨_, _, .effect base effect⟩
      · exact ⟨_, _, .divideByZero divides base y⟩

theorem Contract.apply {stack left : List Cell} {outcome : Outcome}
    (contract : Contract operator stack outcome left) :
    operator.apply stack.reverse = (outcome, left.reverse) := by
  cases contract with
  | missing short =>
    rw [← List.length_reverse] at short
    simp only [Builtin.apply, run_of_short _ short, List.length_reverse, List.reverse_nil]
  | effect base effect => simp only [Builtin.apply, List.reverse_append, effect.run]
  | divideByZero divides base y =>
    rcases divides with rfl | rfl
    · rw [List.reverse_append]
      rfl
    · rw [List.reverse_append]
      rfl
  | clear stack => rfl

theorem Contract.not_panicked {stack left : List Cell} {panic : Panic} :
    ¬ Contract operator stack (.panicked panic) left := by
  rintro ⟨⟩

theorem ofName?_name (operator : Builtin) : ofName? operator.name = some operator := by
  cases operator <;> decide +kernel

/-- Every operator is found under its name, and it does to any stack what its contract says
and nothing else. No operator panics. -/
theorem apply_eq_iff_contract (operator : Builtin) (stack : Stack) :
    ofName? operator.name = some operator ∧
      (∀ outcome left, operator.apply stack = (outcome, left) ↔
        Contract operator stack.bottomUp outcome left.bottomUp) ∧
      ∀ panic, (operator.apply stack).1 ≠ .panicked panic := by
  have determined : ∀ outcome left, operator.apply stack = (outcome, left) ↔
      Contract operator stack.bottomUp outcome left.bottomUp := by
    intro outcome left
    constructor
    · intro applied
      obtain ⟨outcome', left', contract⟩ := exists_contract operator stack.bottomUp
      have same : (outcome', left'.reverse) = (outcome, left) := by
        rw [← contract.apply, Stack.bottomUp, List.reverse_reverse, applied]
      cases same
      simpa [Stack.bottomUp] using contract
    · intro contract
      simpa [Stack.bottomUp] using contract.apply
  refine ⟨operator.ofName?_name, determined, ?_⟩
  intro panic panicked
  exact Contract.not_panicked ((determined _ _).mp (Prod.ext panicked rfl))

example : divide.apply [-1, Int32.minValue, 7] = (.done, [Int32.minValue, 7]) := by decide

end Builtin

end LineForth
