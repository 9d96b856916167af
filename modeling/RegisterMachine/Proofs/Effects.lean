import RegisterMachine.Machine.Basic

/-!
# Steps that succeed

What it takes for a step, and for each kind of operation, to pass all checks, and which effect it
has then.  Files on single steps rest on these equivalences and leave the machine's definitions
closed.

## Main definitions

* `Bank.HasCell`, `Bank.Holds` and `Machine.Resolves` : the numbers of cells, the content of a cell,
  and the value of an operand.

## Main statements

* `Machine.step_eq_ok_iff`, `Machine.step_eq_error_iff` and `Machine.step_eq_or_commit` : a step in
  terms of its plan;
* `Machine.effectOf_eq_ok_iff` : the effect of an instruction in terms of its operation;
* `Machine.effect_compute_eq_ok_iff` and its companions : the effect of an operation in terms of the
  contents of the machine.
-/

namespace RegisterMachine

/-- Some cell is numbered `w`. -/
def Bank.HasCell (b : Bank) (w : Word) : Prop :=
  0 ≤ w.toInt ∧ w.toInt < b.size

/-- The cell numbered `w` is there and holds `v`. -/
def Bank.Holds (b : Bank) (w v : Word) : Prop :=
  0 ≤ w.toInt ∧ b.cells[w.toInt.toNat]? = some v

theorem Bank.get?_eq_none_iff_not_hasCell {b : Bank} {w : Word} :
    b.get? w = none ↔ ¬ b.HasCell w := by
  rw [get?_eq_none_iff, HasCell]
  omega

theorem Bank.Holds.hasCell {b : Bank} {w v : Word} (h : b.Holds w v) : b.HasCell w := by
  obtain ⟨hw, hv⟩ := h
  obtain ⟨hlt, -⟩ := Array.getElem?_eq_some_iff.1 hv
  refine ⟨hw, ?_⟩
  unfold size
  omega

theorem Bank.Holds.unique {b : Bank} {w u v : Word} (hu : b.Holds w u) (hv : b.Holds w v) :
    u = v :=
  Option.some.inj (hu.2.symm.trans hv.2)

/-- A bank of zeros holds zero in each of its cells. -/
theorem Bank.holds_zeros_iff {n : Nat} {w v : Word} (h : (zeros n).HasCell w) :
    (zeros n).Holds w v ↔ v = 0 := by
  obtain ⟨hw, hlt⟩ := h
  rw [size_zeros] at hlt
  have hcell : (zeros n).cells[w.toInt.toNat]? = some 0 := by
    rw [zeros, Array.getElem?_replicate, if_pos (by omega)]
  rw [Holds, hcell, Option.some.injEq, eq_comm]
  exact and_iff_right hw

theorem Bank.hasCell_of_get?_eq_some {b : Bank} {w v : Word} (h : b.get? w = some v) :
    b.HasCell w :=
  Holds.hasCell (get?_eq_some_iff.1 h)

/-- A cell that is there can be read. -/
theorem Bank.exists_get?_eq_some_iff {b : Bank} {w : Word} :
    (∃ v, b.get? w = some v) ↔ b.HasCell w := by
  constructor
  · rintro ⟨v, hv⟩
    exact hasCell_of_get?_eq_some hv
  · intro h
    cases hget : b.get? w with
    | none => exact absurd h (get?_eq_none_iff_not_hasCell.1 hget)
    | some v => exact ⟨v, rfl⟩

namespace Machine

/-- `v` is the value of the operand that a value word and a flag word give: the value word itself
when the flag is zero, and the content of the register of that number otherwise. -/
def Resolves (m : Machine) (value flag v : Word) : Prop :=
  flag = 0 ∧ v = value ∨ flag ≠ 0 ∧ m.registers.Holds value v

variable {m m' : Machine} {effect : Effect}

theorem bind_eq_ok_iff {ε α β : Type} {x : Except ε α} {f : α → Except ε β} {b : β} :
    x >>= f = .ok b ↔ ∃ a, x = .ok a ∧ f a = .ok b := by
  cases x with
  | error e =>
    -- neither side succeeds
    refine iff_of_false (fun h => by cases h) ?_
    rintro ⟨_, ⟨⟩, _⟩
  | ok a =>
    constructor
    · exact fun h => ⟨a, rfl, h⟩
    · rintro ⟨_, ⟨⟩, h⟩
      exact h

/-! ### Operands -/

theorem readRegister_eq_ok_iff {id value : Word} :
    m.readRegister id = .ok value ↔ m.registers.get? id = some value := by
  unfold readRegister
  split <;> simp_all

theorem readMemory_eq_ok_iff {address value : Word} :
    m.readMemory address = .ok value ↔ m.memory.get? address = some value := by
  unfold readMemory
  split <;> simp_all

theorem resolve_eq_ok_iff {value flag v : Word} :
    m.resolve (.ofWords value flag) = .ok v ↔ m.Resolves value flag v := by
  unfold Operand.ofWords Resolves Bank.Holds
  rw [← Bank.get?_eq_some_iff]
  split
  · rename_i hflag
    simp [resolve, hflag, eq_comm]
  · rename_i hflag
    simp [resolve, hflag, readRegister_eq_ok_iff]

/-- An operand has only one value. -/
theorem Resolves.unique {value flag u v : Word} (hu : m.Resolves value flag u)
    (hv : m.Resolves value flag v) : u = v :=
  Except.ok.inj ((resolve_eq_ok_iff.2 hu).symm.trans (resolve_eq_ok_iff.2 hv))

/-! ### Operations -/

theorem effect_compute_eq_ok_iff {op : Arithmetic} {destination : Word} {source : Operand} :
    m.effect (.compute op destination source) = .ok effect ↔
      ∃ old value, m.registers.get? destination = some old ∧ m.resolve source = .ok value ∧
        ¬ (op = .div ∧ value = 0) ∧ effect = .write destination (op.apply old value) := by
  simp only [Machine.effect, bind_eq_ok_iff, readRegister_eq_ok_iff]
  constructor
  · rintro ⟨old, hold, value, hvalue, h⟩
    split at h
    · cases h
    · rename_i hdiv
      cases h
      exact ⟨old, value, hold, hvalue, hdiv, rfl⟩
  · rintro ⟨old, value, hold, hvalue, hdiv, rfl⟩
    exact ⟨old, hold, value, hvalue, if_neg hdiv⟩

theorem effect_push_eq_ok_iff {source : Operand} :
    m.effect (.push source) = .ok effect ↔
      ∃ value, m.resolve source = .ok value ∧ m.stack.height < m.stack.capacity ∧
        effect = .push value := by
  simp only [Machine.effect, bind_eq_ok_iff, ← Stack.isFull_eq_false_iff]
  constructor
  · rintro ⟨value, hvalue, h⟩
    split at h
    · cases h
    · rename_i hfull
      cases h
      exact ⟨value, hvalue, eq_false_of_ne_true hfull, rfl⟩
  · rintro ⟨value, hvalue, hfull, rfl⟩
    exact ⟨value, hvalue, if_neg (ne_true_of_eq_false hfull)⟩

theorem effect_pop_eq_ok_iff {destination : Word} :
    m.effect (.pop destination) = .ok effect ↔
      ∃ old value, m.registers.get? destination = some old ∧ m.stack.peek? = some value ∧
        effect = .pop destination value := by
  simp only [Machine.effect, bind_eq_ok_iff, readRegister_eq_ok_iff]
  constructor
  · rintro ⟨old, hold, h⟩
    split at h
    · rename_i value hvalue
      cases h
      exact ⟨old, value, hold, hvalue, rfl⟩
    · cases h
  · rintro ⟨old, value, hold, hvalue, rfl⟩
    exact ⟨old, hold, by rw [hvalue]⟩

theorem effect_store_eq_ok_iff {address : Word} {source : Operand} :
    m.effect (.store address source) = .ok effect ↔
      ∃ value old, m.resolve source = .ok value ∧ m.memory.get? address = some old ∧
        effect = .store address value := by
  simp only [Machine.effect, bind_eq_ok_iff, readMemory_eq_ok_iff]
  constructor
  · rintro ⟨value, hvalue, old, hold, h⟩
    cases h
    exact ⟨value, old, hvalue, hold, rfl⟩
  · rintro ⟨value, old, hvalue, hold, rfl⟩
    exact ⟨value, hvalue, old, hold, rfl⟩

theorem effect_load_eq_ok_iff {address destination : Word} :
    m.effect (.load address destination) = .ok effect ↔
      ∃ value old, m.memory.get? address = some value ∧
        m.registers.get? destination = some old ∧ effect = .write destination value := by
  simp only [Machine.effect, bind_eq_ok_iff, readMemory_eq_ok_iff, readRegister_eq_ok_iff]
  constructor
  · rintro ⟨value, hvalue, old, hold, h⟩
    cases h
    exact ⟨value, old, hvalue, hold, rfl⟩
  · rintro ⟨value, old, hvalue, hold, rfl⟩
    exact ⟨value, hvalue, old, hold, rfl⟩

/-! ### Instructions and steps -/

theorem effectOf_of_operation?_eq_some {i : Instruction} {operation : Operation}
    (h : i.operation? = some operation) : m.effectOf i = m.effect operation := by
  unfold effectOf
  rw [h]

theorem plan_of_fetch?_eq_some {program : Program} {i : Instruction}
    (h : program.fetch? m.pc = some i) : m.plan program = m.effectOf i := by
  unfold plan
  rw [h]

theorem plan_of_fetch?_eq_none {program : Program} (h : program.fetch? m.pc = none) :
    m.plan program = .error (.endOfProgram m.pc (program.size - m.pc)) := by
  unfold plan
  rw [h]

theorem effectOf_eq_ok_iff {i : Instruction} :
    m.effectOf i = .ok effect ↔
      (∃ operation, i.operation? = some operation ∧ m.effect operation = .ok effect) ∨
        i.operation? = none ∧ m.config.policy = .lenient ∧ effect = .skip := by
  unfold effectOf
  split
  · rename_i operation hoperation
    simp [hoperation]
  · rename_i hoperation
    split
    · rename_i hpolicy
      simp [hoperation, hpolicy, eq_comm]
    · rename_i hpolicy
      simp [hoperation, hpolicy]

theorem plan_eq_ok_iff {program : Program} :
    m.plan program = .ok effect ↔
      ∃ i, program.fetch? m.pc = some i ∧ m.effectOf i = .ok effect := by
  unfold plan
  split
  · rename_i i hi
    simp [hi]
  · rename_i hnone
    simp [hnone]

theorem step_eq_ok_iff {program : Program} {status : Status} (hm : m.status = .running) :
    m.step program = (.ok status, m') ↔
      status = m'.status ∧ ∃ effect, m.plan program = .ok effect ∧ m' = m.commit effect := by
  cases hplan : m.plan program with
  | error e =>
    rw [step_of_plan_eq_error hm hplan]
    simp
  | ok effect =>
    rw [step_of_plan_eq_ok hm hplan]
    constructor
    · rintro ⟨⟩
      exact ⟨rfl, effect, rfl, rfl⟩
    · rintro ⟨rfl, _, ⟨⟩, rfl⟩
      rfl

/-- **A step that faults changes nothing.** -/
theorem step_eq_error_iff {program : Program} {e : Error} :
    m.step program = (.error e, m') ↔
      m' = m ∧ m.status = .running ∧ m.plan program = .error e := by
  by_cases hm : m.status = .running
  · cases hplan : m.plan program with
    | error e' =>
      rw [step_of_plan_eq_error hm hplan]
      simp [hm, eq_comm, and_comm]
    | ok effect =>
      rw [step_of_plan_eq_ok hm hplan]
      simp
  · rw [step_of_status_ne hm]
    simp [hm]

/-- A step changes nothing, or it commits the effect that was planned. -/
theorem step_eq_or_commit (m : Machine) (program : Program) :
    (m.step program).2 = m ∨
      ∃ effect, m.plan program = .ok effect ∧ (m.step program).2 = m.commit effect := by
  by_cases hm : m.status = .running
  · cases hplan : m.plan program with
    | error e =>
      rw [step_of_plan_eq_error hm hplan]
      exact .inl rfl
    | ok effect =>
      rw [step_of_plan_eq_ok hm hplan]
      exact .inr ⟨effect, rfl, rfl⟩
  · rw [step_of_status_ne hm]
    exact .inl rfl

end Machine

end RegisterMachine
