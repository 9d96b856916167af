import RegisterMachine.Proofs.InstructionSequence
import RegisterMachine.Proofs.Locality

/-!
# Registers replaced by what they hold

An instruction that takes its value from a register does the same as one that has the value in it.
So a program can be rewritten along a run: each executed instruction gets the value that its
register held at that moment, and the run on the rewritten program is the same.  Which values these
are is known by the run alone, and each is right at one moment only, but the machine never comes
back to an instruction that it has left behind.

## Main definitions

* `Instruction.source?` and `Instruction.withValue` : the register that the value comes from, and
  the instruction with a value in its place;
* `Machine.inlined` : the instruction with the value that its register holds now;
* `Machine.next?` : the instruction that is executed next;
* `Program.inlinedAlong` : the program with the instructions of the first steps rewritten so.

## Main statements

* `Machine.effectOf_inlined` : the rewritten instruction has the same effect, or fails the same
  check;
* `Machine.fetch?_inlinedAlong` : what stands in the rewritten program;
* `Machine.step_inlinedAlong` : a step on the rewritten program is the same;
* `Machine.inlinedAlong_agrees` : so are all steps, the one that faults included.
-/

namespace RegisterMachine

/-- The number of the register that holds the operand. -/
def Operand.register? : Operand → Option Word
  | .immediate _ => none
  | .register id => some id

/-- The number of the register that holds the source operand. -/
def Operation.source? : Operation → Option Word
  | .compute _ _ source | .push source | .store _ source => source.register?
  | .nop | .pop _ | .load _ _ | .halt | .finish => none

/-- The operation with this value for its source operand. -/
def Operation.withValue (value : Word) : Operation → Operation
  | .compute op destination _ => .compute op destination (.immediate value)
  | .push _ => .push (.immediate value)
  | .store address _ => .store address (.immediate value)
  | operation => operation

theorem Operand.register?_ofWords (value flag : Word) :
    (ofWords value flag).register? = if flag = 0 then none else some value := by
  unfold ofWords
  split <;> rfl

namespace Instruction

/-- The number of the register that the instruction takes its value from, where its flag word is not
zero. -/
def source? (i : Instruction) : Option Word :=
  match Opcode.decode? i.opcode with
  | some .move | some .add | some .sub | some .mul | some .div | some .xor | some .or | some .and
  | some .store => if i.arg₂ = 0 then none else some i.arg₁
  | some .push => if i.arg₁ = 0 then none else some i.arg₀
  | some .nop | some .halt | some .pop | some .load | some .finish | none => none

/-- The instruction with this value in its value word, and zero in its flag word. -/
def withValue (i : Instruction) (value : Word) : Instruction :=
  match Opcode.decode? i.opcode with
  | some .move | some .add | some .sub | some .mul | some .div | some .xor | some .or | some .and
  | some .store => { i with arg₁ := value, arg₂ := 0 }
  | some .push => { i with arg₀ := value, arg₁ := 0 }
  | some .nop | some .halt | some .pop | some .load | some .finish | none => i

@[simp]
theorem opcode_withValue (i : Instruction) (value : Word) :
    (i.withValue value).opcode = i.opcode := by
  unfold withValue
  split <;> rfl

/-- The words of an instruction tell the register that its operation names. -/
theorem source?_eq_bind (i : Instruction) : i.source? = i.operation?.bind Operation.source? := by
  unfold source? operation?
  cases Opcode.decode? i.opcode with
  | none => rfl
  | some o =>
    cases o with
    | nop | halt | pop | load | finish => rfl
    | _ => exact (Operand.register?_ofWords _ _).symm

/-- An instruction with its value in it asks for the operation with that value. -/
theorem operation?_withValue (i : Instruction) (value : Word) :
    (i.withValue value).operation? = i.operation?.map (Operation.withValue value) := by
  unfold operation?
  rw [opcode_withValue]
  unfold withValue
  cases Opcode.decode? i.opcode with
  | none => rfl
  | some o => cases o <;> rfl

/-- It takes the value from no register. -/
theorem source?_withValue (i : Instruction) (value : Word) :
    (i.withValue value).source? = none := by
  rw [source?_eq_bind, operation?_withValue]
  cases i.operation? with
  | none => rfl
  | some operation => cases operation <;> rfl

end Instruction

namespace Machine

/-- The instruction with the value that its source register holds now, where there is such a
register. -/
def inlined (m : Machine) (i : Instruction) : Instruction :=
  match i.source?.bind m.registers.get? with
  | some value => i.withValue value
  | none => i

/-- The instruction that the machine executes in its next step. -/
def next? (m : Machine) (program : Program) : Option Instruction :=
  if m.status = .running then program.fetch? m.pc else none

/-- The program with each instruction that is executed in the first `k` steps replaced by the one
that has the value in it which its source register held just before. -/
def inlinedAlong (m : Machine) (program : Program) : Nat → Program
  | 0 => program
  | k + 1 =>
    match (m.after program k).next? program with
    | some i => (m.inlinedAlong program k).overwrite (m.after program k).pc
        ((m.after program k).inlined i)
    | none => m.inlinedAlong program k

variable {m : Machine} {program : Program} {i : Instruction} {id value : Word} {j k : Nat}

/-! ### One instruction -/

theorem inlined_of_get?_eq_some (hid : i.source? = some id)
    (hvalue : m.registers.get? id = some value) : m.inlined i = i.withValue value := by
  rw [inlined, hid, Option.bind_some, hvalue]

/-- Some register holds the source operand of an operation that passes its checks. -/
theorem exists_get?_of_effect_eq_ok {operation : Operation} {effect : Effect}
    (hid : operation.source? = some id) (h : m.effect operation = .ok effect) :
    ∃ value, m.registers.get? id = some value := by
  have hresolve : ∀ {source : Operand} {value : Word}, source.register? = some id →
      m.resolve source = .ok value → m.registers.get? id = some value := by
    rintro (_ | _) value ⟨⟩ hvalue
    exact readRegister_eq_ok_iff.1 hvalue
  cases operation with
  | nop | pop | load | halt | finish => cases hid
  | compute op destination source =>
    obtain ⟨old, value, -, hvalue, -⟩ := effect_compute_eq_ok_iff.1 h
    exact ⟨value, hresolve hid hvalue⟩
  | push source =>
    obtain ⟨value, hvalue, -⟩ := effect_push_eq_ok_iff.1 h
    exact ⟨value, hresolve hid hvalue⟩
  | store address source =>
    obtain ⟨value, old, hvalue, -⟩ := effect_store_eq_ok_iff.1 h
    exact ⟨value, hresolve hid hvalue⟩

/-- An operation looks at its source operand only for the value. -/
theorem effect_withValue {operation : Operation} (hid : operation.source? = some id)
    (hvalue : m.registers.get? id = some value) :
    m.effect (operation.withValue value) = m.effect operation := by
  have hresolve : ∀ {source : Operand}, source.register? = some id →
      m.resolve source = m.resolve (.immediate value) := by
    rintro (_ | _) ⟨⟩
    exact readRegister_eq_ok_iff.2 hvalue
  cases operation with
  | nop | pop | load | halt | finish => cases hid
  | compute | push | store =>
    simp only [Operation.withValue, Machine.effect, hresolve hid]

/-- **The instruction with the value in it does the same**, or fails the same check. -/
theorem effectOf_inlined (m : Machine) (i : Instruction) :
    m.effectOf (m.inlined i) = m.effectOf i := by
  unfold inlined
  split
  · rename_i value hsome
    obtain ⟨id, hid, hvalue⟩ := Option.bind_eq_some_iff.1 hsome
    rw [Instruction.source?_eq_bind] at hid
    obtain ⟨operation, hoperation, hid⟩ := Option.bind_eq_some_iff.1 hid
    have hoperation' : (i.withValue value).operation? = some (operation.withValue value) := by
      rw [Instruction.operation?_withValue, hoperation, Option.map_some]
    rw [effectOf_of_operation?_eq_some hoperation, effectOf_of_operation?_eq_some hoperation',
      effect_withValue hid hvalue]
  · rfl

/-- It names no register, where the one that is named holds a value. -/
theorem source?_inlined
    (h : ∀ id, i.source? = some id → ∃ value, m.registers.get? id = some value) :
    (m.inlined i).source? = none := by
  cases hid : i.source? with
  | none => rwa [inlined, hid, Option.bind_none]
  | some id =>
    obtain ⟨value, hvalue⟩ := h id hid
    rw [inlined_of_get?_eq_some hid hvalue, Instruction.source?_withValue]

theorem exists_get?_of_effectOf_eq_ok {effect : Effect} (hid : i.source? = some id)
    (h : m.effectOf i = .ok effect) : ∃ value, m.registers.get? id = some value := by
  rw [Instruction.source?_eq_bind] at hid
  obtain ⟨operation, hoperation, hid⟩ := Option.bind_eq_some_iff.1 hid
  rw [effectOf_of_operation?_eq_some hoperation] at h
  exact exists_get?_of_effect_eq_ok hid h

/-! ### Many instructions -/

theorem next?_eq_some_iff :
    m.next? program = some i ↔ m.status = .running ∧ program.fetch? m.pc = some i := by
  unfold next?
  split <;> simp_all

/-- The machine never comes back to a position that it has left. -/
theorem after_eq_or_pc_add_le (m : Machine) (program : Program) (h : j ≤ k) :
    m.after program k = m.after program j ∨
      (m.after program j).pc + 4 ≤ (m.after program k).pc := by
  obtain ⟨d, rfl⟩ := Nat.exists_eq_add_of_le h
  induction d with
  | zero => exact .inl rfl
  | succ d ih =>
    rw [← Nat.add_assoc, after_succ']
    have hpc := (m.after program (j + d)).step_eq_or_commit program
    rcases hpc with heq | ⟨effect, -, heq⟩
    · rw [heq]
      exact ih (by omega)
    · right
      rw [heq, pc_commit]
      rcases ih (by omega) with hsame | hle
      · rw [hsame]
      · omega

@[simp]
theorem size_inlinedAlong (m : Machine) (program : Program) (k : Nat) :
    (m.inlinedAlong program k).size = program.size := by
  induction k with
  | zero => rfl
  | succ k ih =>
    unfold inlinedAlong
    split
    · rw [Program.size_overwrite, ih]
    · exact ih

/-- **Each executed instruction is replaced** by the one with the value that its register held just
before. -/
theorem fetch?_inlinedAlong (hj : j < k) (hi : (m.after program j).next? program = some i) :
    (m.inlinedAlong program k).fetch? (m.after program j).pc =
      some ((m.after program j).inlined i) := by
  obtain ⟨-, hfetch⟩ := next?_eq_some_iff.1 hi
  obtain ⟨hfits, -⟩ := Program.fetch?_eq_some_iff.1 hfetch
  induction k with
  | zero => omega
  | succ k ih =>
    unfold inlinedAlong
    rcases m.after_eq_or_pc_add_le program (Nat.le_of_lt_succ hj) with hsame | hle
    · -- the machine has not left the position, and the instruction is written there
      rw [hsame, hi]
      exact Program.fetch?_overwrite_self (by rwa [size_inlinedAlong])
    · have hlt : j < k := by
        by_contra hge
        obtain rfl : j = k := by omega
        omega
      split
      · rw [Program.fetch?_overwrite_of_le (.inl hle)]
        exact ih hlt
      · exact ih hlt

/-- **A step on the rewritten program is the same.** -/
theorem step_inlinedAlong (hj : j < k) :
    (m.after program j).step (m.inlinedAlong program k) = (m.after program j).step program := by
  refine step_of_effectOf_eq (m.size_inlinedAlong program k) fun i i' hrunning hi hi' => ?_
  have hfetch := fetch?_inlinedAlong hj (next?_eq_some_iff.2 ⟨hrunning, hi⟩)
  obtain rfl : (m.after program j).inlined i = i' := Option.some.inj (hfetch.symm.trans hi')
  exact effectOf_inlined _ i

theorem after_inlinedAlong (hj : j ≤ k) :
    m.after (m.inlinedAlong program k) j = m.after program j := by
  induction j with
  | zero => rfl
  | succ j ih => rw [after_succ', after_succ', ih (by omega), step_inlinedAlong hj]

theorem answer_inlinedAlong (hj : j < k) :
    m.answer (m.inlinedAlong program k) j = m.answer program j := by
  rw [answer, answer, after_inlinedAlong (Nat.le_of_lt hj), step_inlinedAlong hj]

/-- The instruction in the place of one that names a register names none, if that register is
there. -/
theorem source?_of_next?_inlinedAlong (hj : j < k)
    (hregister : ∀ i id, (m.after program j).next? program = some i → i.source? = some id →
      ∃ value, (m.after program j).registers.get? id = some value)
    (hi : (m.after program j).next? (m.inlinedAlong program k) = some i) : i.source? = none := by
  obtain ⟨hrunning, hfetch⟩ := next?_eq_some_iff.1 hi
  cases hj' : program.fetch? (m.after program j).pc with
  | none =>
    rw [(Program.fetch?_eq_none_iff_of_size_eq (m.size_inlinedAlong program k) _).2 hj'] at hfetch
    cases hfetch
  | some i' =>
    have hnext := next?_eq_some_iff.2 ⟨hrunning, hj'⟩
    obtain rfl : (m.after program j).inlined i' = i :=
      Option.some.inj ((fetch?_inlinedAlong hj hnext).symm.trans hfetch)
    exact source?_inlined fun id hid => hregister i' id hnext hid

/-- **Values for registers.**  Where `k` steps on a program succeed, they lead through the same
machines when each of their instructions that takes its value from a register is replaced by the one
that has the value in it which the register held just before.  None of them names a register for its
value then.  The step behind them, if it faults for another reason than that the register it takes
its value from is missing, faults with the same error when its instruction is replaced as well. -/
theorem inlinedAlong_agrees (m : Machine) (program : Program) (k : Nat)
    (hok : ∀ j < k, ∃ status, m.answer program j = .ok status) :
    (∀ j < k, m.answer (m.inlinedAlong program k) j = m.answer program j) ∧
    (∀ j ≤ k, m.after (m.inlinedAlong program k) j = m.after program j) ∧
    (∀ j < k, ∀ i, (m.after program j).next? (m.inlinedAlong program k) = some i →
      i.source? = none) ∧
    ∀ e i id, m.answer program k = .error e → (m.after program k).next? program = some i →
      i.source? = some id → (m.after program k).registers.HasCell id →
        m.answer (m.inlinedAlong program (k + 1)) k = .error e ∧
        (∀ j ≤ k + 1, m.after (m.inlinedAlong program (k + 1)) j = m.after program j) ∧
        ∀ i', (m.after program k).next? (m.inlinedAlong program (k + 1)) = some i' →
          i'.source? = none := by
  refine ⟨fun j hj => answer_inlinedAlong hj, fun j hj => after_inlinedAlong hj, ?_, ?_⟩
  · intro j hj i hi
    refine source?_of_next?_inlinedAlong hj (fun i id hnext hid => ?_) hi
    -- the step succeeded, so it found what it looked for
    obtain ⟨hrunning, hfetch⟩ := next?_eq_some_iff.1 hnext
    obtain ⟨status, hanswer⟩ := hok j hj
    have hstep : (m.after program j).step program = (.ok status, m.after program (j + 1)) := by
      rw [step_after, hanswer]
    obtain ⟨-, effect, hplan, -⟩ := (step_eq_ok_iff hrunning).1 hstep
    rw [plan_of_fetch?_eq_some hfetch] at hplan
    exact exists_get?_of_effectOf_eq_ok hid hplan
  · intro e i id herror hnext hid hcell
    refine ⟨?_, fun j hj => after_inlinedAlong hj, fun i' hi' => ?_⟩
    · rw [answer_inlinedAlong (Nat.lt_succ_self k), herror]
    · refine source?_of_next?_inlinedAlong (Nat.lt_succ_self k) (fun i' id' hnext' hid' => ?_) hi'
      obtain rfl : i = i' := Option.some.inj (hnext.symm.trans hnext')
      obtain rfl : id = id' := Option.some.inj (hid.symm.trans hid')
      exact Bank.exists_get?_eq_some_iff.2 hcell

/-- A register is set, doubled, and divided by another one that holds zero.  The value that it is
doubled by is the one that it held after it was set. -/
theorem inlinedAlong_agrees_division :
    (powerOn { registers := 2 }).inlinedAlong #[0x01, 0, 5, 0, 0x02, 0, 0, 7, 0x05, 0, 1, 1] 3 =
        #[0x01, 0, 5, 0, 0x02, 0, 5, 0, 0x05, 0, 0, 0] ∧
      (powerOn { registers := 2 }).after #[0x01, 0, 5, 0, 0x02, 0, 5, 0, 0x05, 0, 0, 0] 2 =
        ((powerOn { registers := 2 }).commit (.write 0 5)).commit (.write 0 10) ∧
      (powerOn { registers := 2 }).answer #[0x01, 0, 5, 0, 0x02, 0, 5, 0, 0x05, 0, 0, 0] 2 =
        .error (.divisionByZero 8) := by
  have hinlined : (powerOn { registers := 2 }).inlinedAlong
      #[0x01, 0, 5, 0, 0x02, 0, 0, 7, 0x05, 0, 1, 1] 3 =
        #[0x01, 0, 5, 0, 0x02, 0, 5, 0, 0x05, 0, 0, 0] := by
    decide
  have hok : ∀ j < 2, ∃ status, (powerOn { registers := 2 }).answer
      #[0x01, 0, 5, 0, 0x02, 0, 0, 7, 0x05, 0, 1, 1] j = .ok status := by
    intro j hj
    obtain rfl | rfl : j = 0 ∨ j = 1 := by omega
    · exact ⟨.running, rfl⟩
    · exact ⟨.running, rfl⟩
  obtain ⟨-, -, -, hfault⟩ := inlinedAlong_agrees (powerOn { registers := 2 })
    #[0x01, 0, 5, 0, 0x02, 0, 0, 7, 0x05, 0, 1, 1] 2 hok
  obtain ⟨hanswer, hafter, -⟩ := hfault (.divisionByZero 8) ⟨0x05, 0, 1, 1⟩ 1 rfl rfl rfl
    ⟨by decide, by decide⟩
  rw [hinlined] at hanswer hafter
  exact ⟨hinlined, hafter 2 (by decide), hanswer⟩

end Machine

end RegisterMachine
