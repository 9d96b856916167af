import RegisterMachine.Bank
import RegisterMachine.Config
import RegisterMachine.Instruction
import RegisterMachine.Stack

/-!
# The machine and its step

A machine has registers, memory, a stack, and a counter that points into whatever program it is
handed.  `Machine.step` executes one instruction, in two halves: `Machine.plan` makes every check
and says what will change, and `Machine.commit`, which cannot fail, changes it.  A fault therefore
leaves the machine as it was.

## Main definitions

* `Machine`, `Machine.powerOn` and `Machine.ofConfig`: a machine, and one that was just built;
* `Machine.plan`, `Effect` and `Machine.commit`: the checks of an instruction and its effect;
* `Machine.step`: one instruction;
* `Machine.reset`: back to the beginning.

## Main statements

* `Machine.step_of_plan_eq_error`: a fault changes nothing;
* `Machine.pc_commit` and `Machine.steps_commit`: every executed instruction advances the counter by
  four words and is counted once.
-/

namespace RegisterMachine

/-- Whether a machine executes instructions. -/
inductive Status where
  /-- It does. -/
  | running
  /-- It was halted, and waits for an outside cancel. -/
  | halted
  /-- The program ended. -/
  | terminated
  deriving DecidableEq, Repr

/-- The name of a status in reports. -/
def Status.name : Status → String
  | running => "Running"
  | halted => "Halted"
  | terminated => "Terminated"

/-- The whole machine. -/
structure Machine where
  /-- The configuration that the machine was built with. -/
  config : Config
  /-- The position of the next instruction in the program, in words. -/
  pc : Nat := 0
  /-- The registers. -/
  registers : Bank
  /-- The memory. -/
  memory : Bank
  /-- The stack. -/
  stack : Stack
  /-- Whether the machine executes instructions. -/
  status : Status := .running
  /-- The number of instructions executed. -/
  steps : Nat := 0
  /-- The number of unknown opcodes passed over. -/
  skipped : Nat := 0
  deriving DecidableEq, Repr

/-- What an instruction that passed all checks changes, the counters apart. -/
inductive Effect where
  /-- Nothing. -/
  | nothing
  /-- Register `id` gets a value. -/
  | write (id value : Word)
  /-- A memory cell gets a value. -/
  | store (address value : Word)
  /-- The stack grows by a value. -/
  | push (value : Word)
  /-- The stack loses its top, which goes to register `id`. -/
  | pop (id value : Word)
  /-- The machine stops. -/
  | stop (status : Status)
  /-- An unknown opcode is counted. -/
  | skip
  deriving DecidableEq, Repr

namespace Machine

/-- The machine with these sizes that was just switched on: everything is zero. -/
def powerOn (config : Config) : Machine where
  config := config
  registers := .zeros config.registers
  memory := .zeros config.memory
  stack := .empty config.stack

/-- Builds a machine, unless the configuration has a size out of its limits. -/
def ofConfig (config : Config) : Except Error Machine :=
  config.validate.map fun _ => powerOn config

/-- The machine with everything zeroed and the counter at the beginning of the program. -/
def reset (m : Machine) : Machine where
  config := m.config
  registers := m.registers.clear
  memory := m.memory.clear
  stack := m.stack.clear

/-! ### Operands -/

/-- The content of register `id`. -/
def readRegister (m : Machine) (id : Word) : Except Error Word :=
  match m.registers.get? id with
  | some value => .ok value
  | none => .error (.invalidRegister id)

/-- The content of the memory cell at `address`. -/
def readMemory (m : Machine) (address : Word) : Except Error Word :=
  match m.memory.get? address with
  | some value => .ok value
  | none => .error (.memoryOutOfBounds address m.memory.size)

/-- The value of an operand. -/
def resolve (m : Machine) : Operand → Except Error Word
  | .immediate value => .ok value
  | .register id => m.readRegister id

/-! ### One instruction -/

/-- The effect of an operation, or the first check that it fails.  A destination is checked before
the source that goes to it, a source before the memory cell it goes to. -/
def effect (m : Machine) : Operation → Except Error Effect
  | .nop => .ok .nothing
  | .compute op destination source => do
    let old ← m.readRegister destination
    let value ← m.resolve source
    if op = .div ∧ value = 0 then .error (.divisionByZero m.pc)
    else .ok (.write destination (op.apply old value))
  | .push source => do
    let value ← m.resolve source
    if m.stack.isFull then .error (.stackOverflow m.stack.capacity) else .ok (.push value)
  | .pop destination => do
    let _ ← m.readRegister destination
    match m.stack.peek? with
    | some value => .ok (.pop destination value)
    | none => .error .stackUnderflow
  | .store address source => do
    let value ← m.resolve source
    let _ ← m.readMemory address
    .ok (.store address value)
  | .load address destination => do
    let value ← m.readMemory address
    let _ ← m.readRegister destination
    .ok (.write destination value)
  | .halt => .ok (.stop .halted)
  | .finish => .ok (.stop .terminated)

/-- The effect of an instruction whose opcode may be unknown. -/
def effectOf (m : Machine) (i : Instruction) : Except Error Effect :=
  match i.operation? with
  | some operation => m.effect operation
  | none =>
    match m.config.policy with
    | .lenient => .ok .skip
    | .strict => .error (.unknownOpcode i.opcode m.pc)

/-- The effect of the next instruction of a program, or the reason why it faults. -/
def plan (m : Machine) (program : Program) : Except Error Effect :=
  match program.fetch? m.pc with
  | some i => m.effectOf i
  | none => .error (.endOfProgram m.pc (program.size - m.pc))

/-- The machine after an instruction with this effect. -/
def commit (m : Machine) (effect : Effect) : Machine :=
  let m := { m with pc := m.pc + 4, steps := m.steps + 1 }
  match effect with
  | .nothing => m
  | .write id value => { m with registers := m.registers.set id value }
  | .store address value => { m with memory := m.memory.set address value }
  | .push value => { m with stack := m.stack.put value }
  | .pop id value => { m with registers := m.registers.set id value, stack := m.stack.drop }
  | .stop status => { m with status := status }
  | .skip => { m with skipped := m.skipped + 1 }

/-- Executes the next instruction of a program, and tells the status of the machine after it.  A
machine that is not running stays as it is. -/
def step (m : Machine) (program : Program) : Except Error Status × Machine :=
  if m.status = .running then
    match m.plan program with
    | .ok effect =>
      let m := m.commit effect
      (.ok m.status, m)
    | .error e => (.error e, m)
  else
    (.ok m.status, m)

/-! ### What a step keeps and what it advances -/

@[simp]
theorem pc_commit (m : Machine) (effect : Effect) : (m.commit effect).pc = m.pc + 4 := by
  cases effect <;> rfl

@[simp]
theorem steps_commit (m : Machine) (effect : Effect) :
    (m.commit effect).steps = m.steps + 1 := by
  cases effect <;> rfl

@[simp]
theorem config_commit (m : Machine) (effect : Effect) :
    (m.commit effect).config = m.config := by
  cases effect <;> rfl

theorem step_of_status_ne {m : Machine} (h : m.status ≠ .running) (program : Program) :
    m.step program = (.ok m.status, m) := by
  simp [step, h]

theorem step_of_plan_eq_ok {m : Machine} {program : Program} {effect : Effect}
    (hm : m.status = .running) (h : m.plan program = .ok effect) :
    m.step program = (.ok (m.commit effect).status, m.commit effect) := by
  simp [step, hm, h]

theorem step_of_plan_eq_error {m : Machine} {program : Program} {e : Error}
    (hm : m.status = .running) (h : m.plan program = .error e) :
    m.step program = (.error e, m) := by
  simp [step, hm, h]

/-- An instruction is executed only where the program has one. -/
theorem pc_add_le_of_plan_eq_ok {m : Machine} {program : Program} {effect : Effect}
    (h : m.plan program = .ok effect) : m.pc + 4 ≤ program.size := by
  unfold plan at h
  split at h
  · rename_i i hi
    exact (Program.fetch?_eq_some_iff.1 hi).1
  · cases h

/-- A step after which the machine runs on leaves fewer words to execute. -/
theorem lt_of_step_eq_running {m m' : Machine} {program : Program}
    (h : m.step program = (.ok .running, m')) : program.size - m'.pc < program.size - m.pc := by
  unfold step at h
  split at h
  · split at h
    · rename_i effect heffect
      have hle := pc_add_le_of_plan_eq_ok heffect
      simp only [Prod.mk.injEq] at h
      rw [← h.2, pc_commit]
      omega
    · simp at h
  · rename_i hm
    simp only [Prod.mk.injEq, Except.ok.injEq] at h
    exact absurd h.1 hm

end Machine

end RegisterMachine
