import Mathlib.Data.Int.Bitwise
import RegisterMachine.Proofs.InOrder
import RegisterMachine.Proofs.InstructionSequence
import RegisterMachine.Proofs.InstructionTable
import RegisterMachine.Proofs.Invariant
import RegisterMachine.Proofs.Lockstep

/-!
# Unbounded arithmetic

What if words had no bounds?  An exact machine holds integers of any size in its registers, memory
cells and stack slots, and its sums, differences and products never wrap.  It executes the programs
of the machine side by side with it, fault for fault, and each word that the machine holds is the
one that is congruent to the integer in the same place.  To wrap after every instruction is thus to
wrap once at the end.  Division alone is left out: it does not respect congruence.

## Main definitions

* `Arithmetic.exact` : the operations on integers;
* `ExactMachine`, `ExactMachine.next` and `ExactMachine.step` : the exact machine;
* `Word.Represents` : the only word that is congruent to an integer;
* `Machine.Represents` : a machine that represents an exact one.

## Main statements

* `Arithmetic.ofInt_exact` : to wrap the exact result is to compute with the wrapped integers;
* `Machine.Represents.follows_next` : both machines fault alike, or have effects alike;
* `Machine.Represents.step` : both machines take the same step;
* `Machine.represents_exact` : what this means for any number of steps and for runs.
-/

namespace RegisterMachine

/-- The result of an operation on integers.  Nothing wraps; quotients are rounded toward zero, and
bitwise operations see integers in two's complement, without end. -/
def Arithmetic.exact : Arithmetic → Int → Int → Int
  | move, _, value => value
  | add, old, value => old + value
  | sub, old, value => old - value
  | mul, old, value => old * value
  | div, old, value => old.tdiv value
  | xor, old, value => old.xor value
  | or, old, value => old.lor value
  | and, old, value => old.land value

/-- A machine whose registers, memory cells and stack slots hold integers. -/
structure ExactMachine where
  /-- The configuration that the machine was built with. -/
  config : Config
  /-- The position of the next instruction in the program, in words. -/
  pc : Nat := 0
  /-- The registers. -/
  registers : Nat → Int := fun _ => 0
  /-- The memory. -/
  memory : Nat → Int := fun _ => 0
  /-- The slots of the stack, the lowest first. -/
  slots : Nat → Int := fun _ => 0
  /-- The number of slots in use. -/
  height : Nat := 0
  /-- Whether the machine executes instructions. -/
  status : Status := .running
  /-- The number of instructions executed. -/
  steps : Nat := 0
  /-- The number of unknown opcodes passed over. -/
  skipped : Nat := 0

namespace ExactMachine

/-- The exact machine with these sizes that was just switched on. -/
def powerOn (config : Config) : ExactMachine where
  config := config

/-- The position of register `id`. -/
def register (x : ExactMachine) (id : Word) : Except Error Nat :=
  if 0 ≤ id.toInt ∧ id.toInt < x.config.registers then .ok id.toInt.toNat
  else .error (.invalidRegister id)

/-- The position of the memory cell at `address`. -/
def cell (x : ExactMachine) (address : Word) : Except Error Nat :=
  if 0 ≤ address.toInt ∧ address.toInt < x.config.memory then .ok address.toInt.toNat
  else .error (.memoryOutOfBounds address x.config.memory)

/-- The value of an operand. -/
def resolve (x : ExactMachine) : Operand → Except Error Int
  | .immediate value => .ok value.toInt
  | .register id => (x.register id).map x.registers

/-- What an operation makes of the exact machine, or the first check that it fails. -/
def execute (x : ExactMachine) : Operation → Except Error ExactMachine
  | .nop => .ok x
  | .compute op destination source => do
    let i ← x.register destination
    let value ← x.resolve source
    if op = .div ∧ value = 0 then .error (.divisionByZero x.pc)
    else .ok { x with registers := Function.update x.registers i (op.exact (x.registers i) value) }
  | .push source => do
    let value ← x.resolve source
    if x.height < x.config.stack then
      .ok { x with slots := Function.update x.slots x.height value, height := x.height + 1 }
    else .error (.stackOverflow x.config.stack)
  | .pop destination => do
    let i ← x.register destination
    if x.height = 0 then .error .stackUnderflow
    else
      .ok { x with
        registers := Function.update x.registers i (x.slots (x.height - 1))
        height := x.height - 1 }
  | .store address source => do
    let value ← x.resolve source
    let j ← x.cell address
    .ok { x with memory := Function.update x.memory j value }
  | .load address destination => do
    let j ← x.cell address
    let i ← x.register destination
    .ok { x with registers := Function.update x.registers i (x.memory j) }
  | .halt => .ok { x with status := .halted }
  | .finish => .ok { x with status := .terminated }

/-- What an instruction whose opcode may be unknown makes of the exact machine. -/
def perform (x : ExactMachine) (i : Instruction) : Except Error ExactMachine :=
  match i.operation? with
  | some operation => x.execute operation
  | none =>
    match x.config.policy with
    | .lenient => .ok { x with skipped := x.skipped + 1 }
    | .strict => .error (.unknownOpcode i.opcode x.pc)

/-- What the next instruction of a program makes of the exact machine, the counters apart. -/
def next (x : ExactMachine) (program : Program) : Except Error ExactMachine :=
  match program.fetch? x.pc with
  | some i => x.perform i
  | none => .error (.endOfProgram x.pc (program.size - x.pc))

/-- The exact machine with its counter behind the instruction and the instruction counted. -/
def advanced (x : ExactMachine) : ExactMachine :=
  { x with pc := x.pc + 4, steps := x.steps + 1 }

/-- Executes the next instruction of a program, and tells the status of the exact machine after
it. -/
def step (x : ExactMachine) (program : Program) : Except Error Status × ExactMachine :=
  if x.status = .running then
    match x.next program with
    | .ok x' => (.ok x'.status, x'.advanced)
    | .error e => (.error e, x)
  else
    (.ok x.status, x)

/-- The exact machine after `k` steps on a program, whatever they answer. -/
def after (x : ExactMachine) (program : Program) (k : Nat) : ExactMachine :=
  (fun x => (x.step program).2)^[k] x

/-- What step number `i` answers; the first one is number zero. -/
def answer (x : ExactMachine) (program : Program) (i : Nat) : Except Error Status :=
  ((x.after program i).step program).1

end ExactMachine

/-! ### Words in the place of integers -/

/-- `w` is congruent to `z` modulo `2 ^ 32`, and no other word is. -/
def Word.Represents (w : Word) (z : Int) : Prop :=
  ∀ w', Wraps z w' ↔ w' = w

/-- Every cell holds the word that represents the integer in its place. -/
def Bank.Represents (b : Bank) (cells : Nat → Int) : Prop :=
  ∀ (j : Nat) (v : Word), b.cells[j]? = some v → v.Represents (cells j)

/-- Every slot, in use or not, holds the word that represents the integer in its place.  A slot that
was never used counts as zero. -/
def Stack.Represents (s : Stack) (slots : Nat → Int) : Prop :=
  ∀ j < s.capacity, (s.slots[j]?.getD 0).Represents (slots j)

theorem Word.represents_iff {w : Word} {z : Int} : w.Represents z ↔ w = Int32.ofInt z := by
  have hwraps (w' : Word) : Wraps z w' ↔ w' = Int32.ofInt z := wraps_iff Int32.toInt_ofInt
  constructor
  · intro h
    exact (hwraps w).1 ((h w).2 rfl)
  · rintro rfl
    exact hwraps

theorem Word.represents_toInt (w : Word) : w.Represents w.toInt :=
  represents_iff.2 (Int32.ofInt_toInt w).symm

theorem Word.represents_zero : (0 : Word).Represents 0 :=
  represents_toInt 0

/-- The low bits of an integer in two's complement are those of the word that it wraps to. -/
theorem Word.getLsbD_ofInt (z : Int) (i : Nat) :
    (BitVec.ofInt 32 z).getLsbD i = (decide (i < 32) && z.testBit i) := by
  cases z with
  | ofNat n =>
    rw [Int.ofNat_eq_natCast, BitVec.ofInt_natCast, BitVec.getLsbD_ofNat]
    rfl
  | negSucc n =>
    rw [BitVec.ofInt_negSucc_eq_not_ofNat, BitVec.getLsbD_not, BitVec.getLsbD_ofNat]
    change _ = (decide (i < 32) && !n.testBit i)
    cases decide (i < 32) <;> simp

/-- Wrapping respects an operation on single bits. -/
theorem Word.ofInt_bitwise {f : Int → Int → Int} {g : Word → Word → Word}
    {b : Bool → Bool → Bool} (hf : ∀ y z i, (f y z).testBit i = b (y.testBit i) (z.testBit i))
    (hg : ∀ v w i, i < 32 →
      (g v w).toBitVec.getLsbD i = b (v.toBitVec.getLsbD i) (w.toBitVec.getLsbD i)) (y z : Int) :
    Int32.ofInt (f y z) = g (Int32.ofInt y) (Int32.ofInt z) := by
  refine Int32.toBitVec_inj.1 (BitVec.eq_of_getLsbD_eq fun i hi => ?_)
  rw [hg _ _ i hi]
  simp only [Int32.toBitVec_ofInt, getLsbD_ofInt, hf, hi, decide_true, Bool.true_and]

theorem Word.ofInt_xor (y z : Int) :
    Int32.ofInt (y.xor z) = Int32.ofInt y ^^^ Int32.ofInt z :=
  ofInt_bitwise (g := (· ^^^ ·)) Int.testBit_lxor (fun _ _ _ _ => BitVec.getLsbD_xor) y z

theorem Word.ofInt_or (y z : Int) :
    Int32.ofInt (y.lor z) = Int32.ofInt y ||| Int32.ofInt z :=
  ofInt_bitwise (g := (· ||| ·)) Int.testBit_lor (fun _ _ _ _ => BitVec.getLsbD_or) y z

theorem Word.ofInt_and (y z : Int) :
    Int32.ofInt (y.land z) = Int32.ofInt y &&& Int32.ofInt z :=
  ofInt_bitwise (g := (· &&& ·)) Int.testBit_land (fun _ _ _ _ => BitVec.getLsbD_and) y z

/-- **To wrap the exact result is to compute with the wrapped integers**, unless they are
divided. -/
theorem Arithmetic.ofInt_exact {op : Arithmetic} (hop : op ≠ .div) (old value : Int) :
    Int32.ofInt (op.exact old value) = op.apply (Int32.ofInt old) (Int32.ofInt value) := by
  cases op with
  | move => rfl
  | add => exact Int32.ofInt_add old value
  | sub => exact Int32.ofInt_sub old value
  | mul => exact Int32.ofInt_mul old value
  | div => exact absurd rfl hop
  | xor => exact Word.ofInt_xor old value
  | or => exact Word.ofInt_or old value
  | and => exact Word.ofInt_and old value

-- the exact quotient is half of `2 ^ 31`, the other one half of its negation
example : Arithmetic.exact .div (2 ^ 31) 2 = 2 ^ 30 ∧
    Arithmetic.apply .div (Int32.ofInt (2 ^ 31)) (Int32.ofInt 2) = Int32.ofInt (-2 ^ 30) := by
  decide

theorem Word.Represents.apply {op : Arithmetic} (hop : op ≠ .div) {v w : Word} {y z : Int}
    (hv : v.Represents y) (hw : w.Represents z) : (op.apply v w).Represents (op.exact y z) := by
  rw [represents_iff] at hv hw ⊢
  rw [Arithmetic.ofInt_exact hop, hv, hw]

/-! ### Banks and stacks -/

theorem Bank.represents_zeros (n : Nat) : (zeros n).Represents fun _ => 0 := by
  intro j v hv
  rw [zeros, Array.getElem?_replicate] at hv
  split at hv
  · cases hv
    exact Word.represents_zero
  · cases hv

theorem Bank.Represents.set {b : Bank} {cells : Nat → Int} (h : b.Represents cells) {w u v : Word}
    {j : Nat} {z : Int} (hj : w.toInt = j) (hu : b.cells[j]? = some u) (hv : v.Represents z) :
    (b.set w v).Represents (Function.update cells j z) := by
  have hholds : b.Holds w u := ⟨by omega, by rwa [hj, Int.toNat_natCast]⟩
  intro i v' hv'
  rw [getElem?_cells_set hholds] at hv'
  rw [Function.update_apply]
  split at hv'
  · rename_i hi
    cases hv'
    rwa [if_pos (by omega)]
  · rename_i hi
    rw [if_neg (by omega)]
    exact h i v' hv'

/-- A word numbers a cell of both machines, or of neither. -/
theorem Bank.follows_get? {b : Bank} {n : Nat} (hsize : b.size = n) (w : Word) (e : Error) :
    Follows (fun _ => False) (fun (j : Nat) v => w.toInt = j ∧ b.cells[j]? = some v)
      (if 0 ≤ w.toInt ∧ w.toInt < n then .ok w.toInt.toNat else .error e)
      (match b.get? w with
      | some value => .ok value
      | none => .error e) := by
  subst hsize
  cases hv : b.get? w with
  | none =>
    rw [get?_eq_none_iff] at hv
    rw [if_neg (by omega)]
    exact .error e
  | some v =>
    have hholds : b.Holds w v := get?_eq_some_iff.1 hv
    have hcell : 0 ≤ w.toInt ∧ w.toInt < b.size := hholds.hasCell
    rw [if_pos hcell]
    exact .ok ⟨(Int.toNat_of_nonneg hholds.1).symm, hholds.2⟩

theorem Stack.represents_empty (c : Nat) : (empty c).Represents fun _ => 0 := by
  intro j _
  exact Word.represents_zero

theorem Stack.Represents.put {s : Stack} {slots : Nat → Int} (h : s.Represents slots)
    (hroom : s.height < s.capacity) {v : Word} {z : Int} (hv : v.Represents z) :
    (s.put v).Represents (Function.update slots s.height z) := by
  intro j hj
  rw [capacity_put] at hj
  rw [getElem?_slots_put hroom, Function.update_apply]
  split
  · exact hv
  · exact h j hj

theorem Stack.Represents.of_peek? {s : Stack} {slots : Nat → Int} (h : s.Represents slots)
    {v : Word} (hv : s.peek? = some v) : v.Represents (slots (s.height - 1)) := by
  have hle := s.height_le_capacity
  unfold peek? at hv
  split at hv
  · cases hv
  · rename_i hne
    have htop := h (s.height - 1) (by omega)
    rwa [hv] at htop

/-- An instruction that is no division asks for none. -/
theorem Instruction.operation?_ne_div {i : Instruction} (h : ¬ i.Is .div) (destination : Word)
    (source : Operand) : i.operation? ≠ some (.compute .div destination source) := by
  intro hoperation
  obtain ⟨o, ho, heq⟩ := Option.map_eq_some_iff.1 hoperation
  cases o with
  | div => exact h ho
  | _ => cases heq

namespace Machine

/-- The machine is where the exact one is, and holds the words that represent its integers. -/
structure Represents (m : Machine) (x : ExactMachine) : Prop where
  /-- The parts of the machine have the sizes that they should. -/
  configured : m.AsConfigured
  /-- The configurations are the same. -/
  config_eq : m.config = x.config
  /-- The machines stand at the same position. -/
  pc_eq : m.pc = x.pc
  /-- The machines have the same status. -/
  status_eq : m.status = x.status
  /-- Their stacks hold as many values. -/
  height_eq : m.stack.height = x.height
  /-- They have executed as many instructions. -/
  steps_eq : m.steps = x.steps
  /-- They have passed over as many unknown opcodes. -/
  skipped_eq : m.skipped = x.skipped
  /-- Every register holds the word for the exact integer. -/
  registers : m.registers.Represents x.registers
  /-- So does every memory cell. -/
  memory : m.memory.Represents x.memory
  /-- So does every slot of the stack. -/
  stack : m.stack.Represents x.slots

variable {config : Config} {m : Machine} {x : ExactMachine} {program : Program}

theorem represents_powerOn (config : Config) :
    (powerOn config).Represents (ExactMachine.powerOn config) where
  configured := asConfigured_powerOn config
  config_eq := rfl
  pc_eq := rfl
  status_eq := rfl
  height_eq := rfl
  steps_eq := rfl
  skipped_eq := rfl
  registers := Bank.represents_zeros _
  memory := Bank.represents_zeros _
  stack := Stack.represents_empty _

namespace Represents

/-! ### Effects -/

theorem advanced (h : m.Represents x) : (m.commit .nothing).Represents x.advanced :=
  { h with
    configured := h.configured.commit .nothing
    pc_eq := congrArg (· + 4) h.pc_eq
    steps_eq := congrArg (· + 1) h.steps_eq }

theorem write (h : m.Represents x) {id u v : Word} {i : Nat} {z : Int} (hi : id.toInt = i)
    (hu : m.registers.cells[i]? = some u) (hv : v.Represents z) :
    (m.commit (.write id v)).Represents
      (ExactMachine.advanced { x with registers := Function.update x.registers i z }) :=
  { h.advanced with
    configured := h.configured.commit (.write id v)
    registers := h.registers.set hi hu hv }

theorem store (h : m.Represents x) {a u v : Word} {j : Nat} {z : Int} (hj : a.toInt = j)
    (hu : m.memory.cells[j]? = some u) (hv : v.Represents z) :
    (m.commit (.store a v)).Represents
      (ExactMachine.advanced { x with memory := Function.update x.memory j z }) :=
  { h.advanced with
    configured := h.configured.commit (.store a v)
    memory := h.memory.set hj hu hv }

theorem push (h : m.Represents x) (hroom : m.stack.height < m.stack.capacity) {v : Word} {z : Int}
    (hv : v.Represents z) :
    (m.commit (.push v)).Represents (ExactMachine.advanced
      { x with slots := Function.update x.slots x.height z, height := x.height + 1 }) :=
  { h.advanced with
    configured := h.configured.commit (.push v)
    height_eq := (Stack.height_put hroom v).trans (congrArg (· + 1) h.height_eq)
    stack := by
      rw [← h.height_eq]
      exact h.stack.put hroom hv }

theorem pop (h : m.Represents x) {id u v : Word} {i : Nat} {z : Int} (hi : id.toInt = i)
    (hu : m.registers.cells[i]? = some u) (hv : v.Represents z) :
    (m.commit (.pop id v)).Represents (ExactMachine.advanced
      { x with registers := Function.update x.registers i z, height := x.height - 1 }) :=
  { h.advanced with
    configured := h.configured.commit (.pop id v)
    height_eq := congrArg (· - 1) h.height_eq
    registers := h.registers.set hi hu hv }

theorem stop (h : m.Represents x) (status : Status) :
    (m.commit (.stop status)).Represents (ExactMachine.advanced { x with status := status }) :=
  { h.advanced with
    configured := h.configured.commit (.stop status)
    status_eq := rfl }

theorem skip (h : m.Represents x) :
    (m.commit .skip).Represents (ExactMachine.advanced { x with skipped := x.skipped + 1 }) :=
  { h.advanced with
    configured := h.configured.commit .skip
    skipped_eq := congrArg (· + 1) h.skipped_eq }

/-! ### Operands -/

theorem follows_register (h : m.Represents x) (id : Word) :
    Follows (fun _ => False) (fun (i : Nat) v => id.toInt = i ∧ m.registers.cells[i]? = some v)
      (x.register id) (m.readRegister id) :=
  Bank.follows_get? (by rw [h.configured.registers_size, h.config_eq]) id _

theorem follows_cell (h : m.Represents x) (address : Word) :
    Follows (fun _ => False) (fun (j : Nat) v => address.toInt = j ∧ m.memory.cells[j]? = some v)
      (x.cell address) (m.readMemory address) := by
  have hsize : m.memory.size = x.config.memory := by rw [h.configured.memory_size, h.config_eq]
  unfold readMemory
  rw [hsize]
  exact Bank.follows_get? hsize address _

theorem follows_resolve (h : m.Represents x) (source : Operand) :
    Follows (fun _ => False) (fun z v => Word.Represents v z) (x.resolve source)
      (m.resolve source) := by
  cases source with
  | immediate value => exact .ok value.represents_toInt
  | register id => exact (h.follows_register id).map_left fun i v hv => h.registers i v hv.2

/-! ### Instructions -/

theorem follows_execute (h : m.Represents x) {operation : Operation}
    (hdiv : ∀ destination source, operation ≠ .compute .div destination source) :
    Follows (fun _ => False) (fun x' effect => (m.commit effect).Represents x'.advanced)
      (x.execute operation) (m.effect operation) := by
  cases operation with
  | nop => exact .ok h.advanced
  | halt | finish => exact .ok (h.stop _)
  | compute op destination source =>
    have hop : op ≠ .div := by
      rintro rfl
      exact hdiv destination source rfl
    refine (h.follows_register destination).bind fun i old hold => ?_
    refine (h.follows_resolve source).bind fun z v hv => ?_
    rw [if_neg fun hzero => hop hzero.1, if_neg fun hzero => hop hzero.1]
    exact .ok (h.write hold.1 hold.2 ((h.registers i old hold.2).apply hop hv))
  | push source =>
    have hcapacity : m.stack.capacity = x.config.stack := by
      rw [h.configured.capacity_eq, h.config_eq]
    have hroom : m.stack.isFull = false ↔ x.height < x.config.stack := by
      rw [Stack.isFull_eq_false_iff, h.height_eq, hcapacity]
    refine (h.follows_resolve source).bind fun z v hv => ?_
    cases hfull : m.stack.isFull with
    | false =>
      rw [if_pos (hroom.1 hfull), if_neg Bool.false_ne_true]
      exact .ok (h.push (Stack.isFull_eq_false_iff.1 hfull) hv)
    | true =>
      have hfull' : ¬ x.height < x.config.stack := by
        rw [← hroom, hfull]
        exact Bool.noConfusion
      rw [if_neg hfull', if_pos rfl, hcapacity]
      exact .error _
  | pop destination =>
    refine (h.follows_register destination).bind fun i old hold => ?_
    cases hv : m.stack.peek? with
    | none =>
      rw [Stack.peek?_eq_none_iff, h.height_eq] at hv
      rw [if_pos hv]
      exact .error _
    | some v =>
      have hne : x.height ≠ 0 := by
        intro hzero
        rw [← h.height_eq, ← Stack.peek?_eq_none_iff, hv] at hzero
        cases hzero
      have htop := h.stack.of_peek? hv
      rw [h.height_eq] at htop
      rw [if_neg hne]
      exact .ok (h.pop hold.1 hold.2 htop)
  | store address source =>
    refine (h.follows_resolve source).bind fun z v hv => ?_
    refine (h.follows_cell address).bind fun j old hold => ?_
    exact .ok (h.store hold.1 hold.2 hv)
  | load address destination =>
    refine (h.follows_cell address).bind fun j v hv => ?_
    refine (h.follows_register destination).bind fun i old hold => ?_
    exact .ok (h.write hold.1 hold.2 (h.memory j v hv.2))

theorem follows_perform (h : m.Represents x) {i : Instruction} (hdiv : ¬ i.Is .div) :
    Follows (fun _ => False) (fun x' effect => (m.commit effect).Represents x'.advanced)
      (x.perform i) (m.effectOf i) := by
  unfold ExactMachine.perform effectOf
  cases hoperation : i.operation? with
  | some operation =>
    refine h.follows_execute fun destination source heq => ?_
    exact Instruction.operation?_ne_div hdiv destination source (heq ▸ hoperation)
  | none =>
    rw [h.config_eq, h.pc_eq]
    cases x.config.policy with
    | lenient => exact .ok h.skip
    | strict => exact .error _

/-- **Both machines fault alike, or have effects alike**, where the next instruction does not
divide. -/
theorem follows_next (h : m.Represents x)
    (hdiv : ∀ i, program.fetch? m.pc = some i → ¬ i.Is .div) :
    Follows (fun _ => False) (fun x' effect => (m.commit effect).Represents x'.advanced)
      (x.next program) (m.plan program) := by
  unfold ExactMachine.next plan
  rw [h.pc_eq] at hdiv ⊢
  cases hi : program.fetch? x.pc with
  | some i => exact h.follows_perform (hdiv i hi)
  | none => exact .error _

/-! ### Steps -/

/-- **Both machines take the same step**, where the next instruction does not divide. -/
theorem step (h : m.Represents x) (hdiv : ∀ i, program.fetch? m.pc = some i → ¬ i.Is .div) :
    (m.step program).1 = (x.step program).1 ∧
      (m.step program).2.Represents (x.step program).2 := by
  have hfollows := h.follows_next hdiv
  unfold ExactMachine.step
  rw [← h.status_eq]
  by_cases hm : m.status = .running
  · rw [if_pos hm]
    generalize hx : x.next program = next, hplan : m.plan program = plan at hfollows
    cases hfollows with
    | ok hcommit =>
      rw [step_of_plan_eq_ok hm hplan]
      exact ⟨congrArg Except.ok hcommit.status_eq, hcommit⟩
    | error e =>
      rw [step_of_plan_eq_error hm hplan]
      exact ⟨rfl, h⟩
    | excuse he => exact he.elim
  · rw [if_neg hm, step_of_status_ne hm]
    exact ⟨rfl, h⟩

theorem step_of_instructions (h : m.Represents x)
    (hdiv : ∀ i ∈ program.instructions, ¬ i.Is .div) :
    (m.step program).1 = (x.step program).1 ∧
      (m.step program).2.Represents (x.step program).2 := by
  refine h.step fun i hi => hdiv i ?_
  -- a machine as configured fetches whole instructions of the program
  rw [h.configured.pc_eq, ← Program.getElem?_instructions] at hi
  exact List.mem_of_getElem? hi

theorem after (h : m.Represents x) (hdiv : ∀ i ∈ program.instructions, ¬ i.Is .div) (k : Nat) :
    (m.after program k).Represents (x.after program k) := by
  induction k with
  | zero => exact h
  | succ k ih =>
    rw [after_succ', ExactMachine.after, Function.iterate_succ_apply']
    exact (ih.step_of_instructions hdiv).2

theorem answer_eq (h : m.Represents x) (hdiv : ∀ i ∈ program.instructions, ¬ i.Is .div)
    (k : Nat) : m.answer program k = x.answer program k :=
  ((h.after hdiv k).step_of_instructions hdiv).1

end Represents

/-- **Wrapping arithmetic is exact arithmetic modulo `2 ^ 32`, over whole programs.**  A machine
that was just built runs a program without divisions alongside an exact machine.  Every step gives
the same answer on both, errors included, and leaves the machine with the words that represent the
integers of the exact one.  So do runs until the machine stops. -/
theorem represents_exact (hm : Built config m)
    (hdiv : ∀ i ∈ program.instructions, ¬ i.Is .div) :
    (∀ k, m.answer program k = (ExactMachine.powerOn config).answer program k ∧
      (m.after program k).Represents ((ExactMachine.powerOn config).after program k)) ∧
    ∃ k, m.StopsAt program k ∧
      (m.runUntilHalt program).1 = (ExactMachine.powerOn config).answer program k ∧
      (m.runUntilHalt program).2.Represents
        ((ExactMachine.powerOn config).after program (k + 1)) := by
  obtain rfl := hm.eq_powerOn
  have hstart := represents_powerOn config
  refine ⟨fun k => ⟨hstart.answer_eq hdiv k, hstart.after hdiv k⟩, ?_⟩
  obtain ⟨k, hk, -⟩ := (powerOn config).exists_stopsAt program
  rw [runUntilHalt_of_stopsAt hk]
  exact ⟨k, hk, hstart.answer_eq hdiv k, hstart.after hdiv (k + 1)⟩

/-- The program adds one to the greatest word, pushes the sum and stores it, and then ends without
saying so. -/
theorem represents_exact_maxValue :
    ((ExactMachine.powerOn { registers := 2, memory := 2 }).after
        #[0x01, 0, 2147483647, 0, 0x02, 0, 1, 0, 0x0A, 0, 1, 0, 0x0C, 1, 0, 1] 4).memory 1 =
      2147483648 ∧
    (powerOn { registers := 2, memory := 2 }).answer
        #[0x01, 0, 2147483647, 0, 0x02, 0, 1, 0, 0x0A, 0, 1, 0, 0x0C, 1, 0, 1] 4 =
      .error (.endOfProgram 16 0) ∧
    ((powerOn { registers := 2, memory := 2 }).after
        #[0x01, 0, 2147483647, 0, 0x02, 0, 1, 0, 0x0A, 0, 1, 0, 0x0C, 1, 0, 1] 4).Represents
      ((ExactMachine.powerOn { registers := 2, memory := 2 }).after
        #[0x01, 0, 2147483647, 0, 0x02, 0, 1, 0, 0x0A, 0, 1, 0, 0x0C, 1, 0, 1] 4) := by
  have hbuilt : Built { registers := 2, memory := 2 } (powerOn { registers := 2, memory := 2 }) :=
    .ofConfig rfl
  have hdiv : ∀ i ∈ Program.instructions
      #[0x01, 0, 2147483647, 0, 0x02, 0, 1, 0, 0x0A, 0, 1, 0, 0x0C, 1, 0, 1], ¬ i.Is .div := by
    unfold Instruction.Is
    decide
  obtain ⟨hanswer, hafter⟩ := (represents_exact hbuilt hdiv).1 4
  exact ⟨rfl, hanswer.trans rfl, hafter⟩

end Machine

end RegisterMachine
