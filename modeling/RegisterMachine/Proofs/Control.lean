import RegisterMachine.Proofs.InOrder
import RegisterMachine.Proofs.InstructionSequence
import RegisterMachine.Proofs.Invariant
import RegisterMachine.Proofs.Lockstep

/-!
# Control and data

There are no jumps, so what a machine executes next does not depend on the words that it has
computed.  Whether an instruction faults does not either: the checks ask for the words of the
program, for the sizes of the machine and for the height of its stack.  Only a division by a
register asks for the content of a cell.  Two machines that differ in nothing but such contents stay
together on every program that does not divide by registers.

## Main definitions

* `Instruction.DividesByRegister` : the exception;
* `Machine.SameControl` and `Machine.SameShape` : machines that differ at most in the words that
  they hold, of any sizes and as configured;
* `Effect.SameUpToWords` : effects that differ at most in the words that they write.

## Main statements

* `Machine.SameShape.follows_plan` : the plans of such machines differ in the words only;
* `Machine.lockstep_sameShape` : such machines keep in step;
* `Machine.control_agrees` : what this means for one step, for many and for runs.
-/

namespace RegisterMachine

/-- The instruction divides by the content of a register. -/
def Instruction.DividesByRegister (i : Instruction) : Prop :=
  i.Is .div ∧ i.arg₂ ≠ 0

/-- The operation divides by the content of a register. -/
def Operation.DividesByRegister : Operation → Prop
  | .compute .div _ (.register _) => True
  | _ => False

/-- The effects differ at most in the words that they write. -/
inductive Effect.SameUpToWords : Effect → Effect → Prop
  | nothing : SameUpToWords .nothing .nothing
  | write (id v v' : Word) : SameUpToWords (.write id v) (.write id v')
  | store (address v v' : Word) : SameUpToWords (.store address v) (.store address v')
  | push (v v' : Word) : SameUpToWords (.push v) (.push v')
  | pop (id v v' : Word) : SameUpToWords (.pop id v) (.pop id v')
  | stop (status : Status) : SameUpToWords (.stop status) (.stop status)
  | skip : SameUpToWords .skip .skip

theorem Instruction.dividesByRegister_of_operation? {i : Instruction} {operation : Operation}
    (h : i.operation? = some operation) (hdiv : operation.DividesByRegister) :
    i.DividesByRegister := by
  obtain ⟨o, ho, rfl⟩ := Option.map_eq_some_iff.1 h
  cases o with
  | div =>
    refine ⟨ho, fun hflag => ?_⟩
    rw [Opcode.operation, Operand.ofWords, if_pos hflag] at hdiv
    exact hdiv
  | _ => exact hdiv.elim

/-- The height does not depend on the word. -/
theorem Stack.height_put_eq_ite (s : Stack) (v : Word) :
    (s.put v).height = if s.height < s.capacity then s.height + 1 else s.height := by
  unfold put
  split
  · split <;> rfl
  · rfl

/-- Banks of one size have cells under the same numbers. -/
theorem Bank.follows_get?_of_size_eq {b b' : Bank} (h : b'.size = b.size) (w : Word) (e : Error) :
    Follows (fun _ => False) (fun _ _ => True)
      (match b.get? w with
      | some value => .ok value
      | none => .error e)
      (match b'.get? w with
      | some value => .ok value
      | none => .error e) := by
  have hnone : b'.get? w = none ↔ b.get? w = none := by
    rw [get?_eq_none_iff, get?_eq_none_iff, h]
  cases hv : b.get? w with
  | none =>
    rw [hnone.2 hv]
    exact .error e
  | some v =>
    cases hv' : b'.get? w with
    | none =>
      rw [hnone.1 hv'] at hv
      cases hv
    | some v' => exact .ok trivial

namespace Machine

variable {m m' : Machine} {program : Program} {effect effect' : Effect}

/-- The machines have the same configuration and the same control: their position, their status, the
height of their stacks and their counts.  The words that they hold may be any. -/
structure SameControl (m m' : Machine) : Prop where
  /-- The configurations are the same. -/
  config_eq : m'.config = m.config
  /-- The machines stand at the same position. -/
  pc_eq : m'.pc = m.pc
  /-- The machines have the same status. -/
  status_eq : m'.status = m.status
  /-- Their stacks hold as many words. -/
  height_eq : m'.stack.height = m.stack.height
  /-- They have executed as many instructions. -/
  steps_eq : m'.steps = m.steps
  /-- They have passed over as many unknown opcodes. -/
  skipped_eq : m'.skipped = m.skipped

/-- Machines of the same control whose parts have the same sizes. -/
structure SameShape (m m' : Machine) : Prop where
  /-- The first machine is as configured. -/
  left : m.AsConfigured
  /-- So is the second one. -/
  right : m'.AsConfigured
  /-- They have the same control. -/
  control : m.SameControl m'

namespace SameShape

theorem registers_size (h : m.SameShape m') : m'.registers.size = m.registers.size := by
  rw [h.right.registers_size, h.control.config_eq, h.left.registers_size]

theorem memory_size (h : m.SameShape m') : m'.memory.size = m.memory.size := by
  rw [h.right.memory_size, h.control.config_eq, h.left.memory_size]

theorem capacity_eq (h : m.SameShape m') : m'.stack.capacity = m.stack.capacity := by
  rw [h.right.capacity_eq, h.control.config_eq, h.left.capacity_eq]

/-! ### Plans -/

theorem follows_readRegister (h : m.SameShape m') (id : Word) :
    Follows (fun _ => False) (fun _ _ => True) (m.readRegister id) (m'.readRegister id) :=
  Bank.follows_get?_of_size_eq h.registers_size id _

theorem follows_readMemory (h : m.SameShape m') (address : Word) :
    Follows (fun _ => False) (fun _ _ => True) (m.readMemory address) (m'.readMemory address) := by
  unfold readMemory
  rw [h.memory_size]
  exact Bank.follows_get?_of_size_eq h.memory_size address _

theorem follows_resolve (h : m.SameShape m') (source : Operand) :
    Follows (fun _ => False) (fun _ _ => True) (m.resolve source) (m'.resolve source) := by
  cases source with
  | immediate value => exact .ok trivial
  | register id => exact h.follows_readRegister id

theorem follows_effect (h : m.SameShape m') {operation : Operation}
    (hdiv : ¬ operation.DividesByRegister) :
    Follows (fun _ => False) Effect.SameUpToWords (m.effect operation) (m'.effect operation) := by
  cases operation with
  | nop => exact .ok .nothing
  | halt | finish => exact .ok (.stop _)
  | compute op destination source =>
    refine (h.follows_readRegister destination).bind fun old old' _ => ?_
    cases source with
    | immediate value =>
      -- the divisor stands in the program
      show Follows _ _ (if op = .div ∧ value = 0 then .error (.divisionByZero m.pc) else _)
        (if op = .div ∧ value = 0 then .error (.divisionByZero m'.pc) else _)
      rw [h.control.pc_eq]
      split
      · exact .error _
      · exact .ok (.write _ _ _)
    | register id =>
      have hop : op ≠ .div := by
        rintro rfl
        exact hdiv trivial
      refine (h.follows_readRegister id).bind fun value value' _ => ?_
      rw [if_neg fun hzero => hop hzero.1, if_neg fun hzero => hop hzero.1]
      exact .ok (.write _ _ _)
  | push source =>
    refine (h.follows_resolve source).bind fun value value' _ => ?_
    have hfull : m'.stack.isFull = m.stack.isFull := by
      unfold Stack.isFull
      rw [h.control.height_eq, h.capacity_eq]
    rw [hfull, h.capacity_eq]
    split
    · exact .error _
    · exact .ok (.push _ _)
  | pop destination =>
    refine (h.follows_readRegister destination).bind fun old old' _ => ?_
    have hnone : m'.stack.peek? = none ↔ m.stack.peek? = none := by
      rw [Stack.peek?_eq_none_iff, Stack.peek?_eq_none_iff, h.control.height_eq]
    cases hv : m.stack.peek? with
    | none =>
      rw [hnone.2 hv]
      exact .error _
    | some v =>
      cases hv' : m'.stack.peek? with
      | none =>
        rw [hnone.1 hv'] at hv
        cases hv
      | some v' => exact .ok (.pop _ _ _)
  | store address source =>
    refine (h.follows_resolve source).bind fun value value' _ => ?_
    refine (h.follows_readMemory address).bind fun old old' _ => ?_
    exact .ok (.store _ _ _)
  | load address destination =>
    refine (h.follows_readMemory address).bind fun value value' _ => ?_
    refine (h.follows_readRegister destination).bind fun old old' _ => ?_
    exact .ok (.write _ _ _)

/-- **Machines of the same control plan the same**, up to the words that they write, where the next
instruction does not divide by a register. -/
theorem follows_plan (h : m.SameShape m')
    (hdiv : ∀ i, program.fetch? m.pc = some i → ¬ i.DividesByRegister) :
    Follows (fun _ => False) Effect.SameUpToWords (m.plan program) (m'.plan program) := by
  refine follows_plan_of_fetch? (f := id) h.control.pc_eq rfl Option.map_id_apply.symm ?_
  intro i hi
  refine follows_effectOf (g := id) h.control.pc_eq (congrArg Config.policy h.control.config_eq) rfl
    Option.map_id_apply.symm .skip fun operation hoperation => ?_
  refine h.follows_effect fun hregister => hdiv i hi ?_
  exact Instruction.dividesByRegister_of_operation? hoperation hregister

/-! ### Steps -/

theorem commit (h : m.SameShape m') (heffect : effect.SameUpToWords effect') :
    (m.commit effect).SameShape (m'.commit effect') := by
  refine ⟨h.left.commit effect, h.right.commit effect', ?_⟩
  have hcontrol := h.control
  constructor
  case config_eq => rw [config_commit, config_commit, hcontrol.config_eq]
  case pc_eq => rw [pc_commit, pc_commit, hcontrol.pc_eq]
  case steps_eq => rw [steps_commit, steps_commit, hcontrol.steps_eq]
  case status_eq =>
    cases heffect with
    | stop => rfl
    | _ => exact hcontrol.status_eq
  case height_eq =>
    cases heffect with
    | push v v' =>
      show (m'.stack.put v').height = (m.stack.put v).height
      rw [Stack.height_put_eq_ite, Stack.height_put_eq_ite, hcontrol.height_eq, h.capacity_eq]
    | pop => exact congrArg (· - 1) hcontrol.height_eq
    | _ => exact hcontrol.height_eq
  case skipped_eq =>
    cases heffect with
    | skip => exact congrArg (· + 1) hcontrol.skipped_eq
    | _ => exact hcontrol.skipped_eq

end SameShape

/-- **Machines of the same control keep in step** as long as no instruction divides by a
register. -/
theorem lockstep_sameShape (program : Program) :
    Lockstep program program
      (fun m => ∀ i, program.fetch? m.pc = some i → ¬ i.DividesByRegister) SameShape := by
  refine .of_follows (fun m _ => m.avoids_none program) (fun m m' h => h.control.status_eq) ?_
  intro m m' h hdiv _
  exact (h.follows_plan hdiv).mono fun effect effect' _ heffect => h.commit heffect

/-- **Control does not depend on data.**  Two machines that are as configured, and have the same
control, may hold any words.  A step of both gives the same answer, errors included, and leaves them
with the same control, unless their next instruction divides by a register.  On a program all whose
divisions are by words of the program, this is so for any number of steps and for runs until the
machines stop. -/
theorem control_agrees (hm : m.AsConfigured) (hm' : m'.AsConfigured) (h : m.SameControl m')
    (program : Program) :
    ((m'.step program).1 = (m.step program).1 ∧
        (m.step program).2.SameControl (m'.step program).2 ∨
      ∃ i, program.fetch? m.pc = some i ∧ i.DividesByRegister) ∧
    ((∀ i ∈ program.instructions, i.Is .div → i.arg₂ = 0) →
      (∀ k, m'.answer program k = m.answer program k ∧
        (m.after program k).SameControl (m'.after program k)) ∧
      (m'.runUntilHalt program).1 = (m.runUntilHalt program).1 ∧
        (m.runUntilHalt program).2.SameControl (m'.runUntilHalt program).2) := by
  have hshape : m.SameShape m' := ⟨hm, hm', h⟩
  constructor
  · by_cases hdiv : ∃ i, program.fetch? m.pc = some i ∧ i.DividesByRegister
    · exact .inr hdiv
    · obtain ⟨hanswer, hnext⟩ := lockstep_sameShape program m m' hshape fun i hi hregister =>
        hdiv ⟨i, hi, hregister⟩
      exact .inl ⟨hanswer, hnext.control⟩
  · intro hdiv
    -- a machine as configured fetches whole instructions of the program
    have hlockstep : Lockstep program program (fun _ => True) SameShape := by
      intro m m' hR _
      refine lockstep_sameShape program m m' hR fun i hi hregister => ?_
      rw [hR.left.pc_eq, ← Program.getElem?_instructions] at hi
      exact hregister.2 (hdiv i (List.mem_of_getElem? hi) hregister.1)
    obtain ⟨hsteps, hresult, hlast⟩ := hlockstep.always hshape
    exact ⟨fun k => ⟨(hsteps k).1, (hsteps k).2.control⟩, hresult, hlast.control⟩

/-- One machine has written five to its first register and the other one zero.  The program pushes
the register, and then divides it by the zero that stands in the program. -/
theorem control_agrees_push :
    (((powerOn { registers := 2 }).commit (.write 0 0)).runUntilHalt
        #[0x00, 0, 0, 0, 0x0A, 0, 1, 0, 0x05, 0, 0, 0]).1 = .error (.divisionByZero 8) ∧
      (((powerOn { registers := 2 }).commit (.write 0 5)).commit (.push 5)).SameControl
        (((powerOn { registers := 2 }).commit (.write 0 0)).runUntilHalt
          #[0x00, 0, 0, 0, 0x0A, 0, 1, 0, 0x05, 0, 0, 0]).2 := by
  have hrun : ((powerOn { registers := 2 }).commit (.write 0 5)).runUntilHalt
        #[0x00, 0, 0, 0, 0x0A, 0, 1, 0, 0x05, 0, 0, 0] =
      (.error (.divisionByZero 8),
        ((powerOn { registers := 2 }).commit (.write 0 5)).commit (.push 5)) := by
    rw [runUntilHalt_eq]
    change runUntilHalt (((powerOn { registers := 2 }).commit (.write 0 5)).commit (.push 5)) _ = _
    rw [runUntilHalt_eq]
    rfl
  have hfive : ((powerOn { registers := 2 }).commit (.write 0 5)).AsConfigured :=
    (asConfigured_powerOn _).commit _
  have hzero : ((powerOn { registers := 2 }).commit (.write 0 0)).AsConfigured :=
    (asConfigured_powerOn _).commit _
  obtain ⟨-, hdata⟩ := control_agrees hfive hzero ⟨rfl, rfl, rfl, rfl, rfl, rfl⟩
    #[0x00, 0, 0, 0, 0x0A, 0, 1, 0, 0x05, 0, 0, 0]
  obtain ⟨-, hresult, hcontrol⟩ := hdata (by unfold Instruction.Is; decide)
  rw [hrun] at hresult hcontrol
  exact ⟨hresult, hcontrol⟩

-- the exception is needed: the same machines part where the program divides by the register
example :
    (((powerOn { registers := 2 }).commit (.write 0 5)).step #[0, 0, 0, 0, 0x05, 1, 0, 1]).1 =
        .ok .running ∧
      (((powerOn { registers := 2 }).commit (.write 0 0)).step #[0, 0, 0, 0, 0x05, 1, 0, 1]).1 =
        .error (.divisionByZero 4) :=
  ⟨rfl, rfl⟩

end Machine

end RegisterMachine
