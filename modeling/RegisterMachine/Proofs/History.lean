import RegisterMachine.Proofs.InstructionTable
import RegisterMachine.Proofs.Invariant

/-!
# Histories

The words that a machine holds come from the instructions it has executed since it was switched on
or reset.  Each step may be made on a program of its own, so a history is a sequence of programs,
one for each step.  A step that faults, or that finds a machine which has stopped, belongs to the
history as well, but it leaves no trace in the machine.

## Main definitions

* `Machine.Fresh` : a machine at the beginning of a history;
* `Machine.along` : the machine after some steps, each on a program of its own;
* `Machine.Completes` : a step that executes an instruction.

## Main statements

* `Machine.Fresh.eq_powerOn` : whatever came before a reset, a history begins with everything zero;
* `Machine.step_eq_or_completes` : a step changes nothing, or it executes an instruction as the
  instruction table says.
-/

namespace RegisterMachine

namespace Machine

/-- `m` was just built with this configuration, or was put back to the beginning after use. -/
inductive Fresh (config : Config) : Machine → Prop
  | built {m : Machine} : Built config m → Fresh config m
  | reset {m : Machine} (cs : List Call) : Built config m → Fresh config (m.calls cs).2.reset

/-- The machine after `k` steps, step `i` on program `i`, whatever they answer. -/
def along (m : Machine) (programs : Nat → Program) : Nat → Machine
  | 0 => m
  | k + 1 => ((m.along programs k).step (programs k)).2

/-- A step of `m` on the program executes the instruction `i`. -/
structure Completes (m : Machine) (program : Program) (i : Instruction) : Prop where
  /-- The machine runs. -/
  running : m.status = .running
  /-- The instruction stands where the machine is in the program. -/
  fetched : program.fetch? m.pc = some i
  /-- The step does not fault. -/
  succeeds : ∃ status, (m.step program).1 = .ok status

variable {config : Config} {m : Machine} {program : Program} {i : Instruction}

/-! ### The beginning -/

/-- **A reset puts the machine back to where it was switched on.** -/
theorem Invariant.reset_eq_powerOn (hm : m.Invariant config) :
    m.reset = Machine.powerOn config := by
  unfold Machine.reset Machine.powerOn Bank.clear Stack.clear
  rw [hm.config_eq, hm.registers_size, hm.memory_size, hm.capacity_eq]

theorem Fresh.eq_powerOn (h : m.Fresh config) : m = powerOn config := by
  cases h with
  | built hm => exact hm.eq_powerOn
  | reset cs hm =>
    obtain rfl := hm.eq_powerOn
    exact ((Invariant.powerOn config).calls cs).reset_eq_powerOn

/-! ### Steps that execute an instruction -/

namespace Completes

/-- **What is executed is executed as the instruction table says.** -/
theorem executes (h : m.Completes program i) : m.Executes i (m.step program).2 := by
  obtain ⟨status, hstatus⟩ := h.succeeds
  have hstep : m.step program = (.ok status, (m.step program).2) := Prod.ext hstatus rfl
  obtain ⟨-, effect, hplan, heq⟩ := (step_eq_ok_iff h.running).1 hstep
  rw [plan_of_fetch?_eq_some h.fetched] at hplan
  exact executes_iff.2 ⟨effect, hplan, heq⟩

/-- An instruction for an operation performs the operation. -/
theorem performs (h : m.Completes program i) {operation : Operation}
    (hoperation : i.operation? = some operation) : m.Performs operation (m.step program).2 := by
  rcases h.executes.performs_or_skips with ⟨_, heq, hperforms⟩ | ⟨hnone, -⟩
  · rw [hoperation, Option.some.injEq] at heq
    rwa [heq]
  · rw [hoperation] at hnone
    cases hnone

end Completes

/-- **A step changes nothing, or it executes an instruction.** -/
theorem step_eq_or_completes (m : Machine) (program : Program) :
    (m.step program).2 = m ∨ ∃ i, m.Completes program i := by
  by_cases hrunning : m.status = .running
  · cases hplan : m.plan program with
    | error e =>
      rw [step_of_plan_eq_error hrunning hplan]
      exact .inl rfl
    | ok effect =>
      obtain ⟨i, hfetch, -⟩ := plan_eq_ok_iff.1 hplan
      have hstep := step_of_plan_eq_ok hrunning hplan
      exact .inr ⟨i, hrunning, hfetch, _, congrArg Prod.fst hstep⟩
  · rw [step_of_status_ne hrunning]
    exact .inl rfl

end Machine

end RegisterMachine
