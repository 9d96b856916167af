import RegisterMachine.Machine.Basic

/-!
# Running a program

A program is run step by step, in one of three ways: for a number of steps
(`Machine.watch`), until the machine stops (`Machine.runUntilHalt`), or until it ends or is
cancelled from outside (`Machine.run`).  Instructions only ever move the machine forward, so every
run is finite; a halted machine alone can be left waiting.

## Main definitions

* `Machine.watch` and `Machine.runUntilHalt`;
* `Cancellation`: the moment at which a run is cancelled;
* `Machine.run`, `RunResult` and `Exit`: a run that can be cancelled, and what it leaves behind.

## Main statements

* `Machine.runUntilHalt_eq` and `Machine.run_eq`: one turn of each loop.
-/

namespace RegisterMachine

/-- Why a run ended without a fault. -/
inductive ExitReason where
  /-- The program ended. -/
  | terminated
  /-- The run was cancelled from outside. -/
  | cancelled
  deriving DecidableEq, Repr

/-- The name of an exit reason. -/
def ExitReason.name : ExitReason → String
  | terminated => "Terminated"
  | cancelled => "Cancelled"

/-- What a run that ended without a fault leaves behind. -/
structure Exit where
  /-- Why the run ended. -/
  reason : ExitReason
  /-- The registers at the end. -/
  registers : Bank
  /-- The number of instructions executed since the machine was switched on. -/
  steps : Nat
  /-- The number of unknown opcodes passed over since then. -/
  skipped : Nat
  deriving DecidableEq, Repr

/-- The moment at which a run is cancelled from outside.  A running machine looks for a cancel
before every instruction, a halted one again and again. -/
inductive Cancellation where
  /-- The run is not cancelled. -/
  | never
  /-- The run is cancelled once the machine has halted. -/
  | onceHalted
  /-- The run is cancelled while its `n`-th instruction is fetched, with `n = 0` before it begins,
  or once the machine has halted, if that is earlier. -/
  | atFetch (n : Nat)
  deriving DecidableEq, Repr

namespace Cancellation

/-- The cancel has come before the next instruction. -/
def isDue : Cancellation → Bool
  | atFetch 0 => true
  | _ => false

/-- The same moment, seen from the run that is left after one more instruction. -/
def afterFetch : Cancellation → Cancellation
  | atFetch n => atFetch (n - 1)
  | c => c

/-- A machine that has halted gets cancelled. -/
def reachesHalted : Cancellation → Bool
  | never => false
  | _ => true

end Cancellation

/-- How a run ends. -/
inductive RunResult where
  /-- The program ended, or the run was cancelled. -/
  | exited (exit : Exit)
  /-- An instruction faulted. -/
  | faulted (error : Error)
  /-- The machine has halted, and waits for a cancel that does not come. -/
  | waiting
  deriving DecidableEq, Repr

namespace Machine

/-- Takes up to `n` steps, the last being the first one after which the machine is not running on.
What `view` shows of each result and the machine after it is added to what was `seen` before. -/
def watch {α : Type} (view : Except Error Status → Machine → α) (m : Machine) (program : Program)
    (n : Nat) (seen : Array α) : Array α × Machine :=
  match n with
  | 0 => (seen, m)
  | n + 1 =>
    match m.step program with
    | (.ok .running, m') => m'.watch view program n (seen.push (view (.ok .running) m'))
    | (result, m') => (seen.push (view result m'), m')

/-- Steps until the machine has stopped or an instruction faults. -/
def runUntilHalt (m : Machine) (program : Program) : Except Error Status × Machine :=
  match _h : m.step program with
  | (.ok .running, m') => m'.runUntilHalt program
  | stopped => stopped
termination_by program.size - m.pc
decreasing_by exact lt_of_step_eq_running _h

/-- What a run that ends now, for this reason, leaves behind. -/
def exit (m : Machine) (reason : ExitReason) : Exit where
  reason := reason
  registers := m.registers
  steps := m.steps
  skipped := m.skipped

/-- Steps until the program ends, an instruction faults, or the run is cancelled. -/
def run (m : Machine) (program : Program) (cancel : Cancellation) : RunResult × Machine :=
  if cancel.isDue then
    (.exited (m.exit .cancelled), m)
  else
    match _h : m.step program with
    | (.ok .running, m') => m'.run program cancel.afterFetch
    | (.ok .terminated, m') => (.exited (m'.exit .terminated), m')
    | (.ok .halted, m') =>
      (if cancel.reachesHalted then .exited (m'.exit .cancelled) else .waiting, m')
    | (.error e, m') => (.faulted e, m')
termination_by program.size - m.pc
decreasing_by exact lt_of_step_eq_running _h

theorem runUntilHalt_eq (m : Machine) (program : Program) :
    m.runUntilHalt program =
      match m.step program with
      | (.ok .running, m') => m'.runUntilHalt program
      | stopped => stopped := by
  rw [runUntilHalt]
  split <;> rename_i h
  · rw [h]
  · split
    · exact absurd ‹_› (h _)
    · rfl

theorem run_eq (m : Machine) (program : Program) (cancel : Cancellation) :
    m.run program cancel =
      if cancel.isDue then
        (.exited (m.exit .cancelled), m)
      else
        match m.step program with
        | (.ok .running, m') => m'.run program cancel.afterFetch
        | (.ok .terminated, m') => (.exited (m'.exit .terminated), m')
        | (.ok .halted, m') =>
          (if cancel.reachesHalted then .exited (m'.exit .cancelled) else .waiting, m')
        | (.error e, m') => (.faulted e, m') := by
  rw [run]
  split
  · rfl
  · split <;> rename_i h <;> rw [h]

end Machine

end RegisterMachine
