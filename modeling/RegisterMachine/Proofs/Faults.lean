import RegisterMachine.Proofs.Calls
import RegisterMachine.Proofs.Checks

/-!
# Faults leave the machine alone

An instruction that faults has no effect at all: the machine stays on it, and every further attempt
to execute it, by a step or by a run, faults in the same way.  A run that faults has therefore done
neither more nor less than the steps before the fault.

## Main definitions

* `Call.BeginsOn` : the calls that first of all step on a given program;
* `Call.faulted` : the answer by which a call reports an error.

## Main statements

* `Machine.fault_atomic` : faults are atomic, permanent, and end runs where the steps had led.
-/

namespace RegisterMachine

/-- The call begins with a step on this program: it is a step or a run on it, and no cancel comes
before the run begins. -/
def Call.BeginsOn (program : Program) : Call → Prop
  | step p => p = program
  | runUntilHalt p => p = program
  | run p cancel => p = program ∧ cancel.isDue = false
  | reset => False

/-- The answer by which a call reports an error. -/
def Call.faulted (e : Error) : Call → Answer
  | step _ => .status (.error e)
  | runUntilHalt _ => .status (.error e)
  | run _ _ => .ended (.faulted e)
  | reset => .done

namespace Machine

variable {m m' : Machine} {program : Program} {e : Error}

/-! ### Calls on an instruction that faults -/

theorem runUntilHalt_of_step_eq_error (h : m.step program = (.error e, m)) :
    m.runUntilHalt program = (.error e, m) := by
  rw [runUntilHalt_eq, h]

theorem run_of_step_eq_error (h : m.step program = (.error e, m)) {cancel : Cancellation}
    (hcancel : cancel.isDue = false) : m.run program cancel = (.faulted e, m) := by
  rw [run_eq, hcancel, h]
  rfl

theorem call_of_step_eq_error (h : m.step program = (.error e, m)) {c : Call}
    (hc : c.BeginsOn program) : m.call c = (c.faulted e, m) := by
  cases c with
  | step p =>
    obtain rfl : p = program := hc
    rw [call, h]
    rfl
  | runUntilHalt p =>
    obtain rfl : p = program := hc
    rw [call, runUntilHalt_of_step_eq_error h]
    rfl
  | run p cancel =>
    obtain ⟨rfl, hcancel⟩ : p = program ∧ cancel.isDue = false := hc
    rw [call, run_of_step_eq_error h hcancel]
    rfl
  | reset => exact hc.elim

/-! ### Runs that fault -/

theorem exists_advances_of_runUntilHalt_eq_error (h : m.runUntilHalt program = (.error e, m')) :
    ∃ k, m.Advances program k m' ∧ m'.step program = (.error e, m') := by
  obtain ⟨k, m'', hadv, -, heq⟩ := exists_runUntilHalt_eq m program
  rw [h] at heq
  obtain ⟨rfl, -, -⟩ := step_eq_error_iff.1 heq.symm
  exact ⟨k, hadv, heq.symm⟩

theorem exists_advances_of_run_eq_faulted {cancel : Cancellation}
    (h : m.run program cancel = (.faulted e, m')) :
    ∃ k, m.Advances program k m' ∧ m'.step program = (.error e, m') := by
  obtain ⟨k, m'', hadv, hends⟩ := exists_run_ends m program cancel
  rw [h] at hends
  -- of the ways to end, only a last step that faults has this result
  cases hends with
  | faulted _ hstep =>
    obtain ⟨rfl, -, -⟩ := step_eq_error_iff.1 hstep
    exact ⟨k, hadv, hstep⟩

/-- **Faults are atomic.**  A step that faults leaves the whole machine as it was, a position in its
error is that of the machine, and any further calls that begin with a step on the same program fault
in the same way and change nothing either.  A run that faults leaves the machine that its successful
steps had led to. -/
theorem fault_atomic (m : Machine) (program : Program) :
    (∀ e m', m.step program = (.error e, m') →
      m' = m ∧ (∀ pc ∈ e.pc?, pc = m.pc) ∧
        ∀ cs : List Call, (∀ c ∈ cs, c.BeginsOn program) →
          m'.calls cs = (cs.map fun c => c.faulted e, m')) ∧
    (∀ e m', m.runUntilHalt program = (.error e, m') →
      ∃ k, m.Advances program k m' ∧ m'.step program = (.error e, m')) ∧
    ∀ cancel e m', m.run program cancel = (.faulted e, m') →
      ∃ k, m.Advances program k m' ∧ m'.step program = (.error e, m') := by
  refine ⟨fun e m' h => ?_, fun e m' h => ?_, fun cancel e m' h => ?_⟩
  · obtain ⟨rfl, -, hplan⟩ := step_eq_error_iff.1 h
    -- the error is that of a check, and the checks know where the machine is
    have hpc := pc?_of_reports ((guards_plan program e).1 hplan)
    refine ⟨rfl, hpc, fun cs hcs => calls_eq_of_call_eq fun c hc => ?_⟩
    exact call_of_step_eq_error h (hcs c hc)
  · exact exists_advances_of_runUntilHalt_eq_error h
  · exact exists_advances_of_run_eq_faulted h

/-- A division by zero behind a `nop`: it faults at position 4 as often as it is tried, and a run
ends in front of it. -/
theorem fault_atomic_division_after_nop :
    ((powerOn { registers := 1 }).commit .nothing).calls
        [.step #[0, 0, 0, 0, 5, 0, 0, 0], .run #[0, 0, 0, 0, 5, 0, 0, 0] .never] =
      ([.status (.error (.divisionByZero 4)), .ended (.faulted (.divisionByZero 4))],
        (powerOn { registers := 1 }).commit .nothing) ∧
    (∃ k, (powerOn { registers := 1 }).Advances #[0, 0, 0, 0, 5, 0, 0, 0] k
      ((powerOn { registers := 1 }).commit .nothing)) ∧
    ((powerOn { registers := 1 }).commit .nothing).step #[0, 0, 0, 0, 5, 0, 0, 0] =
      (.error (.divisionByZero 4), (powerOn { registers := 1 }).commit .nothing) := by
  have hnop : (powerOn { registers := 1 }).step #[0, 0, 0, 0, 5, 0, 0, 0] =
      (.ok .running, (powerOn { registers := 1 }).commit .nothing) := rfl
  have hdiv : ((powerOn { registers := 1 }).commit .nothing).step #[0, 0, 0, 0, 5, 0, 0, 0] =
      (.error (.divisionByZero 4), (powerOn { registers := 1 }).commit .nothing) := rfl
  have hhalt : (powerOn { registers := 1 }).runUntilHalt #[0, 0, 0, 0, 5, 0, 0, 0] =
      (.error (.divisionByZero 4), (powerOn { registers := 1 }).commit .nothing) := by
    rw [runUntilHalt_eq, hnop]
    exact runUntilHalt_of_step_eq_error hdiv
  have hrun : (powerOn { registers := 1 }).run #[0, 0, 0, 0, 5, 0, 0, 0] .never =
      (.faulted (.divisionByZero 4), (powerOn { registers := 1 }).commit .nothing) := by
    rw [run_eq, hnop]
    exact run_of_step_eq_error hdiv rfl
  obtain ⟨-, -, hcalls⟩ := (fault_atomic _ _).1 _ _ hdiv
  obtain ⟨k, hadv, -⟩ := (fault_atomic _ _).2.1 _ _ hhalt
  obtain ⟨-, -, hfault⟩ := (fault_atomic _ _).2.2 _ _ _ hrun
  refine ⟨hcalls [.step _, .run _ .never] fun c hc => ?_, ⟨k, hadv⟩, hfault⟩
  simp only [List.mem_cons, List.not_mem_nil, or_false] at hc
  rcases hc with rfl | rfl
  · rfl
  · exact ⟨rfl, rfl⟩

end Machine

end RegisterMachine
