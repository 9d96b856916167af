import Mathlib.Logic.Function.Iterate
import RegisterMachine.Proofs.Calls
import RegisterMachine.Proofs.Effects

/-!
# Many steps

What becomes of a machine that takes one step after the other on the same program.  At first it runs
on and its counters go up, until a step halts it, ends the program or faults.  From then on every
step answers what that one did and changes nothing, so that the machine depends on nothing but the
number of instructions executed.

## Main definitions

* `Machine.after` and `Machine.answer` : the machine after a number of steps, and what each answers;
* `Machine.StopsAt` : the number of the first step after which the machine is not running on.

## Main statements

* `Machine.step_step_of_ne` : a step after which the machine is not running on can be repeated;
* `Machine.answer_eq_of_ne` and `Machine.after_eq_of_ne` : all steps behind such a one are like it;
* `Machine.after_eq_of_steps_eq` : a machine is known by the number of instructions it executed;
* `Machine.exists_stopsAt` and `Machine.runUntilHalt_of_stopsAt` : every machine stops, and a run
  until then ends with the step that stops it.
-/

namespace RegisterMachine

namespace Machine

/-- The machine after `k` steps on a program, whatever they answer. -/
def after (m : Machine) (program : Program) (k : Nat) : Machine :=
  (fun m => (m.step program).2)^[k] m

/-- What step number `i` answers; the first one is number zero. -/
def answer (m : Machine) (program : Program) (i : Nat) : Except Error Status :=
  ((m.after program i).step program).1

/-- Step number `k` is the first one after which the machine is not running on. -/
structure StopsAt (m : Machine) (program : Program) (k : Nat) : Prop where
  /-- Every step before it leaves the machine running. -/
  running : ∀ i < k, m.answer program i = .ok .running
  /-- It halts the machine, ends the program or faults, or finds a machine that has stopped. -/
  stops : m.answer program k ≠ .ok .running

variable {m m' : Machine} {program : Program} {k : Nat}

/-! ### One step more -/

@[simp]
theorem after_zero (m : Machine) (program : Program) : m.after program 0 = m := rfl

theorem after_succ (m : Machine) (program : Program) (k : Nat) :
    m.after program (k + 1) = (m.step program).2.after program k := rfl

theorem after_succ' (m : Machine) (program : Program) (k : Nat) :
    m.after program (k + 1) = ((m.after program k).step program).2 :=
  Function.iterate_succ_apply' _ k m

theorem step_after (m : Machine) (program : Program) (i : Nat) :
    (m.after program i).step program = (m.answer program i, m.after program (i + 1)) := by
  rw [after_succ']
  rfl

/-- The first steps give this answer when the very first one does, and then those behind it. -/
theorem forall_answer_succ {x : Except Error Status} :
    (∀ i < k + 1, m.answer program i = x) ↔
      (m.step program).1 = x ∧ ∀ i < k, (m.step program).2.answer program i = x := by
  constructor
  · intro h
    exact ⟨h 0 (by omega), fun i hi => h (i + 1) (by omega)⟩
  · rintro ⟨hzero, hsucc⟩ i hi
    cases i with
    | zero => exact hzero
    | succ i => exact hsucc i (by omega)

/-! ### Steps behind the last -/

theorem after_of_stopped (hm : m.status ≠ .running) (program : Program) (k : Nat) :
    m.after program k = m := by
  induction k with
  | zero => rfl
  | succ k ih => rw [after_succ', ih, step_of_status_ne hm]

theorem answer_of_stopped (hm : m.status ≠ .running) (program : Program) (k : Nat) :
    m.answer program k = .ok m.status := by
  rw [answer, after_of_stopped hm, step_of_status_ne hm]

theorem status_of_step_eq_ok {status : Status} (h : m.step program = (.ok status, m')) :
    m'.status = status := by
  by_cases hm : m.status = .running
  · exact ((step_eq_ok_iff hm).1 h).1.symm
  · rw [step_of_status_ne hm] at h
    cases h
    rfl

/-- **A step after which the machine is not running on can be repeated** with the same outcome: it
faulted and changed nothing, or it found or left a machine that has stopped. -/
theorem step_step_of_ne (h : (m.step program).1 ≠ .ok .running) :
    (m.step program).2.step program = m.step program := by
  cases hanswer : (m.step program).1 with
  | error e =>
    have hstep : m.step program = (.error e, (m.step program).2) := by rw [← hanswer]
    obtain ⟨heq, -, -⟩ := step_eq_error_iff.1 hstep
    rw [heq]
  | ok status =>
    have hstatus : (m.step program).2.status = status := status_of_step_eq_ok (Prod.ext hanswer rfl)
    have hne : (m.step program).2.status ≠ .running := by
      rw [hstatus]
      exact fun heq => h (by rw [hanswer, heq])
    rw [step_of_status_ne hne, hstatus]
    exact Prod.ext hanswer.symm rfl

theorem step_after_eq (h : m.answer program k ≠ .ok .running) {j : Nat} (hj : k ≤ j) :
    (m.after program j).step program = (m.after program k).step program := by
  obtain ⟨d, rfl⟩ := Nat.exists_eq_add_of_le hj
  induction d with
  | zero => rfl
  | succ d ih =>
    have heq := ih (by omega)
    have hne : ((m.after program (k + d)).step program).1 ≠ .ok .running := by
      rw [heq]
      exact h
    rw [← Nat.add_assoc, after_succ', step_step_of_ne hne, heq]

theorem answer_eq_of_ne (h : m.answer program k ≠ .ok .running) {j : Nat} (hj : k ≤ j) :
    m.answer program j = m.answer program k :=
  congrArg Prod.fst (step_after_eq h hj)

/-- All steps before one that leaves the machine running do so too. -/
theorem answer_eq_running_of_le (h : m.answer program k = .ok .running) {i : Nat} (hi : i ≤ k) :
    m.answer program i = .ok .running := by
  by_contra hne
  rw [answer_eq_of_ne hne hi] at h
  exact hne h

theorem after_eq_of_ne (h : m.answer program k ≠ .ok .running) {j : Nat} (hj : k < j) :
    m.after program j = m.after program (k + 1) := by
  obtain ⟨j, rfl⟩ := Nat.exists_eq_add_of_lt hj
  rw [after_succ', after_succ', step_after_eq h (by omega)]

/-- A step that faults leaves the machine where it was. -/
theorem after_succ_of_answer_eq_error {e : Error} (h : m.answer program k = .error e) :
    m.after program (k + 1) = m.after program k := by
  have hstep : (m.after program k).step program = (.error e, m.after program (k + 1)) := by
    rw [step_after, h]
  exact (step_eq_error_iff.1 hstep).1

theorem config_after (m : Machine) (program : Program) (k : Nat) :
    (m.after program k).config = m.config := by
  induction k with
  | zero => rfl
  | succ k ih =>
    rw [after_succ', ← ih]
    rcases (m.after program k).step_eq_or_commit program with heq | ⟨effect, -, heq⟩
    · rw [heq]
    · rw [heq, config_commit]

/-! ### The counters -/

theorem steps_step_le (m : Machine) (program : Program) :
    m.steps ≤ (m.step program).2.steps ∧ (m.step program).2.steps ≤ m.steps + 1 := by
  rcases m.step_eq_or_commit program with heq | ⟨effect, -, heq⟩
  · rw [heq]
    omega
  · rw [heq, steps_commit]
    omega

theorem steps_after_le (m : Machine) (program : Program) (k : Nat) :
    m.steps ≤ (m.after program k).steps ∧ (m.after program k).steps ≤ m.steps + k := by
  induction k with
  | zero => simp
  | succ k ih =>
    have hstep := (m.after program k).steps_step_le program
    rw [after_succ']
    omega

/-- As many steps as there were instructions executed lead to the same machine. -/
theorem after_steps_sub (m : Machine) (program : Program) (k : Nat) :
    m.after program ((m.after program k).steps - m.steps) = m.after program k := by
  induction k with
  | zero => simp
  | succ k ih =>
    obtain ⟨hle, -⟩ := m.steps_after_le program k
    rw [after_succ']
    -- the last step did nothing, or it executed one instruction more
    rcases (m.after program k).step_eq_or_commit program with heq | ⟨effect, -, heq⟩
    · rw [heq, ih]
    · have hsub : (m.after program k).steps + 1 - m.steps =
          (m.after program k).steps - m.steps + 1 := by omega
      rw [heq, steps_commit, hsub, after_succ', ih, heq]

/-- **A machine is known by the number of instructions it has executed** on a program. -/
theorem after_eq_of_steps_eq {j k : Nat}
    (h : (m.after program j).steps = (m.after program k).steps) :
    m.after program j = m.after program k := by
  rw [← m.after_steps_sub program j, h, after_steps_sub]

/-- What a machine has behind it that was running after each of its steps. -/
theorem counters_after (h : ∀ i < k, m.answer program i = .ok .running) :
    (m.after program k).pc = m.pc + 4 * k ∧ (m.after program k).steps = m.steps + k ∧
      (0 < k → m.status = .running ∧ (m.after program k).status = .running ∧
        m.pc + 4 * k ≤ program.size) := by
  induction k with
  | zero => simp
  | succ k ih =>
    obtain ⟨hpc, hsteps, hrunning⟩ := ih fun i hi => h i (by omega)
    have hlast : (m.after program k).step program = (.ok .running, m.after program (k + 1)) := by
      rw [step_after, h k (by omega)]
    have hstatus : (m.after program k).status = .running := by
      by_contra hne
      rw [step_of_status_ne hne] at hlast
      exact hne (Except.ok.inj (Prod.mk.inj hlast).1)
    obtain ⟨hstatus', effect, hplan, heq⟩ := (step_eq_ok_iff hstatus).1 hlast
    have hfits := pc_add_le_of_plan_eq_ok hplan
    rw [← hstatus', heq, pc_commit, steps_commit]
    refine ⟨by omega, by omega, fun _ => ⟨?_, rfl, by omega⟩⟩
    -- a machine that runs after some steps was running before them
    cases k with
    | zero => exact hstatus
    | succ k => exact (hrunning (by omega)).1

/-! ### Runs and calls -/

theorem advances_iff : m.Advances program k m' ↔
    m' = m.after program k ∧ ∀ i < k, m.answer program i = .ok .running := by
  constructor
  · intro h
    induction h with
    | zero m => simp
    | succ hstep _ ih =>
      rw [after_succ, forall_answer_succ, hstep]
      exact ⟨ih.1, rfl, ih.2⟩
  · rintro ⟨rfl, h⟩
    induction k generalizing m with
    | zero => exact .zero m
    | succ k ih =>
      obtain ⟨hfirst, hrest⟩ := forall_answer_succ.1 h
      exact .succ (Prod.ext hfirst rfl) (ih hrest)

/-- Every machine stops on every program, and a run until then ends with the step that stops it. -/
theorem exists_stopsAt (m : Machine) (program : Program) :
    ∃ k, m.StopsAt program k ∧ m.runUntilHalt program = (m.after program k).step program := by
  obtain ⟨k, m', hadv, hlast, heq⟩ := m.exists_runUntilHalt_eq program
  obtain ⟨rfl, hrunning⟩ := advances_iff.1 hadv
  exact ⟨k, ⟨hrunning, hlast⟩, heq⟩

theorem StopsAt.unique {j : Nat} (hj : m.StopsAt program j) (hk : m.StopsAt program k) :
    j = k := by
  rcases Nat.lt_trichotomy j k with hlt | rfl | hlt
  · exact absurd (hk.running j hlt) hj.stops
  · rfl
  · exact absurd (hj.running k hlt) hk.stops

/-- A machine is halted at some time exactly when its last step halts it or finds it so. -/
theorem StopsAt.exists_halted_iff (h : m.StopsAt program k) :
    (∃ i, (m.after program i).status = .halted) ↔ m.answer program k = .ok .halted := by
  constructor
  · rintro ⟨i, hi⟩
    have hanswer : m.answer program i = .ok .halted := by
      rw [answer, step_of_status_ne (by simp [hi]), hi]
    have hle : k ≤ i := by
      by_contra hlt
      rw [h.running i (by omega)] at hanswer
      cases hanswer
    rw [← hanswer, answer_eq_of_ne h.stops hle]
  · intro hanswer
    have hstep : (m.after program k).step program = (.ok .halted, m.after program (k + 1)) := by
      rw [step_after, hanswer]
    exact ⟨k + 1, status_of_step_eq_ok hstep⟩

/-- Where the last step halts the machine, all behind it find it halted. -/
theorem StopsAt.running_or_halted (h : m.StopsAt program k)
    (hhalted : m.answer program k = .ok .halted) (i : Nat) :
    m.answer program i = .ok .running ∨ m.answer program i = .ok .halted := by
  rcases Nat.lt_or_ge i k with hlt | hle
  · exact .inl (h.running i hlt)
  · exact .inr ((answer_eq_of_ne h.stops hle).trans hhalted)

theorem runUntilHalt_of_stopsAt (h : m.StopsAt program k) :
    m.runUntilHalt program = (m.answer program k, m.after program (k + 1)) := by
  obtain ⟨j, hj, heq⟩ := m.exists_stopsAt program
  rw [heq, hj.unique h, step_after]

end Machine

end RegisterMachine
