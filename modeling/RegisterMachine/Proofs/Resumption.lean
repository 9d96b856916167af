import RegisterMachine.Proofs.Polling

/-!
# Time slices

A machine that is to execute a program can be driven in slices: by single steps, by runs until it
stops, and by runs that are cancelled and taken up again.  None of this shows in the machine.  It is
known by the number of instructions that it has executed, and whatever the slices were, the rest of
the program is executed as it would have been without them.

## Main statements

* `Machine.exists_calls_eq_after` : calls on a program lead where single steps lead;
* `Machine.run_atFetch_snd` : so does a run that is cancelled;
* `Machine.runUntilHalt_step` : a step does not change what a run until the machine stops leads to;
* `Machine.calls_resume` : calls on one program can be exchanged for any others on it.
-/

namespace RegisterMachine

namespace Machine

variable {m : Machine} {program : Program} {cs ds : List Call}

/-- **Calls on a program lead where single steps lead.** -/
theorem exists_calls_eq_after (hcs : ∀ c ∈ cs, c.program? = some program) :
    ∃ k, (m.calls cs).2 = m.after program k := by
  refine calls_induction_of_program (P := fun m' => ∃ k, m' = m.after program k) hcs ?_ ⟨0, rfl⟩
  rintro _ ⟨k, rfl⟩
  exact ⟨k + 1, (after_succ' m program k).symm⟩

/-- A run that is cancelled leads where as many single steps lead as it had fetched instructions. -/
theorem run_atFetch_snd (m : Machine) (program : Program) (n : Nat) :
    (m.run program (.atFetch n)).2 = m.after program n := by
  have hset : Flag.SetAt (n ≤ ·) n := ⟨fun i hi => decide_eq_false (by omega), by simp⟩
  obtain ⟨k, hk, hreturns⟩ := m.exists_returns_of_setAt program hset
  exact hreturns.eq_after hset hk

/-- A step more or less before it does not change what a run until the machine stops leads to. -/
theorem runUntilHalt_step (m : Machine) (program : Program) :
    (m.step program).2.runUntilHalt program = m.runUntilHalt program := by
  by_cases hrunning : (m.step program).1 = .ok .running
  · have hstep : m.step program = (.ok .running, (m.step program).2) := Prod.ext hrunning rfl
    conv_rhs => rw [runUntilHalt_eq, hstep]
  · -- the last step is made once more
    rw [runUntilHalt_eq, runUntilHalt_eq m, step_step_of_ne hrunning]

theorem runUntilHalt_calls (hcs : ∀ c ∈ cs, c.program? = some program) :
    (m.calls cs).2.runUntilHalt program = m.runUntilHalt program := by
  refine calls_induction_of_program
    (P := fun m' => m'.runUntilHalt program = m.runUntilHalt program) hcs (fun m' hm' => ?_) rfl
  rw [runUntilHalt_step, hm']

/-- What a run ends with that is let go on to the end is decided by where a run until the machine
stops leads. -/
theorem run_eq_of_runUntilHalt_eq {m' : Machine}
    (h : m'.runUntilHalt program = m.runUntilHalt program) {cancel : Cancellation}
    (hdue : cancel.isDue = false) (hafter : cancel.afterFetch = cancel) :
    m'.run program cancel = m.run program cancel := by
  rw [run_eq_conclude hdue hafter, run_eq_conclude hdue hafter, h]

/-- **Slices do not matter.**  Calls on one program, none of them a reset, execute the instructions
that as many single steps execute, none twice and none left out.  Whatever the calls were, and
however often a run was cancelled among them, a machine that has executed as many instructions is
the same machine, and a last run from it that is not interrupted has the result of one from the
beginning, with the same counts, and leaves the same machine. -/
theorem calls_resume (hcs : ∀ c ∈ cs, c.program? = some program)
    (hds : ∀ d ∈ ds, d.program? = some program) :
    (m.calls cs).2 = m.after program ((m.calls cs).2.steps - m.steps) ∧
      ((m.calls cs).2.steps = (m.calls ds).2.steps → (m.calls cs).2 = (m.calls ds).2) ∧
      (m.calls cs).2.runUntilHalt program = m.runUntilHalt program ∧
      (m.calls cs).2.run program .never = m.run program .never ∧
      (m.calls cs).2.run program .onceHalted = m.run program .onceHalted := by
  have hhalt : (m.calls cs).2.runUntilHalt program = m.runUntilHalt program :=
    runUntilHalt_calls hcs
  obtain ⟨j, hj⟩ := exists_calls_eq_after (m := m) hcs
  obtain ⟨k, hk⟩ := exists_calls_eq_after (m := m) hds
  refine ⟨?_, fun hsteps => ?_, hhalt,
    run_eq_of_runUntilHalt_eq hhalt rfl rfl, run_eq_of_runUntilHalt_eq hhalt rfl rfl⟩
  · rw [hj, after_steps_sub]
  · rw [hj, hk] at hsteps ⊢
    exact after_eq_of_steps_eq hsteps

/-- A run that is cancelled after one instruction and a step, or the other way round: the machine is
the same, and a run from there ends as one from the beginning. -/
theorem calls_resume_after_cancel :
    ((powerOn { registers := 1 }).calls
        [.run #[0x01, 0, 5, 0, 0xFF, 0, 0, 0] (.atFetch 1),
          .step #[0x01, 0, 5, 0, 0xFF, 0, 0, 0]]).2 =
      ((powerOn { registers := 1 }).calls
        [.step #[0x01, 0, 5, 0, 0xFF, 0, 0, 0],
          .run #[0x01, 0, 5, 0, 0xFF, 0, 0, 0] (.atFetch 1)]).2 ∧
    ((powerOn { registers := 1 }).calls
        [.run #[0x01, 0, 5, 0, 0xFF, 0, 0, 0] (.atFetch 1),
          .step #[0x01, 0, 5, 0, 0xFF, 0, 0, 0]]).2.run #[0x01, 0, 5, 0, 0xFF, 0, 0, 0] .never =
      (powerOn { registers := 1 }).run #[0x01, 0, 5, 0, 0xFF, 0, 0, 0] .never := by
  have hcs : ∀ c ∈ [Call.run #[0x01, 0, 5, 0, 0xFF, 0, 0, 0] (.atFetch 1),
      .step #[0x01, 0, 5, 0, 0xFF, 0, 0, 0]],
      c.program? = some #[0x01, 0, 5, 0, 0xFF, 0, 0, 0] := by
    simp [Call.program?]
  have hds : ∀ d ∈ [Call.step #[0x01, 0, 5, 0, 0xFF, 0, 0, 0],
      .run #[0x01, 0, 5, 0, 0xFF, 0, 0, 0] (.atFetch 1)],
      d.program? = some #[0x01, 0, 5, 0, 0xFF, 0, 0, 0] := by
    simp [Call.program?]
  obtain ⟨-, heq, -, hrun, -⟩ := calls_resume (m := powerOn { registers := 1 }) hcs hds
  refine ⟨heq ?_, hrun⟩
  simp only [calls, call, run_atFetch_snd]
  rfl

end Machine

end RegisterMachine
