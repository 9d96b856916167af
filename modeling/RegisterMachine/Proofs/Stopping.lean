import RegisterMachine.Proofs.EndOfProgram
import RegisterMachine.Proofs.Executions
import RegisterMachine.Proofs.Polling

/-!
# Machines that have stopped

A machine stops by executing an instruction that halts it or ends the program, and in no other way:
a fault, a cancel or an unknown opcode leaves it running.  Once it has stopped, nothing but a reset
has any effect on it, on whatever program a call is made and whenever it is cancelled.  So of all
instructions executed between two resets at most one stops the machine, and this is the last one.

## Main definitions

* `Instruction.StopsAtEnd` : instructions of which none but the last may stop a machine;
* `Call.answerStopped` : what a call answers on a machine that has stopped.

## Main statements

* `Machine.status_step_eq_halted_iff` and `Machine.status_step_eq_terminated_iff` : the instructions
  that stop a machine;
* `Machine.calls_of_stopped` and `Machine.Returns.of_stopped` : calls on a machine that has stopped;
* `Machine.CallsExecute.stopsAtEnd` : the instructions executed since a reset;
* `Machine.stopped_until_reset` : a machine that has stopped remains so until it is reset.
-/

namespace RegisterMachine

/-- A running machine that executes these instructions is left with this status: none of them stops
it and it runs on, or none but the last does and the status is accordingly. -/
inductive Instruction.StopsAtEnd : List Instruction → Status → Prop
  | running {is : List Instruction} :
      (∀ i ∈ is, ¬ i.Is .halt ∧ ¬ i.Is .finish) → StopsAtEnd is .running
  | halted {is : List Instruction} {last : Instruction} :
      (∀ i ∈ is, ¬ i.Is .halt ∧ ¬ i.Is .finish) → last.Is .halt → StopsAtEnd (is ++ [last]) .halted
  | terminated {is : List Instruction} {last : Instruction} :
      (∀ i ∈ is, ¬ i.Is .halt ∧ ¬ i.Is .finish) → last.Is .finish →
        StopsAtEnd (is ++ [last]) .terminated

/-- What a call answers on a machine that has stopped.  A run that is cancelled before it begins
tells so in any case; another one tells the end of the program, or it waits for the cancel. -/
def Call.answerStopped (m : Machine) : Call → Answer
  | step _ => .status (.ok m.status)
  | runUntilHalt _ => .status (.ok m.status)
  | run _ (.atFetch 0) => .ended (.exited ⟨.cancelled, m.registers, m.steps, m.skipped⟩)
  | run _ cancel =>
    .ended <|
      if m.status = .terminated then .exited ⟨.terminated, m.registers, m.steps, m.skipped⟩
      else if cancel = .never then .waiting
      else .exited ⟨.cancelled, m.registers, m.steps, m.skipped⟩
  | reset => .done

theorem Instruction.StopsAtEnd.append {is js : List Instruction} {status : Status}
    (his : ∀ i ∈ is, ¬ i.Is .halt ∧ ¬ i.Is .finish) (h : StopsAtEnd js status) :
    StopsAtEnd (is ++ js) status := by
  have happend {ks : List Instruction} (hks : ∀ i ∈ ks, ¬ i.Is .halt ∧ ¬ i.Is .finish) :
      ∀ i ∈ is ++ ks, ¬ i.Is .halt ∧ ¬ i.Is .finish :=
    List.forall_mem_append.2 ⟨his, hks⟩
  cases h with
  | running hjs => exact .running (happend hjs)
  | halted hjs hlast =>
    rw [← List.append_assoc]
    exact .halted (happend hjs) hlast
  | terminated hjs hlast =>
    rw [← List.append_assoc]
    exact .terminated (happend hjs) hlast

namespace Machine

variable {config : Config} {m m' : Machine} {program : Program} {cs : List Call} {c : Call}
  {flag : Flag} {cancel : Cancellation} {result : RunResult} {i : Instruction}
  {is : List Instruction} {status : Status} {k : Nat}

/-! ### How a machine stops -/

theorem Fresh.status_eq (h : m.Fresh config) : m.status = .running := by
  rw [h.eq_powerOn]
  rfl

/-- A step leaves a running machine in the status that its instruction leaves it in. -/
theorem Completes.status_eq (h : m.Completes program i) :
    (m.step program).2.status = i.leaves :=
  h.executes.status_eq h.running

/-- A step that changes the status of a machine executes an instruction that stops it. -/
theorem status_step_eq_iff (hstatus : status ≠ .running) :
    m.status = .running ∧ (m.step program).2.status = status ↔
      ∃ i, m.Completes program i ∧ i.leaves = status := by
  constructor
  · rintro ⟨hm, hstep⟩
    rcases m.step_eq_or_completes program with heq | ⟨i, hi⟩
    · rw [heq, hm] at hstep
      exact absurd hstep.symm hstatus
    · exact ⟨i, hi, hi.status_eq.symm.trans hstep⟩
  · rintro ⟨i, hi, hleaves⟩
    exact ⟨hi.running, hi.status_eq.trans hleaves⟩

theorem status_step_eq_halted_iff :
    m.status = .running ∧ (m.step program).2.status = .halted ↔
      ∃ i, m.Completes program i ∧ i.Is .halt := by
  have hne : Status.halted ≠ .running := by decide
  simp only [status_step_eq_iff hne, Instruction.leaves_eq_halted_iff]

theorem status_step_eq_terminated_iff :
    m.status = .running ∧ (m.step program).2.status = .terminated ↔
      ∃ i, m.Completes program i ∧ i.Is .finish := by
  have hne : Status.terminated ≠ .running := by decide
  simp only [status_step_eq_iff hne, Instruction.leaves_eq_terminated_iff]

/-! ### Calls on a machine that has stopped -/

theorem runUntilHalt_of_stopped (hm : m.status ≠ .running) (program : Program) :
    m.runUntilHalt program = (.ok m.status, m) := by
  rw [runUntilHalt_eq, step_of_status_ne hm]
  cases hstatus : m.status with
  | running => exact absurd hstatus hm
  | halted | terminated => rfl

theorem call_of_stopped (hm : m.status ≠ .running) (hc : c ≠ .reset) :
    m.call c = (c.answerStopped m, m) := by
  cases c with
  | step program =>
    rw [call, step_of_status_ne hm]
    rfl
  | runUntilHalt program =>
    rw [call, runUntilHalt_of_stopped hm]
    rfl
  | run program cancel =>
    rw [call, run_eq, step_of_status_ne hm]
    rcases cancel with _ | _ | (_ | n)
    all_goals
      cases hstatus : m.status with
      | running => exact absurd hstatus hm
      | halted | terminated =>
        simp only [Call.answerStopped, hstatus]
        rfl
  | reset => exact absurd rfl hc

/-- **Calls that are no reset do not change a machine that has stopped.** -/
theorem calls_of_stopped (hm : m.status ≠ .running) (hcs : .reset ∉ cs) :
    m.calls cs = (cs.map fun c => c.answerStopped m, m) :=
  calls_eq_of_call_eq fun _ hc => call_of_stopped hm (ne_of_mem_of_not_mem hc hcs)

/-- None of them reports an error. -/
theorem error?_answerStopped (c : Call) (m : Machine) : (c.answerStopped m).error? = none := by
  cases c with
  | step | runUntilHalt | reset => rfl
  | run program cancel =>
    rcases cancel with _ | _ | (_ | n)
    case atFetch.zero => rfl
    all_goals
      simp only [Call.answerStopped]
      split <;> rfl

/-- **A run of a machine that has stopped returns** with a cancel when the flag is set at its first
look, and otherwise with the end of the program, or with a cancel if the machine has halted. -/
theorem Returns.of_stopped (hm : m.status ≠ .running)
    (h : m.Returns program flag k result m') :
    m' = m ∧
      (result = .exited ⟨.cancelled, m.registers, m.steps, m.skipped⟩ ∧
          (flag 0 = true ∨ m.status = .halted) ∨
        result = .exited ⟨.terminated, m.registers, m.steps, m.skipped⟩ ∧ flag 0 = false ∧
          m.status = .terminated) := by
  cases h with
  | cancelled hbefore hset hafter =>
    obtain rfl : m' = m := hafter.symm.trans (after_of_stopped hm program k)
    refine ⟨rfl, .inl ⟨rfl, ?_⟩⟩
    cases k with
    | zero => exact .inl hset
    | succ k =>
      -- only a halted machine is looked at again
      obtain ⟨-, hrunning | hhalted⟩ := hbefore 0 (Nat.succ_pos k)
      · rw [answer_of_stopped hm, Except.ok.injEq] at hrunning
        exact absurd hrunning hm
      · rw [answer_of_stopped hm, Except.ok.injEq] at hhalted
        exact .inr hhalted
  | terminated hbefore hunset hterminated hafter =>
    rw [answer_of_stopped hm, Except.ok.injEq] at hterminated
    obtain rfl : m' = m := hafter.symm.trans (after_of_stopped hm program (k + 1))
    refine ⟨rfl, .inr ⟨rfl, ?_, hterminated⟩⟩
    cases k with
    | zero => exact hunset
    | succ k => exact (hbefore 0 (Nat.succ_pos k)).1
  | faulted _ _ hfault =>
    rw [answer_of_stopped hm] at hfault
    cases hfault

/-! ### The instructions executed since a reset -/

theorem ExecutesAll.stopsAtEnd (h : m.ExecutesAll program is m') (hm : m.status = .running) :
    Instruction.StopsAtEnd is m'.status := by
  have hbefore : ∀ i ∈ is.dropLast, ¬ i.Is .halt ∧ ¬ i.Is .finish := fun i hi =>
    Instruction.leaves_eq_running_iff.1 (h.leaves_eq_running i hi)
  have hlast (hne : m'.status ≠ .running) :
      ∃ last, is = is.dropLast ++ [last] ∧ last.leaves = m'.status := by
    obtain ⟨last, hlast, hleaves⟩ := (h.status_eq_iff hm hne).1 rfl
    exact ⟨last, (List.dropLast_append_getLast? last hlast).symm, hleaves⟩
  cases hstatus : m'.status with
  | running =>
    refine .running fun i hi => ?_
    exact Instruction.leaves_eq_running_iff.1 ((h.status_eq_running_iff hm).1 hstatus i hi)
  | halted =>
    obtain ⟨last, heq, hleaves⟩ := hlast (by rw [hstatus]; decide)
    rw [hstatus, Instruction.leaves_eq_halted_iff] at hleaves
    rw [heq]
    exact .halted hbefore hleaves
  | terminated =>
    obtain ⟨last, heq, hleaves⟩ := hlast (by rw [hstatus]; decide)
    rw [hstatus, Instruction.leaves_eq_terminated_iff] at hleaves
    rw [heq]
    exact .terminated hbefore hleaves

/-- Calls execute nothing on a machine that has stopped. -/
theorem CallsExecute.of_stopped (h : m.CallsExecute cs is) (hm : m.status ≠ .running) :
    is = [] ∧ (m.calls cs).2 = m := by
  induction h with
  | nil m => exact ⟨rfl, rfl⟩
  | @cons m c cs program is js _ hfirst _ ih =>
    have hnil : is = [] := by
      by_contra hne
      exact hm (hfirst.status_eq_running hne)
    subst hnil
    have hsame : (m.call c).2 = m := by
      generalize (m.call c).2 = m' at hfirst
      cases hfirst
      rfl
    rw [hsame] at ih
    obtain ⟨rfl, hcalls⟩ := ih hm
    refine ⟨rfl, ?_⟩
    rw [calls, hsame]
    exact hcalls

/-- **Only the last instruction executed stops the machine.** -/
theorem CallsExecute.stopsAtEnd (h : m.CallsExecute cs is) (hm : m.status = .running) :
    Instruction.StopsAtEnd is (m.calls cs).2.status := by
  induction h with
  | nil m => exact hm ▸ .running (by simp)
  | @cons m c cs program is js _ hfirst hrest ih =>
    have hstops := hfirst.stopsAtEnd hm
    rw [calls]
    by_cases hrunning : (m.call c).2.status = .running
    · have his := (hfirst.status_eq_running_iff hm).1 hrunning
      exact .append (fun i hi => Instruction.leaves_eq_running_iff.1 (his i hi)) (ih hrunning)
    · -- the call has stopped the machine, and those behind it find it so
      obtain ⟨rfl, hlast⟩ := hrest.of_stopped hrunning
      rwa [List.append_nil, hlast]

/-- **A machine that has stopped remains so until it is reset.**  A machine that was switched on or
reset runs.  It is halted by a step that executes a `halt` without a fault and by no other, and the
program ends with a step that executes a `finish` and with no other, so that of the instructions
that are executed until the next reset none but the last stops the machine.  A machine that has
stopped is not changed by any calls but a reset: steps and runs until it stops answer its status,
and runs tell that they were cancelled or that the program has ended, with the registers and
counters of the machine, whenever the flag is set; none reports an error. -/
theorem stopped_until_reset (m : Machine) :
    (∀ config, m.Fresh config → m.status = .running) ∧
      (∀ program,
        (m.status = .running ∧ (m.step program).2.status = .halted ↔
          ∃ i, m.Completes program i ∧ i.Is .halt) ∧
        (m.status = .running ∧ (m.step program).2.status = .terminated ↔
          ∃ i, m.Completes program i ∧ i.Is .finish)) ∧
      (∀ cs, .reset ∉ cs → m.status = .running →
        ∃ is, (∀ js, m.CallsExecute cs js ↔ js = is) ∧
          Instruction.StopsAtEnd is (m.calls cs).2.status) ∧
      (m.status ≠ .running →
        (∀ cs, .reset ∉ cs → m.calls cs = (cs.map fun c => c.answerStopped m, m) ∧
          ∀ answer ∈ (m.calls cs).1, answer.error? = none) ∧
        ∀ program flag k result m', m.Returns program flag k result m' →
          m' = m ∧
            (result = .exited ⟨.cancelled, m.registers, m.steps, m.skipped⟩ ∧
                (flag 0 = true ∨ m.status = .halted) ∨
              result = .exited ⟨.terminated, m.registers, m.steps, m.skipped⟩ ∧ flag 0 = false ∧
                m.status = .terminated)) := by
  refine ⟨fun config h => h.status_eq,
    fun program => ⟨status_step_eq_halted_iff, status_step_eq_terminated_iff⟩,
    fun cs hcs hm => ?_, fun hm => ⟨fun cs hcs => ?_, fun _ _ _ _ _ h => h.of_stopped hm⟩⟩
  · obtain ⟨is, his⟩ := exists_callsExecute hcs m
    refine ⟨is, fun js => ⟨fun h => h.unique his, ?_⟩, his.stopsAtEnd hm⟩
    rintro rfl
    exact his
  · have hcalls := calls_of_stopped hm hcs
    refine ⟨hcalls, fun answer hanswer => ?_⟩
    rw [hcalls] at hanswer
    obtain ⟨c, -, rfl⟩ := List.mem_map.1 hanswer
    exact error?_answerStopped c m

/-- A machine that moves a word into a register, halts, and is then given other programs, one of
them too short, with and without a cancel; and a machine whose program has ended, cancelled and
not. -/
theorem stopped_until_reset_behind_halt :
    let m := ((powerOn { registers := 1 }).commit (.write 0 5)).commit (.stop .halted)
    let m' := (powerOn { registers := 1 }).commit (.stop .terminated)
    (∃ is, (powerOn { registers := 1 }).CallsExecute
        [.step #[0x01, 0, 5, 0], .step #[0, 0, 0, 0, 0x09, 0, 0, 0], .step #[1]] is ∧
      Instruction.StopsAtEnd is .halted) ∧
    m.calls [.runUntilHalt #[0x01, 0, 6, 0], .run #[1] (.atFetch 0), .run #[] .onceHalted] =
      ([.status (.ok .halted), .ended (.exited ⟨.cancelled, ⟨#[5]⟩, 2, 0⟩),
        .ended (.exited ⟨.cancelled, ⟨#[5]⟩, 2, 0⟩)], m) ∧
    m'.calls [.run #[1] (.atFetch 0), .run #[] .never] =
      ([.ended (.exited ⟨.cancelled, ⟨#[0]⟩, 1, 0⟩),
        .ended (.exited ⟨.terminated, ⟨#[0]⟩, 1, 0⟩)], m') := by
  have hhalted : (((powerOn { registers := 1 }).commit (.write 0 5)).commit
      (.stop .halted)).status ≠ .running := by decide
  have hterminated : ((powerOn { registers := 1 }).commit
      (.stop .terminated)).status ≠ .running := by decide
  obtain ⟨-, -, hexecuted, -⟩ := stopped_until_reset (powerOn { registers := 1 })
  obtain ⟨is, his, hstops⟩ := hexecuted
    [.step #[0x01, 0, 5, 0], .step #[0, 0, 0, 0, 0x09, 0, 0, 0], .step #[1]] (by simp) rfl
  obtain ⟨-, -, -, hcalls⟩ := stopped_until_reset
    (((powerOn { registers := 1 }).commit (.write 0 5)).commit (.stop .halted))
  obtain ⟨-, -, -, hcalls'⟩ := stopped_until_reset
    ((powerOn { registers := 1 }).commit (.stop .terminated))
  refine ⟨⟨is, (his is).2 rfl, hstops⟩, ((hcalls hhalted).1 _ ?_).1,
    ((hcalls' hterminated).1 _ ?_).1⟩
  · simp
  · simp

end Machine

end RegisterMachine
