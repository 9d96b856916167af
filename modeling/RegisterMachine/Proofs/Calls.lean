import RegisterMachine.Machine.Run

/-!
# Sequences of calls

A machine is used through four calls: one step, two kinds of run, and a reset, each on a program of
its own.  Here a call is a value with an answer, so that a property can be stated for every sequence
of calls, and both kinds of run are taken apart into the steps that they consist of.

## Main definitions

* `Machine.Built` : a machine that was just built, and its configuration;
* `Call`, `Answer`, `Machine.call` and `Machine.calls` : one call, and a sequence of them;
* `Machine.Advances` : a number of steps after each of which the machine is still running;
* `Machine.Ends` : the end of a run, which is a cancel or one last step.

## Main statements

* `Machine.exists_runUntilHalt_eq` and `Machine.exists_run_ends` : a run is some number of steps
  after which the machine is still running, and its end;
* `Machine.Advances.calls_replicate` : every machine inside a run is one that single steps lead to;
* `Machine.calls_induction` : what every step and every reset keep is kept by all sequences of
  calls.
-/

namespace RegisterMachine

/-- A use of a machine. -/
inductive Call where
  /-- Takes one step. -/
  | step (program : Program)
  /-- Takes steps until the machine has stopped. -/
  | runUntilHalt (program : Program)
  /-- Takes steps until the program ends or the run is cancelled. -/
  | run (program : Program) (cancel : Cancellation)
  /-- Puts the machine back to the beginning. -/
  | reset

/-- The program that a call is made on; a reset needs none. -/
def Call.program? : Call → Option Program
  | step program => some program
  | runUntilHalt program => some program
  | run program _ => some program
  | reset => none

/-- What a call gives back. -/
inductive Answer where
  /-- The status of the machine, or the error that an instruction faulted with. -/
  | status (result : Except Error Status)
  /-- The way in which a run ended. -/
  | ended (result : RunResult)
  /-- Nothing. -/
  | done

/-- The same moment, seen from the run that is left after `k` more instructions. -/
def Cancellation.after (cancel : Cancellation) : Nat → Cancellation
  | 0 => cancel
  | k + 1 => cancel.afterFetch.after k

namespace Machine

/-- `m` was just built with this configuration: the standard one, or one that was accepted. -/
inductive Built : Config → Machine → Prop
  | standard : Built {} (powerOn {})
  | ofConfig {config : Config} {m : Machine} : Machine.ofConfig config = .ok m → Built config m

/-- The answer to a call, and the machine after it. -/
def call (m : Machine) : Call → Answer × Machine
  | .step program => (.status (m.step program).1, (m.step program).2)
  | .runUntilHalt program => (.status (m.runUntilHalt program).1, (m.runUntilHalt program).2)
  | .run program cancel => (.ended (m.run program cancel).1, (m.run program cancel).2)
  | .reset => (.done, m.reset)

/-- The answers to calls made one after the other, and the machine after the last of them. -/
def calls (m : Machine) : List Call → List Answer × Machine
  | [] => ([], m)
  | c :: cs => ((m.call c).1 :: ((m.call c).2.calls cs).1, ((m.call c).2.calls cs).2)

/-- `k` steps, after each of which the machine is still running, take `m` to `m'`. -/
inductive Advances (program : Program) : Nat → Machine → Machine → Prop
  | zero (m : Machine) : Advances program 0 m m
  | succ {k : Nat} {m₁ m₂ m₃ : Machine} :
      m₁.step program = (.ok .running, m₂) → Advances program k m₂ m₃ →
        Advances program (k + 1) m₁ m₃

/-- With this cancel ahead, a run of `m` ends before a further instruction is left behind. -/
inductive Ends (program : Program) (cancel : Cancellation) (m : Machine) :
    RunResult → Machine → Prop
  | cancelled : cancel.isDue = true →
      Ends program cancel m (.exited ⟨.cancelled, m.registers, m.steps, m.skipped⟩) m
  | terminated {m' : Machine} : cancel.isDue = false → m.step program = (.ok .terminated, m') →
      Ends program cancel m (.exited ⟨.terminated, m'.registers, m'.steps, m'.skipped⟩) m'
  | halted {m' : Machine} : cancel.isDue = false → m.step program = (.ok .halted, m') →
      cancel.reachesHalted = true →
      Ends program cancel m (.exited ⟨.cancelled, m'.registers, m'.steps, m'.skipped⟩) m'
  | waiting {m' : Machine} : cancel.isDue = false → m.step program = (.ok .halted, m') →
      cancel.reachesHalted = false → Ends program cancel m .waiting m'
  | faulted {e : Error} {m' : Machine} : cancel.isDue = false →
      m.step program = (.error e, m') → Ends program cancel m (.faulted e) m'

theorem Built.eq_powerOn {config : Config} {m : Machine} (h : Built config m) :
    m = powerOn config := by
  cases h with
  | standard => rfl
  | ofConfig h =>
    unfold Machine.ofConfig at h
    cases hc : config.validate with
    | error e => rw [hc] at h; cases h
    | ok u => rw [hc] at h; cases h; rfl

theorem Built.valid {config : Config} {m : Machine} (h : Built config m) : config.Valid := by
  cases h with
  | standard => exact fun r => by cases r <;> exact Resource.admits_standardSize _
  | ofConfig h =>
    rw [← Config.validate_eq_ok_iff]
    unfold Machine.ofConfig at h
    cases hc : config.validate with
    | error e =>
      rw [hc] at h
      cases h
    | ok u => rfl

/-- Calls that each leave the machine as it is can be made in any number. -/
theorem calls_eq_of_call_eq {m : Machine} {cs : List Call} {answer : Call → Answer}
    (h : ∀ c ∈ cs, m.call c = (answer c, m)) : m.calls cs = (cs.map answer, m) := by
  induction cs with
  | nil => rfl
  | cons c cs ih =>
    have hcs : ∀ c' ∈ cs, m.call c' = (answer c', m) := fun c' hc' =>
      h c' (List.mem_cons_of_mem c hc')
    rw [calls, h c List.mem_cons_self, ih hcs]
    rfl

/-! ### Runs as steps -/

/-- **A run until the machine stops is some steps that leave it running, and one more.** -/
theorem exists_runUntilHalt_eq (m : Machine) (program : Program) :
    ∃ k m', m.Advances program k m' ∧ (m'.step program).1 ≠ .ok .running ∧
      m.runUntilHalt program = m'.step program := by
  fun_induction runUntilHalt m program with
  | case1 m m' hstep ih =>
    obtain ⟨k, m'', hadv, hlast, heq⟩ := ih
    exact ⟨k + 1, m'', .succ hstep hadv, hlast, heq⟩
  | case2 m hstopped =>
    -- the run is one step, after which the machine does not run on
    refine ⟨0, m, .zero m, ?_, rfl⟩
    intro hrunning
    exact hstopped _ (Prod.ext hrunning rfl)

/-- **A run is some steps that leave the machine running, and its end**: a cancel, or one more step
that ends the program, halts the machine or faults. -/
theorem exists_run_ends (m : Machine) (program : Program) (cancel : Cancellation) :
    ∃ k m', m.Advances program k m' ∧
      m'.Ends program (cancel.after k) (m.run program cancel).1 (m.run program cancel).2 := by
  fun_induction run m program cancel with
  | case1 m cancel hdue => exact ⟨0, m, .zero m, .cancelled hdue⟩
  | case2 m cancel hdue m' hstep ih =>
    obtain ⟨k, m'', hadv, hends⟩ := ih
    exact ⟨k + 1, m'', .succ hstep hadv, hends⟩
  | case3 m cancel hdue m' hstep =>
    exact ⟨0, m, .zero m, .terminated (eq_false_of_ne_true hdue) hstep⟩
  | case4 m cancel hdue m' hstep =>
    refine ⟨0, m, .zero m, ?_⟩
    cases hhalted : cancel.reachesHalted with
    | true => exact .halted (eq_false_of_ne_true hdue) hstep hhalted
    | false => exact .waiting (eq_false_of_ne_true hdue) hstep hhalted
  | case5 m cancel hdue e m' hstep =>
    exact ⟨0, m, .zero m, .faulted (eq_false_of_ne_true hdue) hstep⟩

/-- Every machine inside a run is one that single steps lead to. -/
theorem Advances.calls_replicate {program : Program} {k : Nat} {m m' : Machine}
    (h : m.Advances program k m') : (m.calls (List.replicate k (.step program))).2 = m' := by
  induction h with
  | zero m => rfl
  | succ heq _ ih =>
    rw [List.replicate_succ, calls, call, heq]
    exact ih

/-! ### What steps and resets keep -/

variable {P : Machine → Prop} {program : Program}

theorem Advances.induction (hstep : ∀ m, P m → P (m.step program).2) {k : Nat} {m m' : Machine}
    (h : m.Advances program k m') (hm : P m) : P m' := by
  induction h with
  | zero => exact hm
  | succ heq _ ih =>
    have hnext := hstep _ hm
    rw [heq] at hnext
    exact ih hnext

theorem Ends.induction (hstep : ∀ m, P m → P (m.step program).2) {cancel : Cancellation}
    {result : RunResult} {m m' : Machine} (h : m.Ends program cancel result m') (hm : P m) :
    P m' := by
  -- a run ends where it is, or after one step more
  have hnext := hstep m hm
  cases h with
  | cancelled => exact hm
  | terminated _ heq => rwa [heq] at hnext
  | halted _ heq => rwa [heq] at hnext
  | waiting _ heq => rwa [heq] at hnext
  | faulted _ heq => rwa [heq] at hnext

/-- What every step on a program keeps, each call on it keeps that is no reset. -/
theorem call_induction_of_program {c : Call} (hc : c.program? = some program)
    (hstep : ∀ m, P m → P (m.step program).2) {m : Machine} (hm : P m) : P (m.call c).2 := by
  cases c with
  | step program =>
    cases hc
    exact hstep m hm
  | runUntilHalt program =>
    cases hc
    obtain ⟨k, m', hadv, -, heq⟩ := exists_runUntilHalt_eq m program
    have hm' := hadv.induction hstep hm
    change P (m.runUntilHalt program).2
    rw [heq]
    exact hstep m' hm'
  | run program cancel =>
    cases hc
    obtain ⟨k, m', hadv, hends⟩ := exists_run_ends m program cancel
    have hm' := hadv.induction hstep hm
    exact hends.induction hstep hm'
  | reset => cases hc

/-- What every step on one of the programs keeps, calls keep none of which is a reset. -/
theorem calls_induction_of_programs {cs : List Call}
    (hcs : ∀ c ∈ cs, ∃ program, c.program? = some program ∧ ∀ m, P m → P (m.step program).2)
    {m : Machine} (hm : P m) : P (m.calls cs).2 := by
  induction cs generalizing m with
  | nil => exact hm
  | cons c cs ih =>
    obtain ⟨program, hprogram, hstep⟩ := hcs c List.mem_cons_self
    have hc := call_induction_of_program hprogram hstep hm
    exact ih (fun c' hc' => hcs c' (List.mem_cons_of_mem c hc')) hc

theorem calls_induction_of_program {cs : List Call} (hcs : ∀ c ∈ cs, c.program? = some program)
    (hstep : ∀ m, P m → P (m.step program).2) {m : Machine} (hm : P m) : P (m.calls cs).2 :=
  calls_induction_of_programs (fun c hc => ⟨program, hcs c hc, hstep⟩) hm

/-- What every step on the program of a call keeps, and every reset, the call keeps. -/
theorem call_induction {c : Call} (hstep : ∀ program ∈ c.program?, ∀ m, P m → P (m.step program).2)
    (hreset : ∀ m, P m → P m.reset) {m : Machine} (hm : P m) : P (m.call c).2 := by
  cases hc : c.program? with
  | some program => exact call_induction_of_program hc (hstep program hc) hm
  | none =>
    -- only a reset is made on no program
    cases c with
    | reset => exact hreset m hm
    | step | runUntilHalt | run => cases hc

/-- **What every step on one of the programs keeps, and every reset, all calls keep.** -/
theorem calls_induction {cs : List Call}
    (hstep : ∀ c ∈ cs, ∀ program ∈ c.program?, ∀ m, P m → P (m.step program).2)
    (hreset : ∀ m, P m → P m.reset) {m : Machine} (hm : P m) : P (m.calls cs).2 := by
  induction cs generalizing m with
  | nil => exact hm
  | cons c cs ih =>
    have hc := call_induction (hstep c List.mem_cons_self) hreset hm
    exact ih (fun c' hc' => hstep c' (List.mem_cons_of_mem c hc')) hc

end Machine

end RegisterMachine
