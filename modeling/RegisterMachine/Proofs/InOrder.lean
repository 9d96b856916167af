import Mathlib.Data.List.Basic
import RegisterMachine.Proofs.Calls
import RegisterMachine.Proofs.Checks
import RegisterMachine.Proofs.InstructionTable

/-!
# Instructions in order

Which instructions a run executes, and what its result and the counters of the machine tell about
them.  An execution is a list of instructions, each fetched where the machine stands and executed as
the instruction table says.  A run until the machine stops is such an execution: it takes up one
instruction of the program after the other, up to the first that stops the machine or faults.

## Main definitions

* `Instruction.Is`, `Instruction.isUnknown` and `Instruction.leaves` : what the first word of an
  instruction stands for, and the status in which a machine is left that has executed it;
* `Machine.ExecutesAll` and `Machine.AtRest` : the execution of a list of instructions, and the end
  of it;
* `Machine.Account` : the account of a run, in terms of the instructions that it executed.

## Main statements

* `Machine.exists_executesAll` : a run until the machine stops is an execution, and how it ends;
* `Machine.runUntilHalt_account` : a machine that was just built executes the program from its
  beginning, each instruction once, and its counters and the result of the run tell which.
-/

namespace RegisterMachine

namespace Instruction

/-- The first word of the instruction stands for this opcode. -/
def Is (i : Instruction) (o : Opcode) : Prop :=
  Opcode.decode? i.opcode = some o

instance (i : Instruction) (o : Opcode) : Decidable (i.Is o) :=
  inferInstanceAs (Decidable (Opcode.decode? i.opcode = some o))

/-- The first word of the instruction stands for no opcode. -/
def isUnknown (i : Instruction) : Bool :=
  (Opcode.decode? i.opcode).isNone

/-- The status of a running machine after it has executed the instruction. -/
def leaves (i : Instruction) : Status :=
  match Opcode.decode? i.opcode with
  | some .halt => .halted
  | some .finish => .terminated
  | _ => .running

theorem leaves_eq_halted_iff {i : Instruction} : i.leaves = .halted ↔ i.Is .halt := by
  unfold leaves Is
  split <;> simp_all

theorem leaves_eq_terminated_iff {i : Instruction} : i.leaves = .terminated ↔ i.Is .finish := by
  unfold leaves Is
  split <;> simp_all

theorem leaves_eq_running_iff {i : Instruction} :
    i.leaves = .running ↔ ¬ i.Is .halt ∧ ¬ i.Is .finish := by
  unfold leaves Is
  split <;> simp_all

end Instruction

namespace Machine

/-- `m` becomes `m'` by the execution of these instructions of a program, one after the other. -/
inductive ExecutesAll (program : Program) : Machine → List Instruction → Machine → Prop
  | nil (m : Machine) : ExecutesAll program m [] m
  | cons {m₁ m₂ m₃ : Machine} {i : Instruction} {is : List Instruction} :
      m₁.status = .running → program.fetch? m₁.pc = some i → m₁.Executes i m₂ →
        ExecutesAll program m₂ is m₃ → ExecutesAll program m₁ (i :: is) m₃

/-- A run ends with this result on `m'`: the machine has stopped, or the next step faults. -/
inductive AtRest (program : Program) (m' : Machine) : Except Error Status → Prop
  | stopped : m'.status ≠ .running → AtRest program m' (.ok m'.status)
  | faulted {e : Error} : m'.status = .running → Check.Reports (m'.stepChecks program) e →
      AtRest program m' (.error e)

/-- What a run of a program from its beginning tells by its result, and by the counters of the
machine that it leaves, about the instructions that were executed. -/
structure Account (program : Program) (executed : List Instruction) (result : Except Error Status)
    (m' : Machine) : Prop where
  /-- The machine has counted each of them. -/
  length_eq : executed.length = m'.steps
  /-- They are those that the program begins with, in their order. -/
  getElem?_eq : ∀ j < m'.steps, executed[j]? = program.fetch? (4 * j)
  /-- The machine has counted those that it does not know. -/
  skipped_eq : m'.skipped = executed.countP Instruction.isUnknown
  /-- Only the last of them may stop the machine. -/
  goes_on : ∀ i ∈ executed.dropLast, ¬ i.Is .halt ∧ ¬ i.Is .finish
  /-- The run ends halted exactly when the last one halts the machine. -/
  halted_iff : result = .ok .halted ↔ ∃ i ∈ executed.getLast?, i.Is .halt
  /-- The run ends with the end of the program exactly when the last one is the end. -/
  terminated_iff : result = .ok .terminated ↔ ∃ i ∈ executed.getLast?, i.Is .finish
  /-- The run faults exactly when none of them stops the machine. -/
  error_iff : (∃ e, result = .error e) ↔ ∀ i ∈ executed, ¬ i.Is .halt ∧ ¬ i.Is .finish
  /-- Then there is no whole instruction behind them, or it does not pass its checks. -/
  error : ∀ e, result = .error e →
    (program.size < 4 * m'.steps + 4 ∧
      e = .endOfProgram (4 * m'.steps) (program.size - 4 * m'.steps)) ∨
    ∃ i, program.fetch? (4 * m'.steps) = some i ∧ Check.Reports (m'.checks i) e

variable {config : Config} {m m' : Machine} {i : Instruction} {is : List Instruction}
  {program : Program}

/-! ### One instruction -/

theorem decode?_eq_none_of_no_row {w : Word} (hrange : ¬ (0 ≤ w.toInt ∧ w.toInt ≤ 0x0D))
    (hlast : w.toInt ≠ 0xFF) : Opcode.decode? w = none :=
  Option.map_eq_none_iff.1 ((operation?_eq_none_iff (i := ⟨w, 0, 0, 0⟩)).2 ⟨hrange, hlast⟩)

theorem Executes.status_eq (h : m.Executes i m') (hm : m.status = .running) :
    m'.status = i.leaves := by
  cases h with
  | nop | push | pop | store | load => exact hm
  | @compute op =>
    cases op <;> exact hm
  | halt | finish => rfl
  | skip a b c hrange hlast =>
    rw [Instruction.leaves, decode?_eq_none_of_no_row hrange hlast]
    exact hm

theorem Executes.counters (h : m.Executes i m') :
    m'.pc = m.pc + 4 ∧ m'.steps = m.steps + 1 ∧
      m'.skipped = m.skipped + if i.isUnknown then 1 else 0 := by
  cases h with
  | nop | halt | push | pop | store | load | finish => exact ⟨rfl, rfl, rfl⟩
  | @compute op =>
    cases op <;> exact ⟨rfl, rfl, rfl⟩
  | skip a b c hrange hlast =>
    rw [Instruction.isUnknown, decode?_eq_none_of_no_row hrange hlast]
    exact ⟨rfl, rfl, rfl⟩

/-! ### Many instructions -/

namespace ExecutesAll

theorem counters (h : m.ExecutesAll program is m') :
    m'.pc = m.pc + 4 * is.length ∧ m'.steps = m.steps + is.length ∧
      m'.skipped = m.skipped + is.countP Instruction.isUnknown := by
  induction h with
  | nil m => exact ⟨rfl, rfl, rfl⟩
  | cons _ _ hexecutes _ ih =>
    obtain ⟨hpc, hsteps, hskipped⟩ := hexecutes.counters
    obtain ⟨ihpc, ihsteps, ihskipped⟩ := ih
    rw [List.length_cons, List.countP_cons]
    omega

/-- **The instructions executed stand one behind the other in the program.** -/
theorem getElem?_eq (h : m.ExecutesAll program is m') :
    ∀ j < is.length, is[j]? = program.fetch? (m.pc + 4 * j) := by
  induction h with
  | nil m => simp
  | @cons m₁ m₂ m₃ i is _ hfetch hexecutes _ ih =>
    intro j hj
    cases j with
    | zero => exact hfetch.symm
    | succ j =>
      have hpc : m₁.pc + 4 * (j + 1) = m₂.pc + 4 * j := by
        rw [hexecutes.counters.1]
        omega
      rw [List.getElem?_cons_succ, hpc]
      exact ih j (by simpa using hj)

/-- Instructions are only executed by a machine that runs. -/
theorem status_eq_running (h : m.ExecutesAll program is m') (his : is ≠ []) :
    m.status = .running := by
  cases h with
  | nil => exact absurd rfl his
  | cons hm => exact hm

/-- The machine runs on after all instructions but the last. -/
theorem leaves_eq_running (h : m.ExecutesAll program is m') :
    ∀ i ∈ is.dropLast, i.leaves = .running := by
  induction h with
  | nil m => simp
  | @cons m₁ m₂ m₃ i is hm _ hexecutes hrest ih =>
    cases is with
    | nil => simp
    | cons j js =>
      rw [List.dropLast_cons_cons, List.forall_mem_cons, ← hexecutes.status_eq hm]
      exact ⟨hrest.status_eq_running (List.cons_ne_nil j js), ih⟩

/-- The machine stops with the last instruction, if at all. -/
theorem status_eq_iff (h : m.ExecutesAll program is m') (hm : m.status = .running)
    {status : Status} (hne : status ≠ .running) :
    m'.status = status ↔ ∃ i ∈ is.getLast?, i.leaves = status := by
  induction h with
  | nil m => simp [hm, hne.symm]
  | @cons m₁ m₂ m₃ i is _ _ hexecutes hrest ih =>
    cases is with
    | nil =>
      cases hrest
      simp [hexecutes.status_eq hm]
    | cons j js =>
      rw [List.getLast?_cons_cons]
      exact ih (hrest.status_eq_running (List.cons_ne_nil j js))

theorem status_eq_running_iff (h : m.ExecutesAll program is m') (hm : m.status = .running) :
    m'.status = .running ↔ ∀ i ∈ is, i.leaves = .running := by
  induction h with
  | nil m => simp [hm]
  | @cons m₁ m₂ m₃ i is _ _ hexecutes hrest ih =>
    rw [List.forall_mem_cons, ← hexecutes.status_eq hm]
    by_cases hrunning : m₂.status = .running
    · simp [hrunning, ih hrunning]
    · -- a machine that has stopped executes nothing more
      cases hrest with
      | nil => simp [hrunning]
      | cons hm₂ => exact absurd hm₂ hrunning

end ExecutesAll

/-! ### Runs -/

theorem exists_executes_of_plan_eq_ok {effect : Effect} (h : m.plan program = .ok effect) :
    ∃ i, program.fetch? m.pc = some i ∧ m.Executes i (m.commit effect) := by
  obtain ⟨i, hfetch, heffect⟩ := plan_eq_ok_iff.1 h
  exact ⟨i, hfetch, executes_iff.2 ⟨effect, heffect, rfl⟩⟩

/-- **A run until the machine stops is an execution**, which ends where the machine has stopped or
the next instruction faults. -/
theorem exists_executesAll (hm : m.status = .running) (program : Program) :
    ∃ is, m.ExecutesAll program is (m.runUntilHalt program).2 ∧
      (m.runUntilHalt program).2.AtRest program (m.runUntilHalt program).1 := by
  fun_induction runUntilHalt m program with
  | case1 m m' hstep ih =>
    obtain ⟨hstatus, effect, hplan, rfl⟩ := (step_eq_ok_iff hm).1 hstep
    obtain ⟨i, hfetch, hexecutes⟩ := exists_executes_of_plan_eq_ok hplan
    obtain ⟨is, hall, hrest⟩ := ih hstatus.symm
    exact ⟨i :: is, .cons hm hfetch hexecutes hall, hrest⟩
  | case2 m hstopped =>
    cases hplan : m.plan program with
    | error e =>
      rw [step_of_plan_eq_error hm hplan]
      exact ⟨[], .nil m, .faulted hm ((guards_plan program e).1 hplan)⟩
    | ok effect =>
      obtain ⟨i, hfetch, hexecutes⟩ := exists_executes_of_plan_eq_ok hplan
      have hne : (m.commit effect).status ≠ .running := by
        intro hrunning
        apply hstopped (m.commit effect)
        rw [step_of_plan_eq_ok hm hplan, hrunning]
      rw [step_of_plan_eq_ok hm hplan]
      exact ⟨[i], .cons hm hfetch hexecutes (.nil _), .stopped hne⟩

namespace AtRest

theorem eq_ok_iff {result : Except Error Status} (h : m.AtRest program result) {status : Status}
    (hne : status ≠ .running) : result = .ok status ↔ m.status = status := by
  cases h with
  | stopped => rw [Except.ok.injEq]
  | faulted hrunning => simp [hrunning, hne.symm]

theorem exists_eq_error_iff {result : Except Error Status} (h : m.AtRest program result) :
    (∃ e, result = .error e) ↔ m.status = .running := by
  cases h with
  | stopped hne => simp [hne]
  | faulted hrunning => simp [hrunning]

theorem reports {e : Error} (h : m.AtRest program (.error e)) :
    Check.Reports (m.stepChecks program) e := by
  cases h with
  | faulted _ hreports => exact hreports

end AtRest

/-- A step faults at the end of the program, or on the instruction there is. -/
theorem reports_stepChecks_iff {e : Error} :
    Check.Reports (m.stepChecks program) e ↔
      program.size < m.pc + 4 ∧ e = .endOfProgram m.pc (program.size - m.pc) ∨
        ∃ i, program.fetch? m.pc = some i ∧ Check.Reports (m.checks i) e := by
  rw [stepChecks, Check.reports_cons_iff]
  cases hi : program.fetch? m.pc with
  | some i =>
    have hfits := (Program.fetch?_eq_some_iff.1 hi).1
    simp [hfits]
  | none =>
    have hshort := Program.fetch?_eq_none_iff.1 hi
    simp [hshort, Check.not_reports_nil]

/-! ### The account -/

theorem ExecutesAll.account {executed : List Instruction} {result : Except Error Status}
    (h : (powerOn config).ExecutesAll program executed m') (hrest : m'.AtRest program result) :
    Account program executed result m' := by
  obtain ⟨hpc, hsteps, hskipped⟩ := h.counters
  have hlength : executed.length = m'.steps := by
    rw [hsteps]
    exact (Nat.zero_add _).symm
  have hpc' : m'.pc = 4 * m'.steps := by
    rw [← hlength, hpc]
    exact Nat.zero_add _
  constructor
  case length_eq => exact hlength
  case getElem?_eq =>
    intro j hj
    have heq := h.getElem?_eq j (by omega)
    rwa [show (powerOn config).pc = 0 from rfl, Nat.zero_add] at heq
  case skipped_eq =>
    rw [hskipped]
    exact Nat.zero_add _
  case goes_on =>
    intro i hi
    exact Instruction.leaves_eq_running_iff.1 (h.leaves_eq_running i hi)
  case halted_iff =>
    simp only [← Instruction.leaves_eq_halted_iff]
    rw [hrest.eq_ok_iff (by decide), h.status_eq_iff rfl (by decide)]
  case terminated_iff =>
    simp only [← Instruction.leaves_eq_terminated_iff]
    rw [hrest.eq_ok_iff (by decide), h.status_eq_iff rfl (by decide)]
  case error_iff =>
    simp only [← Instruction.leaves_eq_running_iff]
    rw [hrest.exists_eq_error_iff, h.status_eq_running_iff rfl]
  case error =>
    rintro e rfl
    have hreports := reports_stepChecks_iff.1 hrest.reports
    rwa [hpc'] at hreports

/-- **Each instruction once, in order, and the report counts it.**  A machine that was just built
executes the instructions that the program begins with, up to the first that stops it or faults;
it has counted them, and the result of the run tells how they end. -/
theorem runUntilHalt_account (hm : Built config m) (program : Program) :
    ∃ executed, m.ExecutesAll program executed (m.runUntilHalt program).2 ∧
      Account program executed (m.runUntilHalt program).1 (m.runUntilHalt program).2 := by
  obtain rfl := hm.eq_powerOn
  obtain ⟨executed, hall, hrest⟩ := exists_executesAll (m := powerOn config) rfl program
  exact ⟨executed, hall, hall.account hrest⟩

/-- A program that goes from a known instruction over an unknown one to its end, and has a word more
behind that. -/
theorem runUntilHalt_account_unknown_between :
    Account #[0x01, 0, 5, 0, 0x42, 6, 7, 8, 0xFF, 0, 0, 0, 9]
      [⟨0x01, 0, 5, 0⟩, ⟨0x42, 6, 7, 8⟩, ⟨0xFF, 0, 0, 0⟩] (.ok .terminated)
      ((((powerOn { registers := 1 }).commit (.write 0 5)).commit .skip).commit
        (.stop .terminated)) := by
  have hbuilt : Built { registers := 1 } (powerOn { registers := 1 }) := .ofConfig rfl
  obtain ⟨executed, -, h⟩ :=
    runUntilHalt_account hbuilt #[0x01, 0, 5, 0, 0x42, 6, 7, 8, 0xFF, 0, 0, 0, 9]
  have hrun : (powerOn { registers := 1 }).runUntilHalt
      #[0x01, 0, 5, 0, 0x42, 6, 7, 8, 0xFF, 0, 0, 0, 9] =
      (.ok .terminated, (((powerOn { registers := 1 }).commit (.write 0 5)).commit .skip).commit
        (.stop .terminated)) := by
    rw [runUntilHalt_eq]
    change runUntilHalt ((powerOn { registers := 1 }).commit (.write 0 5)) _ = _
    rw [runUntilHalt_eq]
    change runUntilHalt (((powerOn { registers := 1 }).commit (.write 0 5)).commit .skip) _ = _
    rw [runUntilHalt_eq]
    rfl
  rw [hrun] at h
  -- three instructions were counted, and they are the first three
  obtain ⟨i₀, i₁, i₂, rfl⟩ := List.length_eq_three.1 h.length_eq
  obtain rfl : i₀ = ⟨0x01, 0, 5, 0⟩ := Option.some.inj (h.getElem?_eq 0 (by decide))
  obtain rfl : i₁ = ⟨0x42, 6, 7, 8⟩ := Option.some.inj (h.getElem?_eq 1 (by decide))
  obtain rfl : i₂ = ⟨0xFF, 0, 0, 0⟩ := Option.some.inj (h.getElem?_eq 2 (by decide))
  exact h

end Machine

end RegisterMachine
