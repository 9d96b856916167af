import RegisterMachine.Proofs.Faults
import RegisterMachine.Proofs.History
import RegisterMachine.Proofs.Image
import RegisterMachine.Proofs.InOrder
import RegisterMachine.Proofs.Resumption

/-!
# The end of a program

A machine that comes to the end of its program without an `end` faults there.  How many words were
left depends on the program alone: the machine only ever stands at multiples of four, and an image
that was loaded consists of whole instructions, so there is never a part of an instruction left of
it.  This is so even when images are exchanged between calls and the machine stands behind the end
of a shorter one.

## Main definitions

* `Program.Loaded` : the words of an image that was loaded;
* `Answer.error?` : the error that a call reports.

## Main statements

* `Machine.endOfProgram_of_step_eq_error` : where a machine reports the end of a program;
* `Machine.executesAll_of_runUntilHalt_eq_endOfProgram` : a run from the beginning to there has
  executed every whole instruction of the program;
* `Machine.endOfProgram_exact` : loaded images are never executed in part.
-/

namespace RegisterMachine

/-- The program is an image that was loaded, from words or from a file, under some configuration. -/
inductive Program.Loaded : Program → Prop
  | ofWords {words : Program} {config : Config} {rom : Rom} :
      Rom.ofWords words config = .ok rom → Loaded rom.words
  | ofBytes {bytes : ByteArray} {config : Config} {rom : Rom} :
      Rom.ofBytes bytes config = .ok rom → Loaded rom.words

/-- The error that a call reports. -/
def Answer.error? : Answer → Option Error
  | status (.error e) => some e
  | ended (.faulted e) => some e
  | _ => none

@[simp]
theorem Answer.error?_status_eq_some_iff {result : Except Error Status} {e : Error} :
    (status result).error? = some e ↔ result = .error e := by
  cases result <;> simp [error?]

@[simp]
theorem Answer.error?_ended_eq_some_iff {result : RunResult} {e : Error} :
    (ended result).error? = some e ↔ result = .faulted e := by
  cases result <;> simp [error?]

/-- **What is loaded consists of whole instructions.** -/
theorem Program.Loaded.size_mod {program : Program} (h : program.Loaded) :
    program.size % 4 = 0 := by
  cases h with
  | ofWords h =>
    obtain ⟨hwhole, -, heq⟩ := Rom.ofWords_eq_ok_iff.1 h
    rwa [heq]
  | @ofBytes bytes config rom h =>
    obtain ⟨hwhole, -, rfl⟩ := Rom.ofBytes_eq_ok_iff.1 h
    rw [Program.size_toBytes] at hwhole
    omega

namespace Machine

variable {config : Config} {m : Machine} {program : Program} {cs : List Call} {c : Call} {e : Error}
  {pc remaining : Nat}

/-! ### Where the end of a program is reported -/

/-- No instruction that was fetched reports the end of the program. -/
theorem error_ne_endOfProgram_of_mem_checks (m : Machine) (i : Instruction) :
    ∀ c ∈ m.checks i, ∀ pc remaining, c.error ≠ .endOfProgram pc remaining := by
  unfold checks
  split
  · rename_i o _
    cases o <;>
      simp [opcodeChecks, registerCheck, sourceCheck, addressCheck, divisorCheck, roomCheck,
        topCheck]
  · simp

/-- The end of a program is reported where no four words are left, with the number of those that
are. -/
theorem endOfProgram_of_step_eq_error
    (h : (m.step program).1 = .error (.endOfProgram pc remaining)) :
    m.status = .running ∧ program.size < m.pc + 4 ∧ pc = m.pc ∧
      remaining = program.size - m.pc := by
  have hstep : m.step program = (.error (.endOfProgram pc remaining), (m.step program).2) :=
    Prod.ext h rfl
  obtain ⟨-, hrunning, hplan⟩ := step_eq_error_iff.1 hstep
  rcases reports_stepChecks_iff.1 ((guards_plan program _).1 hplan) with
    ⟨hshort, heq⟩ | ⟨i, -, hreports⟩
  · cases heq
    exact ⟨hrunning, hshort, rfl, rfl⟩
  · obtain ⟨check, hcheck, heq⟩ := hreports.exists_mem
    exact absurd heq (m.error_ne_endOfProgram_of_mem_checks i check hcheck pc remaining)

/-- A call that reports an error leaves a machine whose next step faults with it. -/
theorem step_of_error?_call (hc : c.program? = some program) (h : (m.call c).1.error? = some e) :
    (m.call c).2.step program = (.error e, (m.call c).2) := by
  cases c with
  | step p =>
    cases hc
    rw [call, Answer.error?_status_eq_some_iff] at h
    have hstep : m.step program = (.error e, (m.step program).2) := Prod.ext h rfl
    obtain ⟨heq, -, -⟩ := step_eq_error_iff.1 hstep
    change (m.step program).2.step program = (.error e, (m.step program).2)
    rwa [heq] at hstep ⊢
  | runUntilHalt p =>
    cases hc
    rw [call, Answer.error?_status_eq_some_iff] at h
    have hrun : m.runUntilHalt program = (.error e, (m.runUntilHalt program).2) := Prod.ext h rfl
    obtain ⟨_, -, hstep⟩ := exists_advances_of_runUntilHalt_eq_error hrun
    exact hstep
  | run p cancel =>
    cases hc
    rw [call, Answer.error?_ended_eq_some_iff] at h
    have hrun : m.run program cancel = (.faulted e, (m.run program cancel).2) := Prod.ext h rfl
    obtain ⟨_, -, hstep⟩ := exists_advances_of_run_eq_faulted hrun
    exact hstep
  | reset => cases hc

/-! ### What was executed before -/

/-- **A run from the beginning of a program to its end has executed every whole instruction.** -/
theorem executesAll_of_runUntilHalt_eq_endOfProgram {m' : Machine} (hm : m.status = .running)
    (hpc : m.pc = 0) (h : m.runUntilHalt program = (.error (.endOfProgram pc remaining), m')) :
    m.ExecutesAll program program.instructions m' := by
  obtain ⟨_, -, hstep⟩ := exists_advances_of_runUntilHalt_eq_error h
  obtain ⟨-, hshort, -, -⟩ := endOfProgram_of_step_eq_error (congrArg Prod.fst hstep)
  obtain ⟨is, hall, -⟩ := exists_executesAll hm program
  simp only [h] at hall
  have hcounter := hall.counters.1
  suffices heq : is = program.instructions from heq ▸ hall
  -- up to the counter the two lists agree, and behind it neither has an instruction
  apply List.ext_getElem?
  intro j
  rw [Program.getElem?_instructions]
  by_cases hj : j < is.length
  · have hfetch := hall.getElem?_eq j hj
    rwa [hpc, Nat.zero_add] at hfetch
  · have hnone : program.fetch? (4 * j) = none := by
      rw [Program.fetch?_eq_none_iff]
      omega
    rw [List.getElem?_eq_none (by omega), hnone]

/-! ### Calls -/

/-- Calls that are all on one program have the end of a run from before them ahead. -/
theorem runUntilHalt_eq_of_error?_call (hcs : ∀ d ∈ cs, d.program? = some program)
    (hc : c.program? = some program) (h : ((m.calls cs).2.call c).1.error? = some e) :
    m.runUntilHalt program = (.error e, ((m.calls cs).2.call c).2) := by
  have hlast : ∀ d ∈ [c], d.program? = some program := by simpa using hc
  rw [← runUntilHalt_calls hcs, ← runUntilHalt_calls hlast]
  exact runUntilHalt_of_step_eq_error (step_of_error?_call hc h)

/-- **Loaded images are never executed in part.**  Whatever programs a machine was given since it
was switched on or reset, a call that reports the end of its program reports no more than three
words left, and none when the program was loaded; the machine then stands at the end of the program
or behind it.  When all calls were on one program, all its whole instructions have been executed,
each once, and the machine stands at its very end if it was loaded. -/
theorem endOfProgram_exact (hm : m.Fresh config) (hc : c.program? = some program)
    (herror : ((m.calls cs).2.call c).1.error? = some (.endOfProgram pc remaining)) :
    remaining ≤ 3 ∧
      (program.Loaded → remaining = 0 ∧ program.size ≤ pc) ∧
      ((∀ d ∈ cs, d.program? = some program) →
        m.ExecutesAll program program.instructions ((m.calls cs).2.call c).2 ∧
          (program.Loaded → pc = program.size)) := by
  obtain rfl := hm.eq_powerOn
  have hstep := step_of_error?_call hc herror
  obtain ⟨-, hshort, hpc, hremaining⟩ := endOfProgram_of_step_eq_error (congrArg Prod.fst hstep)
  refine ⟨by omega, fun hloaded => ?_, fun hcs => ?_⟩
  · -- the machine stands at a multiple of four, and so does the end of the program
    have hinvariant := ((Invariant.powerOn config).calls cs).call c
    have hmultiple := hinvariant.pc_eq
    have hsize := hloaded.size_mod
    omega
  · have hrun := runUntilHalt_eq_of_error?_call hcs hc herror
    have hall := executesAll_of_runUntilHalt_eq_endOfProgram (m := powerOn config) rfl rfl hrun
    refine ⟨hall, fun hloaded => ?_⟩
    have hcounter := hall.counters.1
    have hsize := hloaded.size_mod
    have hzero : (powerOn config).pc = 0 := rfl
    rw [Program.length_instructions] at hcounter
    omega

/-- A machine comes to the end of an image of two instructions, and is then given one of a single
instruction. -/
theorem endOfProgram_exact_exchanged :
    ((powerOn { registers := 1 }).call (.runUntilHalt #[0x01, 0, 5, 0, 0, 0, 0, 0])).1.error? =
        some (.endOfProgram 8 0) ∧
      (powerOn { registers := 1 }).ExecutesAll #[0x01, 0, 5, 0, 0, 0, 0, 0]
        [⟨0x01, 0, 5, 0⟩, ⟨0, 0, 0, 0⟩]
        (((powerOn { registers := 1 }).commit (.write 0 5)).commit .nothing) ∧
      (((powerOn { registers := 1 }).calls [.runUntilHalt #[0x01, 0, 5, 0, 0, 0, 0, 0]]).2.call
        (.step #[0, 0, 0, 0])).1.error? = some (.endOfProgram 8 0) ∧
      Array.size (α := Word) #[0, 0, 0, 0] ≤ 8 := by
  have hfresh : (powerOn { registers := 1 }).Fresh { registers := 1 } := .built (.ofConfig rfl)
  have hrun : (powerOn { registers := 1 }).runUntilHalt #[0x01, 0, 5, 0, 0, 0, 0, 0] =
      (.error (.endOfProgram 8 0),
        ((powerOn { registers := 1 }).commit (.write 0 5)).commit .nothing) := by
    rw [runUntilHalt_eq]
    change runUntilHalt ((powerOn { registers := 1 }).commit (.write 0 5)) _ = _
    rw [runUntilHalt_eq]
    change runUntilHalt (((powerOn { registers := 1 }).commit (.write 0 5)).commit .nothing) _ = _
    exact runUntilHalt_of_step_eq_error rfl
  have hfirst : ((powerOn { registers := 1 }).call
      (.runUntilHalt #[0x01, 0, 5, 0, 0, 0, 0, 0])).1.error? = some (.endOfProgram 8 0) := by
    rw [call, hrun]
    rfl
  have hsecond : (((powerOn { registers := 1 }).calls
      [.runUntilHalt #[0x01, 0, 5, 0, 0, 0, 0, 0]]).2.call (.step #[0, 0, 0, 0])).1.error? =
        some (.endOfProgram 8 0) := by
    simp only [calls, call, hrun]
    rfl
  have hrom : Rom.ofWords #[0, 0, 0, 0] {} = .ok ⟨#[0, 0, 0, 0], rfl⟩ := rfl
  have hbefore : (((powerOn { registers := 1 }).calls []).2.call
      (.runUntilHalt #[0x01, 0, 5, 0, 0, 0, 0, 0])).1.error? = some (.endOfProgram 8 0) := hfirst
  obtain ⟨-, -, hsame⟩ := endOfProgram_exact hfresh rfl hbefore
  obtain ⟨hall, -⟩ := hsame (by simp)
  obtain ⟨-, hloaded, -⟩ := endOfProgram_exact hfresh rfl hsecond
  have hinstructions : Program.instructions #[0x01, 0, 5, 0, 0, 0, 0, 0] =
      [⟨0x01, 0, 5, 0⟩, ⟨0, 0, 0, 0⟩] := rfl
  simp only [calls, call, hrun, hinstructions] at hall
  exact ⟨hfirst, hall, hsecond, (hloaded (.ofWords hrom)).2⟩

end Machine

end RegisterMachine
