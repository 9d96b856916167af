import RegisterMachine.Proofs.InOrder
import RegisterMachine.Proofs.InstructionSequence
import RegisterMachine.Proofs.Resumption

/-!
# Erasing nops

On a lenient machine a nop and a word that is no opcode have this in common that they leave
everything as it was, the counters apart.  They can be erased from a program: a machine on the
program and one on what is left of it hold the same words in the end.  While the one passes an
erased instruction the other one waits, so that the two stand at different positions of different
programs, and a fault of the one tells another position than that of the other.  Each position in
the erased program is that of one instruction of the original, and this is all that there is to
correct.

## Main definitions

* `Instruction.isIdle` and `Program.erased` : what is erased, and what is left of a program;
* `Program.origin` : where an instruction of the erased program stands in the original;
* `Machine.SameContents` and `Machine.Erases` : machines that hold the same words, and machines that
  stand at the same instruction of the two programs.

## Main statements

* `Program.fetch?_erased` : the instructions of the erased program, by their origin;
* `Machine.ExecutesAll.erased` : the erased program executes the instructions that were not erased;
* `Machine.erased_agrees` : how runs of the two programs go together.
-/

namespace RegisterMachine

/-! ### Erased programs -/

namespace Instruction

/-- The instruction is a nop, or its first word is no opcode. -/
def isIdle (i : Instruction) : Bool :=
  match Opcode.decode? i.opcode with
  | none => true
  | some .nop => true
  | some _ => false

/-- The index in a list of the instruction that has index `n` among those that are not idle.  It is
the length of the list where there are no more than `n` of them. -/
def origin : List Instruction → Nat → Nat
  | [], _ => 0
  | i :: is, n =>
    if i.isIdle then origin is n + 1
    else if n = 0 then 0
    else origin is (n - 1) + 1

theorem operation?_of_isIdle {i : Instruction} (h : i.isIdle = true) :
    i.operation? = none ∨ i.operation? = some .nop := by
  unfold isIdle at h
  unfold operation?
  split at h
  · rename_i hnone
    exact .inl (by rw [hnone, Option.map_none])
  · rename_i hnop
    exact .inr (by rw [hnop, Option.map_some]; rfl)
  · cases h

theorem decode?_ne_none_of_isIdle_eq_false {i : Instruction} (h : i.isIdle = false) :
    Opcode.decode? i.opcode ≠ none := by
  intro hnone
  rw [isIdle, hnone] at h
  cases h

theorem getElem?_filter_eq (is : List Instruction) (n : Nat) :
    (is.filter fun i => !i.isIdle)[n]? = is[origin is n]? := by
  induction is generalizing n with
  | nil => rfl
  | cons i is ih =>
    rw [origin]
    cases hidle : i.isIdle with
    | true =>
      rw [List.filter_cons_of_neg (by simp [hidle]), if_pos rfl, List.getElem?_cons_succ, ih]
    | false =>
      rw [List.filter_cons_of_pos (by simp [hidle]), if_neg Bool.false_ne_true]
      cases n with
      | zero => rfl
      | succ n => exact ih n

/-- As many instructions are kept before one that is kept, or before the end, as its index tells. -/
theorem origin_length_filter_take {is : List Instruction} {j : Nat} (hj : j ≤ is.length)
    (hkept : ∀ i, is[j]? = some i → i.isIdle = false) :
    origin is ((is.take j).filter fun i => !i.isIdle).length = j := by
  induction is generalizing j with
  | nil =>
    rw [List.length_nil] at hj
    obtain rfl := Nat.le_zero.1 hj
    rfl
  | cons i is ih =>
    cases j with
    | zero =>
      have hi : i.isIdle = false := hkept i rfl
      simp [origin, hi]
    | succ j =>
      have heq := ih (Nat.le_of_succ_le_succ hj) hkept
      cases hidle : i.isIdle <;> simp [origin, hidle, heq]

end Instruction

namespace Program

variable {program : Program} {pc : Nat} {i : Instruction}

/-- The program without its idle instructions; the words behind the last whole one are kept. -/
def erased (program : Program) : Program :=
  ofInstructions (program.instructions.filter fun i => !i.isIdle) program.remainder

/-- The position in a program of the instruction that the erased program has at position `pc`, or
that of its end. -/
def origin (program : Program) (pc : Nat) : Nat :=
  4 * Instruction.origin program.instructions (pc / 4)

/-- The position in the erased program of the first instruction that is kept from position `pc`
on, or that of its end. -/
def erasedPc (program : Program) (pc : Nat) : Nat :=
  4 * ((program.instructions.take (pc / 4)).filter fun i => !i.isIdle).length

/-- **What is fetched from the erased program** is what the program has at the origin. -/
theorem fetch?_erased (hpc : pc % 4 = 0) :
    program.erased.fetch? pc = program.fetch? (program.origin pc) := by
  have hbehind : program.remainder.length < 4 := by
    rw [length_remainder]
    omega
  have hfetch := fetch?_ofInstructions (program.instructions.filter fun i => !i.isIdle) hbehind
    (pc / 4)
  rw [Nat.mul_div_cancel' (Nat.dvd_of_mod_eq_zero hpc), Instruction.getElem?_filter_eq,
    getElem?_instructions] at hfetch
  exact hfetch

theorem origin_erasedPc (hpc : pc % 4 = 0) (hle : pc ≤ program.size)
    (hkept : ∀ i, program.fetch? pc = some i → i.isIdle = false) :
    program.origin (program.erasedPc pc) = pc := by
  rw [fetch?_eq_getElem?_instructions hpc] at hkept
  have hj : pc / 4 ≤ program.instructions.length := by
    rw [length_instructions]
    omega
  rw [origin, erasedPc, Nat.mul_div_cancel_left _ (by decide),
    Instruction.origin_length_filter_take hj hkept]
  omega

theorem erasedPc_mod (program : Program) (pc : Nat) : program.erasedPc pc % 4 = 0 :=
  Nat.mul_mod_right 4 _

/-- Where an instruction is kept, or none is left, both programs have the same there. -/
theorem fetch?_erased_erasedPc (hpc : pc % 4 = 0) (hle : pc ≤ program.size)
    (hkept : ∀ i, program.fetch? pc = some i → i.isIdle = false) :
    program.erased.fetch? (program.erasedPc pc) = program.fetch? pc := by
  rw [fetch?_erased (program.erasedPc_mod pc), origin_erasedPc hpc hle hkept]

@[simp]
theorem erasedPc_zero (program : Program) : program.erasedPc 0 = 0 := by
  simp [erasedPc]

theorem erasedPc_add_four (hpc : pc % 4 = 0) (hi : program.fetch? pc = some i) :
    program.erasedPc (pc + 4) = program.erasedPc pc + if i.isIdle then 0 else 4 := by
  have hnext : (pc + 4) / 4 = pc / 4 + 1 := by omega
  rw [fetch?_eq_getElem?_instructions hpc] at hi
  rw [erasedPc, erasedPc, hnext, List.take_add_one, hi, List.filter_append, List.length_append]
  cases hidle : i.isIdle <;> simp [hidle, Nat.mul_add]

/-- At the end of both programs the same number of words is left. -/
theorem size_erased_sub_erasedPc (hpc : pc % 4 = 0) (hle : pc ≤ program.size)
    (hend : program.size < pc + 4) :
    program.erased.size - program.erasedPc pc = program.size - pc := by
  have hall : program.instructions.take (pc / 4) = program.instructions := by
    apply List.take_of_length_le
    rw [length_instructions]
    omega
  rw [erasedPc, hall, erased, size_ofInstructions, length_remainder]
  omega

end Program

/-! ### Errors at other positions -/

/-- The error with `f pc` for the position `pc` that it carries, if it carries one. -/
def Error.mapPc (f : Nat → Nat) : Error → Error
  | .endOfProgram pc remaining => .endOfProgram (f pc) remaining
  | .divisionByZero pc => .divisionByZero (f pc)
  | .unknownOpcode opcode pc => .unknownOpcode opcode (f pc)
  | e => e

theorem Error.mapPc_mapPc (f g : Nat → Nat) (e : Error) :
    (e.mapPc f).mapPc g = e.mapPc fun pc => g (f pc) := by
  cases e <;> rfl

theorem Error.mapPc_eq_self {f : Nat → Nat} {e : Error} (h : ∀ pc ∈ e.pc?, f pc = pc) :
    e.mapPc f = e := by
  cases e with
  | endOfProgram pc => rw [mapPc, h pc rfl]
  | divisionByZero pc => rw [mapPc, h pc rfl]
  | unknownOpcode _ pc => rw [mapPc, h pc rfl]
  | _ => rfl

theorem Check.Reports.map {cs : List Check} {e : Error} (h : Reports cs e) (f : Error → Error) :
    Reports (cs.map fun c => ⟨c.passes, f c.error⟩) (f e) := by
  induction h with
  | here hc => exact .here hc
  | later hc _ ih => exact .later hc ih

namespace Machine

variable {config : Config} {m m' m₁ : Machine} {program : Program} {i : Instruction}
  {is : List Instruction} {result : Except Error Status}

/-! ### Instructions at other positions -/

/-- The same machine at another position and with other counts. -/
def withCounters (m : Machine) (pc steps skipped : Nat) : Machine :=
  { m with pc := pc, steps := steps, skipped := skipped }

/-- **Execution does not depend on the position**, nor on the counts. -/
theorem Executes.withCounters (h : m.Executes i m₁) (hknown : Opcode.decode? i.opcode ≠ none)
    (pc steps skipped : Nat) :
    (m.withCounters pc steps skipped).Executes i
      (m₁.withCounters (pc + 4) (steps + 1) skipped) := by
  cases h with
  | nop a b c => exact .nop a b c
  | compute hold hv hgives hupdates => exact .compute hold hv hgives hupdates
  | halt a b c => exact .halt a b c
  | push c hv hpushes => exact .push c hv hpushes
  | pop b c hpops hupdates => exact .pop b c hpops hupdates
  | store hv hupdates => exact .store hv hupdates
  | load c hv hupdates => exact .load c hv hupdates
  | finish a b c => exact .finish a b c
  | skip a b c hrange hlast => exact absurd (decode?_eq_none_of_no_row hrange hlast) hknown

/-- Only the errors of the checks tell the position. -/
theorem checks_withCounters (m : Machine) (pc steps skipped : Nat) (i : Instruction) :
    (m.withCounters pc steps skipped).checks i =
      (m.checks i).map fun c => ⟨c.passes, c.error.mapPc fun _ => pc⟩ := by
  unfold checks
  cases Opcode.decode? i.opcode with
  | none => rfl
  | some o => cases o <;> rfl

/-- An idle instruction changes nothing but the position and the counts. -/
theorem Executes.eq_of_isIdle (h : m.Executes i m₁) (hidle : i.isIdle = true) :
    ∃ skipped, m₁ = m.withCounters (m.pc + 4) (m.steps + 1) skipped := by
  obtain ⟨effect, heffect, rfl⟩ := executes_iff.1 h
  rcases effectOf_eq_ok_iff.1 heffect with ⟨operation, hoperation, heffect⟩ | ⟨-, -, rfl⟩
  · rcases Instruction.operation?_of_isIdle hidle with hnone | hnop
    · rw [hnone] at hoperation
      cases hoperation
    · rw [hnop] at hoperation
      cases hoperation
      cases heffect
      exact ⟨m.skipped, rfl⟩
  · exact ⟨m.skipped + 1, rfl⟩

theorem not_reports_of_isIdle (hlenient : m.config.policy = .lenient) (hidle : i.isIdle = true)
    (e : Error) : ¬ Check.Reports (m.checks i) e := by
  intro h
  have herror : m.effectOf i = .error e := (guards_effectOf i e).2 h
  rcases Instruction.operation?_of_isIdle hidle with hnone | hnop
  · have hok := effectOf_eq_ok_iff.2 (.inr ⟨hnone, hlenient, rfl⟩)
    rw [herror] at hok
    cases hok
  · rw [effectOf_of_operation?_eq_some hnop] at herror
    cases herror

/-! ### Machines on the two programs -/

/-- The machines hold the same words and have the same status. -/
structure SameContents (m m' : Machine) : Prop where
  /-- The registers are the same. -/
  registers_eq : m'.registers = m.registers
  /-- The memory is the same. -/
  memory_eq : m'.memory = m.memory
  /-- The stack is the same. -/
  stack_eq : m'.stack = m.stack
  /-- The status is the same. -/
  status_eq : m'.status = m.status

/-- `m'` stands in the erased program where the lenient machine `m` stands in the program, and has
met no unknown opcode. -/
structure Erases (program : Program) (m m' : Machine) : Prop where
  /-- The machine passes over unknown opcodes. -/
  lenient : m.config.policy = .lenient
  /-- It stands at an instruction or at the end of all instructions. -/
  pc_mod : m.pc % 4 = 0
  /-- It has not left the program. -/
  pc_le : m.pc ≤ program.size
  /-- The other machine is the same one, at the next instruction that is kept. -/
  eq_withCounters : ∃ steps, m' = m.withCounters (program.erasedPc m.pc) steps 0

namespace Erases

theorem powerOn (hlenient : config.policy = .lenient) (program : Program) :
    (Machine.powerOn config).Erases program (Machine.powerOn config) where
  lenient := hlenient
  pc_mod := rfl
  pc_le := Nat.zero_le _
  eq_withCounters := by
    refine ⟨0, ?_⟩
    show Machine.powerOn config = (Machine.powerOn config).withCounters (program.erasedPc 0) 0 0
    rw [Program.erasedPc_zero]
    rfl

theorem sameContents (h : m.Erases program m') : m.SameContents m' := by
  obtain ⟨steps, rfl⟩ := h.eq_withCounters
  exact ⟨rfl, rfl, rfl, rfl⟩

theorem skipped_eq_zero (h : m.Erases program m') : m'.skipped = 0 := by
  obtain ⟨steps, rfl⟩ := h.eq_withCounters
  rfl

/-- The machine on the erased program waits while an idle instruction is executed. -/
theorem executes_of_isIdle (h : m.Erases program m') (hi : program.fetch? m.pc = some i)
    (hexecutes : m.Executes i m₁) (hidle : i.isIdle = true) : m₁.Erases program m' := by
  obtain ⟨skipped, rfl⟩ := hexecutes.eq_of_isIdle hidle
  obtain ⟨steps, rfl⟩ := h.eq_withCounters
  have hfits := (Program.fetch?_eq_some_iff.1 hi).1
  have hpc := Program.erasedPc_add_four h.pc_mod hi
  rw [if_pos hidle, Nat.add_zero] at hpc
  have hmod := h.pc_mod
  refine ⟨h.lenient, ?_, hfits, steps, ?_⟩
  · show (m.pc + 4) % 4 = 0
    omega
  · show m.withCounters (program.erasedPc m.pc) steps 0 =
      m.withCounters (program.erasedPc (m.pc + 4)) steps 0
    exact congrArg (m.withCounters · steps 0) hpc.symm

/-- All other instructions are executed by both machines. -/
theorem executes (h : m.Erases program m') (hi : program.fetch? m.pc = some i)
    (hexecutes : m.Executes i m₁) (hkept : i.isIdle = false) :
    ∃ m₁', program.erased.fetch? m'.pc = some i ∧ m'.Executes i m₁' ∧ m₁.Erases program m₁' := by
  obtain ⟨steps, rfl⟩ := h.eq_withCounters
  have hfits := (Program.fetch?_eq_some_iff.1 hi).1
  have hpc := Program.erasedPc_add_four h.pc_mod hi
  rw [hkept, if_neg Bool.false_ne_true] at hpc
  have hmod := h.pc_mod
  have hknown := Instruction.decode?_ne_none_of_isIdle_eq_false hkept
  have hfetch := Program.fetch?_erased_erasedPc hmod h.pc_le fun i' hi' => by
    rw [hi] at hi'
    cases hi'
    exact hkept
  refine ⟨m₁.withCounters (program.erasedPc m.pc + 4) (steps + 1) 0, hfetch.trans hi,
    hexecutes.withCounters hknown _ steps 0, ?_⟩
  · have hnext := hexecutes.counters.1
    refine ⟨?_, by omega, by omega, steps + 1, ?_⟩
    · obtain ⟨effect, -, rfl⟩ := executes_iff.1 hexecutes
      rw [config_commit]
      exact h.lenient
    · rw [hnext, hpc]

end Erases

/-- **The erased program executes the instructions that were not erased**, in the same order. -/
theorem ExecutesAll.erased (h : m.ExecutesAll program is m₁) (hm : m.Erases program m') :
    ∃ m₁', m'.ExecutesAll program.erased (is.filter fun i => !i.isIdle) m₁' ∧
      m₁.Erases program m₁' := by
  induction h generalizing m' with
  | nil m => exact ⟨m', .nil m', hm⟩
  | @cons m₁ m₂ m₃ i is hrunning hi hexecutes _ ih =>
    cases hidle : i.isIdle with
    | true =>
      rw [List.filter_cons_of_neg (by simp [hidle])]
      exact ih (hm.executes_of_isIdle hi hexecutes hidle)
    | false =>
      rw [List.filter_cons_of_pos (by simp [hidle])]
      obtain ⟨m₂', hi', hexecutes', hm₂⟩ := hm.executes hi hexecutes hidle
      obtain ⟨m₃', hall, hm₃⟩ := ih hm₂
      have hrunning' : m'.status = .running := by
        rw [hm.sameContents.status_eq, hrunning]
      exact ⟨m₃', .cons hrunning' hi' hexecutes' hall, hm₃⟩

/-- **Where the one run ends, the other one does**, with the same result but for the position. -/
theorem Erases.atRest (h : m.Erases program m') (hrest : m.AtRest program result) :
    ∃ result', m'.AtRest program.erased result' ∧
      result = result'.mapError (Error.mapPc program.origin) := by
  have hstatus := h.sameContents.status_eq
  have hmod := h.pc_mod
  cases hrest with
  | stopped hne =>
    refine ⟨.ok m'.status, .stopped ?_, ?_⟩
    · rwa [hstatus]
    · rw [hstatus]
      rfl
  | @faulted e hrunning hreports =>
    obtain ⟨steps, rfl⟩ := h.eq_withCounters
    -- an instruction that faults is not idle, so it is the origin of the one that faults there
    have hkept : ∀ i, program.fetch? m.pc = some i → i.isIdle = false := by
      intro i hi
      rcases reports_stepChecks_iff.1 hreports with ⟨hshort, -⟩ | ⟨i', hi', hchecks⟩
      · rw [Program.fetch?_eq_none_iff.2 hshort] at hi
        cases hi
      · rw [hi] at hi'
        cases hi'
        by_contra hidle
        exact not_reports_of_isIdle h.lenient (eq_true_of_ne_false hidle) e hchecks
    have hfetch := Program.fetch?_erased_erasedPc hmod h.pc_le hkept
    refine ⟨.error (e.mapPc fun _ => program.erasedPc m.pc), .faulted hrunning ?_, ?_⟩
    · rw [reports_stepChecks_iff]
      rcases reports_stepChecks_iff.1 hreports with ⟨hshort, rfl⟩ | ⟨i, hi, hchecks⟩
      · left
        rw [← Program.fetch?_eq_none_iff] at hshort ⊢
        refine ⟨hfetch.trans hshort, ?_⟩
        rw [Program.fetch?_eq_none_iff] at hshort
        show Error.endOfProgram _ _ = .endOfProgram (program.erasedPc m.pc)
          (program.erased.size - program.erasedPc m.pc)
        rw [Program.size_erased_sub_erasedPc hmod h.pc_le hshort]
      · right
        refine ⟨i, hfetch.trans hi, ?_⟩
        rw [checks_withCounters]
        exact hchecks.map _
    · show Except.error e = .error ((e.mapPc _).mapPc program.origin)
      have hsame : ∀ pc ∈ e.pc?, program.origin (program.erasedPc m.pc) = pc := by
        intro pc hpc
        rw [Program.origin_erasedPc hmod h.pc_le hkept, pc?_of_reports hreports pc hpc]
      rw [Error.mapPc_mapPc, Error.mapPc_eq_self hsame]

/-! ### Runs of the two programs -/

theorem AtRest.runUntilHalt_eq (h : m.AtRest program result) :
    m.runUntilHalt program = (result, m) := by
  rw [Machine.runUntilHalt_eq]
  cases h with
  | stopped hne =>
    rw [step_of_status_ne hne]
    cases hstatus : m.status with
    | running => exact absurd hstatus hne
    | halted | terminated => rfl
  | @faulted e hrunning hreports =>
    rw [step_of_plan_eq_error hrunning ((guards_plan program e).2 hreports)]

/-- An execution that ends at rest is the run until the machine stops. -/
theorem ExecutesAll.runUntilHalt_eq (h : m.ExecutesAll program is m₁)
    (hrest : m₁.AtRest program result) : m.runUntilHalt program = (result, m₁) := by
  induction h with
  | nil m => exact hrest.runUntilHalt_eq
  | @cons m₁ m₂ m₃ i is hrunning hi hexecutes _ ih =>
    obtain ⟨effect, heffect, rfl⟩ := executes_iff.1 hexecutes
    have hplan : m₁.plan program = .ok effect := plan_eq_ok_iff.2 ⟨i, hi, heffect⟩
    rw [← runUntilHalt_step, step_of_plan_eq_ok hrunning hplan]
    exact ih hrest

/-- **Erasing nops.**  A lenient machine that was just built is run on a program and on the erased
program.  It executes the same instructions there, without the idle ones, and comes to the same
result, except that a fault tells the position in the other program.  In the end it holds the same
words and has the same status; it has counted as many instructions fewer as were idle, and none as
unknown. -/
theorem erased_agrees (hm : Built config m) (hlenient : config.policy = .lenient)
    (program : Program) :
    ∃ executed,
      m.ExecutesAll program executed (m.runUntilHalt program).2 ∧
      m.ExecutesAll program.erased (executed.filter fun i => !i.isIdle)
        (m.runUntilHalt program.erased).2 ∧
      (m.runUntilHalt program).1 =
        (m.runUntilHalt program.erased).1.mapError (Error.mapPc program.origin) ∧
      (m.runUntilHalt program).2.SameContents (m.runUntilHalt program.erased).2 ∧
      (m.runUntilHalt program).2.steps =
        (m.runUntilHalt program.erased).2.steps + executed.countP Instruction.isIdle ∧
      (m.runUntilHalt program.erased).2.skipped = 0 := by
  obtain rfl := hm.eq_powerOn
  obtain ⟨executed, hall, hrest⟩ := exists_executesAll (m := powerOn config) rfl program
  obtain ⟨m', hall', hm'⟩ := hall.erased (.powerOn hlenient program)
  obtain ⟨result', hrest', hresult⟩ := hm'.atRest hrest
  have hrun := hall'.runUntilHalt_eq hrest'
  refine ⟨executed, hall, ?_⟩
  rw [hrun]
  refine ⟨hall', hresult, hm'.sameContents, ?_, hm'.skipped_eq_zero⟩
  -- all instructions are counted on the one side, and all but the idle ones on the other
  obtain ⟨-, hsteps, -⟩ := hall.counters
  obtain ⟨-, hsteps', -⟩ := hall'.counters
  rw [hsteps, hsteps', ← List.countP_eq_length_filter, Nat.add_assoc]
  have hsum := List.length_eq_countP_add_countP Instruction.isIdle (l := executed)
  simp only [Bool.not_eq_true, Bool.decide_eq_false] at hsum
  omega

/-- A nop and an unknown opcode stand around a move and before a division by zero.  The division is
the second instruction of the erased program and the fourth one of the original; the last word is no
instruction and stays. -/
theorem erased_agrees_division :
    Program.erased #[0x00, 7, 7, 7, 0x01, 0, 5, 0, 0x1FF, 0, 0, 0, 0x05, 0, 0, 0, 0x42] =
        #[0x01, 0, 5, 0, 0x05, 0, 0, 0, 0x42] ∧
      ((powerOn { registers := 1 }).runUntilHalt
        #[0x00, 7, 7, 7, 0x01, 0, 5, 0, 0x1FF, 0, 0, 0, 0x05, 0, 0, 0, 0x42]).1 =
          .error (.divisionByZero 12) ∧
      ((powerOn { registers := 1 }).runUntilHalt
        #[0x00, 7, 7, 7, 0x01, 0, 5, 0, 0x1FF, 0, 0, 0, 0x05, 0, 0, 0, 0x42]).2.SameContents
          ((powerOn { registers := 1 }).commit (.write 0 5)) := by
  have herased :
      Program.erased #[0x00, 7, 7, 7, 0x01, 0, 5, 0, 0x1FF, 0, 0, 0, 0x05, 0, 0, 0, 0x42] =
        #[0x01, 0, 5, 0, 0x05, 0, 0, 0, 0x42] := by
    decide
  have hrun : (powerOn { registers := 1 }).runUntilHalt #[0x01, 0, 5, 0, 0x05, 0, 0, 0, 0x42] =
      (.error (.divisionByZero 4), (powerOn { registers := 1 }).commit (.write 0 5)) := by
    rw [runUntilHalt_eq]
    change runUntilHalt ((powerOn { registers := 1 }).commit (.write 0 5)) _ = _
    rw [runUntilHalt_eq]
    rfl
  have hbuilt : Built { registers := 1 } (powerOn { registers := 1 }) := .ofConfig rfl
  obtain ⟨executed, -, -, hresult, hsame, -, -⟩ := erased_agrees hbuilt rfl
    #[0x00, 7, 7, 7, 0x01, 0, 5, 0, 0x1FF, 0, 0, 0, 0x05, 0, 0, 0, 0x42]
  rw [herased, hrun] at hresult hsame
  exact ⟨herased, hresult, hsame⟩

end Machine

end RegisterMachine
