import Mathlib.Tactic.ByContra
import RegisterMachine.Proofs.Effects

/-!
# The checks of a step

A step that is about to change the machine first makes a number of checks, in an order that depends
on the opcode.  Here these checks are written down as a list for each instruction, from its words
and the sizes of the machine alone, and a step is shown to fault exactly when one of them does not
pass, with the error of the first such one.

## Main definitions

* `Check` and `Check.Reports` : a condition with its error, and the error of the first condition in
  a list that does not hold;
* `Machine.checks` and `Machine.stepChecks` : the checks on an instruction, and on a step.

## Main statements

* `Machine.step_eq_error_iff_reports` : a step faults with the error of its first failing check.
-/

namespace RegisterMachine

/-- A condition for executing an instruction, with the error reported when it does not hold. -/
structure Check where
  /-- The condition. -/
  passes : Prop
  /-- The error reported otherwise. -/
  error : Error

/-- The position in the program that an error carries, if it carries one. -/
def Error.pc? : Error → Option Nat
  | .endOfProgram pc _ => some pc
  | .divisionByZero pc => some pc
  | .unknownOpcode _ pc => some pc
  | _ => none

namespace Check

/-- `e` is the error of the first check in the list that does not pass. -/
inductive Reports : List Check → Error → Prop
  | here {c : Check} {cs : List Check} : ¬ c.passes → Reports (c :: cs) c.error
  | later {c : Check} {cs : List Check} {e : Error} :
      c.passes → Reports cs e → Reports (c :: cs) e

/-- A computation fails exactly as this list of checks says. -/
def Guards {α : Type} (cs : List Check) (x : Except Error α) : Prop :=
  ∀ e, x = .error e ↔ Reports cs e

theorem reports_cons_iff {c : Check} {cs : List Check} {e : Error} :
    Reports (c :: cs) e ↔ ¬ c.passes ∧ e = c.error ∨ c.passes ∧ Reports cs e := by
  constructor
  · rintro (h | ⟨h, hcs⟩)
    · exact .inl ⟨h, rfl⟩
    · exact .inr ⟨h, hcs⟩
  · rintro (⟨h, rfl⟩ | ⟨h, hcs⟩)
    · exact .here h
    · exact .later h hcs

theorem not_reports_nil {e : Error} : ¬ Reports [] e := by
  rintro ⟨⟩

theorem reports_append_iff {cs ds : List Check} {e : Error} :
    Reports (cs ++ ds) e ↔ Reports cs e ∨ (∀ c ∈ cs, c.passes) ∧ Reports ds e := by
  induction cs with
  | nil => simp [not_reports_nil]
  | cons c cs ih =>
    rw [List.cons_append, reports_cons_iff, reports_cons_iff, ih, List.forall_mem_cons]
    by_cases hc : c.passes <;> simp [hc]

theorem exists_reports_iff {cs : List Check} :
    (∃ e, Reports cs e) ↔ ¬ ∀ c ∈ cs, c.passes := by
  induction cs with
  | nil => simp [not_reports_nil]
  | cons c cs ih =>
    simp only [reports_cons_iff, List.forall_mem_cons]
    by_cases hc : c.passes
    · simpa [hc] using ih
    · simp [hc]

/-- The error that is reported is that of a check in the list. -/
theorem Reports.exists_mem {cs : List Check} {e : Error} (h : Reports cs e) :
    ∃ c ∈ cs, c.error = e := by
  induction h with
  | here => exact ⟨_, List.mem_cons_self, rfl⟩
  | later _ _ ih =>
    obtain ⟨c, hc, rfl⟩ := ih
    exact ⟨c, List.mem_cons_of_mem _ hc, rfl⟩

/-! ### Computations that are guarded by checks -/

theorem Guards.forall_passes {α : Type} {cs : List Check} {a : α}
    (h : Guards cs (.ok a : Except Error α)) : ∀ c ∈ cs, c.passes := by
  by_contra hnot
  obtain ⟨e, he⟩ := exists_reports_iff.2 hnot
  cases (h e).2 he

theorem guards_ok {α : Type} (a : α) : Guards [] (.ok a : Except Error α) := fun e =>
  iff_of_false (fun h => by cases h) not_reports_nil

/-- What is guarded by one check succeeds when it passes, and reports its error otherwise. -/
theorem guards_singleton {α : Type} {c : Check} {x : Except Error α}
    (hok : c.passes → ∃ a, x = .ok a) (herror : ¬ c.passes → x = .error c.error) :
    Guards [c] x := by
  intro e
  rw [reports_cons_iff]
  by_cases hc : c.passes
  · obtain ⟨a, rfl⟩ := hok hc
    simp [hc, not_reports_nil]
  · rw [herror hc]
    simp [hc, eq_comm]

/-- The checks of a sequence are those of its parts, one list after the other. -/
theorem Guards.bind {α β : Type} {cs ds : List Check} {x : Except Error α}
    {f : α → Except Error β} (hx : Guards cs x) (hf : ∀ a, x = .ok a → Guards ds (f a)) :
    Guards (cs ++ ds) (x >>= f) := by
  intro e
  rw [reports_append_iff]
  cases x with
  | error e' =>
    have hfail : ¬ ∀ c ∈ cs, c.passes := exists_reports_iff.1 ⟨e', (hx e').1 rfl⟩
    -- the error of the first part hides the checks of the second
    have heq : (Except.error e' >>= f) = .error e ↔ (Except.error e' : Except Error α) = .error e :=
      ⟨fun h => by cases h; rfl, fun h => by cases h; rfl⟩
    rw [heq, hx e]
    constructor
    · intro h
      exact .inl h
    · rintro (h | ⟨hpass, -⟩)
      · exact h
      · exact absurd hpass hfail
  | ok a =>
    -- the first part passed, so what is reported comes from the second
    have hpass := hx.forall_passes
    have hno : ¬ Reports cs e := by
      intro h
      cases (hx e).2 h
    refine (hf a rfl e).trans ?_
    constructor
    · intro h
      exact .inr ⟨hpass, h⟩
    · rintro (h | ⟨-, h⟩)
      · exact absurd h hno
      · exact h

/-- A part that cannot fail needs no checks. -/
theorem Guards.bind_of_succeeds {α β : Type} {cs : List Check} {x : Except Error α}
    {f : α → Except Error β} (hx : Guards cs x) (hf : ∀ a, ∃ b, f a = .ok b) :
    Guards cs (x >>= f) := by
  have h : Guards (cs ++ []) (x >>= f) := hx.bind fun a _ => by
    obtain ⟨b, hb⟩ := hf a
    rw [hb]
    exact guards_ok b
  rwa [List.append_nil] at h

end Check

namespace Machine

/-! ### The table of checks -/

section Table

variable (m : Machine)

/-- Register `id` must exist. -/
def registerCheck (id : Word) : Check :=
  ⟨m.registers.HasCell id, .invalidRegister id⟩

/-- An operand that a register holds must name a register that exists. -/
def sourceCheck (value flag : Word) : Check :=
  ⟨flag ≠ 0 → m.registers.HasCell value, .invalidRegister value⟩

/-- The memory must have a cell at `address`. -/
def addressCheck (address : Word) : Check :=
  ⟨m.memory.HasCell address, .memoryOutOfBounds address m.memory.size⟩

/-- The operand that is divided by must not be zero. -/
def divisorCheck (value flag : Word) : Check :=
  ⟨¬ m.Resolves value flag 0, .divisionByZero m.pc⟩

/-- The stack must have room for a word. -/
def roomCheck : Check :=
  ⟨m.stack.height < m.stack.capacity, .stackOverflow m.stack.capacity⟩

/-- The stack must hold a word. -/
def topCheck : Check :=
  ⟨m.stack.height ≠ 0, .stackUnderflow⟩

/-- The checks on an instruction with this opcode and these operand words, in their order. -/
def opcodeChecks (arg₀ arg₁ arg₂ : Word) : Opcode → List Check
  | .nop | .halt | .finish => []
  | .move | .add | .sub | .mul | .xor | .or | .and =>
    [m.registerCheck arg₀, m.sourceCheck arg₁ arg₂]
  | .div => [m.registerCheck arg₀, m.sourceCheck arg₁ arg₂, m.divisorCheck arg₁ arg₂]
  | .push => [m.sourceCheck arg₀ arg₁, m.roomCheck]
  | .pop => [m.registerCheck arg₀, m.topCheck]
  | .store => [m.sourceCheck arg₁ arg₂, m.addressCheck arg₀]
  | .load => [m.addressCheck arg₀, m.registerCheck arg₁]

/-- The checks on an instruction; a word that is no opcode passes under the lenient policy only. -/
def checks (i : Instruction) : List Check :=
  match Opcode.decode? i.opcode with
  | some o => m.opcodeChecks i.arg₀ i.arg₁ i.arg₂ o
  | none => [⟨m.config.policy = .lenient, .unknownOpcode i.opcode m.pc⟩]

/-- The checks on a step: that four words are left, and then those on the instruction they make. -/
def stepChecks (program : Program) : List Check :=
  ⟨m.pc + 4 ≤ program.size, .endOfProgram m.pc (program.size - m.pc)⟩ ::
    match program.fetch? m.pc with
    | some i => m.checks i
    | none => []

end Table

/-! ### The checks guard the step -/

open Check

variable {m : Machine}

/-- Reading a cell is guarded by the check that it is there. -/
theorem guards_get? (b : Bank) (w : Word) (e : Error) :
    Guards [⟨b.HasCell w, e⟩]
      (match b.get? w with
      | some value => .ok value
      | none => .error e) := by
  apply guards_singleton
  · intro hcell
    cases hget : b.get? w with
    | none => exact absurd hcell (Bank.get?_eq_none_iff_not_hasCell.1 hget)
    | some value => exact ⟨value, rfl⟩
  · intro hcell
    rw [Bank.get?_eq_none_iff_not_hasCell.2 hcell]

theorem guards_readRegister (id : Word) : Guards [m.registerCheck id] (m.readRegister id) :=
  guards_get? m.registers id _

theorem guards_readMemory (address : Word) :
    Guards [m.addressCheck address] (m.readMemory address) :=
  guards_get? m.memory address _

theorem guards_resolve (value flag : Word) :
    Guards [m.sourceCheck value flag] (m.resolve (.ofWords value flag)) := by
  unfold Operand.ofWords
  split
  · rename_i hflag
    -- the check on a value in the instruction is vacuous
    have hpasses : (m.sourceCheck value flag).passes := fun hne => absurd hflag hne
    apply guards_singleton
    · intro _
      exact ⟨value, rfl⟩
    · intro hfails
      exact absurd hpasses hfails
  · rename_i hflag
    have heq : m.sourceCheck value flag = m.registerCheck value := by
      simp [sourceCheck, registerCheck, hflag]
    rw [heq]
    exact guards_readRegister value

theorem guards_compute {op : Arithmetic} (hop : op ≠ .div) (destination value flag : Word) :
    Guards [m.registerCheck destination, m.sourceCheck value flag]
      (m.effect (.compute op destination (.ofWords value flag))) := by
  refine (guards_readRegister destination).bind fun old _ => ?_
  exact (guards_resolve value flag).bind_of_succeeds fun v => ⟨_, if_neg fun h => hop h.1⟩

theorem guards_divide (destination value flag : Word) :
    Guards [m.registerCheck destination, m.sourceCheck value flag, m.divisorCheck value flag]
      (m.effect (.compute .div destination (.ofWords value flag))) := by
  refine (guards_readRegister destination).bind fun old _ => ?_
  refine (guards_resolve value flag).bind fun v hv => ?_
  -- the table asks for the value of the operand, which is what was resolved
  have hzero : (m.divisorCheck value flag).passes ↔ v ≠ 0 := by
    change ¬ m.Resolves value flag 0 ↔ v ≠ 0
    rw [← resolve_eq_ok_iff, hv, Except.ok.injEq]
  apply guards_singleton
  · intro hpasses
    have hne : v ≠ 0 := hzero.1 hpasses
    exact ⟨_, if_neg fun h => hne h.2⟩
  · intro hfails
    have heq : v = 0 := by
      by_contra hne
      exact hfails (hzero.2 hne)
    exact if_pos ⟨rfl, heq⟩

theorem guards_push (value flag : Word) :
    Guards [m.sourceCheck value flag, m.roomCheck]
      (m.effect (.push (.ofWords value flag))) := by
  refine (guards_resolve value flag).bind fun v _ => ?_
  apply guards_singleton
  · intro hroom
    have hnot : m.stack.isFull ≠ true := by
      rw [Stack.isFull_eq_false_iff.2 hroom]
      decide
    exact ⟨_, if_neg hnot⟩
  · intro hfails
    have hfull : m.stack.isFull = true := by
      by_contra hnot
      exact hfails (Stack.isFull_eq_false_iff.1 (eq_false_of_ne_true hnot))
    exact if_pos hfull

theorem guards_pop (destination : Word) :
    Guards [m.registerCheck destination, m.topCheck] (m.effect (.pop destination)) := by
  refine (guards_readRegister destination).bind fun old _ => ?_
  apply guards_singleton
  · intro hheight
    cases hpeek : m.stack.peek? with
    | none => exact absurd (Stack.peek?_eq_none_iff.1 hpeek) hheight
    | some value => exact ⟨_, rfl⟩
  · intro hfails
    have hempty : m.stack.height = 0 := not_not.1 hfails
    rw [Stack.peek?_eq_none_iff.2 hempty]
    rfl

theorem guards_store (address value flag : Word) :
    Guards [m.sourceCheck value flag, m.addressCheck address]
      (m.effect (.store address (.ofWords value flag))) := by
  refine (guards_resolve value flag).bind fun v _ => ?_
  exact (guards_readMemory address).bind_of_succeeds fun old => ⟨_, rfl⟩

theorem guards_load (address destination : Word) :
    Guards [m.addressCheck address, m.registerCheck destination]
      (m.effect (.load address destination)) := by
  refine (guards_readMemory address).bind fun value _ => ?_
  exact (guards_readRegister destination).bind_of_succeeds fun old => ⟨_, rfl⟩

theorem guards_operation (o : Opcode) (arg₀ arg₁ arg₂ : Word) :
    Guards (m.opcodeChecks arg₀ arg₁ arg₂ o) (m.effect (o.operation arg₀ arg₁ arg₂)) := by
  cases o with
  | nop | halt | finish => exact guards_ok _
  | move | add | sub | mul | xor | or | and =>
    exact guards_compute (by decide) arg₀ arg₁ arg₂
  | div => exact guards_divide arg₀ arg₁ arg₂
  | push => exact guards_push arg₀ arg₁
  | pop => exact guards_pop arg₀
  | store => exact guards_store arg₀ arg₁ arg₂
  | load => exact guards_load arg₀ arg₁

theorem guards_effectOf (i : Instruction) : Guards (m.checks i) (m.effectOf i) := by
  unfold checks effectOf Instruction.operation?
  cases Opcode.decode? i.opcode with
  | some o => exact guards_operation o i.arg₀ i.arg₁ i.arg₂
  | none =>
    apply guards_singleton
    · intro hlenient
      have hpolicy : m.config.policy = .lenient := hlenient
      exact ⟨.skip, by simp [hpolicy]⟩
    · intro hstrict
      cases hpolicy : m.config.policy with
      | lenient => exact absurd hpolicy hstrict
      | strict => rfl

theorem guards_plan (program : Program) : Guards (m.stepChecks program) (m.plan program) := by
  intro e
  rw [stepChecks, reports_cons_iff, plan]
  cases hi : program.fetch? m.pc with
  | some i =>
    have hfits := (Program.fetch?_eq_some_iff.1 hi).1
    simpa [hfits] using guards_effectOf i e
  | none =>
    have hshort : ¬ m.pc + 4 ≤ program.size := by
      rw [Program.fetch?_eq_none_iff] at hi
      omega
    simp [hshort, eq_comm]

/-! ### The positions in errors -/

theorem pc?_of_mem_opcodeChecks (arg₀ arg₁ arg₂ : Word) (o : Opcode) :
    ∀ c ∈ m.opcodeChecks arg₀ arg₁ arg₂ o, ∀ pc ∈ c.error.pc?, pc = m.pc := by
  cases o <;>
    simp [opcodeChecks, registerCheck, sourceCheck, addressCheck, divisorCheck, roomCheck,
      topCheck, Error.pc?]

theorem pc?_of_mem_checks (i : Instruction) :
    ∀ c ∈ m.checks i, ∀ pc ∈ c.error.pc?, pc = m.pc := by
  unfold checks
  split
  · exact pc?_of_mem_opcodeChecks i.arg₀ i.arg₁ i.arg₂ _
  · simp [Error.pc?]

/-- An error that carries a position carries that of the machine. -/
theorem pc?_of_reports {program : Program} {e : Error} (h : Reports (m.stepChecks program) e) :
    ∀ pc ∈ e.pc?, pc = m.pc := by
  obtain ⟨c, hc, rfl⟩ := h.exists_mem
  rcases List.mem_cons.1 hc with rfl | hc
  · rintro _ ⟨⟩
    rfl
  · -- without four words there are no checks but the first
    split at hc
    · exact pc?_of_mem_checks _ c hc
    · cases hc

/-! ### The faults of a step -/

/-- **Faults are exact and ordered**: a running machine faults exactly when a check on its step does
not pass, with the error of the first such check, and it is left as it was. -/
theorem step_eq_error_iff_reports {m m' : Machine} (hm : m.status = .running) {program : Program}
    {e : Error} :
    m.step program = (.error e, m') ↔ m' = m ∧ Reports (m.stepChecks program) e := by
  rw [step_eq_error_iff, guards_plan program e]
  simp [hm]

/-- A load from an address and into a register that are both missing reports the address. -/
theorem step_load_address_first :
    (powerOn { registers := 1, memory := 1, stack := 1 }).step #[0x0D, -1, 5, 0] =
      (.error (.memoryOutOfBounds (-1) 1),
        powerOn { registers := 1, memory := 1, stack := 1 }) := by
  refine (step_eq_error_iff_reports rfl).2 ⟨rfl, .later (by decide) ?_⟩
  exact .here fun hcell => absurd hcell.1 (by decide)

end Machine

end RegisterMachine
