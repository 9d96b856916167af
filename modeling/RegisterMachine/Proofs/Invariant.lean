import Mathlib.Algebra.Group.Nat.Defs
import RegisterMachine.Proofs.Calls
import RegisterMachine.Proofs.Effects

/-!
# The machine invariant

What stays true of a machine through all calls, in whatever order and on whatever programs they are
made: the sizes of its parts are those it was built with, and its counters go together.  From this,
every number that passes a check is in range, and no counter outgrows 64 bits.

## Main definitions

* `Machine.Invariant` : the invariant, for the configuration that the machine was built with;
* `Machine.AsConfigured` : the part of it that holds of a machine whatever effects it is given;
* `Machine.InRange` and `Effect.InRange` : no index leaves the cells and slots there are;
* `Machine.Fits` : the counters, and their next values, take no more than 64 bits.

## Main statements

* `Machine.Invariant.step` and `Machine.Invariant.reset` : steps and resets keep the invariant;
* `Machine.invariant_calls` : it holds after all calls, and so do its consequences.
-/

namespace RegisterMachine

/-- What is always true of a machine that was built with `config`. -/
structure Machine.Invariant (config : Config) (m : Machine) : Prop where
  /-- The configuration never changes. -/
  config_eq : m.config = config
  /-- There are as many registers as configured. -/
  registers_size : m.registers.size = config.registers
  /-- There are as many words of memory as configured. -/
  memory_size : m.memory.size = config.memory
  /-- The stack has as many slots as configured. -/
  capacity_eq : m.stack.capacity = config.stack
  /-- The words on the stack have room there. -/
  height_le : m.stack.height ≤ m.stack.capacity
  /-- The counter has moved by four words for every instruction executed. -/
  pc_eq : m.pc = 4 * m.steps
  /-- Only executed instructions are counted as passed over. -/
  skipped_le : m.skipped ≤ m.steps
  /-- Under the strict policy none is passed over. -/
  skipped_eq_zero : config.policy = .strict → m.skipped = 0

/-- The parts of the machine have the sizes of its configuration, and its counter has moved by four
words for every instruction executed. -/
structure Machine.AsConfigured (m : Machine) : Prop where
  /-- There are as many registers as configured. -/
  registers_size : m.registers.size = m.config.registers
  /-- There are as many words of memory as configured. -/
  memory_size : m.memory.size = m.config.memory
  /-- The stack has as many slots as configured. -/
  capacity_eq : m.stack.capacity = m.config.stack
  /-- The counter and the number of instructions executed go together. -/
  pc_eq : m.pc = 4 * m.steps

/-- All cells and slots that an effect goes to are there; `height` is that of the stack. -/
def Effect.InRange (config : Config) (height : Nat) : Effect → Prop
  | .nothing => True
  | .write id _ => 0 ≤ id.toInt ∧ id.toInt < config.registers
  | .store address _ => 0 ≤ address.toInt ∧ address.toInt < config.memory
  | .push _ => height < config.stack
  | .pop id _ => 0 ≤ id.toInt ∧ id.toInt < config.registers ∧ 0 < height ∧ height ≤ config.stack
  | .stop _ => True
  | .skip => True

/-- Every index that the machine reads at or writes to is one of a cell or slot that is there. -/
structure Machine.InRange (config : Config) (m : Machine) : Prop where
  /-- The registers that are read. -/
  register : ∀ w i, m.registers.index? w = some i →
    i < config.registers ∧ i < m.registers.cells.size
  /-- The memory cells that are read. -/
  memory : ∀ w i, m.memory.index? w = some i → i < config.memory ∧ i < m.memory.cells.size
  /-- The slot on top. -/
  top : m.stack.height ≠ 0 → m.stack.height - 1 < config.stack ∧ ∃ v, m.stack.peek? = some v
  /-- What an instruction writes, once it has passed the checks. -/
  effect : ∀ program effect, m.plan program = .ok effect → effect.InRange config m.stack.height

/-- The counters, and the values that the next instruction gives them, fit in 64 bits. -/
structure Machine.Fits (m : Machine) : Prop where
  /-- The position behind the next instruction. -/
  pc : m.pc + 4 < 2 ^ 64
  /-- One more instruction. -/
  steps : m.steps + 1 < 2 ^ 64
  /-- One more instruction passed over. -/
  skipped : m.skipped + 1 < 2 ^ 64

namespace Machine

variable {config : Config} {m : Machine} {effect : Effect} {program : Program}

/-! ### What an effect keeps -/

@[simp]
theorem size_registers_commit (m : Machine) (effect : Effect) :
    (m.commit effect).registers.size = m.registers.size := by
  cases effect <;> simp [commit]

@[simp]
theorem size_memory_commit (m : Machine) (effect : Effect) :
    (m.commit effect).memory.size = m.memory.size := by
  cases effect <;> simp [commit]

@[simp]
theorem capacity_commit (m : Machine) (effect : Effect) :
    (m.commit effect).stack.capacity = m.stack.capacity := by
  cases effect <;> simp [commit]

theorem skipped_commit (m : Machine) (effect : Effect) :
    (m.commit effect).skipped = if effect = .skip then m.skipped + 1 else m.skipped := by
  cases effect <;> simp [commit]

theorem asConfigured_powerOn (config : Config) : (powerOn config).AsConfigured where
  registers_size := Bank.size_zeros _
  memory_size := Bank.size_zeros _
  capacity_eq := rfl
  pc_eq := rfl

theorem AsConfigured.commit (hm : m.AsConfigured) (effect : Effect) :
    (m.commit effect).AsConfigured where
  registers_size := by rw [size_registers_commit, config_commit, hm.registers_size]
  memory_size := by rw [size_memory_commit, config_commit, hm.memory_size]
  capacity_eq := by rw [capacity_commit, config_commit, hm.capacity_eq]
  pc_eq := by
    rw [pc_commit, steps_commit, hm.pc_eq]
    omega

/-! ### Planned effects -/

theorem effect_ne_ok_skip (m : Machine) (operation : Operation) :
    m.effect operation ≠ .ok .skip := by
  intro h
  cases operation with
  | nop | halt | finish => cases h
  | compute =>
    obtain ⟨_, _, _, _, _, ⟨⟩⟩ := effect_compute_eq_ok_iff.1 h
  | push =>
    obtain ⟨_, _, _, ⟨⟩⟩ := effect_push_eq_ok_iff.1 h
  | pop =>
    obtain ⟨_, _, _, _, ⟨⟩⟩ := effect_pop_eq_ok_iff.1 h
  | store =>
    obtain ⟨_, _, _, _, ⟨⟩⟩ := effect_store_eq_ok_iff.1 h
  | load =>
    obtain ⟨_, _, _, _, ⟨⟩⟩ := effect_load_eq_ok_iff.1 h

/-- Only the lenient policy passes over words that are no opcodes. -/
theorem policy_of_plan_eq_ok_skip (h : m.plan program = .ok .skip) :
    m.config.policy = .lenient := by
  obtain ⟨i, -, heffect⟩ := plan_eq_ok_iff.1 h
  rcases effectOf_eq_ok_iff.1 heffect with ⟨operation, -, hskip⟩ | ⟨-, hlenient, -⟩
  · exact absurd hskip (m.effect_ne_ok_skip operation)
  · exact hlenient

namespace Invariant

theorem inRange_effect (hm : m.Invariant config) {operation : Operation}
    (h : m.effect operation = .ok effect) : effect.InRange config m.stack.height := by
  have hheight := hm.height_le
  rw [hm.capacity_eq] at hheight
  have hregister {id v : Word} (hv : m.registers.get? id = some v) :
      0 ≤ id.toInt ∧ id.toInt < config.registers := by
    rw [← hm.registers_size]
    exact Bank.hasCell_of_get?_eq_some hv
  cases operation with
  | nop | halt | finish =>
    cases h
    trivial
  | compute =>
    obtain ⟨old, _, hold, _, _, rfl⟩ := effect_compute_eq_ok_iff.1 h
    exact hregister hold
  | push =>
    obtain ⟨_, _, hroom, rfl⟩ := effect_push_eq_ok_iff.1 h
    rwa [hm.capacity_eq] at hroom
  | pop =>
    obtain ⟨old, _, hold, hpeek, rfl⟩ := effect_pop_eq_ok_iff.1 h
    have hne : m.stack.height ≠ 0 := by
      intro hzero
      rw [Stack.peek?_eq_none_iff.2 hzero] at hpeek
      cases hpeek
    obtain ⟨hid, hlt⟩ := hregister hold
    exact ⟨hid, hlt, Nat.pos_of_ne_zero hne, hheight⟩
  | store =>
    obtain ⟨_, old, _, hold, rfl⟩ := effect_store_eq_ok_iff.1 h
    have hcell := Bank.hasCell_of_get?_eq_some hold
    rwa [Bank.HasCell, hm.memory_size] at hcell
  | load =>
    obtain ⟨_, old, _, hold, rfl⟩ := effect_load_eq_ok_iff.1 h
    exact hregister hold

theorem inRange_plan (hm : m.Invariant config) (h : m.plan program = .ok effect) :
    effect.InRange config m.stack.height := by
  obtain ⟨i, -, heffect⟩ := plan_eq_ok_iff.1 h
  rcases effectOf_eq_ok_iff.1 heffect with ⟨operation, -, heffect⟩ | ⟨-, -, rfl⟩
  · exact hm.inRange_effect heffect
  · trivial

/-! ### The invariant is kept -/

theorem powerOn (config : Config) : (Machine.powerOn config).Invariant config where
  config_eq := rfl
  registers_size := Bank.size_zeros config.registers
  memory_size := Bank.size_zeros config.memory
  capacity_eq := rfl
  height_le := Nat.zero_le _
  pc_eq := rfl
  skipped_le := Nat.zero_le _
  skipped_eq_zero _ := rfl

theorem commit (hm : m.Invariant config) (h : m.plan program = .ok effect) :
    (m.commit effect).Invariant config where
  config_eq := by rw [config_commit, hm.config_eq]
  registers_size := by rw [size_registers_commit, hm.registers_size]
  memory_size := by rw [size_memory_commit, hm.memory_size]
  capacity_eq := by rw [capacity_commit, hm.capacity_eq]
  height_le := Stack.height_le_capacity _
  pc_eq := by
    rw [pc_commit, steps_commit, hm.pc_eq]
    omega
  skipped_le := by
    have hle := hm.skipped_le
    rw [skipped_commit, steps_commit]
    split <;> omega
  skipped_eq_zero hstrict := by
    -- what the strict policy lets pass is no skip
    have hne : effect ≠ .skip := by
      rintro rfl
      have hlenient := policy_of_plan_eq_ok_skip h
      rw [hm.config_eq, hstrict] at hlenient
      cases hlenient
    rw [skipped_commit, if_neg hne, hm.skipped_eq_zero hstrict]

/-- **Every step keeps the invariant**, on whatever program it is made. -/
theorem step (hm : m.Invariant config) (program : Program) :
    (m.step program).2.Invariant config := by
  rcases m.step_eq_or_commit program with heq | ⟨effect, hplan, heq⟩
  · rwa [heq]
  · rw [heq]
    exact hm.commit hplan

theorem reset (hm : m.Invariant config) : m.reset.Invariant config where
  config_eq := hm.config_eq
  registers_size := (Bank.size_clear m.registers).trans hm.registers_size
  memory_size := (Bank.size_clear m.memory).trans hm.memory_size
  capacity_eq := hm.capacity_eq
  height_le := Nat.zero_le _
  pc_eq := rfl
  skipped_le := Nat.zero_le _
  skipped_eq_zero _ := rfl

theorem call (hm : m.Invariant config) (c : Call) : (m.call c).2.Invariant config :=
  call_induction (fun program _ _ hm => hm.step program) (fun _ hm => hm.reset) hm

theorem calls (hm : m.Invariant config) (cs : List Call) : (m.calls cs).2.Invariant config :=
  calls_induction (fun _ _ program _ _ hm => hm.step program) (fun _ hm => hm.reset) hm

/-! ### What follows from it -/

theorem inRange (hm : m.Invariant config) : m.InRange config where
  register w i h := by
    obtain ⟨-, hlt⟩ := Bank.index?_eq_some_iff.1 h
    exact ⟨hm.registers_size ▸ hlt, hlt⟩
  memory w i h := by
    obtain ⟨-, hlt⟩ := Bank.index?_eq_some_iff.1 h
    exact ⟨hm.memory_size ▸ hlt, hlt⟩
  top hne := by
    have hheight := hm.height_le
    rw [hm.capacity_eq] at hheight
    refine ⟨by omega, Option.ne_none_iff_exists'.1 fun hnone => ?_⟩
    exact hne (Stack.peek?_eq_none_iff.1 hnone)
  effect _ _ h := hm.inRange_plan h

theorem fits (hm : m.Invariant config) (hpc : m.pc < 2 ^ 61) : m.Fits := by
  have hsteps := hm.pc_eq
  have hskipped := hm.skipped_le
  constructor <;> omega

end Invariant

/-- The counter has only ever passed words of a program. -/
theorem pc_step_lt {bound : Nat} (hm : m.pc < bound) (hprogram : program.size < bound) :
    (m.step program).2.pc < bound := by
  rcases m.step_eq_or_commit program with heq | ⟨effect, hplan, heq⟩
  · rwa [heq]
  · have hle := pc_add_le_of_plan_eq_ok hplan
    rw [heq, pc_commit]
    omega

theorem pc_calls_lt {bound : Nat} {cs : List Call}
    (hcs : ∀ c ∈ cs, ∀ program ∈ c.program?, program.size < bound) (hm : m.pc < bound) :
    (m.calls cs).2.pc < bound := by
  refine calls_induction (P := fun m => m.pc < bound) (fun c hc program hprogram m hm => ?_)
    (fun m hm => ?_) hm
  · exact pc_step_lt hm (hcs c hc program hprogram)
  · exact Nat.zero_lt_of_lt hm

/-- **The machine invariant.**  However a machine is used after it was built, with whatever programs
and cancels, and whether or not instructions fault, the invariant holds and no index is out of
range.  On programs of less than `2 ^ 61` words no counter outgrows 64 bits.  The machines inside a
run are among those that this is about, by `Advances.calls_replicate`. -/
theorem invariant_calls (hm : Built config m) (cs : List Call) :
    (m.calls cs).2.Invariant config ∧ (m.calls cs).2.InRange config ∧
      ((∀ c ∈ cs, ∀ program ∈ c.program?, program.size < 2 ^ 61) → (m.calls cs).2.Fits) := by
  obtain rfl := hm.eq_powerOn
  have hinvariant : ((powerOn config).calls cs).2.Invariant config :=
    calls_induction (fun _ _ program _ _ hm => hm.step program) (fun _ hm => hm.reset)
      (.powerOn config)
  refine ⟨hinvariant, hinvariant.inRange, fun hcs => hinvariant.fits ?_⟩
  exact pc_calls_lt hcs (Nat.two_pow_pos 61)

/-- A strict machine on a program with an unknown opcode behind a push, and on another one that is
too short. -/
theorem invariant_calls_strict :
    ((powerOn { policy := .strict }).calls
        [.runUntilHalt #[0x0A, 7, 0, 0, 0x42, 0, 0, 0], .reset, .run #[0] (.atFetch 3)]).2.Invariant
        { policy := .strict } ∧
      ((powerOn { policy := .strict }).calls
        [.runUntilHalt #[0x0A, 7, 0, 0, 0x42, 0, 0, 0], .reset,
          .run #[0] (.atFetch 3)]).2.Fits := by
  have hbuilt : Built { policy := .strict } (powerOn { policy := .strict }) := .ofConfig rfl
  obtain ⟨hinvariant, -, hfits⟩ := invariant_calls hbuilt
    [.runUntilHalt #[0x0A, 7, 0, 0, 0x42, 0, 0, 0], .reset, .run #[0] (.atFetch 3)]
  refine ⟨hinvariant, hfits ?_⟩
  simp [Call.program?]

end Machine

end RegisterMachine
