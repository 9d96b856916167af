import Mathlib.Data.Set.Function
import Mathlib.Order.Interval.Set.Defs
import RegisterMachine.Proofs.History
import RegisterMachine.Proofs.InstructionSequence

/-!
# Numbers of cells

Registers and words of memory are numbered by signed words.  The limits on the sizes of a machine
are so small that this numbers every cell: each by one word, from zero on, and no other word numbers
any.  So every cell can be written, and read, by one instruction with its number as an operand.  A
size is refused just because it is zero or beyond its limit, and the first such size is named.

## Main definitions

* `Word.below` : the words from zero on, so many of them;
* `Bank.NumberedBelow` : a bank whose cells are numbered by these words, each by one;
* `Machine.SucceedsWith` : what an instruction makes of a machine;
* `Machine.Addressable` : every cell of a machine has its number.

## Main statements

* `Bank.numberedBelow_size` : a bank of at most `2 ^ 31` cells is numbered by the words below its
  size;
* `Machine.Invariant.addressable` : so are the registers and the memory of every machine;
* `Machine.ofConfig_eq_error_iff` : the error for a configuration names the first size out of
  limits;
* `Machine.accepted_sizes_addressable` : both, for configurations that are accepted and refused.
-/

namespace RegisterMachine

/-- The words `0`, …, `n - 1`. -/
def Word.below (n : Nat) : Set Word :=
  {w | 0 ≤ w.toInt ∧ w.toInt < n}

/-- The words below `n` number the cells of the bank, each of them one cell and each cell by one of
them; no other word numbers a cell. -/
structure Bank.NumberedBelow (b : Bank) (n : Nat) : Prop where
  /-- Words below `n` and cells correspond to each other. -/
  bijOn : Set.BijOn b.index? (Word.below n) (some '' Set.Iio b.cells.size)
  /-- Negative words and words from `n` on have no cell. -/
  index?_eq_none : ∀ w ∉ Word.below n, b.index? w = none

namespace Bank

variable {b : Bank} {n : Nat} {w v : Word}

theorem mem_below_size_iff : w ∈ Word.below b.size ↔ b.HasCell w :=
  Iff.rfl

/-- **A bank that is not too large is numbered by the words below its size.** -/
theorem numberedBelow_size (hsize : b.size ≤ 2 ^ 31) : b.NumberedBelow b.size := by
  refine ⟨⟨?mapsTo, ?injOn, ?surjOn⟩, ?other⟩
  case mapsTo =>
    rintro w ⟨hw, hlt⟩
    refine ⟨w.toInt.toNat, ?_, (index?_eq_some_iff.2 (by omega)).symm⟩
    change w.toInt.toNat < b.size
    omega
  case injOn =>
    rintro w ⟨hw, hlt⟩ w' - heq
    have hcell : b.index? w = some w.toInt.toNat := index?_eq_some_iff.2 (by omega)
    obtain ⟨hw', -⟩ := index?_eq_some_iff.1 (heq.symm.trans hcell)
    exact Int32.toInt_inj.1 (by omega)
  case surjOn =>
    rintro _ ⟨j, hj, rfl⟩
    change j < b.size at hj
    -- the position of the cell is not too large for a word
    have hvalue : (Int32.ofInt j).toInt = j := Int32.toInt_ofInt_of_le (by omega) (by omega)
    refine ⟨Int32.ofInt j, ⟨by omega, by omega⟩, index?_eq_some_iff.2 ⟨hvalue, hj⟩⟩
  case other =>
    intro w hw
    rw [index?_eq_none_iff]
    by_contra hcell
    exact hw ⟨by omega, by omega⟩

theorem exists_updates (hw : b.HasCell w) (v : Word) : ∃ b', b.Updates w v b' :=
  ⟨b.set w v, updates_iff.2 ⟨exists_get?_eq_some_iff.2 hw, rfl⟩⟩

theorem exists_holds (hw : b.HasCell w) : ∃ u, b.Holds w u := by
  obtain ⟨u, hu⟩ := exists_get?_eq_some_iff.2 hw
  exact ⟨u, get?_eq_some_iff.1 hu⟩

end Bank

theorem Program.exists_fetch?_eq_some (pc : Nat) (i : Instruction) :
    ∃ program : Program, program.fetch? pc = some i := by
  have hsize : pc + 4 ≤ Array.size (Array.replicate (pc + 4) (0 : Word)) := by simp
  exact ⟨Program.overwrite (Array.replicate (pc + 4) 0) pc i, fetch?_overwrite_self hsize⟩

namespace Machine

variable {config : Config} {m m' : Machine} {i : Instruction} {P : Machine → Prop} {w : Word}

/-- The instruction passes all checks of the machine and makes one with the property `P` of it.  If
the machine runs, a step does this on every program that has the instruction at its position, and
there are such programs. -/
def SucceedsWith (m : Machine) (i : Instruction) (P : Machine → Prop) : Prop :=
  ∃ m', m.Executes i m' ∧ P m' ∧ (∃ program : Program, program.fetch? m.pc = some i) ∧
    (m.status = .running → ∀ program : Program, program.fetch? m.pc = some i →
      m.step program = (.ok .running, m'))

/-- Every register and every word of memory of a machine with this configuration has a number, and
some instruction that writes it and some that reads it, by way of the first word of memory or the
first register. -/
structure Addressable (config : Config) (m : Machine) : Prop where
  /-- The numbers of the registers. -/
  registers : m.registers.NumberedBelow config.registers
  /-- The numbers of the words of memory. -/
  memory : m.memory.NumberedBelow config.memory
  /-- Any other number of a register is an error. -/
  noRegister : ∀ w ∉ Word.below config.registers, m.readRegister w = .error (.invalidRegister w)
  /-- Any other address is an error. -/
  noAddress : ∀ w ∉ Word.below config.memory,
    m.readMemory w = .error (.memoryOutOfBounds w config.memory)
  /-- Each register can be written. -/
  writesRegister : ∀ w ∈ Word.below config.registers, ∀ v, ∃ i,
    m.SucceedsWith i fun m' => m.registers.Updates w v m'.registers
  /-- Each register can be read. -/
  readsRegister : ∀ w ∈ Word.below config.registers, ∃ i,
    m.SucceedsWith i fun m' => ∃ v, m.registers.Holds w v ∧ m.memory.Updates 0 v m'.memory
  /-- Each word of memory can be written. -/
  writesMemory : ∀ w ∈ Word.below config.memory, ∀ v, ∃ i,
    m.SucceedsWith i fun m' => m.memory.Updates w v m'.memory
  /-- Each word of memory can be read. -/
  readsMemory : ∀ w ∈ Word.below config.memory, ∃ i,
    m.SucceedsWith i fun m' => ∃ v, m.memory.Holds w v ∧ m.registers.Updates 0 v m'.registers

/-! ### Instructions on one cell -/

theorem succeedsWith_of_executes (h : m.Executes i m') (hstatus : m'.status = m.status)
    (hP : P m') : m.SucceedsWith i P := by
  refine ⟨m', h, hP, Program.exists_fetch?_eq_some m.pc i, fun hrunning program hfetch => ?_⟩
  obtain ⟨-, hwords⟩ := Program.fetch?_eq_some_iff.1 hfetch
  rw [step_eq_ok_iff_executes hrunning]
  exact ⟨(hstatus.trans hrunning).symm, i, hwords.1, hwords.2.1, hwords.2.2.1, hwords.2.2.2, h⟩

theorem exists_writesRegister (hw : m.registers.HasCell w) (v : Word) :
    ∃ i, m.SucceedsWith i fun m' => m.registers.Updates w v m'.registers := by
  obtain ⟨old, hold⟩ := Bank.exists_holds hw
  obtain ⟨registers, hupdates⟩ := Bank.exists_updates hw v
  have hgives : Arithmetic.move.Gives old v v := Arithmetic.gives_iff.2 ⟨by simp, rfl⟩
  have hexecutes : m.Executes ⟨Arithmetic.move.code, w, v, 0⟩
      { m.advanced with registers := registers } :=
    .compute hold (.inl ⟨rfl, rfl⟩) hgives hupdates
  exact ⟨_, succeedsWith_of_executes hexecutes rfl hupdates⟩

theorem exists_readsRegister (hw : m.registers.HasCell w) (h₀ : m.memory.HasCell 0) :
    ∃ i, m.SucceedsWith i fun m' =>
      ∃ v, m.registers.Holds w v ∧ m.memory.Updates 0 v m'.memory := by
  obtain ⟨v, hv⟩ := Bank.exists_holds hw
  obtain ⟨memory, hupdates⟩ := Bank.exists_updates h₀ v
  have hexecutes : m.Executes ⟨0x0C, 0, w, 1⟩ { m.advanced with memory := memory } :=
    .store (.inr ⟨by decide, hv⟩) hupdates
  exact ⟨_, succeedsWith_of_executes hexecutes rfl ⟨v, hv, hupdates⟩⟩

theorem exists_writesMemory (hw : m.memory.HasCell w) (v : Word) :
    ∃ i, m.SucceedsWith i fun m' => m.memory.Updates w v m'.memory := by
  obtain ⟨memory, hupdates⟩ := Bank.exists_updates hw v
  have hexecutes : m.Executes ⟨0x0C, w, v, 0⟩ { m.advanced with memory := memory } :=
    .store (.inl ⟨rfl, rfl⟩) hupdates
  exact ⟨_, succeedsWith_of_executes hexecutes rfl hupdates⟩

theorem exists_readsMemory (hw : m.memory.HasCell w) (h₀ : m.registers.HasCell 0) :
    ∃ i, m.SucceedsWith i fun m' =>
      ∃ v, m.memory.Holds w v ∧ m.registers.Updates 0 v m'.registers := by
  obtain ⟨v, hv⟩ := Bank.exists_holds hw
  obtain ⟨registers, hupdates⟩ := Bank.exists_updates h₀ v
  have hexecutes : m.Executes ⟨0x0D, w, 0, 0⟩ { m.advanced with registers := registers } :=
    .load 0 hv hupdates
  exact ⟨_, succeedsWith_of_executes hexecutes rfl ⟨v, hv, hupdates⟩⟩

/-! ### Machines of accepted sizes -/

theorem readRegister_eq_error_iff {e : Error} :
    m.readRegister w = .error e ↔ ¬ m.registers.HasCell w ∧ e = .invalidRegister w := by
  rw [← Bank.get?_eq_none_iff_not_hasCell, readRegister]
  cases m.registers.get? w <;> simp [eq_comm]

theorem readMemory_eq_error_iff {e : Error} :
    m.readMemory w = .error e ↔
      ¬ m.memory.HasCell w ∧ e = .memoryOutOfBounds w m.memory.size := by
  rw [← Bank.get?_eq_none_iff_not_hasCell, readMemory]
  cases m.memory.get? w <;> simp [eq_comm]

/-- **Every cell of a machine has its number.** -/
theorem Invariant.addressable (hm : m.Invariant config) (hconfig : config.Valid) :
    m.Addressable config := by
  have hregisters := hm.registers_size
  have hmemory := hm.memory_size
  have hregister (w : Word) : w ∈ Word.below config.registers ↔ m.registers.HasCell w := by
    rw [← hregisters, Bank.mem_below_size_iff]
  have haddress (w : Word) : w ∈ Word.below config.memory ↔ m.memory.HasCell w := by
    rw [← hmemory, Bank.mem_below_size_iff]
  have hlimit (r : Resource) : config.size r ≤ 2 ^ 31 :=
    (hconfig r).2.trans (by cases r <;> decide)
  -- no size is zero
  have hregister₀ : m.registers.HasCell 0 := by
    have hpos : 1 ≤ config.registers := (hconfig .registers).1
    exact ⟨by decide, by simp; omega⟩
  have haddress₀ : m.memory.HasCell 0 := by
    have hpos : 1 ≤ config.memory := (hconfig .memory).1
    exact ⟨by decide, by simp; omega⟩
  constructor
  case registers =>
    rw [← hregisters]
    exact Bank.numberedBelow_size (hregisters ▸ hlimit .registers)
  case memory =>
    rw [← hmemory]
    exact Bank.numberedBelow_size (hmemory ▸ hlimit .memory)
  case noRegister =>
    intro w hw
    exact readRegister_eq_error_iff.2 ⟨mt (hregister w).2 hw, rfl⟩
  case noAddress =>
    intro w hw
    exact readMemory_eq_error_iff.2 ⟨mt (haddress w).2 hw, by rw [hmemory]⟩
  case writesRegister => exact fun w hw v => exists_writesRegister ((hregister w).1 hw) v
  case readsRegister => exact fun w hw => exists_readsRegister ((hregister w).1 hw) haddress₀
  case writesMemory => exact fun w hw v => exists_writesMemory ((haddress w).1 hw) v
  case readsMemory => exact fun w hw => exists_readsMemory ((haddress w).1 hw) hregister₀

/-! ### Refused sizes -/

/-- **The error names the first size that is zero or beyond its limit.** -/
theorem ofConfig_eq_error_iff {e : Error} :
    ofConfig config = .error e ↔
      ∃ (r : Resource) (before after : List Resource),
        [.registers, .memory, .stack, .rom] = before ++ r :: after ∧ e = .invalidConfig r ∧
          (config.size r = 0 ∨ r.limit < config.size r) ∧
          ∀ s ∈ before, config.size s ≠ 0 ∧ config.size s ≤ s.limit := by
  have hadmits (r : Resource) : r.Admits (config.size r) ↔
      config.size r ≠ 0 ∧ config.size r ≤ r.limit := by
    rw [Resource.Admits, Nat.one_le_iff_ne_zero]
  have hrefuses (r : Resource) : ¬ (config.size r ≠ 0 ∧ config.size r ≤ r.limit) ↔
      config.size r = 0 ∨ r.limit < config.size r := by
    omega
  have hvalidate : ofConfig config = .error e ↔ config.validate = .error e := by
    unfold ofConfig
    cases config.validate <;> simp [Except.map]
  rw [hvalidate, Config.validate_eq_error_iff]
  simp only [hadmits, hrefuses]
  rfl

/-- **Accepted sizes are exactly addressable.**  A machine that was built with an accepted
configuration has, whatever calls were made of it, one number for each of its registers and for each
word of its memory: the words from zero to the size less one.  Any other word is an error that shows
it, and each cell can be written and read by an instruction.  A configuration that is refused has a
size that is zero or beyond its limit, and the error names the first one. -/
theorem accepted_sizes_addressable (config : Config) :
    (∀ m, Built config m → ∀ cs, (m.calls cs).2.Addressable config) ∧
      ∀ e, ofConfig config = .error e ↔
        ∃ (r : Resource) (before after : List Resource),
          [.registers, .memory, .stack, .rom] = before ++ r :: after ∧ e = .invalidConfig r ∧
            (config.size r = 0 ∨ r.limit < config.size r) ∧
            ∀ s ∈ before, config.size s ≠ 0 ∧ config.size s ≤ s.limit := by
  refine ⟨fun m hm cs => ?_, fun e => ofConfig_eq_error_iff⟩
  have hconfig := hm.valid
  obtain rfl := hm.eq_powerOn
  exact ((Invariant.powerOn config).calls cs).addressable hconfig

/-- A machine of three words of memory that has halted, and a configuration with two sizes that are
refused. -/
theorem accepted_sizes_addressable_three_words :
    ((powerOn { memory := 3 }).calls [.step #[0x09, 0, 0, 0]]).2.readMemory (-1) =
        .error (.memoryOutOfBounds (-1) 3) ∧
      ofConfig { memory := 0, rom := 2 ^ 24 + 1 } = .error (.invalidConfig .memory) := by
  obtain ⟨haddressable, -⟩ := accepted_sizes_addressable { memory := 3 }
  obtain ⟨-, hrefused⟩ := accepted_sizes_addressable { memory := 0, rom := 2 ^ 24 + 1 }
  have hbuilt : Built { memory := 3 } (powerOn { memory := 3 }) := .ofConfig rfl
  have hnegative : (-1 : Word) ∉ Word.below 3 := fun h => absurd h.1 (by decide)
  refine ⟨(haddressable _ hbuilt _).noAddress (-1) hnegative, ?_⟩
  refine (hrefused _).2 ⟨.memory, [.registers], [.stack, .rom], rfl, rfl, .inl rfl, ?_⟩
  simp [Config.size, Resource.limit, Resource.standardSize]

end Machine

end RegisterMachine
