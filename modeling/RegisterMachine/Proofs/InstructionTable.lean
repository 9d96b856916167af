import Mathlib.Data.Int.ModEq
import Mathlib.Tactic.ByContra
import RegisterMachine.Proofs.Effects

/-!
# The instruction table

The table of instructions, as a relation between an instruction and the machines before and after
it.  It is stated on the four words of the instruction, with exact integers in the place of wrapping
arithmetic, with single bits in the place of bitwise operations, and with what becomes of every cell
and slot in the place of updates.  A running machine executes an instruction without a fault exactly
when the table relates it to another machine, which is then the machine after the step.

## Main definitions

* `Word.Wraps` and `Arithmetic.Gives` : the word that an exact result wraps to, and the results of
  the operations on registers;
* `Bank.Updates`, `Stack.Pushes` and `Stack.Pops` : changes of one cell or one slot;
* `Machine.Executes` : the instruction table;
* `Machine.Performs` : an operation that passes its checks.

## Main statements

* `Arithmetic.gives_iff`, `Bank.updates_iff`, `Stack.pushes_iff` and `Stack.pops_iff` : the
  machine's own functions are the only ones with these results and changes;
* `Machine.executes_iff` : the table in terms of checks and effects;
* `Machine.step_eq_ok_iff_executes` : successful steps are those that the table prescribes.
-/

namespace RegisterMachine

/-! ### Results -/

/-- `w` is the word that the exact integer `z` wraps to: the one that is congruent to it. -/
def Word.Wraps (z : Int) (w : Word) : Prop :=
  w.toInt ≡ z [ZMOD 2 ^ 32]

/-- The word for an operation on the old content of a register and an operand. -/
def Arithmetic.Gives : Arithmetic → Word → Word → Word → Prop
  | move, _, v, w => Word.Wraps v.toInt w
  | add, old, v, w => Word.Wraps (old.toInt + v.toInt) w
  | sub, old, v, w => Word.Wraps (old.toInt - v.toInt) w
  | mul, old, v, w => Word.Wraps (old.toInt * v.toInt) w
  | div, old, v, w => v ≠ 0 ∧ Word.Wraps (old.toInt.tdiv v.toInt) w
  | xor, old, v, w => ∀ i, w.toBitVec.getLsbD i = (old.toBitVec.getLsbD i ^^ v.toBitVec.getLsbD i)
  | or, old, v, w => ∀ i, w.toBitVec.getLsbD i = (old.toBitVec.getLsbD i || v.toBitVec.getLsbD i)
  | and, old, v, w => ∀ i, w.toBitVec.getLsbD i = (old.toBitVec.getLsbD i && v.toBitVec.getLsbD i)

/-- The opcode word of an operation on a register. -/
def Arithmetic.code : Arithmetic → Word
  | move => 0x01
  | add => 0x02
  | sub => 0x03
  | mul => 0x04
  | div => 0x05
  | xor => 0x06
  | or => 0x07
  | and => 0x08

theorem Word.wraps_of_toInt_eq_bmod {z : Int} {w : Word} (h : w.toInt = z.bmod (2 ^ 32)) :
    Wraps z w := by
  rw [Wraps, h]
  exact Int.bmod_emod

/-- Every integer wraps to exactly one word. -/
theorem Word.existsUnique_wraps (z : Int) : ∃! w, Wraps z w := by
  refine ⟨Int32.ofInt z, wraps_of_toInt_eq_bmod Int32.toInt_ofInt, fun w hw => ?_⟩
  have hmod : w.toInt % 2 ^ 32 = (Int32.ofInt z).toInt % 2 ^ 32 :=
    hw.trans (wraps_of_toInt_eq_bmod Int32.toInt_ofInt).symm
  -- congruent integers in an interval of this length are equal
  have hle := w.le_toInt
  have hlt := w.toInt_lt
  have hle' := (Int32.ofInt z).le_toInt
  have hlt' := (Int32.ofInt z).toInt_lt
  exact Int32.toInt_inj.1 (by omega)

theorem Word.wraps_iff {z : Int} {w w' : Word} (h : w'.toInt = z.bmod (2 ^ 32)) :
    Wraps z w ↔ w = w' := by
  have hw' := wraps_of_toInt_eq_bmod h
  exact ⟨fun hw => (existsUnique_wraps z).unique hw hw', fun hw => hw ▸ hw'⟩

theorem Word.forall_getLsbD_iff (w w' : Word) :
    (∀ i, w.toBitVec.getLsbD i = w'.toBitVec.getLsbD i) ↔ w = w' := by
  constructor
  · intro h
    exact Int32.toBitVec_inj.1 (BitVec.eq_of_getLsbD_eq fun i _ => h i)
  · rintro rfl i
    rfl

/-- **Wrapping arithmetic is exact arithmetic modulo `2 ^ 32`.** -/
theorem Arithmetic.gives_iff {op : Arithmetic} {old v w : Word} :
    op.Gives old v w ↔ ¬ (op = .div ∧ v = 0) ∧ w = op.apply old v := by
  cases op with
  | move => simpa [Gives, apply] using Word.wraps_iff (Int32.toInt_bmod v).symm
  | add => simpa [Gives, apply] using Word.wraps_iff (Int32.toInt_add old v)
  | sub => simpa [Gives, apply] using Word.wraps_iff (Int32.toInt_sub old v)
  | mul => simpa [Gives, apply] using Word.wraps_iff (Int32.toInt_mul old v)
  | div => simpa [Gives, apply] using fun _ => Word.wraps_iff (Int32.toInt_div old v)
  | xor => simpa [Gives, apply] using Word.forall_getLsbD_iff w (old ^^^ v)
  | or => simpa [Gives, apply] using Word.forall_getLsbD_iff w (old ||| v)
  | and => simpa [Gives, apply] using Word.forall_getLsbD_iff w (old &&& v)

/-! ### Changes of one cell or slot -/

/-- `b'` is `b` with `v` in the cell numbered `w`, and all other cells as they were. -/
structure Bank.Updates (b : Bank) (w v : Word) (b' : Bank) : Prop where
  /-- The number of cells is the same. -/
  size_eq : b'.size = b.size
  /-- The cell is there and holds the value. -/
  holds : b'.Holds w v
  /-- Every other cell holds what it held. -/
  elsewhere : ∀ j : Nat, (j : Int) ≠ w.toInt → b'.cells[j]? = b.cells[j]?

/-- `s'` is `s` with `v` on top. -/
structure Stack.Pushes (s : Stack) (v : Word) (s' : Stack) : Prop where
  /-- The number of slots is the same. -/
  capacity_eq : s'.capacity = s.capacity
  /-- The value comes after the words that were held. -/
  toList_eq : s'.toList = s.toList ++ [v]
  /-- Every slot but the one that the value went to is as it was. -/
  elsewhere : ∀ j ≠ s.height, s'.slots[j]? = s.slots[j]?

/-- `s'` is `s` without `v`, which was on top. -/
structure Stack.Pops (s : Stack) (v : Word) (s' : Stack) : Prop where
  /-- The number of slots is the same. -/
  capacity_eq : s'.capacity = s.capacity
  /-- The value came after the words that are still held. -/
  toList_eq : s.toList = s'.toList ++ [v]
  /-- Every slot is as it was, the one of the value too. -/
  slots_eq : s'.slots = s.slots

theorem Bank.getElem?_cells_set {b : Bank} {w u : Word} (h : b.Holds w u) (v : Word) (j : Nat) :
    (b.set w v).cells[j]? = if (j : Int) = w.toInt then some v else b.cells[j]? := by
  obtain ⟨hw, hlt⟩ := h.hasCell
  have hindex : b.index? w = some w.toInt.toNat := index?_eq_some_iff.2 (by omega)
  rw [set, hindex]
  by_cases hj : (j : Int) = w.toInt
  · rw [if_pos hj]
    obtain rfl : w.toInt.toNat = j := by omega
    exact Array.getElem?_setIfInBounds_self_of_lt (by unfold size at hlt; omega)
  · rw [if_neg hj]
    exact Array.getElem?_setIfInBounds_ne (by omega)

/-- **A write to a cell that is there updates it, and nothing else does.** -/
theorem Bank.updates_iff {b b' : Bank} {w v : Word} :
    b.Updates w v b' ↔ (∃ u, b.get? w = some u) ∧ b' = b.set w v := by
  constructor
  · intro h
    have hlt : w.toInt.toNat < b.cells.size := by
      obtain ⟨hw, hlt⟩ := h.holds.hasCell
      rw [h.size_eq] at hlt
      unfold size at hlt
      omega
    have hcell : b.Holds w b.cells[w.toInt.toNat] := ⟨h.holds.1, Array.getElem?_eq_getElem hlt⟩
    refine ⟨⟨_, get?_eq_some_iff.2 hcell⟩, ?_⟩
    suffices hcells : b'.cells = (b.set w v).cells from congrArg Bank.mk hcells
    -- cell by cell, with the one that was written apart
    apply Array.ext_getElem?
    intro j
    rw [getElem?_cells_set hcell]
    split
    · rename_i hj
      have hv := h.holds.2
      rwa [← hj, Int.toNat_natCast] at hv
    · rename_i hj
      exact h.elsewhere j hj
  · rintro ⟨⟨u, hu⟩, rfl⟩
    have hcell : b.Holds w u := get?_eq_some_iff.1 hu
    refine ⟨size_set b w v, get?_eq_some_iff.1 (get?_set_self hu v), fun j hj => ?_⟩
    rw [getElem?_cells_set hcell, if_neg hj]

/-- What the slots hold after a word was put on a stack that had room. -/
theorem Stack.getElem?_slots_put {s : Stack} (h : s.height < s.capacity) (v : Word) (j : Nat) :
    (s.put v).slots[j]? = if j = s.height then some v else s.slots[j]? := by
  have hle := s.height_le
  unfold put
  rw [dif_pos h]
  split
  · rename_i hused
    change (s.slots.setIfInBounds s.height v)[j]? = _
    grind
  · rename_i hnew
    -- a slot that was never used comes right after all that were
    have heq : s.slots.size = s.height := by omega
    change (s.slots.push v)[j]? = _
    grind

theorem Stack.pushes_put {s : Stack} (h : s.height < s.capacity) (v : Word) :
    s.Pushes v (s.put v) where
  capacity_eq := capacity_put s v
  toList_eq := toList_put h v
  elsewhere j hj := by rw [getElem?_slots_put h, if_neg hj]

theorem Stack.height_of_toList_eq {s s' : Stack} {v : Word} (h : s'.toList = s.toList ++ [v]) :
    s'.height = s.height + 1 := by
  rw [← length_toList, h, List.length_append, length_toList, List.length_singleton]

theorem Stack.Pushes.getElem?_height {s s' : Stack} {v : Word} (h : s.Pushes v s') :
    s'.slots[s.height]? = some v := by
  have hheight := height_of_toList_eq h.toList_eq
  have hget : s'.toList[s.height]? = some v := by
    rw [h.toList_eq, ← length_toList, List.getElem?_concat_length]
  rwa [toList, List.getElem?_take_of_lt (by omega), Array.getElem?_toList] at hget

/-- **A stack with room takes a word in one way only.** -/
theorem Stack.pushes_iff {s s' : Stack} {v : Word} :
    s.Pushes v s' ↔ s.height < s.capacity ∧ s' = s.put v := by
  constructor
  · intro h
    have hheight := height_of_toList_eq h.toList_eq
    -- the stack with the word is a stack, so there was room for it
    have hroom : s.height < s.capacity := by
      have hle := s'.height_le_capacity
      rw [hheight, h.capacity_eq] at hle
      omega
    refine ⟨hroom, Stack.ext ?_ ?_ ?_⟩
    · rw [h.capacity_eq, capacity_put]
    · apply Array.ext_getElem?
      intro j
      rw [getElem?_slots_put hroom]
      split
      · rename_i hj
        rw [hj, h.getElem?_height]
      · rename_i hj
        exact h.elsewhere j hj
    · rw [hheight, height_put hroom]
  · rintro ⟨hroom, rfl⟩
    exact pushes_put hroom v

theorem Stack.pops_iff {s s' : Stack} {v : Word} :
    s.Pops v s' ↔ s.peek? = some v ∧ s' = s.drop := by
  constructor
  · intro h
    refine ⟨?_, Stack.ext ?_ h.slots_eq ?_⟩
    · rw [peek?_eq_getLast?, h.toList_eq, List.getLast?_concat]
    · rw [h.capacity_eq, capacity_drop]
    · rw [height_drop, height_of_toList_eq h.toList_eq]
      rfl
  · rintro ⟨hpeek, rfl⟩
    rw [peek?_eq_getLast?] at hpeek
    obtain ⟨held, hheld⟩ := List.getLast?_eq_some_iff.1 hpeek
    refine ⟨capacity_drop s, ?_, rfl⟩
    rw [toList_drop, hheld, List.dropLast_concat]

/-! ### The table -/

namespace Machine

/-- The machine with its counter behind the instruction and the instruction counted. -/
def advanced (m : Machine) : Machine :=
  { m with pc := m.pc + 4, steps := m.steps + 1 }

/-- `m.Executes i m'` is a row of the instruction table: `m'` is the machine that `i` makes of
`m`. -/
inductive Executes (m : Machine) : Instruction → Machine → Prop
  /-- Nothing. -/
  | nop (a b c : Word) : Executes m ⟨0x00, a, b, c⟩ m.advanced
  /-- `r[destination] ← op (r[destination], res (value, flag))`. -/
  | compute {op : Arithmetic} {destination value flag old v w : Word} {registers : Bank} :
      m.registers.Holds destination old → m.Resolves value flag v → op.Gives old v w →
      m.registers.Updates destination w registers →
      Executes m ⟨op.code, destination, value, flag⟩ { m.advanced with registers := registers }
  /-- The machine halts. -/
  | halt (a b c : Word) : Executes m ⟨0x09, a, b, c⟩ { m.advanced with status := .halted }
  /-- `s[sp] ← res (value, flag); sp ← sp + 1`. -/
  | push {value flag v : Word} {stack : Stack} (c : Word) :
      m.Resolves value flag v → m.stack.Pushes v stack →
      Executes m ⟨0x0A, value, flag, c⟩ { m.advanced with stack := stack }
  /-- `sp ← sp - 1; r[destination] ← s[sp]`. -/
  | pop {destination v : Word} {stack : Stack} {registers : Bank} (b c : Word) :
      m.stack.Pops v stack → m.registers.Updates destination v registers →
      Executes m ⟨0x0B, destination, b, c⟩
        { m.advanced with registers := registers, stack := stack }
  /-- `m[address] ← res (value, flag)`. -/
  | store {address value flag v : Word} {memory : Bank} :
      m.Resolves value flag v → m.memory.Updates address v memory →
      Executes m ⟨0x0C, address, value, flag⟩ { m.advanced with memory := memory }
  /-- `r[destination] ← m[address]`. -/
  | load {address destination v : Word} {registers : Bank} (c : Word) :
      m.memory.Holds address v → m.registers.Updates destination v registers →
      Executes m ⟨0x0D, address, destination, c⟩ { m.advanced with registers := registers }
  /-- The program ends. -/
  | finish (a b c : Word) : Executes m ⟨0xFF, a, b, c⟩ { m.advanced with status := .terminated }
  /-- Under the lenient policy a word outside the table is passed over and counted. -/
  | skip {w : Word} (a b c : Word) : ¬ (0 ≤ w.toInt ∧ w.toInt ≤ 0x0D) → w.toInt ≠ 0xFF →
      m.config.policy = .lenient →
      Executes m ⟨w, a, b, c⟩ { m.advanced with skipped := m.skipped + 1 }

/-- `m` passes the checks of an operation and becomes `m'`. -/
def Performs (m : Machine) (operation : Operation) (m' : Machine) : Prop :=
  ∃ effect, m.effect operation = .ok effect ∧ m' = m.commit effect

variable {m m' : Machine}

/-! ### Rows with checks -/

theorem performs_compute_iff {op : Arithmetic} {destination value flag : Word} :
    m.Performs (.compute op destination (.ofWords value flag)) m' ↔
      ∃ old v w registers, m.registers.Holds destination old ∧ m.Resolves value flag v ∧
        op.Gives old v w ∧ m.registers.Updates destination w registers ∧
        m' = { m.advanced with registers := registers } := by
  constructor
  · rintro ⟨effect, heffect, rfl⟩
    obtain ⟨old, v, hold, hv, hdiv, rfl⟩ := effect_compute_eq_ok_iff.1 heffect
    exact ⟨old, v, _, _, Bank.get?_eq_some_iff.1 hold, resolve_eq_ok_iff.1 hv,
      Arithmetic.gives_iff.2 ⟨hdiv, rfl⟩, Bank.updates_iff.2 ⟨⟨old, hold⟩, rfl⟩, rfl⟩
  · rintro ⟨old, v, w, registers, hold, hv, hgives, hupdates, rfl⟩
    obtain ⟨hdiv, rfl⟩ := Arithmetic.gives_iff.1 hgives
    obtain ⟨-, rfl⟩ := Bank.updates_iff.1 hupdates
    exact ⟨_, effect_compute_eq_ok_iff.2
      ⟨old, v, Bank.get?_eq_some_iff.2 hold, resolve_eq_ok_iff.2 hv, hdiv, rfl⟩, rfl⟩

theorem performs_push_iff {value flag : Word} :
    m.Performs (.push (.ofWords value flag)) m' ↔
      ∃ v stack, m.Resolves value flag v ∧ m.stack.Pushes v stack ∧
        m' = { m.advanced with stack := stack } := by
  constructor
  · rintro ⟨effect, heffect, rfl⟩
    obtain ⟨v, hv, hroom, rfl⟩ := effect_push_eq_ok_iff.1 heffect
    exact ⟨v, _, resolve_eq_ok_iff.1 hv, Stack.pushes_iff.2 ⟨hroom, rfl⟩, rfl⟩
  · rintro ⟨v, stack, hv, hpushes, rfl⟩
    obtain ⟨hroom, rfl⟩ := Stack.pushes_iff.1 hpushes
    exact ⟨_, effect_push_eq_ok_iff.2 ⟨v, resolve_eq_ok_iff.2 hv, hroom, rfl⟩, rfl⟩

theorem performs_pop_iff {destination : Word} :
    m.Performs (.pop destination) m' ↔
      ∃ v stack registers, m.stack.Pops v stack ∧ m.registers.Updates destination v registers ∧
        m' = { m.advanced with registers := registers, stack := stack } := by
  constructor
  · rintro ⟨effect, heffect, rfl⟩
    obtain ⟨old, v, hold, hv, rfl⟩ := effect_pop_eq_ok_iff.1 heffect
    exact ⟨v, _, _, Stack.pops_iff.2 ⟨hv, rfl⟩, Bank.updates_iff.2 ⟨⟨old, hold⟩, rfl⟩, rfl⟩
  · rintro ⟨v, stack, registers, hpops, hupdates, rfl⟩
    obtain ⟨hv, rfl⟩ := Stack.pops_iff.1 hpops
    obtain ⟨⟨old, hold⟩, rfl⟩ := Bank.updates_iff.1 hupdates
    exact ⟨_, effect_pop_eq_ok_iff.2 ⟨old, v, hold, hv, rfl⟩, rfl⟩

theorem performs_store_iff {address value flag : Word} :
    m.Performs (.store address (.ofWords value flag)) m' ↔
      ∃ v memory, m.Resolves value flag v ∧ m.memory.Updates address v memory ∧
        m' = { m.advanced with memory := memory } := by
  constructor
  · rintro ⟨effect, heffect, rfl⟩
    obtain ⟨v, old, hv, hold, rfl⟩ := effect_store_eq_ok_iff.1 heffect
    exact ⟨v, _, resolve_eq_ok_iff.1 hv, Bank.updates_iff.2 ⟨⟨old, hold⟩, rfl⟩, rfl⟩
  · rintro ⟨v, memory, hv, hupdates, rfl⟩
    obtain ⟨⟨old, hold⟩, rfl⟩ := Bank.updates_iff.1 hupdates
    exact ⟨_, effect_store_eq_ok_iff.2 ⟨v, old, resolve_eq_ok_iff.2 hv, hold, rfl⟩, rfl⟩

theorem performs_load_iff {address destination : Word} :
    m.Performs (.load address destination) m' ↔
      ∃ v registers, m.memory.Holds address v ∧ m.registers.Updates destination v registers ∧
        m' = { m.advanced with registers := registers } := by
  constructor
  · rintro ⟨effect, heffect, rfl⟩
    obtain ⟨v, old, hv, hold, rfl⟩ := effect_load_eq_ok_iff.1 heffect
    exact ⟨v, _, Bank.get?_eq_some_iff.1 hv, Bank.updates_iff.2 ⟨⟨old, hold⟩, rfl⟩, rfl⟩
  · rintro ⟨v, registers, hv, hupdates, rfl⟩
    obtain ⟨⟨old, hold⟩, rfl⟩ := Bank.updates_iff.1 hupdates
    exact ⟨_, effect_load_eq_ok_iff.2 ⟨v, old, Bank.get?_eq_some_iff.2 hv, hold, rfl⟩, rfl⟩

/-! ### All rows -/

theorem operation?_arithmetic (op : Arithmetic) (destination value flag : Word) :
    (Instruction.mk op.code destination value flag).operation? =
      some (.compute op destination (.ofWords value flag)) := by
  cases op <;> rfl

/-- The words without a row are those outside `0 .. 0x0D`, apart from `0xFF`. -/
theorem operation?_eq_none_iff {i : Instruction} :
    i.operation? = none ↔
      ¬ (0 ≤ i.opcode.toInt ∧ i.opcode.toInt ≤ 0x0D) ∧ i.opcode.toInt ≠ 0xFF := by
  -- the codes but the last fill an interval
  have hcodes : ∀ n : Nat, n < 14 → ∃ o ∈ Opcode.all, o.code.toInt = n := by decide
  unfold Instruction.operation?
  rw [Option.map_eq_none_iff, Opcode.decode?_eq_none_iff]
  constructor
  · intro h
    refine ⟨?_, fun hlast => h .finish (Int32.toInt_inj.1 hlast)⟩
    intro hrange
    obtain ⟨o, -, ho⟩ := hcodes i.opcode.toInt.toNat (by omega)
    have heq : i.opcode.toInt = o.code.toInt := by omega
    exact h o (Int32.toInt_inj.1 heq)
  · rintro ⟨hrange, hlast⟩ o ho
    rw [ho] at hrange hlast
    revert hrange hlast
    cases o <;> decide

theorem executes_of_performs_compute (op : Arithmetic) {a b c : Word}
    (h : m.Performs (.compute op a (.ofWords b c)) m') : m.Executes ⟨op.code, a, b, c⟩ m' := by
  obtain ⟨old, v, w, registers, hold, hv, hgives, hupdates, rfl⟩ := performs_compute_iff.1 h
  exact .compute hold hv hgives hupdates

theorem executes_of_performs {o : Opcode} {a b c : Word} (h : m.Performs (o.operation a b c) m') :
    m.Executes ⟨o.code, a, b, c⟩ m' := by
  cases o with
  | nop =>
    obtain ⟨_, ⟨⟩, rfl⟩ := h
    exact .nop a b c
  | move => exact executes_of_performs_compute .move h
  | add => exact executes_of_performs_compute .add h
  | sub => exact executes_of_performs_compute .sub h
  | mul => exact executes_of_performs_compute .mul h
  | div => exact executes_of_performs_compute .div h
  | xor => exact executes_of_performs_compute .xor h
  | or => exact executes_of_performs_compute .or h
  | and => exact executes_of_performs_compute .and h
  | halt =>
    obtain ⟨_, ⟨⟩, rfl⟩ := h
    exact .halt a b c
  | push =>
    obtain ⟨v, stack, hv, hpushes, rfl⟩ := performs_push_iff.1 h
    exact .push c hv hpushes
  | pop =>
    obtain ⟨v, stack, registers, hpops, hupdates, rfl⟩ := performs_pop_iff.1 h
    exact .pop b c hpops hupdates
  | store =>
    obtain ⟨v, memory, hv, hupdates, rfl⟩ := performs_store_iff.1 h
    exact .store hv hupdates
  | load =>
    obtain ⟨v, registers, hv, hupdates, rfl⟩ := performs_load_iff.1 h
    exact .load c hv hupdates
  | finish =>
    obtain ⟨_, ⟨⟩, rfl⟩ := h
    exact .finish a b c

theorem Executes.performs_or_skips {i : Instruction} (h : m.Executes i m') :
    (∃ operation, i.operation? = some operation ∧ m.Performs operation m') ∨
      i.operation? = none ∧ m.config.policy = .lenient ∧ m' = m.commit .skip := by
  cases h with
  | nop a b c => exact .inl ⟨.nop, rfl, .nothing, rfl, rfl⟩
  | compute hold hv hgives hupdates =>
    exact .inl ⟨_, operation?_arithmetic .., performs_compute_iff.2
      ⟨_, _, _, _, hold, hv, hgives, hupdates, rfl⟩⟩
  | halt a b c => exact .inl ⟨.halt, rfl, .stop .halted, rfl, rfl⟩
  | push c hv hpushes => exact .inl ⟨_, rfl, performs_push_iff.2 ⟨_, _, hv, hpushes, rfl⟩⟩
  | pop b c hpops hupdates =>
    exact .inl ⟨_, rfl, performs_pop_iff.2 ⟨_, _, _, hpops, hupdates, rfl⟩⟩
  | store hv hupdates => exact .inl ⟨_, rfl, performs_store_iff.2 ⟨_, _, hv, hupdates, rfl⟩⟩
  | load c hv hupdates => exact .inl ⟨_, rfl, performs_load_iff.2 ⟨_, _, hv, hupdates, rfl⟩⟩
  | finish a b c => exact .inl ⟨.finish, rfl, .stop .terminated, rfl, rfl⟩
  | skip a b c hrange hlast hlenient =>
    exact .inr ⟨operation?_eq_none_iff.2 ⟨hrange, hlast⟩, hlenient, rfl⟩

/-- The table prescribes what the checks and effects of the instructions amount to. -/
theorem executes_iff {i : Instruction} :
    m.Executes i m' ↔ ∃ effect, m.effectOf i = .ok effect ∧ m' = m.commit effect := by
  constructor
  · intro h
    rcases h.performs_or_skips with
      ⟨operation, hoperation, effect, heffect, rfl⟩ | ⟨hnone, hlenient, rfl⟩
    · exact ⟨effect, effectOf_eq_ok_iff.2 (.inl ⟨operation, hoperation, heffect⟩), rfl⟩
    · exact ⟨.skip, effectOf_eq_ok_iff.2 (.inr ⟨hnone, hlenient, rfl⟩), rfl⟩
  · rintro ⟨effect, heffect, rfl⟩
    rcases effectOf_eq_ok_iff.1 heffect with
      ⟨operation, hoperation, heffect⟩ | ⟨hnone, hlenient, rfl⟩
    · -- the row is found by the opcode that the first word stands for
      obtain ⟨o, ho, rfl⟩ := Option.map_eq_some_iff.1 hoperation
      obtain ⟨w, a, b, c⟩ := i
      obtain rfl : w = o.code := Opcode.decode?_eq_some_iff.1 ho
      exact executes_of_performs ⟨effect, heffect, rfl⟩
    · obtain ⟨hrange, hlast⟩ := operation?_eq_none_iff.1 hnone
      exact .skip i.arg₀ i.arg₁ i.arg₂ hrange hlast hlenient

/-! ### Successful steps -/

/-- **Successful steps are those that the table prescribes**: a step of a running machine succeeds
exactly when four words of the program are left and the table has a row for them, and it leaves the
machine that the row gives, with the status of it as the result. -/
theorem step_eq_ok_iff_executes (hm : m.status = .running) {program : Program} {status : Status} :
    m.step program = (.ok status, m') ↔
      status = m'.status ∧
        ∃ i : Instruction, program[m.pc]? = some i.opcode ∧ program[m.pc + 1]? = some i.arg₀ ∧
          program[m.pc + 2]? = some i.arg₁ ∧ program[m.pc + 3]? = some i.arg₂ ∧
          m.Executes i m' := by
  rw [step_eq_ok_iff hm]
  refine and_congr_right fun _ => ?_
  simp only [plan_eq_ok_iff, Program.fetch?_eq_some_iff]
  constructor
  · rintro ⟨effect, ⟨i, ⟨-, h₀, h₁, h₂, h₃⟩, heffect⟩, rfl⟩
    exact ⟨i, h₀, h₁, h₂, h₃, executes_iff.2 ⟨effect, heffect, rfl⟩⟩
  · rintro ⟨i, h₀, h₁, h₂, h₃, hexecutes⟩
    obtain ⟨effect, heffect, rfl⟩ := executes_iff.1 hexecutes
    -- where the last of the four words is, the others are too
    obtain ⟨hlast, -⟩ := Array.getElem?_eq_some_iff.1 h₃
    have hfits : m.pc + 4 ≤ program.size := by omega
    exact ⟨effect, ⟨i, ⟨hfits, h₀, h₁, h₂, h₃⟩, heffect⟩, rfl⟩

/-- The least word divided by `-1` wraps to itself. -/
theorem step_divide_minValue :
    ((powerOn { registers := 1 }).commit (.write 0 Int32.minValue)).step
        #[0x01, 0, Int32.minValue, 0, 0x05, 0, -1, 0] =
      (.ok .running, ((powerOn { registers := 1 }).commit (.write 0 Int32.minValue)).advanced) := by
  refine (step_eq_ok_iff_executes rfl).2 ⟨rfl, ⟨0x05, 0, -1, 0⟩, rfl, rfl, rfl, rfl, ?_⟩
  have hwraps : Word.Wraps (Int32.minValue.toInt.tdiv (-1 : Word).toInt) Int32.minValue := by
    change Int32.minValue.toInt % _ = _ % _
    decide
  have hgives : Arithmetic.div.Gives Int32.minValue (-1) Int32.minValue := ⟨by decide, hwraps⟩
  change Executes _ ⟨Arithmetic.div.code, 0, -1, 0⟩ _
  exact .compute ⟨by decide, rfl⟩ (.inl ⟨rfl, rfl⟩) hgives
    ⟨rfl, ⟨by decide, rfl⟩, fun _ _ => rfl⟩

end Machine

end RegisterMachine
