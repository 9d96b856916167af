import RegisterMachine.Proofs.InstructionTable
import RegisterMachine.Proofs.Invariant
import RegisterMachine.Proofs.Lockstep

/-!
# Larger machines

A machine with more registers, more memory and a deeper stack does what a smaller one does, as long
as the smaller one does not run short of them.  Its registers and memory hold the words of the
smaller machine and zeros behind them, and everything else is the same.  A fault that has nothing to
do with sizes is the fault of both machines: no check on a size that the smaller one fails is hidden
behind it, and none that it passes is failed by the larger one.

## Main definitions

* `Error.IsShortage` : the errors that report a part that is too small;
* `Bank.ExtendsTo` and `Machine.ExtendsTo` : the same cells, or the same machine, with more room.

## Main statements

* `Machine.follows_plan` : what a machine plans, every larger one plans, unless it runs short;
* `Machine.lockstep_extendsTo` : larger machines keep in step with smaller ones;
* `Machine.larger_agrees` : a program that does not run short means the same on all larger machines.
-/

namespace RegisterMachine

/-- The error reports that some part of the machine is too small: a register or a memory cell is
missing, or the stack has no room. -/
def Error.IsShortage : Error → Prop
  | .invalidRegister _ => True
  | .memoryOutOfBounds _ _ => True
  | .stackOverflow _ => True
  | _ => False

/-! ### Cells -/

/-- `b'` is `b` with further cells behind its own, which hold zero. -/
def Bank.ExtendsTo (b b' : Bank) : Prop :=
  ∃ n, b'.cells = b.cells ++ Array.replicate n 0

namespace Bank

variable {b b' : Bank} {w v : Word}

theorem zeros_extendsTo {n n' : Nat} (h : n ≤ n') : (zeros n).ExtendsTo (zeros n') := by
  refine ⟨n' - n, ?_⟩
  show Array.replicate n' 0 = Array.replicate n 0 ++ Array.replicate (n' - n) 0
  rw [Array.replicate_append_replicate, Nat.add_sub_cancel' h]

theorem index?_of_hasCell (h : b.HasCell w) : b.index? w = some w.toInt.toNat := by
  obtain ⟨hw, hlt⟩ := h
  exact index?_eq_some_iff.2 (by omega)

namespace ExtendsTo

theorem hasCell (h : b.ExtendsTo b') (hw : b.HasCell w) : b'.HasCell w := by
  obtain ⟨n, hn⟩ := h
  obtain ⟨hw, hlt⟩ := hw
  refine ⟨hw, ?_⟩
  unfold size at hlt ⊢
  rw [hn, Array.size_append]
  omega

theorem get?_eq_some (h : b.ExtendsTo b') (hv : b.get? w = some v) : b'.get? w = some v := by
  obtain ⟨n, hn⟩ := h
  obtain ⟨hw, hv⟩ := get?_eq_some_iff.1 hv
  obtain ⟨hlt, -⟩ := Array.getElem?_eq_some_iff.1 hv
  refine get?_eq_some_iff.2 ⟨hw, ?_⟩
  rw [hn, Array.getElem?_append_left hlt, hv]

/-- A write to a cell of the smaller bank. -/
theorem set (h : b.ExtendsTo b') (hw : b.HasCell w) (v : Word) :
    (b.set w v).ExtendsTo (b'.set w v) := by
  have hlt : w.toInt.toNat < b.cells.size := by
    obtain ⟨hw, hlt⟩ := hw
    unfold size at hlt
    omega
  rw [Bank.set, Bank.set, index?_of_hasCell hw, index?_of_hasCell (h.hasCell hw)]
  obtain ⟨n, hn⟩ := h
  refine ⟨n, ?_⟩
  show b'.cells.setIfInBounds _ v = b.cells.setIfInBounds _ v ++ Array.replicate n 0
  rw [hn, Array.setIfInBounds_append_left hlt]

end ExtendsTo

/-- Where the smaller bank has no cell, the reading runs short. -/
theorem ExtendsTo.follows_get? (h : b.ExtendsTo b') (w : Word) {e e' : Error}
    (he : e.IsShortage) :
    Follows Error.IsShortage Eq
      (match b.get? w with
      | some value => .ok value
      | none => .error e)
      (match b'.get? w with
      | some value => .ok value
      | none => .error e') := by
  cases hv : b.get? w with
  | some v =>
    rw [h.get?_eq_some hv]
    exact .ok rfl
  | none => exact .excuse he _

end Bank

/-! ### Machines -/

namespace Machine

/-- `m'` is `m` with more registers, more memory or a deeper stack. -/
structure ExtendsTo (m m' : Machine) : Prop where
  /-- The policies are the same. -/
  policy_eq : m'.config.policy = m.config.policy
  /-- The machines stand at the same instruction. -/
  pc_eq : m'.pc = m.pc
  /-- Behind the registers of `m` there are only zeros. -/
  registers : m.registers.ExtendsTo m'.registers
  /-- Behind the memory of `m` there are only zeros. -/
  memory : m.memory.ExtendsTo m'.memory
  /-- The stacks hold the same words. -/
  toList_eq : m'.stack.toList = m.stack.toList
  /-- The stack of `m'` has room for no fewer words. -/
  capacity_le : m.stack.capacity ≤ m'.stack.capacity
  /-- The machines have the same status. -/
  status_eq : m'.status = m.status
  /-- They have executed as many instructions. -/
  steps_eq : m'.steps = m.steps
  /-- They have passed over as many unknown opcodes. -/
  skipped_eq : m'.skipped = m.skipped

variable {config config' : Config} {m m' : Machine} {effect : Effect} {program : Program}

theorem powerOn_extendsTo (hpolicy : config'.policy = config.policy)
    (hregisters : config.registers ≤ config'.registers) (hmemory : config.memory ≤ config'.memory)
    (hstack : config.stack ≤ config'.stack) : (powerOn config).ExtendsTo (powerOn config') where
  policy_eq := hpolicy
  pc_eq := rfl
  registers := Bank.zeros_extendsTo hregisters
  memory := Bank.zeros_extendsTo hmemory
  toList_eq := rfl
  capacity_le := hstack
  status_eq := rfl
  steps_eq := rfl
  skipped_eq := rfl

/-! ### Plans of larger machines -/

theorem ExtendsTo.height_eq (h : m.ExtendsTo m') : m'.stack.height = m.stack.height := by
  rw [← Stack.length_toList, h.toList_eq, Stack.length_toList]

theorem ExtendsTo.peek?_eq (h : m.ExtendsTo m') : m'.stack.peek? = m.stack.peek? := by
  rw [Stack.peek?_eq_getLast?, h.toList_eq, ← Stack.peek?_eq_getLast?]

theorem follows_readRegister (h : m.ExtendsTo m') (id : Word) :
    Follows Error.IsShortage Eq (m.readRegister id) (m'.readRegister id) :=
  h.registers.follows_get? id trivial

theorem follows_readMemory (h : m.ExtendsTo m') (address : Word) :
    Follows Error.IsShortage Eq (m.readMemory address) (m'.readMemory address) :=
  h.memory.follows_get? address trivial

theorem follows_resolve (h : m.ExtendsTo m') (source : Operand) :
    Follows Error.IsShortage Eq (m.resolve source) (m'.resolve source) := by
  cases source with
  | immediate value => exact .ok rfl
  | register id => exact follows_readRegister h id

theorem follows_effect (h : m.ExtendsTo m') (operation : Operation) :
    Follows Error.IsShortage Eq (m.effect operation) (m'.effect operation) := by
  cases operation with
  | nop | halt | finish => exact .ok rfl
  | compute op destination source =>
    refine (follows_readRegister h destination).bind ?_
    rintro old _ rfl
    refine (follows_resolve h source).bind ?_
    rintro value _ rfl
    -- the error of a division tells the position, which is the same
    rw [h.pc_eq]
    exact .refl _
  | push source =>
    refine (follows_resolve h source).bind ?_
    rintro value _ rfl
    by_cases hfull : m.stack.isFull = true
    · rw [if_pos hfull]
      exact .excuse trivial _
    · have hroom := Stack.isFull_eq_false_iff.1 (eq_false_of_ne_true hfull)
      have hfull' : ¬ m'.stack.isFull = true := by
        rw [Bool.not_eq_true, Stack.isFull_eq_false_iff, h.height_eq]
        exact Nat.lt_of_lt_of_le hroom h.capacity_le
      rw [if_neg hfull, if_neg hfull']
      exact .ok rfl
  | pop destination =>
    refine (follows_readRegister h destination).bind ?_
    rintro old _ rfl
    rw [h.peek?_eq]
    exact .refl _
  | store address source =>
    refine (follows_resolve h source).bind ?_
    rintro value _ rfl
    refine (follows_readMemory h address).bind ?_
    rintro old _ rfl
    exact .ok rfl
  | load address destination =>
    refine (follows_readMemory h address).bind ?_
    rintro value _ rfl
    refine (follows_readRegister h destination).bind ?_
    rintro old _ rfl
    exact .ok rfl

/-- **What a machine plans, every larger one plans**, unless the machine runs short. -/
theorem follows_plan (h : m.ExtendsTo m') (program : Program) :
    Follows Error.IsShortage Eq (m.plan program) (m'.plan program) := by
  refine follows_plan_of_fetch? (f := id) h.pc_eq rfl Option.map_id_apply.symm fun i _ => ?_
  refine follows_effectOf (g := id) h.pc_eq h.policy_eq rfl Option.map_id_apply.symm rfl ?_
  exact fun operation _ => follows_effect h operation

/-! ### Steps of larger machines -/

theorem ExtendsTo.advanced (h : m.ExtendsTo m') : m.advanced.ExtendsTo m'.advanced :=
  { h with
    pc_eq := congrArg (· + 4) h.pc_eq
    steps_eq := congrArg (· + 1) h.steps_eq }

theorem ExtendsTo.commit (h : m.ExtendsTo m') (hm : m.Invariant config)
    (heffect : effect.InRange config m.stack.height) :
    (m.commit effect).ExtendsTo (m'.commit effect) := by
  have hregister {id : Word} (hid : 0 ≤ id.toInt ∧ id.toInt < config.registers) :
      m.registers.HasCell id := by
    rwa [Bank.HasCell, hm.registers_size]
  cases effect with
  | nothing => exact h.advanced
  | write id value =>
    exact { h.advanced with registers := h.registers.set (hregister heffect) value }
  | store address value =>
    have hcell : m.memory.HasCell address := by
      rwa [Bank.HasCell, hm.memory_size]
    exact { h.advanced with memory := h.memory.set hcell value }
  | push value =>
    have hroom : m.stack.height < m.stack.capacity := by
      rwa [hm.capacity_eq]
    have hroom' : m'.stack.height < m'.stack.capacity := by
      rw [h.height_eq]
      exact Nat.lt_of_lt_of_le hroom h.capacity_le
    refine { h.advanced with toList_eq := ?_, capacity_le := ?_ }
    · show (m'.stack.put value).toList = (m.stack.put value).toList
      rw [Stack.toList_put hroom, Stack.toList_put hroom', h.toList_eq]
    · show (m.stack.put value).capacity ≤ (m'.stack.put value).capacity
      rw [Stack.capacity_put, Stack.capacity_put]
      exact h.capacity_le
  | pop id value =>
    obtain ⟨hid, hlt, -, -⟩ := heffect
    refine { h.advanced with
      registers := h.registers.set (hregister ⟨hid, hlt⟩) value
      toList_eq := ?_
      capacity_le := h.capacity_le }
    show m'.stack.drop.toList = m.stack.drop.toList
    rw [Stack.toList_drop, Stack.toList_drop, h.toList_eq]
  | stop status => exact { h.advanced with status_eq := rfl }
  | skip => exact { h.advanced with skipped_eq := congrArg (· + 1) h.skipped_eq }

/-- **Larger machines keep in step with smaller ones** that do not run short. -/
theorem lockstep_extendsTo (config : Config) (program : Program) :
    Lockstep program program (Avoids Error.IsShortage program)
      (fun m m' => m.Invariant config ∧ m.ExtendsTo m') := by
  refine .of_follows (fun _ hm => hm) (fun m m' hR => hR.2.status_eq) ?_
  rintro m m' ⟨hm, h⟩ - -
  refine (follows_plan h program).mono ?_
  rintro effect _ hplan rfl
  exact ⟨hm.commit hplan, h.commit hm (hm.inRange_plan hplan)⟩

/-- **Capacity monotonicity.**  Two machines that were just built, with the same policy and the
second one in no part smaller, do the same on every program as long as the first one does not run
short: they give the same answers, and the second machine is the first one with more room.  Where
they differ for the first time, the first one reports a shortage; and if its run ends with anything
else, the run of the second one ends with the same. -/
theorem larger_agrees (hm : Built config m) (hm' : Built config' m')
    (hpolicy : config'.policy = config.policy) (hregisters : config.registers ≤ config'.registers)
    (hmemory : config.memory ≤ config'.memory) (hstack : config.stack ≤ config'.stack)
    (program : Program) :
    (∀ k, (∀ i < k, ∀ e : Error, e.IsShortage → m.answer program i ≠ .error e) →
      (∀ i < k, m'.answer program i = m.answer program i) ∧
        (m.after program k).ExtendsTo (m'.after program k)) ∧
    (∀ k, (m'.answer program k = m.answer program k ∧
        (m.after program (k + 1)).ExtendsTo (m'.after program (k + 1))) ∨
      ∃ e : Error, e.IsShortage ∧ m.answer program k = .error e) ∧
    ((∀ e : Error, e.IsShortage → (m.runUntilHalt program).1 ≠ .error e) →
      (m'.runUntilHalt program).1 = (m.runUntilHalt program).1 ∧
        (m.runUntilHalt program).2.ExtendsTo (m'.runUntilHalt program).2) := by
  obtain rfl := hm.eq_powerOn
  obtain rfl := hm'.eq_powerOn
  have hlockstep := lockstep_extendsTo config program
  have hstart : (powerOn config).Invariant config ∧ (powerOn config).ExtendsTo (powerOn config') :=
    ⟨.powerOn config, powerOn_extendsTo hpolicy hregisters hmemory hstack⟩
  refine ⟨fun k h => ⟨fun i hi => ?_, (hlockstep.after hstart h).2⟩, fun k => ?_, fun h => ?_⟩
  · exact hlockstep.answer_eq hstart fun j hj => h j (Nat.lt_of_le_of_lt hj hi)
  · by_cases hshort : ∃ e : Error, e.IsShortage ∧ (powerOn config).answer program k = .error e
    · exact .inr hshort
    · left
      -- a shortage before step `k` would still be there
      have havoids : ∀ i ≤ k,
          ((powerOn config).after program i).Avoids Error.IsShortage program := by
        intro i hi e he herror
        change (powerOn config).answer program i = .error e at herror
        refine hshort ⟨e, he, ?_⟩
        rw [answer_eq_of_ne (by simp [herror]) hi, herror]
      exact ⟨hlockstep.answer_eq hstart havoids,
        (hlockstep.after hstart fun i hi => havoids i (Nat.le_of_lt_succ hi)).2⟩
  · obtain ⟨k, hk, -⟩ := (powerOn config).exists_stopsAt program
    obtain ⟨hresult, -, hextends⟩ := hlockstep.runUntilHalt hstart hk (hk.avoids h)
    exact ⟨hresult, hextends⟩

/-- A program that pushes a word on a stack for one, pops it into the only register, and divides
that by zero: on a larger machine the division is reached and faults as well. -/
theorem larger_agrees_push_pop_divide :
    ((powerOn { registers := 2, memory := 3, stack := 2 }).runUntilHalt
        #[0x0A, 5, 0, 0, 0x0B, 0, 0, 0, 0x05, 0, 0, 0]).1 = .error (.divisionByZero 8) ∧
      ((((powerOn { registers := 1, memory := 1, stack := 1 }).commit (.push 5)).commit
        (.pop 0 5)).ExtendsTo
          ((powerOn { registers := 2, memory := 3, stack := 2 }).runUntilHalt
            #[0x0A, 5, 0, 0, 0x0B, 0, 0, 0, 0x05, 0, 0, 0]).2) := by
  have hrun : (powerOn { registers := 1, memory := 1, stack := 1 }).runUntilHalt
        #[0x0A, 5, 0, 0, 0x0B, 0, 0, 0, 0x05, 0, 0, 0] =
      (.error (.divisionByZero 8),
        ((powerOn { registers := 1, memory := 1, stack := 1 }).commit (.push 5)).commit
          (.pop 0 5)) := by
    rw [runUntilHalt_eq]
    change runUntilHalt ((powerOn { registers := 1, memory := 1, stack := 1 }).commit
      (.push 5)) _ = _
    rw [runUntilHalt_eq]
    change runUntilHalt (((powerOn { registers := 1, memory := 1, stack := 1 }).commit
      (.push 5)).commit (.pop 0 5)) _ = _
    rw [runUntilHalt_eq]
    rfl
  have hsmall : Built { registers := 1, memory := 1, stack := 1 }
      (powerOn { registers := 1, memory := 1, stack := 1 }) := .ofConfig rfl
  have hlarge : Built { registers := 2, memory := 3, stack := 2 }
      (powerOn { registers := 2, memory := 3, stack := 2 }) := .ofConfig rfl
  obtain ⟨-, -, hends⟩ := larger_agrees hsmall hlarge rfl (by decide) (by decide) (by decide)
    #[0x0A, 5, 0, 0, 0x0B, 0, 0, 0, 0x05, 0, 0, 0]
  rw [hrun] at hends
  -- a division by zero is no shortage
  refine hends ?_
  rintro _ hshort ⟨⟩
  exact hshort

end Machine

end RegisterMachine
